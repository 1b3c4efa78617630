import CyberCache.Wire.ChunkBuilders

/-!
# Commands on their way to a handler

A connection thread takes a command object, looks its ID up in a table of flags, compares the
password in the command with the password that the command requires, sends copies of commands that
change a store to the replicators and binlogs, and hands the object to a handler. What happens to
the object is recorded as a list of effects; whether services are active and what handlers return is
given.

An unset password is kept as the hash 0, and a command may well carry that hash.
-/

namespace CyberCache

inductive PasswordType where
  | noPassword
  | userPassword
  | adminPassword
deriving DecidableEq, Repr

structure CommandReader where
  sb : SharedBuffers
  /-- `IO_FLAG_NETWORK`; commands without it come from a binlog. -/
  network : Bool

def CommandReader.getCommandId (cr : CommandReader) : UInt8 :=
  CommandAccessor.getCommandIdByte cr.sb

inductive Handler where
  | server
  | sessionStore
  | fpcStore
  | tagManager
deriving DecidableEq, Repr

inductive Service where
  | fpcReplicator
  | fpcBinlog
  | sessionReplicator
  | sessionBinlog
deriving DecidableEq, Repr

/-- Everything that the treatment of a command depends on, except the command itself. -/
structure ServerState where
  netConfig : NetworkConfiguration
  infoPasswordType : PasswordType
  isServiceActive : Service → Bool
  /-- The result of the handler's method; a handler that fails leaves the object to its caller. -/
  processed : Handler → SharedBuffers → Bool

inductive Effect where
  | sendCopy (service : Service) (sb : SharedBuffers)
  | dispatch (handler : Handler) (sb : SharedBuffers)
  | respondError (text : String)
  | logError (text : String)
  | dispose

def Effect.executes : Effect → Bool
  | .sendCopy _ _ | .dispatch _ _ => true
  | _ => false

/-! ## Error texts -/

def hexDigit (n : Nat) : Char :=
  if n < 10 then Char.ofNat (48 + n) else Char.ofNat (55 + n)

def hexByte (b : UInt8) : String :=
  String.ofList [hexDigit (b.toNat / 16), hexDigit (b.toNat % 16)]

/-- Commands from a binlog have nobody to respond to. -/
def postErrorResponse (cr : CommandReader) (text : String) : Effect :=
  if cr.network then .respondError text else .logError text

def postInternalErrorResponse (cr : CommandReader) : Effect :=
  postErrorResponse cr
    ("Internal server error while processing command [" ++ hexByte cr.getCommandId ++ "]")

@[simp]
theorem Effect.executes_dispatch (handler : Handler) (sb : SharedBuffers) :
    (dispatch handler sb).executes = true := rfl

@[simp]
theorem Effect.executes_dispose : dispose.executes = false := rfl

@[simp]
theorem executes_postErrorResponse (cr : CommandReader) (text : String) :
    (postErrorResponse cr text).executes = false := by
  unfold postErrorResponse
  split_ifs <;> rfl

namespace ConnectionThread

variable {server : ServerState} {command : UInt8}

/-! ## The table of commands -/

def cfConfigHandler : UInt8 := 0x00
def cfSessionHandler : UInt8 := 0x01
def cfFpcHandler : UInt8 := 0x02
def cfFpcTagHandler : UInt8 := 0x03
def cfHandlerMask : UInt8 := 0x03
def cfNoPassword : UInt8 := 0x00
def cfUserPassword : UInt8 := 0x04
def cfAdminPassword : UInt8 := 0x08
def cfInfoPassword : UInt8 := 0x0C
def cfPasswordMask : UInt8 := 0x0C
def cfReplicate : UInt8 := 0x40
def cfValidCommand : UInt8 := 0x80

def defineCommand (info : UInt8 → UInt8) (command flags : UInt8) : UInt8 → UInt8 :=
  Function.update info command (flags ||| cfValidCommand)

/-- Commands and flags in the order in which the constructor defines them. -/
def definitions : List (UInt8 × UInt8) :=
  [(cmdPing, cfConfigHandler ||| cfInfoPassword),
    (cmdCheck, cfConfigHandler ||| cfInfoPassword),
    (cmdInfo, cfConfigHandler ||| cfInfoPassword),
    (cmdStats, cfConfigHandler ||| cfInfoPassword),
    (cmdShutdown, cfConfigHandler ||| cfAdminPassword),
    (cmdLoadConfig, cfConfigHandler ||| cfAdminPassword),
    (cmdRestore, cfConfigHandler ||| cfAdminPassword),
    (cmdStore, cfConfigHandler ||| cfAdminPassword),
    (cmdGet, cfConfigHandler ||| cfAdminPassword),
    (cmdSet, cfConfigHandler ||| cfAdminPassword),
    (cmdLog, cfConfigHandler ||| cfAdminPassword),
    (cmdRotate, cfConfigHandler ||| cfAdminPassword),
    (cmdRead, cfSessionHandler ||| cfUserPassword),
    (cmdWrite, cfSessionHandler ||| cfUserPassword ||| cfReplicate),
    (cmdDestroy, cfSessionHandler ||| cfUserPassword ||| cfReplicate),
    (cmdGc, cfSessionHandler ||| cfUserPassword ||| cfReplicate),
    (cmdLoad, cfFpcHandler ||| cfUserPassword),
    (cmdTest, cfFpcHandler ||| cfUserPassword),
    (cmdSave, cfFpcHandler ||| cfUserPassword ||| cfReplicate),
    (cmdRemove, cfFpcHandler ||| cfUserPassword ||| cfReplicate),
    (cmdClean, cfFpcTagHandler ||| cfUserPassword ||| cfReplicate),
    (cmdGetIds, cfFpcTagHandler ||| cfUserPassword),
    (cmdGetTags, cfFpcTagHandler ||| cfUserPassword),
    (cmdGetIdsMatchingTags, cfFpcTagHandler ||| cfUserPassword),
    (cmdGetIdsNotMatchingTags, cfFpcTagHandler ||| cfUserPassword),
    (cmdGetIdsMatchingAnyTags, cfFpcTagHandler ||| cfUserPassword),
    (cmdGetFillingPercentage, cfFpcHandler ||| cfUserPassword),
    (cmdGetMetadatas, cfFpcHandler ||| cfUserPassword),
    (cmdTouch, cfFpcHandler ||| cfUserPassword ||| cfReplicate)]

def commandInfo : UInt8 → UInt8 :=
  definitions.foldl (fun info d => defineCommand info d.1 d.2) fun _ => 0

def getCommandFlags (command : UInt8) : UInt8 :=
  commandInfo command

def Defined (command : UInt8) : Prop :=
  command ∈ definitions.map Prod.fst

instance : DecidablePred Defined := fun command =>
  inferInstanceAs (Decidable (command ∈ definitions.map Prod.fst))

theorem foldl_defineCommand_ne_zero_iff (commands : List (UInt8 × UInt8)) (info : UInt8 → UInt8)
    (command : UInt8) :
    commands.foldl (fun info d => defineCommand info d.1 d.2) info command ≠ 0 ↔
      info command ≠ 0 ∨ command ∈ commands.map Prod.fst := by
  induction commands generalizing info with
  | nil => simp
  | cons d commands ih =>
    have hvalid : d.2 ||| cfValidCommand ≠ 0 := fun h =>
      absurd (UInt8.or_eq_zero_iff.mp h).2 (by decide)
    rw [List.foldl_cons, ih, List.map_cons, List.mem_cons, ← or_assoc]
    refine or_congr_left ?_
    by_cases hcommand : command = d.1
    · simp [defineCommand, hcommand, hvalid]
    · simp [defineCommand, hcommand]

theorem getCommandFlags_ne_zero_iff (command : UInt8) :
    getCommandFlags command ≠ 0 ↔ Defined command := by
  rw [getCommandFlags, commandInfo, foldl_defineCommand_ne_zero_iff, Defined]
  simp

/-! ## Processing a command -/

def requiredPasswordType (infoPasswordType : PasswordType) (flags : UInt8) : UInt8 :=
  if flags &&& cfPasswordMask = cfInfoPassword then
    match infoPasswordType with
    | .noPassword => cfNoPassword
    | .userPassword => cfUserPassword
    | .adminPassword => cfAdminPassword
  else flags &&& cfPasswordMask

/-- A password that is not set in the configuration is not required. -/
def effectivePasswordType (server : ServerState) (flags : UInt8) : UInt8 :=
  let required := requiredPasswordType server.infoPasswordType flags
  if (required = cfUserPassword ∧ server.netConfig.userPassword = invalidHashValue) ∨
      (required = cfAdminPassword ∧ server.netConfig.adminPassword = invalidHashValue) then
    cfNoPassword
  else required

/-- `provided` is what `get_command_pwd_hash()` returns; without a password there is no hash. -/
def pwdCheckPassed (config : NetworkConfiguration) (required : UInt8)
    (provided : UInt8 × Option UInt64) : Bool :=
  if provided.1 = descNoAuth then required = cfNoPassword
  else if provided.1 = descUserAuth then
    required = cfNoPassword ∨
      (required = cfUserPassword ∧ provided.2 = some config.userPassword)
  else if provided.1 = descAdminAuth then
    required = cfNoPassword ∨ provided.2 = some config.adminPassword
  else if provided.1 = descBulkAuth then
    required = cfNoPassword ∨
      (required = cfUserPassword ∧ provided.2 = some config.bulkPassword)
  else false

/-- The user password of a command that will be copied is replaced by the bulk password. -/
def replacePassword (server : ServerState) (flags : UInt8) (sb : SharedBuffers) : SharedBuffers :=
  if flags &&& cfReplicate ≠ 0 ∧ (CommandAccessor.getCommandPwdHash sb).1 = descUserAuth then
    (CommandAccessor.setCommandPwdHash sb descBulkAuth server.netConfig.bulkPassword).2
  else sb

def sendCopy (server : ServerState) (service : Service) (wanted : Bool) (sb : SharedBuffers) :
    List Effect :=
  if server.isServiceActive service ∧ wanted then [.sendCopy service sb] else []

/-- Copies for the replicator and the binlog; what came from a binlog is not written to it again. -/
def sendCopies (server : ServerState) (flags : UInt8) (network : Bool) (sb : SharedBuffers) :
    List Effect :=
  if flags &&& cfReplicate ≠ 0 then
    if flags &&& cfFpcHandler ≠ 0 then
      sendCopy server .fpcReplicator true sb ++ sendCopy server .fpcBinlog network sb
    else sendCopy server .sessionReplicator true sb ++ sendCopy server .sessionBinlog network sb
  else []

def handlerOf (flags : UInt8) : Handler :=
  if flags &&& cfHandlerMask = cfConfigHandler then .server
  else if flags &&& cfHandlerMask = cfSessionHandler then .sessionStore
  else if flags &&& cfHandlerMask = cfFpcHandler then .fpcStore
  else .tagManager

def processCommandObject (server : ServerState) (cr : CommandReader) : List Effect :=
  let command := cr.getCommandId
  let flags := getCommandFlags command
  if flags ≠ 0 then
    if pwdCheckPassed server.netConfig (effectivePasswordType server flags)
        (CommandAccessor.getCommandPwdHash cr.sb) then
      let sb := replacePassword server flags cr.sb
      sendCopies server flags cr.network sb ++ .dispatch (handlerOf flags) sb ::
        -- the handler has disposed of the object unless it failed
        if server.processed (handlerOf flags) sb then []
        else [postInternalErrorResponse { cr with sb := sb }, .dispose]
    else
      [postErrorResponse cr ("Authentication failed for command [" ++ hexByte command ++ "]"),
        .dispose]
  else [postErrorResponse cr ("Unknown command [" ++ hexByte command ++ "]"), .dispose]

theorem any_executes_iff (server : ServerState) (cr : CommandReader) :
    (processCommandObject server cr).any Effect.executes ↔
      Defined cr.getCommandId ∧
        pwdCheckPassed server.netConfig
          (effectivePasswordType server (getCommandFlags cr.getCommandId))
          (CommandAccessor.getCommandPwdHash cr.sb) := by
  rw [← getCommandFlags_ne_zero_iff]
  simp only [processCommandObject]
  split_ifs with hflags hpassed
  · simp [hflags, hpassed]
  · simp [hflags, hpassed, postInternalErrorResponse]
  · simp [hflags, hpassed]
  · simp [hflags]

/-! ## Who may execute what -/

inductive Level where
  | none
  | user
  | admin
deriving DecidableEq, Repr

def Level.flag : Level → UInt8
  | none => cfNoPassword
  | user => cfUserPassword
  | admin => cfAdminPassword

def Level.ifConfigured (level : Level) (hash : UInt64) : Level :=
  if hash = invalidHashValue then .none else level

/-- The level that a command requires: nothing if the password for it is not configured. -/
def requiredLevel (server : ServerState) (command : UInt8) : Level :=
  let userLevel := Level.user.ifConfigured server.netConfig.userPassword
  let adminLevel := Level.admin.ifConfigured server.netConfig.adminPassword
  let kind := getCommandFlags command &&& cfPasswordMask
  if kind = cfUserPassword then userLevel
  else if kind = cfAdminPassword then adminLevel
  else if kind = cfInfoPassword then
    match server.infoPasswordType with
    | .noPassword => .none
    | .userPassword => userLevel
    | .adminPassword => adminLevel
  else .none

/-- The command carries the password of the given kind, and this password is configured. -/
def Carries (provided : UInt8 × Option UInt64) (type : UInt8) (password : UInt64) : Prop :=
  password ≠ invalidHashValue ∧ provided = (type, some password)

def Suffices (config : NetworkConfiguration) (provided : UInt8 × Option UInt64) : Level → Prop
  | .none => True
  | .user => Carries provided descUserAuth config.userPassword ∨
      Carries provided descBulkAuth config.bulkPassword ∨
      Carries provided descAdminAuth config.adminPassword
  | .admin => Carries provided descAdminAuth config.adminPassword

/-- The command exists and carries what it requires. -/
def Permitted (server : ServerState) (cr : CommandReader) : Prop :=
  Defined cr.getCommandId ∧
    Suffices server.netConfig (CommandAccessor.getCommandPwdHash cr.sb)
      (requiredLevel server cr.getCommandId)

instance (provided : UInt8 × Option UInt64) (type : UInt8) (password : UInt64) :
    Decidable (Carries provided type password) :=
  inferInstanceAs (Decidable (_ ∧ _))

instance (config : NetworkConfiguration) (provided : UInt8 × Option UInt64) :
    DecidablePred (Suffices config provided)
  | .none => inferInstanceAs (Decidable True)
  | .user => inferInstanceAs (Decidable (_ ∨ _ ∨ _))
  | .admin => inferInstanceAs (Decidable (Carries _ _ _))

instance (server : ServerState) (cr : CommandReader) : Decidable (Permitted server cr) :=
  inferInstanceAs (Decidable (_ ∧ _))

/-- The command requires the user password and carries the hash of a password that is not
configured, as an administrator or bulk password. -/
def CarriesUnset (server : ServerState) (cr : CommandReader) : Prop :=
  let provided := CommandAccessor.getCommandPwdHash cr.sb
  requiredLevel server cr.getCommandId = .user ∧
    ((provided = (descAdminAuth, some invalidHashValue) ∧
        server.netConfig.adminPassword = invalidHashValue) ∨
      (provided = (descBulkAuth, some invalidHashValue) ∧
        server.netConfig.bulkPassword = invalidHashValue))

theorem passwordMask_cases (flags : UInt8) :
    flags &&& cfPasswordMask = cfNoPassword ∨ flags &&& cfPasswordMask = cfUserPassword ∨
      flags &&& cfPasswordMask = cfAdminPassword ∨ flags &&& cfPasswordMask = cfInfoPassword := by
  have hall : ∀ n : Fin 256, UInt8.ofNat n &&& cfPasswordMask ∈
      [cfNoPassword, cfUserPassword, cfAdminPassword, cfInfoPassword] := by decide +kernel
  simpa using hall ⟨flags.toNat, flags.toNat_lt⟩

theorem authType_cases (desc : UInt8) :
    desc &&& descAuthBits = descNoAuth ∨ desc &&& descAuthBits = descUserAuth ∨
      desc &&& descAuthBits = descAdminAuth ∨ desc &&& descAuthBits = descBulkAuth := by
  have hall : ∀ n : Fin 256, UInt8.ofNat n &&& descAuthBits ∈
      [descNoAuth, descUserAuth, descAdminAuth, descBulkAuth] := by decide +kernel
  simpa using hall ⟨desc.toNat, desc.toNat_lt⟩

theorem effectivePasswordType_eq (server : ServerState) (command : UInt8) :
    effectivePasswordType server (getCommandFlags command) =
      (requiredLevel server command).flag := by
  have hmask := passwordMask_cases (getCommandFlags command)
  have huser : cfUserPassword ≠ cfAdminPassword ∧ cfUserPassword ≠ cfInfoPassword := by decide
  have hadmin : cfAdminPassword ≠ cfUserPassword ∧ cfAdminPassword ≠ cfInfoPassword := by decide
  have hinfo : cfInfoPassword ≠ cfUserPassword ∧ cfInfoPassword ≠ cfAdminPassword := by decide
  have hnone : cfNoPassword ≠ cfUserPassword ∧ cfNoPassword ≠ cfAdminPassword := by decide
  unfold effectivePasswordType requiredPasswordType requiredLevel Level.ifConfigured
  generalize getCommandFlags command &&& cfPasswordMask = kind at hmask
  obtain rfl | rfl | rfl | rfl := hmask
  · rfl
  · simp only [huser, if_false, if_true, true_and, false_and, or_false]
    split_ifs <;> rfl
  · simp only [hadmin, if_false, if_true, true_and, false_and, false_or]
    split_ifs <;> rfl
  · cases server.infoPasswordType with
    | noPassword => simp [hinfo, hnone, Level.flag]
    | userPassword =>
      simp only [hinfo, huser, if_false, if_true, true_and, false_and, or_false]
      split_ifs <;> rfl
    | adminPassword =>
      simp only [hinfo, hadmin, if_false, if_true, true_and, false_and, false_or]
      split_ifs <;> rfl

theorem getCommandPwdHash_fst (sb : SharedBuffers) :
    (CommandAccessor.getCommandPwdHash sb).1 = sb.header 0 &&& descAuthBits := by
  unfold CommandAccessor.getCommandPwdHash CommandAccessor.getAuthType
  split_ifs with h
  · rfl
  · exact (not_not.mp h).symm

/-- The check as it is: it does not ask whether the administrator and bulk passwords are set. -/
theorem pwdCheckPassed_iff (config : NetworkConfiguration) (level : Level) (sb : SharedBuffers) :
    pwdCheckPassed config level.flag (CommandAccessor.getCommandPwdHash sb) ↔
      level = .none ∨
      (level = .user ∧
        (CommandAccessor.getCommandPwdHash sb = (descUserAuth, some config.userPassword) ∨
          CommandAccessor.getCommandPwdHash sb = (descBulkAuth, some config.bulkPassword))) ∨
      CommandAccessor.getCommandPwdHash sb = (descAdminAuth, some config.adminPassword) := by
  have htype := authType_cases (sb.header 0)
  rw [← getCommandPwdHash_fst] at htype
  generalize CommandAccessor.getCommandPwdHash sb = provided at htype
  obtain ⟨type, hash⟩ := provided
  have hnone : level.flag = cfNoPassword ↔ level = .none := by cases level <;> decide
  have huser : level.flag = cfUserPassword ↔ level = .user := by cases level <;> decide
  simp only [pwdCheckPassed, Prod.mk.injEq, hnone, huser]
  obtain rfl | rfl | rfl | rfl := htype
  · simp [show descNoAuth ≠ descUserAuth by decide, show descNoAuth ≠ descAdminAuth by decide,
      show descNoAuth ≠ descBulkAuth by decide]
  · simp [show descUserAuth ≠ descNoAuth by decide, show descUserAuth ≠ descAdminAuth by decide,
      show descUserAuth ≠ descBulkAuth by decide]
  · simp [show descAdminAuth ≠ descNoAuth by decide, show descAdminAuth ≠ descUserAuth by decide,
      show descAdminAuth ≠ descBulkAuth by decide]
  · simp [show descBulkAuth ≠ descNoAuth by decide, show descBulkAuth ≠ descUserAuth by decide,
      show descBulkAuth ≠ descAdminAuth by decide]

theorem Level.eq_ifConfigured {level level' : Level} {hash : UInt64}
    (h : level.ifConfigured hash = level') (hnone : level' ≠ .none) :
    level = level' ∧ hash ≠ invalidHashValue := by
  unfold ifConfigured at h
  split_ifs at h with hunset
  · exact absurd h.symm hnone
  · exact ⟨h, hunset⟩

theorem requiredLevel_cases (server : ServerState) (command : UInt8) :
    requiredLevel server command = .none ∨
      requiredLevel server command = Level.user.ifConfigured server.netConfig.userPassword ∨
      requiredLevel server command = Level.admin.ifConfigured server.netConfig.adminPassword := by
  unfold requiredLevel
  cases server.infoPasswordType <;> dsimp only <;> split_ifs <;> simp

theorem userPassword_ne_of_requiredLevel (h : requiredLevel server command = .user) :
    server.netConfig.userPassword ≠ invalidHashValue := by
  obtain hlevel | hlevel | hlevel := requiredLevel_cases server command
  · simp [h] at hlevel
  · exact (Level.eq_ifConfigured (hlevel.symm.trans h) (by simp)).2
  · cases (Level.eq_ifConfigured (hlevel.symm.trans h) (by simp)).1

theorem adminPassword_ne_of_requiredLevel (h : requiredLevel server command = .admin) :
    server.netConfig.adminPassword ≠ invalidHashValue := by
  obtain hlevel | hlevel | hlevel := requiredLevel_cases server command
  · simp [h] at hlevel
  · cases (Level.eq_ifConfigured (hlevel.symm.trans h) (by simp)).1
  · exact (Level.eq_ifConfigured (hlevel.symm.trans h) (by simp)).2

theorem defined_of_requiredLevel (h : requiredLevel server command ≠ .none) : Defined command := by
  rw [← getCommandFlags_ne_zero_iff]
  intro hflags
  apply h
  rw [requiredLevel, hflags]
  rfl

/-- Only permitted commands are executed, unless a command that requires the user password carries
the hash that stands for a password that is not configured. -/
theorem executes_only_permitted_iff (server : ServerState) (cr : CommandReader) :
    ((processCommandObject server cr).any Effect.executes → Permitted server cr) ↔
      ¬CarriesUnset server cr := by
  rw [any_executes_iff, effectivePasswordType_eq, pwdCheckPassed_iff, Permitted, CarriesUnset]
  generalize CommandAccessor.getCommandPwdHash cr.sb = provided
  cases hlevel : requiredLevel server cr.getCommandId with
  | none => simp +contextual [Suffices]
  | user =>
    have huser := userPassword_ne_of_requiredLevel hlevel
    have hknown := defined_of_requiredLevel (ne_of_eq_of_ne hlevel (by simp))
    simp only [hknown, true_and, Suffices, Carries]
    grind
  | admin =>
    have hadmin := adminPassword_ne_of_requiredLevel hlevel
    have hknown := defined_of_requiredLevel (ne_of_eq_of_ne hlevel (by simp))
    simp [hknown, Suffices, Carries, hadmin]

/-- No bulk password is configured, and a `READ` command with the hash 0 as its bulk password
reaches the session store although user and administrator passwords are set. -/
theorem unset_bulk_password_executes :
    (processCommandObject ⟨⟨5, 7, invalidHashValue, true, false, true⟩, .noPassword,
        fun _ => false, fun _ _ => true⟩
      ⟨.create (ByteMemory.ofList [descBulkAuth, cmdRead, 0, 0, 0, 0, 0, 0, 0, 0]) fun _ => 0,
        true⟩).any Effect.executes = true ∧
    ¬Permitted ⟨⟨5, 7, invalidHashValue, true, false, true⟩, .noPassword,
        fun _ => false, fun _ _ => true⟩
      ⟨.create (ByteMemory.ofList [descBulkAuth, cmdRead, 0, 0, 0, 0, 0, 0, 0, 0]) fun _ => 0,
        true⟩ := by
  decide

end ConnectionThread

end CyberCache
