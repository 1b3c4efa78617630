import CyberCache.Server.WorkerThreads
import CyberCache.Wire.PasswordHash

/-!
# Passwords in copies of commands

Copies of commands that change a store leave the server: a replicator sends them to other servers, a
binlog keeps them in a file. The user password in such a command is replaced by the bulk password
before it is copied. The administrator password is not, and neither is a bulk password that nobody
compared with the configured one because no user password is required.
-/

namespace CyberCache

namespace CommandAccessor

theorem getCommandPwdHash_writeHeader {sb : SharedBuffers} (hash : UInt64)
    (h : getAuthType sb ≠ descNoAuth) :
    getCommandPwdHash (sb.writeHeader (headerDataSizeLength (sb.header 0) + 2)
      (ByteMemory.toBytesLE 8 hash.toNat)) = (getAuthType sb, some hash) := by
  have hdesc : (sb.header.write (headerDataSizeLength (sb.header 0) + 2)
      (ByteMemory.toBytesLE 8 hash.toNat)) 0 = sb.header 0 :=
    ByteMemory.write_of_lt _ _ (by omega)
  have hread (m : ByteMemory) (pos : Nat) :
      (m.write pos (ByteMemory.toBytesLE 8 hash.toNat)).readLE pos 8 = hash.toNat := by
    have hslice := m.slice_write_self pos (ByteMemory.toBytesLE 8 hash.toNat)
    rw [ByteMemory.length_toBytesLE] at hslice
    rw [ByteMemory.readLE, hslice, ByteMemory.ofBytesLE_toBytesLE hash.toNat_lt]
  rw [getAuthType] at h
  simp [getCommandPwdHash, getAuthType, hdesc, hread, h]

theorem getCommandPwdHash_setCommandPwdHash {sb : SharedBuffers} (hash : UInt64)
    (h : (getCommandPwdHash sb).1 = descUserAuth) :
    getCommandPwdHash (setCommandPwdHash sb descBulkAuth hash).2 = (descBulkAuth, some hash) := by
  have hauth : sb.header 0 &&& descAuthBits = descUserAuth := by
    rwa [← ConnectionThread.getCommandPwdHash_fst]
  have hbits : ((sb.header 0 &&& ~~~descAuthBits) ||| descBulkAuth) &&& descAuthBits =
      descBulkAuth := by
    have hall : ∀ n : Fin 256,
        ((UInt8.ofNat n &&& ~~~descAuthBits) ||| descBulkAuth) &&& descAuthBits = descBulkAuth := by
      decide +kernel
    simpa using hall ⟨(sb.header 0).toNat, (sb.header 0).toNat_lt⟩
  have htype : getAuthType
      (sb.writeHeader 0 [(sb.header 0 &&& ~~~descAuthBits) ||| descBulkAuth]) = descBulkAuth := by
    simpa [getAuthType, ByteMemory.write] using hbits
  have hne : descUserAuth ≠ descBulkAuth ∧ descUserAuth ≠ descNoAuth ∧
    descBulkAuth ≠ descNoAuth := by decide
  simp only [setCommandPwdHash, hauth, hne, ne_eq, not_false_eq_true, or_self, and_false, if_false,
    if_true]
  rw [getCommandPwdHash_writeHeader hash (by rw [htype]; exact hne.2.2), htype]

theorem getCommandIdByte_setCommandPwdHash {sb : SharedBuffers} (hash : UInt64)
    (h : (getCommandPwdHash sb).1 = descUserAuth) :
    getCommandIdByte (setCommandPwdHash sb descBulkAuth hash).2 = getCommandIdByte sb := by
  have hauth : sb.header 0 &&& descAuthBits = descUserAuth := by
    rwa [← ConnectionThread.getCommandPwdHash_fst]
  have hlength : headerDataSizeLength ((sb.header 0 &&& ~~~descAuthBits) ||| descBulkAuth) =
      headerDataSizeLength (sb.header 0) :=
    IntegerAccess.headerDataSizeLength_replaced _ .bulkPassword
  have hne : descUserAuth ≠ descBulkAuth ∧ descUserAuth ≠ descNoAuth ∧
    descBulkAuth ≠ descNoAuth := by decide
  simp [setCommandPwdHash, hauth, hne, getCommandIdByte, ByteMemory.write, hlength]

end CommandAccessor

namespace ConnectionThread

/-- A copy shows nothing but the bulk password of the configuration. -/
def Confined (config : NetworkConfiguration) (copy : SharedBuffers) : Prop :=
  (CommandAccessor.getCommandPwdHash copy).1 = descNoAuth ∨
    CommandAccessor.getCommandPwdHash copy = (descBulkAuth, some config.bulkPassword)

def replicatorOf (flags : UInt8) : Service :=
  if flags &&& cfFpcHandler ≠ 0 then .fpcReplicator else .sessionReplicator

def binlogOf (flags : UInt8) : Service :=
  if flags &&& cfFpcHandler ≠ 0 then .fpcBinlog else .sessionBinlog

/-- The command changes a store, passes the check, and some service waits for a copy of it. -/
def IsCopied (server : ServerState) (cr : CommandReader) : Prop :=
  let flags := getCommandFlags cr.getCommandId
  flags &&& cfReplicate ≠ 0 ∧
    pwdCheckPassed server.netConfig (effectivePasswordType server flags)
      (CommandAccessor.getCommandPwdHash cr.sb) ∧
    (server.isServiceActive (replicatorOf flags) ∨
      (server.isServiceActive (binlogOf flags) ∧ cr.network))

/-- The administrator password, or a bulk password other than the one of the configuration. -/
def CarriesOther (config : NetworkConfiguration) (provided : UInt8 × Option UInt64) : Prop :=
  provided.1 = descAdminAuth ∨
    (provided.1 = descBulkAuth ∧ provided.2 ≠ some config.bulkPassword)

theorem sendCopies_eq (server : ServerState) (flags : UInt8) (network : Bool) (sb : SharedBuffers) :
    sendCopies server flags network sb =
      if flags &&& cfReplicate ≠ 0 then
        sendCopy server (replicatorOf flags) true sb ++ sendCopy server (binlogOf flags) network sb
      else [] := by
  unfold sendCopies replicatorOf binlogOf
  split_ifs <;> rfl

theorem mem_sendCopy_iff (server : ServerState) (service service' : Service) (wanted : Bool)
    (sb copy : SharedBuffers) :
    Effect.sendCopy service copy ∈ sendCopy server service' wanted sb ↔
      service = service' ∧ copy = sb ∧ server.isServiceActive service' ∧ wanted := by
  unfold sendCopy
  split_ifs with h
  · simp [h]
  · simp only [List.not_mem_nil, false_iff]
    exact fun h' => h h'.2.2

theorem exists_mem_sendCopies_iff (server : ServerState) (flags : UInt8) (network : Bool)
    (sb copy : SharedBuffers) :
    (∃ service, Effect.sendCopy service copy ∈ sendCopies server flags network sb) ↔
      copy = sb ∧ flags &&& cfReplicate ≠ 0 ∧ (server.isServiceActive (replicatorOf flags) ∨
        (server.isServiceActive (binlogOf flags) ∧ network)) := by
  rw [sendCopies_eq]
  split_ifs with hreplicate
  · simp [hreplicate, mem_sendCopy_iff, exists_or, and_or_left]
  · simp [hreplicate]

theorem exists_mem_processCommandObject_iff (server : ServerState) (cr : CommandReader)
    (copy : SharedBuffers) :
    (∃ service, Effect.sendCopy service copy ∈ processCommandObject server cr) ↔
      copy = replacePassword server (getCommandFlags cr.getCommandId) cr.sb ∧
        IsCopied server cr := by
  have herror (cr : CommandReader) (text : String) (service : Service) :
      Effect.sendCopy service copy ≠ postErrorResponse cr text := by
    unfold postErrorResponse
    split_ifs <;> simp
  have hflags : getCommandFlags cr.getCommandId = 0 →
      ¬getCommandFlags cr.getCommandId &&& cfReplicate ≠ 0 := by
    intro h
    simp [h]
  simp only [processCommandObject, IsCopied]
  split_ifs with hknown hpassed hprocessed
  · simp [exists_mem_sendCopies_iff, hpassed]
  · simp [exists_mem_sendCopies_iff, hpassed, postInternalErrorResponse, herror]
  · simp [hpassed, herror]
  · simp [hflags (not_not.mp hknown), herror]

theorem confined_replacePassword_iff (server : ServerState) {flags : UInt8} (sb : SharedBuffers)
    (h : flags &&& cfReplicate ≠ 0) :
    Confined server.netConfig (replacePassword server flags sb) ↔
      ¬CarriesOther server.netConfig (CommandAccessor.getCommandPwdHash sb) := by
  have hne : descUserAuth ≠ descAdminAuth ∧ descUserAuth ≠ descBulkAuth ∧
    descNoAuth ≠ descUserAuth ∧ descNoAuth ≠ descAdminAuth ∧ descNoAuth ≠ descBulkAuth ∧
    descAdminAuth ≠ descBulkAuth := by decide
  have htype := authType_cases (sb.header 0)
  rw [← getCommandPwdHash_fst] at htype
  by_cases huser : (CommandAccessor.getCommandPwdHash sb).1 = descUserAuth
  · have hset := CommandAccessor.getCommandPwdHash_setCommandPwdHash server.netConfig.bulkPassword
      huser
    simp [replacePassword, h, huser, Confined, hset, CarriesOther, hne]
  · simp only [replacePassword, huser, and_false, if_false, Confined, CarriesOther, Prod.ext_iff]
    grind

/-- Copies show no password but the configured bulk password, unless the client supplied the
administrator password or some other bulk password. -/
theorem copies_confined_iff (server : ServerState) (cr : CommandReader) :
    (∀ service copy, Effect.sendCopy service copy ∈ processCommandObject server cr →
      Confined server.netConfig copy) ↔
      ¬(IsCopied server cr ∧
        CarriesOther server.netConfig (CommandAccessor.getCommandPwdHash cr.sb)) := by
  constructor
  · rintro hconfined ⟨hcopied, hother⟩
    obtain ⟨service, hmem⟩ := (exists_mem_processCommandObject_iff server cr _).mpr ⟨rfl, hcopied⟩
    exact (confined_replacePassword_iff server cr.sb hcopied.1).mp (hconfined _ _ hmem) hother
  · intro h service copy hmem
    obtain ⟨rfl, hcopied⟩ := (exists_mem_processCommandObject_iff server cr _).mp ⟨service, hmem⟩
    refine (confined_replacePassword_iff server cr.sb hcopied.1).mpr fun hother => ?_
    exact h ⟨hcopied, hother⟩

/-- A `DESTROY` command with the administrator password goes to the replicator as it is. -/
theorem copy_shows_admin_password :
    ∃ copy, Effect.sendCopy .sessionReplicator copy ∈
        processCommandObject ⟨⟨5, 7, 9, true, false, true⟩, .noPassword, fun _ => true,
          fun _ _ => true⟩
          ⟨.create (ByteMemory.ofList [descAdminAuth, cmdDestroy, 7, 0, 0, 0, 0, 0, 0,
            0]) fun _ => 0, true⟩ ∧
      CommandAccessor.getCommandPwdHash copy = (descAdminAuth, some 7) ∧
      ¬Confined ⟨5, 7, 9, true, false, true⟩ copy := by
  refine ⟨_, List.mem_cons_self, ?_, ?_⟩
  · decide
  · rw [Confined]
    decide

/-! ## Chains of replicating servers -/

theorem requiredLevel_of_replicate {command : UInt8}
    (h : getCommandFlags command &&& cfReplicate ≠ 0) (server : ServerState) :
    requiredLevel server command = Level.user.ifConfigured server.netConfig.userPassword := by
  have hall : ∀ n : Fin 256, getCommandFlags (UInt8.ofNat n) &&& cfReplicate ≠ 0 →
      getCommandFlags (UInt8.ofNat n) &&& cfPasswordMask = cfUserPassword := by decide +kernel
  have hkind : getCommandFlags command &&& cfPasswordMask = cfUserPassword := by
    simpa using hall ⟨command.toNat, command.toNat_lt⟩ (by simpa using h)
  simp [requiredLevel, hkind]

theorem sendCopy_mem_and_dispatch_mem {server : ServerState} {cr : CommandReader} {flags : UInt8}
    {sb : SharedBuffers} (hflags : getCommandFlags cr.getCommandId = flags)
    (hreplicate : flags &&& cfReplicate ≠ 0)
    (hpassed : pwdCheckPassed server.netConfig (effectivePasswordType server flags)
      (CommandAccessor.getCommandPwdHash cr.sb))
    (hactive : server.isServiceActive (replicatorOf flags))
    (hsb : replacePassword server flags cr.sb = sb) :
    Effect.sendCopy (replicatorOf flags) sb ∈ processCommandObject server cr ∧
      Effect.dispatch (handlerOf flags) sb ∈ processCommandObject server cr := by
  have hknown : flags ≠ 0 := fun h => hreplicate (by rw [h]; rfl)
  simp only [processCommandObject, hflags, if_pos hknown, if_pos hpassed, hsb]
  refine ⟨List.mem_append_left _ ?_, List.mem_append_right _ List.mem_cons_self⟩
  rw [sendCopies_eq, if_pos hreplicate, List.mem_append, mem_sendCopy_iff]
  exact .inl ⟨rfl, rfl, hactive, rfl⟩

end ConnectionThread

end CyberCache
