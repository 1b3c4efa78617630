import CyberCache.Commands.FileCommands
import CyberCache.Optimizer.PageLifetimes
import CyberCache.Tags.IndexInvariant

/-!
# Dumping and restoring objects

A store dumps an object as the command that would store it: WRITE for a session, and SAVE for a
page. Such a command has a lifetime and not an expiration time, so what is restored from it depends
on what the optimizers make of lifetimes.
-/

namespace CyberCache

open Function (update update_self)

open Lifetimes (TimedObject SessionOptimizer PageOptimizer maxTime userAgentUser)

variable {n : Nat}

/-! ## Dumping -/

/-- An object that is alive and linked by its optimizer. -/
structure DumpedObject where
  name : List UInt8
  isName : Decoder.isName name = true
  userAgent : Fin numUserAgents
  payload : Payload
  isValid : payload.Valid
  expirationTime : UInt32

/-- A page that is linked by the tag manager, with the names of the tags that its references are
about. -/
structure DumpedPage extends DumpedObject where
  tags : List (List UInt8)
  tags_ne : tags ≠ []
  areNames : ∀ tag ∈ tags, Decoder.isName tag = true
  nodup : tags.Nodup
  counted : tags.length < ushortRange

def SessionObjectStore.fileCommand (pho : DumpedObject) (time : UInt32) : FileCommand :=
  let lifetime := pho.expirationTime - time
  ⟨cmdWrite, pho.payload, [.string pho.name, .number pho.userAgent, .number lifetime.toNat]⟩

/-- There is no command for a session that has expired. -/
def SessionObjectStore.createFileCommandWriter (pho : DumpedObject) (time : UInt32) :
    Option FileCommand :=
  if time < pho.expirationTime then some (fileCommand pho time) else none

/-- A page that has expired is given one second. -/
def DumpedPage.lifetimeAt (po : DumpedPage) (time : UInt32) : UInt32 :=
  if time < po.expirationTime then po.expirationTime - time else 1

def PageObjectStore.createFileCommandWriter (po : DumpedPage) (time : UInt32) : FileCommand :=
  ⟨cmdSave, po.payload, [.string po.name, .number po.userAgent, .number (po.lifetimeAt time).toNat,
    .list po.tags]⟩

/-! ## Restoring -/

/-- The threads that take part in the execution of a command. -/
structure LoadingServer where
  connections : ServerState
  sessions : SessionOptimizer
  pages : PageOptimizer
  tags : TagConfiguration

def Effect.dispatched : List Effect → Option SharedBuffers
  | [] => none
  | .dispatch _ sb :: _ => some sb
  | _ :: effects => dispatched effects

def CacheServer.IsEmpty (s : CacheServer) (time : UInt32) : Prop :=
  (∀ domain, s.objects domain = []) ∧ s.now = time.toNat ∧ s.events = []

def TagIndex.tagNamesOf (index : TagIndex) (page : Nat) : List (List UInt8) :=
  (List.range (index.count page)).map fun i => index.table.name (index.tagOf (page, i))

namespace LoadingServer

variable (server : LoadingServer)

/-- The tag manager gets messages about pages that were saved. -/
def manageTags (cr : CommandReader) (stack : Nat → BitVec 64) (s : CacheServer) :
    ServerEvent → CacheServer
  | .forward _ (some ref) => ((TagStore.processSaveCommand cr stack ref).run s).2
  | _ => s

/-- A command from a file, from its dispatch to the messages for the optimizers. -/
def execute (sb : SharedBuffers) (stack stack' : Nat → BitVec 64) (other : Interference)
    (s : CacheServer) : CacheServer :=
  match Effect.dispatched (ConnectionThread.processCommandObject server.connections ⟨sb, false⟩)
    with
  | some sb =>
    let s := ((StoreCommand.process ⟨sb, false⟩ stack other).run s).2
    s.events.foldl (manageTags ⟨sb, false⟩ stack') s
  | none => s

/-- The index of a tag manager that has linked nothing but one page, the one of this command. -/
def link (sb : SharedBuffers) (stack : Nat → BitVec 64) (name : List UInt8) : Option TagIndex := do
  let sb ← Effect.dispatched
    (ConnectionThread.processCommandObject server.connections ⟨sb, false⟩)
  let (_, _, names) ← (Decoder.savedTags (CommandReader.chunks ⟨sb, false⟩ stack)).1
  let index ← (TagIndex.create server.tags).step server.tags (.createPage name)
  index.step server.tags (.save 0 names)

end LoadingServer

def optimized (onWrite : TimedObject → UInt32 → TimedObject) (domain : Domain) (time : UInt32)
    (events : List ServerEvent) (ref : Nat) : TimedObject :=
  events.foldl (fun o event =>
    match event with
    | .notify d (.write r ua lifetime) =>
      if d = domain ∧ r = ref then o.processWriteMessage onWrite time ua (.ofNat lifetime) else o
    | _ => o) (.create time)

structure DumpedObject.IsRestored (o : DumpedObject) (object : CacheObject) (timed : TimedObject) :
    Prop where
  name : object.name = o.name
  payload : object.payload = o.payload.stored
  isAlive : object.beingDeleted = false
  isLinked : timed.isLinked = true
  userAgent : timed.userAgent = o.userAgent
  expirationTime : timed.expirationTime = o.expirationTime

namespace LoadingServer

variable (server : LoadingServer)

def RestoresSession (so : DumpedObject) (time : UInt32) (sb : SharedBuffers) : Prop :=
  ∀ (stack stack' : Nat → BitVec 64) (other : Interference) (s : CacheServer), s.IsEmpty time →
    ∃ object, (server.execute sb stack stack' other s).objects .session = [object] ∧
      so.IsRestored object (optimized server.sessions.onWrite .session time
        (server.execute sb stack stack' other s).events object.ref)

def RestoresPage (po : DumpedPage) (time : UInt32) (sb : SharedBuffers) : Prop :=
  ∀ (stack stack' : Nat → BitVec 64) (other : Interference) (s : CacheServer), s.IsEmpty time →
    ∃ object, (server.execute sb stack stack' other s).objects .page = [object] ∧
      po.IsRestored object (optimized server.pages.onWrite .page time
        (server.execute sb stack stack' other s).events object.ref) ∧
      object.linkedByTM = true ∧ ∃ index, server.link sb stack' object.name = some index ∧
        ∀ tag, tag ∈ index.tagNamesOf 0 ↔ tag ∈ po.tags

end LoadingServer

inductive Dumped where
  | session (so : DumpedObject)
  | page (po : DumpedPage)

namespace Dumped

def expirationTime : Dumped → UInt32
  | session so => so.expirationTime
  | page po => po.expirationTime

/-- The command for the object, if there is one, restores it. -/
def Restores (server : LoadingServer) (time : UInt32) : Dumped → Prop
  | session so => ∀ c ∈ SessionObjectStore.createFileCommandWriter so time,
      c.ReadsBack server.connections.netConfig (server.RestoresSession so time)
  | page po => (PageObjectStore.createFileCommandWriter po time).ReadsBack
      server.connections.netConfig (server.RestoresPage po time)

end Dumped

/-! ## Commands that were dumped -/

theorem valid_number (h : n < uintRange) : (Chunk.number n).Valid := by
  have hmax : (uintMax : Int) = uintRange - 1 := by decide
  have hmin : intMin ≤ 0 := by decide
  constructor <;> omega

theorem uintOfInt_natCast (h : n < uintRange) : uintOfInt n = n := by
  rw [uintOfInt_eq (by omega) (by omega), Int.toNat_natCast]

theorem lifetimeOf_natCast (h : n < uintRange) : lifetimeOf n = n := by
  rw [lifetimeOf, if_neg (by omega), uintOfInt_natCast h]

theorem isValid_natCast (h : n < uintRange) : NumberChunk.isValid n = true := by
  have hmax : (uintRange : Int) ≤ longMax := by decide
  rw [NumberChunk.isValid, bne_iff_ne]
  omega

namespace DumpedObject

variable (o : DumpedObject)

theorem userAgent_lt : (o.userAgent : Nat) < uintRange :=
  o.userAgent.isLt.trans (by decide)

theorem toUserAgent_eq : toUserAgent (o.userAgent : Nat) = o.userAgent := by
  have hlt := o.userAgent.isLt
  simp only [numUserAgents] at hlt
  rw [toUserAgent, uintOfInt_natCast o.userAgent_lt, Nat.mod_eq_of_lt (by omega)]

theorem userAgent_accepted : NumberChunk.isValidUint (o.userAgent : Nat) = true ∧
    isAgent (o.userAgent : Nat) = true := by
  generalize o.userAgent = ua
  revert ua
  decide

end DumpedObject

namespace SessionObjectStore

theorem fileCommand_valid (so : DumpedObject) (time : UInt32) : (fileCommand so time).Valid := by
  refine ⟨(by decide : cmdWrite ≠ cmdInvalid), so.isValid, ?_⟩
  simp only [fileCommand, List.forall_mem_cons]
  exact ⟨trivial, valid_number so.userAgent_lt, valid_number (UInt32.toNat_lt _), by simp⟩

theorem measureEntity_le (n : Nat) : ChunkBuilder.measureEntity n ≤ 5 := by
  unfold ChunkBuilder.measureEntity
  obtain h | h | h | h := ChunkBuilder.extraBytes_cases (n - chnkLargeBias) <;>
    split_ifs <;> omega

theorem measureNumber_le (n : Nat) : ChunkBuilder.measureNumber n ≤ 5 := by
  unfold ChunkBuilder.measureNumber
  split_ifs
  · exact measureEntity_le _
  · omega
  · obtain h | h | h | h :=
      ChunkBuilder.extraBytes_cases (uintOfInt (-(n : Int) + chnkBigNegativeBias)) <;> omega

theorem length_header_lt (so : DumpedObject) (time : UInt32) (config : NetworkConfiguration) :
    ((fileCommand so time).header config).length < uintRange := by
  have hname : so.name.length ≤ 65535 := by
    have hisName := so.isName
    rw [Decoder.isName, Bool.and_eq_true, decide_eq_true_eq, decide_eq_true_eq] at hisName
    exact hisName.2
  have hchunks : ((fileCommand so time).chunks.flatMap Chunk.encode).length ≤ 65535 + 15 := by
    have hentity := measureEntity_le so.name.length
    have hagent := measureNumber_le so.userAgent
    have hlifetime := measureNumber_le (so.expirationTime - time).toNat
    simp only [fileCommand, List.flatMap_cons, List.flatMap_nil, Chunk.encode, List.length_append,
      ChunkBuilder.length_putEntity, ChunkBuilder.length_putNumber, List.length_nil]
    omega
  have hbytes (n : Nat) : HeaderChunkBuilder.estimateSizeBytes n ≤ 4 := by
    unfold HeaderChunkBuilder.estimateSizeBytes
    split_ifs <;> omega
  have hfixed : HeaderChunkBuilder.fixedSize ((fileCommand so time).source config) ≤ 9 := by
    unfold HeaderChunkBuilder.fixedSize
    split_ifs <;> omega
  have hinfo : HeaderChunkBuilder.payloadInfoSize (some so.payload) ≤ 9 := by
    have := hbytes so.payload.usize
    unfold HeaderChunkBuilder.payloadInfoSize
    dsimp only
    split_ifs <;> omega
  have hdata : HeaderChunkBuilder.dataSize ((fileCommand so time).source config) (some so.payload)
      (fileCommand so time).chunks ≤ 65535 + 15 + 9 + 9 := by
    unfold HeaderChunkBuilder.dataSize
    split_ifs <;> omega
  have hrange : uintRange = 4294967296 := by decide
  have hsize := hbytes (HeaderChunkBuilder.dataSize ((fileCommand so time).source config)
    (some so.payload) (fileCommand so time).chunks)
  have hlength := HeaderChunkBuilder.length_header ((fileCommand so time).source config)
    (some so.payload) (fileCommand so time).chunks
  rw [FileCommand.header]
  change (HeaderChunkBuilder.header _ (some so.payload) _).length < _
  rw [hlength]
  split_ifs <;> omega

end SessionObjectStore

namespace PageObjectStore

theorem createFileCommandWriter_valid (po : DumpedPage) (time : UInt32) :
    (createFileCommandWriter po time).Valid := by
  refine ⟨(by decide : cmdSave ≠ cmdInvalid), po.isValid, ?_⟩
  simp only [createFileCommandWriter, List.forall_mem_cons]
  exact ⟨trivial, valid_number po.userAgent_lt, valid_number (UInt32.toNat_lt _), trivial, by simp⟩

end PageObjectStore

/-! ## Dispatching -/

namespace ConnectionThread

variable {server : ServerState} {flags : UInt8}

theorem pwdCheckPassed_credentials (hflags : flags &&& cfPasswordMask = cfUserPassword) :
    pwdCheckPassed server.netConfig (effectivePasswordType server flags)
      (CommandHeaderChunkBuilder.credentials server.netConfig false) = true := by
  have hrequired : requiredPasswordType server.infoPasswordType flags = cfUserPassword := by
    unfold requiredPasswordType
    rw [hflags, if_neg (by decide)]
  by_cases hset : server.netConfig.userPassword = invalidHashValue
  · have hcredentials : CommandHeaderChunkBuilder.credentials server.netConfig false =
        (descNoAuth, none) := by
      simp [CommandHeaderChunkBuilder.credentials, CommandHeaderChunkBuilder.passwordHash, hset]
    simp [hcredentials, pwdCheckPassed, effectivePasswordType, hrequired, hset]
  · have hcredentials : CommandHeaderChunkBuilder.credentials server.netConfig false =
        (descUserAuth, some server.netConfig.userPassword) := by
      simp [CommandHeaderChunkBuilder.credentials, CommandHeaderChunkBuilder.passwordHash, hset]
    have heffective : effectivePasswordType server flags = cfUserPassword := by
      rw [effectivePasswordType, hrequired, if_neg]
      simp [hset, cfUserPassword, cfAdminPassword]
    simp [hcredentials, heffective, pwdCheckPassed, descUserAuth, descNoAuth]

theorem dispatched_sendCopies (sb : SharedBuffers) (network : Bool) (rest : List Effect) :
    Effect.dispatched (sendCopies server flags network sb ++ rest) = Effect.dispatched rest := by
  unfold sendCopies sendCopy
  split_ifs <;> rfl

theorem dispatched_processCommandObject {sb : SharedBuffers}
    (hflags : getCommandFlags (CommandAccessor.getCommandIdByte sb) &&& cfPasswordMask =
      cfUserPassword)
    (hpassword : CommandAccessor.getCommandPwdHash sb =
      CommandHeaderChunkBuilder.credentials server.netConfig false) :
    Effect.dispatched (processCommandObject server ⟨sb, false⟩) =
      some (replacePassword server (getCommandFlags (CommandAccessor.getCommandIdByte sb)) sb) := by
  have hne : getCommandFlags (CommandAccessor.getCommandIdByte sb) ≠ 0 := by
    intro hzero
    rw [hzero] at hflags
    exact absurd hflags (by decide)
  simp only [processCommandObject, CommandReader.getCommandId, hne, ne_eq, not_false_eq_true,
    if_true, hpassword, pwdCheckPassed_credentials hflags]
  rw [dispatched_sendCopies]
  rfl

end ConnectionThread

/-! ## Storing -/

namespace Processing

theorem run_storePayload {s : CacheServer} {domain : Domain} (h : s.objects domain = [])
    (name : List UInt8) (payload : StoredPayload) (other : Interference) :
    (storePayload domain name payload other).run s = (s.nextRef, { s with
      objects := update s.objects domain
        [⟨s.nextRef, name, payload, s.now, maxTimestamp, false, false, []⟩]
      nextRef := s.nextRef + 1 }) := by
  have hfind : (findAlive domain name other).run s = (none, s) := by
    simp only [findAlive, run_bind, run_get, run_pure, h, List.find?_nil, Option.filter_none]
  simp only [storePayload, run_bind, hfind]
  simp only [run_get, h]
  rfl

end Processing

namespace StoreCommand

open Processing

variable {cr : CommandReader} {stack : Nat → BitVec 64} {s : CacheServer}

theorem run_write (hid : cr.getCommandId = cmdWrite) (hnetwork : cr.network = false)
    {id : List UInt8} {ua lifetime : Nat} {payload : StoredPayload}
    (hargs : (Decoder.writeArguments cr (cr.chunks stack)).1 = some (id, ua, lifetime, payload))
    (hempty : s.objects .session = []) (other : Interference) :
    ((process cr stack other).run s).2 = { s with
      objects := update s.objects .session
        [⟨s.nextRef, id, payload, s.now, maxTimestamp, false, false, []⟩]
      nextRef := s.nextRef + 1
      events := s.events ++ [.notify .session (.write s.nextRef ua lifetime)] ++ [.dispose] } := by
  rw [process_eq other (show cr.getCommandId = StoreCommand.write.id from hid), handler]
  simp only [SessionObjectStore.processWriteCommand, CommandReader.ifValid_some _ _ hargs, run_bind,
    run_map, run_storePayload hempty, postOkResponse, hnetwork]
  rfl

theorem run_save (hid : cr.getCommandId = cmdSave) (hnetwork : cr.network = false)
    {id : List UInt8} {payload : StoredPayload}
    (hargs : (Decoder.saveArguments cr (cr.chunks stack)).1 = some (id, payload))
    (hempty : s.objects .page = []) (other : Interference) :
    ((process cr stack other).run s).2 = { s with
      objects := update s.objects .page
        [⟨s.nextRef, id, payload, s.now, maxTimestamp, false, false, []⟩]
      nextRef := s.nextRef + 1
      events := s.events ++ [.forward true (some s.nextRef)] ++ [.dispose] } := by
  rw [process_eq other (show cr.getCommandId = StoreCommand.save.id from hid), handler]
  simp only [PageObjectStore.processSaveCommand, CommandReader.ifValid_some _ _ hargs, run_bind,
    run_map, run_storePayload hempty, postOkResponse, hnetwork]
  rfl

end StoreCommand

namespace TagStore

open Processing

theorem run_save {cr : CommandReader} {stack : Nat → BitVec 64} {s : CacheServer}
    {object : CacheObject} {ua lifetime : Nat} {names : List (List UInt8)}
    (hsaved : (Decoder.savedTags (cr.chunks stack)).1 = some (ua, lifetime, names))
    (hobjects : s.objects .page = [object]) (halive : object.beingDeleted = false) :
    ((processSaveCommand cr stack object.ref).run s).2 = { s with
      objects := update s.objects .page
        [{ object with linkedByTM := true, tags := names.dedup }]
      events := s.events ++ [.notify .page (.write object.ref ua lifetime)] } := by
  simp only [processSaveCommand, run_bind, run_get, hobjects]
  simp only [List.find?_cons, decide_true, halive, Bool.not_false, Bool.or_true, if_true, hsaved,
    run_bind]
  rw [change, notify, record]
  change ({ s with
      objects := update s.objects .page ((s.objects .page).map fun o =>
        if o.ref = object.ref then { o with linkedByTM := true, tags := names.dedup } else o)
      events := s.events ++ [.notify .page (.write object.ref ua lifetime)] } : CacheServer) = _
  rw [hobjects, List.map_singleton, if_pos rfl, halive]

end TagStore

namespace TagIndex

theorem Sound.mem_tagNamesOf_save {config : TagConfiguration} {s : TagIndex}
    {refs : Nat → List TagRef} {extra : Nat → Nat} (h : s.Sound config refs extra) {p : Nat}
    (hp : p ∈ s.pages) (halive : s.beingDeleted p = false) {names : List (List UInt8)}
    (hne : names ≠ []) (hcount : names.toFinset.card < ushortRange) (hroom : s.HasRoom 1) :
    ∃ s', s.step config (.save p names) = some s' ∧ ∀ tag, tag ∈ s'.tagNamesOf p ↔ tag ∈ names := by
  obtain ⟨c, refs', hsave, hsound, -⟩ := h.processSaveCommand hp
    (fun hgone => by rw [halive] at hgone; exact absurd hgone.2 (by decide))
    (fun hnil => absurd hnil hne) hroom
  have hlength : (tagNames names).length < ushortRange := by
    rwa [length_tagNames, if_neg hne]
  have hnames := (hsound hlength).names p (by simp [TagIndex.saveResult])
  refine ⟨_, (if_pos hp).trans hsave, fun tag => ?_⟩
  rw [tagNamesOf, hnames]
  simp [TagIndex.saveResult, tagNames, hne]

end TagIndex

/-! ## Sessions -/

namespace LoadingServer

variable {server : LoadingServer} {time : UInt32} {sb : SharedBuffers} {limit : Nat}

variable {e : UInt32}

/-- Buffers with a command that carries the user password of the server. -/
structure Receives (server : LoadingServer) (c : FileCommand) (sb : SharedBuffers) (limit : Nat) :
    Prop extends c.Brings sb limit where
  password : CommandAccessor.getCommandPwdHash sb =
    CommandHeaderChunkBuilder.credentials server.connections.netConfig false

theorem Receives.exists_dispatched {c : FileCommand} (h : server.Receives c sb limit)
    (command : UInt8) (hcommand : c.command = command)
    (hflags : ConnectionThread.getCommandFlags command &&& ConnectionThread.cfPasswordMask =
      ConnectionThread.cfUserPassword) :
    ∃ sb', Effect.dispatched
        (ConnectionThread.processCommandObject server.connections ⟨sb, false⟩) = some sb' ∧
      c.Brings sb' limit := by
  rw [← hcommand, ← h.command] at hflags
  exact ⟨_, ConnectionThread.dispatched_processCommandObject hflags h.password,
    h.replacePassword _ _⟩

theorem processWriteMessage_create (onWrite : TimedObject → UInt32 → TimedObject) (ua : Nat)
    (lifetime : UInt32) :
    (TimedObject.create time).processWriteMessage onWrite time ua lifetime =
      onWrite ⟨ua, true, false, time, maxTime, 0⟩ lifetime := rfl

theorem onWrite_session (so : SessionOptimizer) (o : TimedObject) (lifetime : UInt32) :
    (so.onWrite o lifetime).isLinked = o.isLinked ∧
      (so.onWrite o lifetime).userAgent = o.userAgent := by
  simp only [SessionOptimizer.onWrite, TimedObject.incrementNumWrites]
  split_ifs <;> exact ⟨rfl, rfl⟩

theorem onWrite_page (po : PageOptimizer) (o : TimedObject) (lifetime : UInt32) :
    (po.onWrite o lifetime).isLinked = o.isLinked ∧
      (po.onWrite o lifetime).userAgent = o.userAgent := by
  unfold PageOptimizer.onWrite
  split_ifs <;> exact ⟨rfl, rfl⟩

theorem toNat_sub_time (h : time ≤ e) : (e - time).toNat = e.toNat - time.toNat :=
  UInt32.toNat_sub_of_le _ _ h

theorem time_add_sub (h : time ≤ e) :
    time.toUInt64 + (e - time).toUInt64 = e.toUInt64 := by
  have hle := UInt32.le_iff_toNat_le.mp h
  have hlt := e.toNat_lt
  rw [← UInt64.toNat_inj, UInt64.toNat_add, UInt32.toNat_toUInt64, UInt32.toNat_toUInt64,
    UInt32.toNat_toUInt64, toNat_sub_time h]
  omega

theorem add_eq_iff {lifetime : UInt32} : time + lifetime = e ↔ lifetime = e - time := by
  rw [eq_sub_iff_add_eq, add_comm]

theorem requested_eq (h : time < e) :
    (if maxTime.toUInt64 ≤ time.toUInt64 + (e - time).toUInt64 then maxTime.toUInt64 - 1
      else time.toUInt64 + (e - time).toUInt64).toUInt32 = if e < maxTime then e else maxTime -
      1 := by
  rw [time_add_sub (UInt32.le_of_lt h)]
  have hle : maxTime.toUInt64 ≤ e.toUInt64 ↔ ¬e < maxTime := by
    rw [UInt64.le_iff_toNat_le, UInt32.toNat_toUInt64, UInt32.toNat_toUInt64,
      UInt32.lt_iff_toNat_lt, Nat.not_lt]
  by_cases hlt : e < maxTime
  · rw [if_neg (fun h => hle.mp h hlt), if_pos hlt, UInt32.toUInt32_toUInt64]
  · rw [if_pos (hle.mpr hlt), if_neg hlt]
    rfl

/-- A new session expires when it should if its lifetime is that of a first write, or if it belongs
to a regular user and does not last for ever. -/
theorem writtenSession_iff (so : SessionOptimizer) (h : time < e) (ua : Nat) :
    ((TimedObject.create time).processWriteMessage so.onWrite time ua (e - time)).expirationTime =
      e ↔ if ua = userAgentUser then e < maxTime
      else e = time + (so.firstWriteLifetimes ua).seconds := by
  have hle := UInt32.lt_iff_toNat_lt.mp h
  have hsub := toNat_sub_time (UInt32.le_of_lt h)
  rw [processWriteMessage_create, SessionOptimizer.onWrite]
  by_cases hua : ua = userAgentUser
  · rw [if_pos hua]
    by_cases hmax : e - time = maxTime
    · -- the largest lifetime stands for the default, which is shorter
      rw [if_neg (fun h => h.2 hmax)]
      refine iff_of_false (fun heq => ?_) (fun hlt => ?_)
      · have hfirst : (so.firstWriteLifetimes ua).seconds = e - time := add_eq_iff.mp heq
        have hd := (so.firstWriteLifetimes ua).toNat_le
        rw [hfirst, hmax] at hd
        exact absurd hd (by decide)
      · rw [UInt32.lt_iff_toNat_lt, ← hmax, hsub] at hlt
        omega
    · have hne : e - time ≠ 0 := by
        intro hzero
        rw [hzero] at hsub
        simp only [UInt32.toNat_zero] at hsub
        omega
      rw [if_pos ⟨hua, hmax⟩, if_pos hne]
      simp only [requested_eq h]
      split_ifs with hlt
      · exact iff_of_true rfl hlt
      · refine iff_of_false (fun heq => hlt ?_) hlt
        rw [← heq]
        decide
  · rw [if_neg (fun h => hua h.1), if_neg hua]
    exact eq_comm

theorem clip_eq_iff {most lifetime : UInt32} :
    PageOptimizer.clip most lifetime = lifetime ↔ lifetime ≤ most := by
  unfold PageOptimizer.clip
  split_ifs with hlt
  · rw [UInt32.lt_iff_toNat_lt] at hlt
    rw [UInt32.le_iff_toNat_le, ← UInt32.toNat_inj]
    omega
  · exact iff_of_true rfl (UInt32.not_lt.mp hlt)

theorem clip_le (most lifetime : UInt32) : PageOptimizer.clip most lifetime ≤ most := by
  unfold PageOptimizer.clip
  split_ifs with hlt
  · exact UInt32.le_refl _
  · exact UInt32.not_lt.mp hlt

theorem clip_one_eq_zero_iff {most : UInt32} : PageOptimizer.clip most 1 = 0 ↔ most = 0 := by
  unfold PageOptimizer.clip
  split_ifs with hlt
  · exact Iff.rfl
  · refine iff_of_false (by decide) ?_
    rintro rfl
    exact hlt (by decide)

/-- A new page expires when it should if its lifetime is not above the maximum. -/
theorem writtenPage_iff (po : PageOptimizer) (h : time ≤ e) (ua : Nat) :
    ((TimedObject.create time).processWriteMessage po.onWrite time ua
        (if time < e then e - time else 1)).expirationTime = e ↔
      if time < e then e - time ≤ (po.maxLifetimes ua).seconds
      else (po.maxLifetimes ua).seconds = 0 := by
  have hsub := toNat_sub_time h
  rw [processWriteMessage_create]
  by_cases hlt : time < e
  · have hne : e - time ≠ 0 := by
      intro hzero
      rw [hzero] at hsub
      rw [UInt32.lt_iff_toNat_lt] at hlt
      simp only [UInt32.toNat_zero] at hsub
      omega
    rw [if_pos hlt, if_pos hlt, PageOptimizer.onWrite, if_pos hne]
    simp only [add_eq_iff]
    by_cases hmax : e - time = maxTime
    · -- the largest lifetime stands for the default, and no maximum is as large
      have hd := (po.maxLifetimes ua).toNat_le
      have hlarge : maxTime.toNat = 2147483647 := rfl
      have hnot : ¬maxTime ≤ (po.maxLifetimes ua).seconds := by
        rw [UInt32.le_iff_toNat_le]
        omega
      rw [if_pos hmax, hmax]
      exact iff_of_false (fun heq => hnot (heq ▸ clip_le _ _)) hnot
    · rw [if_neg hmax]
      exact clip_eq_iff
  · obtain rfl : time = e := UInt32.le_antisymm h (UInt32.not_lt.mp hlt)
    rw [if_neg hlt, if_neg hlt, PageOptimizer.onWrite, if_pos (by decide)]
    simp only [add_eq_iff, sub_self, if_neg (by decide : ¬(1 : UInt32) = maxTime)]
    exact clip_one_eq_zero_iff

theorem execute_write {so : DumpedObject}
    (hreceives : server.Receives (SessionObjectStore.fileCommand so time) sb limit)
    (stack stack' : Nat → BitVec 64) (other : Interference) {s : CacheServer}
    (hs : s.IsEmpty time) :
    (server.execute sb stack stack' other s).objects .session =
        [⟨s.nextRef, so.name, so.payload.stored, s.now, maxTimestamp, false, false, []⟩] ∧
      (server.execute sb stack stack' other s).events =
        [.notify .session (.write s.nextRef so.userAgent (so.expirationTime - time).toNat),
          .dispose] := by
  obtain ⟨sb', hdispatched, hbrings'⟩ := hreceives.exists_dispatched cmdWrite rfl (by decide)
  have hlt : (so.expirationTime - time).toNat < uintRange := UInt32.toNat_lt _
  have hat : (CommandReader.chunks ⟨sb', false⟩ stack).At limit
      (.string so.name :: .number (so.userAgent : Nat) ::
        .number (so.expirationTime - time).toNat :: (none : Option Int).toList.map .number) :=
    hbrings'.reader_at (SessionObjectStore.fileCommand_valid so time) false stack
  have hargs := (StoreCommand.writeArguments_eq so.isName (isValid_natCast hlt)
    (fun _ h => absurd h (Option.not_mem_none _)) (hbrings'.payload false) hat).trans
      (if_pos so.userAgent_accepted)
  rw [so.toUserAgent_eq, lifetimeOf_natCast hlt] at hargs
  have hid : CommandReader.getCommandId ⟨sb', false⟩ = cmdWrite := hbrings'.command
  rw [execute, hdispatched]
  simp only [StoreCommand.run_write hid rfl hargs (hs.1 .session) other, hs.2.2]
  exact ⟨update_self Domain.session _ s.objects, rfl⟩

def emptyServer (time : UInt32) : CacheServer := ⟨fun _ => [], 0, time.toNat, 0, none, false, []⟩

theorem emptyServer_isEmpty (time : UInt32) : (emptyServer time).IsEmpty time :=
  ⟨fun _ => rfl, rfl, rfl⟩

variable (server) in
theorem restoresSession_iff {so : DumpedObject} (hlater : time < so.expirationTime)
    (hreceives : server.Receives (SessionObjectStore.fileCommand so time) sb limit) :
    server.RestoresSession so time sb ↔
      if (so.userAgent : Nat) = userAgentUser then so.expirationTime < maxTime
      else so.expirationTime =
      time + (server.sessions.firstWriteLifetimes so.userAgent).seconds := by
  have hoptimized (ref : Nat) : optimized server.sessions.onWrite .session time
      [.notify .session (.write ref so.userAgent (so.expirationTime - time).toNat), .dispose] ref =
        (TimedObject.create time).processWriteMessage server.sessions.onWrite time so.userAgent
          (so.expirationTime - time) := by
    simp [optimized]
  rw [← writtenSession_iff server.sessions hlater]
  constructor
  · intro h
    obtain ⟨object, hobjects, hrestored⟩ := h (fun _ => 0) (fun _ => 0) ⟨false, fun _ => .deleted⟩ _
      (emptyServer_isEmpty time)
    obtain ⟨hobjects', hevents⟩ := execute_write hreceives (fun _ => 0) (fun _ => 0)
      ⟨false, fun _ => .deleted⟩ (emptyServer_isEmpty time)
    obtain rfl := List.head_eq_of_cons_eq (hobjects'.symm.trans hobjects)
    rw [hevents, hoptimized] at hrestored
    exact hrestored.expirationTime
  · intro h stack stack' other s hs
    obtain ⟨hobjects, hevents⟩ := execute_write hreceives stack stack' other hs
    obtain ⟨hlinked, hua⟩ := onWrite_session server.sessions
      ⟨so.userAgent, true, false, time, maxTime, 0⟩ (so.expirationTime - time)
    refine ⟨_, hobjects, ?_⟩
    rw [hevents, hoptimized]
    exact ⟨rfl, rfl, rfl, hlinked, hua, h⟩

/-! ## Pages -/

theorem isInRange_natCast {n : Nat} (h : n < uintRange) :
    NumberChunk.isInRange (-1) uintMax n = true := by
  have hmax : (uintMax : Int) = uintRange - 1 := by decide
  rw [NumberChunk.isInRange, Bool.and_eq_true, decide_eq_true_eq, decide_eq_true_eq]
  omega

section Page

variable {po : DumpedPage}

theorem reader_at_page
    (hbrings : (PageObjectStore.createFileCommandWriter po time).Brings sb limit)
    (stack : Nat → BitVec 64) : (CommandReader.chunks ⟨sb, false⟩ stack).At limit
      [.string po.name, .number (po.userAgent : Nat), .number (po.lifetimeAt time).toNat,
        .list po.tags] :=
  hbrings.reader_at (PageObjectStore.createFileCommandWriter_valid po time) false stack

theorem saveArguments_dumped
    (hbrings : (PageObjectStore.createFileCommandWriter po time).Brings sb limit)
    (stack : Nat → BitVec 64) :
    (Decoder.saveArguments ⟨sb, false⟩ (CommandReader.chunks ⟨sb, false⟩ stack)).1 =
      if limit ≠ uintMax then some (po.name, po.payload.stored) else none := by
  rw [StoreCommand.saveArguments_eq po.isName (isInRange_natCast (UInt32.toNat_lt _)) po.areNames
    (hbrings.payload false) (reader_at_page hbrings stack)]
  simp only [po.userAgent_accepted, and_self, true_and]
  rfl

theorem savedTags_dumped
    (hbrings : (PageObjectStore.createFileCommandWriter po time).Brings sb limit)
    (stack : Nat → BitVec 64) :
    (Decoder.savedTags (CommandReader.chunks ⟨sb, false⟩ stack)).1 =
      some ((po.userAgent : Nat), (po.lifetimeAt time).toNat, po.tags) := by
  rw [StoreCommand.savedTags_eq (reader_at_page hbrings stack), po.toUserAgent_eq,
    lifetimeOf_natCast (UInt32.toNat_lt _)]

theorem execute_save
    (hreceives : server.Receives (PageObjectStore.createFileCommandWriter po time) sb limit)
    (hlimit : limit ≠ uintMax) (stack stack' : Nat → BitVec 64) (other : Interference)
    {s : CacheServer} (hs : s.IsEmpty time) :
    (server.execute sb stack stack' other s).objects .page =
        [⟨s.nextRef, po.name, po.payload.stored, s.now, maxTimestamp, false, true, po.tags.dedup⟩] ∧
      (server.execute sb stack stack' other s).events =
        [.forward true (some s.nextRef), .dispose,
          .notify .page (.write s.nextRef po.userAgent (po.lifetimeAt time).toNat)] := by
  obtain ⟨sb', hdispatched, hbrings'⟩ := hreceives.exists_dispatched cmdSave rfl (by decide)
  have hargs := (saveArguments_dumped hbrings' stack).trans (if_pos hlimit)
  have hid : CommandReader.getCommandId ⟨sb', false⟩ = cmdSave := hbrings'.command
  rw [execute, hdispatched]
  simp only [StoreCommand.run_save hid rfl hargs (hs.1 .page) other, hs.2.2, List.nil_append,
    List.cons_append, List.foldl_cons, List.foldl_nil, manageTags]
  have hrun := TagStore.run_save (savedTags_dumped hbrings' stack')
    (update_self Domain.page [⟨s.nextRef, po.name, po.payload.stored, s.now, maxTimestamp,
      false, false, []⟩] s.objects : CacheServer.objects { s with
        objects := update s.objects .page
          [⟨s.nextRef, po.name, po.payload.stored, s.now, maxTimestamp, false, false, []⟩]
        nextRef := s.nextRef + 1
        events := [.forward true (some s.nextRef), .dispose] } .page = _) rfl
  dsimp only at hrun
  rw [hrun]
  exact ⟨by simp, rfl⟩

theorem foldl_manageTags {events : List ServerEvent}
    (h : ∀ event ∈ events, ∀ cloned ref, event ≠ .forward cloned ref) (cr : CommandReader)
    (stack : Nat → BitVec 64) (s : CacheServer) : events.foldl (manageTags cr stack) s = s := by
  induction events with
  | nil => rfl
  | cons event events ih =>
    rw [List.forall_mem_cons] at h
    have hevent : manageTags cr stack s event = s := by
      cases event with
      | forward cloned ref => exact absurd rfl (h.1 cloned ref)
      | _ => rfl
    rw [List.foldl_cons, hevent, ih h.2]

theorem execute_refused
    (hreceives : server.Receives (PageObjectStore.createFileCommandWriter po time) sb uintMax)
    (stack stack' : Nat → BitVec 64) (other : Interference) {s : CacheServer}
    (hs : s.IsEmpty time) :
    (server.execute sb stack stack' other s).objects .page = [] := by
  obtain ⟨sb', hdispatched, hbrings'⟩ := hreceives.exists_dispatched cmdSave rfl (by decide)
  have hargs := (saveArguments_dumped hbrings' stack).trans (if_neg (not_not.mpr rfl))
  have hid : CommandReader.getCommandId ⟨sb', false⟩ = StoreCommand.save.id := hbrings'.command
  have hpasses : StoreCommand.passes .save ⟨sb', false⟩ (CommandReader.chunks ⟨sb', false⟩ stack) =
      false := by
    rw [StoreCommand.passes, hargs]
    rfl
  obtain ⟨hobjects, tail, hevents, htail⟩ := StoreCommand.refused_of_not_passes other s hid hpasses
  rw [execute, hdispatched]
  have hquiet : ∀ event ∈ ((StoreCommand.process ⟨sb', false⟩ stack other).run s).2.events,
      ∀ cloned ref, event ≠ .forward cloned ref := by
    rw [hevents, hs.2.2, List.nil_append, List.forall_mem_cons]
    refine ⟨fun _ _ => by simp [errorEvent], fun event hevent _ _ => ?_⟩
    obtain rfl | rfl := htail event hevent <;> simp [errorEvent]
  simp only [foldl_manageTags hquiet, hobjects, hs.1]

theorem link_eq
    (hreceives : server.Receives (PageObjectStore.createFileCommandWriter po time) sb limit)
    (stack : Nat → BitVec 64) (name : List UInt8) :
    ∃ index, server.link sb stack name = some index ∧
      ∀ tag, tag ∈ index.tagNamesOf 0 ↔ tag ∈ po.tags := by
  obtain ⟨sb', hdispatched, hbrings'⟩ := hreceives.exists_dispatched cmdSave rfl (by decide)
  obtain ⟨hsound, -⟩ := TagIndex.create_sound server.tags
  have hstep : (TagIndex.create server.tags).step server.tags (.createPage name) = some _ := rfl
  obtain ⟨hsound₁, -, -⟩ := hsound.createPage name hstep
  obtain ⟨index, hsave, htags⟩ := hsound₁.mem_tagNamesOf_save (p := 0) (by simp [TagIndex.create])
    (by simp [TagIndex.create]) po.tags_ne ((List.toFinset_card_le _).trans_lt po.counted)
    fun _ _ _ => (by decide : 0 + 1 < uintRange)
  refine ⟨index, ?_, htags⟩
  simp only [link, hdispatched, savedTags_dumped hbrings' stack, Option.bind_eq_bind,
    Option.bind_some, hstep]
  exact hsave

variable (server) in
theorem restoresPage_iff (halive : time ≤ po.expirationTime)
    (hreceives : server.Receives (PageObjectStore.createFileCommandWriter po time) sb limit) :
    server.RestoresPage po time sb ↔ limit ≠ uintMax ∧
      if time < po.expirationTime then
        po.expirationTime - time ≤ (server.pages.maxLifetimes po.userAgent).seconds
      else (server.pages.maxLifetimes po.userAgent).seconds = 0 := by
  have hoptimized (ref : Nat) : optimized server.pages.onWrite .page time
      [.forward true (some ref), .dispose,
        .notify .page (.write ref po.userAgent (po.lifetimeAt time).toNat)] ref =
        (TimedObject.create time).processWriteMessage server.pages.onWrite time po.userAgent
          (po.lifetimeAt time) := by
    simp [optimized]
  rw [← writtenPage_iff server.pages halive]
  constructor
  · intro h
    obtain ⟨object, hobjects, hrestored, -⟩ := h (fun _ => 0) (fun _ => 0)
      ⟨false, fun _ => .deleted⟩ _ (emptyServer_isEmpty time)
    have hlimit : limit ≠ uintMax := by
      rintro rfl
      rw [execute_refused hreceives _ _ _ (emptyServer_isEmpty time)] at hobjects
      exact absurd hobjects (by simp)
    obtain ⟨hobjects', hevents⟩ := execute_save hreceives hlimit (fun _ => 0) (fun _ => 0)
      ⟨false, fun _ => .deleted⟩ (emptyServer_isEmpty time)
    obtain rfl := List.head_eq_of_cons_eq (hobjects'.symm.trans hobjects)
    rw [hevents, hoptimized] at hrestored
    exact ⟨hlimit, hrestored.expirationTime⟩
  · rintro ⟨hlimit, h⟩ stack stack' other s hs
    obtain ⟨hobjects, hevents⟩ := execute_save hreceives hlimit stack stack' other hs
    obtain ⟨hlinked, hua⟩ := onWrite_page server.pages
      ⟨po.userAgent, true, false, time, maxTime, 0⟩ (po.lifetimeAt time)
    refine ⟨_, hobjects, ?_, rfl, link_eq hreceives stack' _⟩
    rw [hevents, hoptimized]
    exact ⟨rfl, rfl, rfl, hlinked, hua, h⟩

end Page

end LoadingServer

/-! ## What is restored -/

namespace Dumped

variable (server : LoadingServer) (time : UInt32)

/-- A session of a regular user that does not last for ever, a session of anybody else that has the
lifetime of one that was written for the first time, or a page whose lifetime is not above the
maximum and whose command is not one of the largest. -/
def IsKept : Dumped → Prop
  | session so => time < so.expirationTime →
      if (so.userAgent : Nat) = userAgentUser then so.expirationTime < maxTime
      else so.expirationTime = time + (server.sessions.firstWriteLifetimes so.userAgent).seconds
  | page po =>
      ((PageObjectStore.createFileCommandWriter po time).header
        server.connections.netConfig).length < uintMax ∧
      if time < po.expirationTime then
        po.expirationTime - time ≤ (server.pages.maxLifetimes po.userAgent).seconds
      else (server.pages.maxLifetimes po.userAgent).seconds = 0

theorem restores_session_iff (so : DumpedObject) :
    (session so).Restores server time ↔ (session so).IsKept server time := by
  have hvalid := SessionObjectStore.fileCommand_valid so time
  by_cases hlater : time < so.expirationTime
  · have hiff (hlt : ((SessionObjectStore.fileCommand so time).header
        server.connections.netConfig).length < uintRange) (sb : SharedBuffers)
        (hholds : sb.Holds ((SessionObjectStore.fileCommand so time).header
          server.connections.netConfig) so.payload.bytes)
        (havailable : ((SessionObjectStore.fileCommand so time).header
          server.connections.netConfig).length ≤ sb.getAvailableHeaderSize) :=
      LoadingServer.restoresSession_iff server hlater
        ⟨FileCommand.brings_of_holds hvalid (List.cons_ne_nil _ _) hlt hholds havailable,
          CommandHeaderChunkBuilder.getCommandPwdHash_built hvalid.command_ne hholds.header⟩
    simp only [Restores, IsKept, SessionObjectStore.createFileCommandWriter, if_true,
      Option.mem_some_iff, forall_eq', FileCommand.readsBack_iff hvalid hiff, hlater, true_imp_iff]
    exact and_iff_right (SessionObjectStore.length_header_lt so time _)
  · simp [Restores, IsKept, SessionObjectStore.createFileCommandWriter, hlater]

theorem restores_page_iff {po : DumpedPage} (halive : time ≤ po.expirationTime) :
    (page po).Restores server time ↔ (page po).IsKept server time := by
  have hvalid := PageObjectStore.createFileCommandWriter_valid po time
  have hiff (hlt : ((PageObjectStore.createFileCommandWriter po time).header
      server.connections.netConfig).length < uintRange) (sb : SharedBuffers)
      (hholds : sb.Holds ((PageObjectStore.createFileCommandWriter po time).header
        server.connections.netConfig) po.payload.bytes)
      (havailable : ((PageObjectStore.createFileCommandWriter po time).header
        server.connections.netConfig).length ≤ sb.getAvailableHeaderSize) :=
    LoadingServer.restoresPage_iff server halive
      ⟨FileCommand.brings_of_holds hvalid (List.cons_ne_nil _ _) hlt hholds havailable,
        CommandHeaderChunkBuilder.getCommandPwdHash_built hvalid.command_ne hholds.header⟩
  rw [Restores, IsKept, FileCommand.readsBack_iff hvalid hiff, ← and_assoc]
  refine and_congr_left' ?_
  have hrange : uintRange = uintMax + 1 := by decide
  omega

/-- An object that has not expired is restored as it was if and only if its expiration time is one
that the optimizer gives to a new object. -/
theorem restores_iff (d : Dumped) (halive : time ≤ d.expirationTime) :
    d.Restores server time ↔ d.IsKept server time := by
  cases d with
  | session so => exact restores_session_iff server time so
  | page po => exact restores_page_iff server time halive

/-! ### Some objects -/

def exampleServer : LoadingServer :=
  ⟨⟨⟨0, 0, 0, false, false, false⟩, .noPassword, fun _ => false, fun _ _ => true⟩,
    .uniform ⟨3600, by decide⟩ ⟨86400, by decide⟩ 1, .uniform ⟨86400, by decide⟩,
    TagIndex.oneTagTable⟩

def exampleSession (userAgent : Fin numUserAgents) (expirationTime : UInt32) : DumpedObject :=
  ⟨[0x61], by decide, userAgent, ⟨[1, 2, 3], 3, ctNone⟩, by decide, expirationTime⟩

def examplePage (expirationTime : UInt32) : DumpedPage :=
  ⟨exampleSession 1 expirationTime, [[0x62], [0x63]], by decide, by decide, by decide, by decide⟩

theorem restores_page_for_a_day : (1000 ≤ (page (examplePage 87400)).expirationTime) ∧
    ((page (examplePage 87400)).Restores exampleServer 1000 ↔
      (page (examplePage 87400)).IsKept exampleServer 1000) ∧
    (page (examplePage 87400)).IsKept exampleServer 1000 :=
  ⟨by decide, restores_iff exampleServer 1000 _ (by decide), by decide, by decide⟩

/-- A session or a page that lasts for ever expires after a restoration, and a session of a bot gets
a new lifetime. -/
theorem expiration_lost : ¬(session (exampleSession 3 maxTime)).Restores exampleServer 1000 ∧
    ¬(session (exampleSession 1 87400)).Restores exampleServer 1000 ∧
    ¬(page (examplePage maxTime)).Restores exampleServer 1000 := by
  refine ⟨?_, ?_, ?_⟩
  · rw [restores_session_iff]
    exact fun h => absurd (h (by decide)) (by decide)
  · rw [restores_session_iff]
    exact fun h => absurd (h (by decide)) (by decide)
  · rw [restores_page_iff _ _ (by decide)]
    exact fun h => absurd h.2 (by decide)

end Dumped

end CyberCache
