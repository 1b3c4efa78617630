import CyberCache.Lib.Runs

/-!
# Recompression of an object

The optimizer compresses the payload of an object again, with stronger engines than clients use. It
locks the object, unpacks the payload, and unlocks the object while it tries the engines, so that
other threads can go on to use it. When it has locked the object again, the flags of the object tell
whether the result may be used: whoever sets another buffer clears `HOF_BEING_OPTIMIZED`.

This is the life of a single object. Another thread that has locked the object writes, reads and
deletes it in any order; readers release the object without a lock. The optimizer can also evict the
object while it compresses it, and then counts as another thread.
-/

namespace CyberCache

inductive Compressor where
  | none | lzf | snappy | lz4 | lzss3 | brotli | zstd | zlib | lzham
deriving DecidableEq, Repr

structure CompressorEngines where
  /-- No bytes if there is no such engine, or if it cannot compress the data. -/
  pack : Compressor → List UInt8 → List UInt8
  unpack : Compressor → List UInt8 → Nat → Option (List UInt8)
  length_unpack : ∀ c bytes usize, ∀ payload ∈ unpack c bytes usize, payload.length = usize
  unpack_pack : ∀ c bytes, pack c bytes ≠ [] → unpack c (pack c bytes) bytes.length = some bytes

def CompressorEngines.runLength : CompressorEngines where
  pack c bytes := if c = .zlib ∧ bytes = List.replicate bytes.length (bytes.headD 0) then
    [bytes.headD 0] else []
  unpack _ bytes usize := some (List.replicate usize (bytes.headD 0))
  length_unpack := by simp
  unpack_pack c bytes h := by
    split_ifs at h ⊢ with hsame
    · simpa using hsame.2.symm
    · exact absurd rfl h

structure PayloadBuffer where
  compressor : Compressor
  bytes : List UInt8
  usize : Nat
deriving DecidableEq, Repr

def PayloadBuffer.size (b : PayloadBuffer) : Nat := b.bytes.length

/-- What clients get if they ask for the payload. -/
def PayloadBuffer.contents (library : CompressorEngines) (b : PayloadBuffer) :
    Option (List UInt8) :=
  if b.compressor = .none then if b.size = b.usize then some b.bytes else none
  else library.unpack b.compressor b.bytes b.usize

theorem PayloadBuffer.length_contents {library : CompressorEngines} {b : PayloadBuffer}
    {payload : List UInt8} (h : b.contents library = some payload) : payload.length = b.usize := by
  rw [contents] at h
  split_ifs at h with hplain hsize
  · cases h
    exact hsize
  · exact library.length_unpack _ _ _ payload h

inductive LockOwner where
  | nobody
  | optimizer
  | other
deriving DecidableEq, Repr

/-- What the optimizer knows about the buffer that it examines. -/
structure Snapshot where
  compressor : Compressor
  size : Nat
  usize : Nat
  payload : List UInt8
  length_payload : payload.length = usize
  /-- The number of writes at that time, and the buffer; not part of the program. -/
  numWrites : Nat
  bufferId : Nat

inductive OptimizationPass where
  | idle
  | locked
  | unpacked (snapshot : Snapshot)
  | compressing (snapshot : Snapshot) (engines : List Compressor) (best : Option PayloadBuffer)
  | relocked (snapshot : Snapshot) (best : Option PayloadBuffer)
  /-- The result, if there is one, was not used. -/
  | declined (snapshot : Snapshot)
  | finishing (snapshot : Snapshot) (produced : Option Nat)

structure OptimizedObject where
  buffer : Option PayloadBuffer
  beingOptimized : Bool
  optimized : Bool
  beingDeleted : Bool
  numReaders : Nat
  owner : LockOwner
  pass : OptimizationPass
  /-- What was written last. This and what follows is not part of the program. -/
  payload : List UInt8
  numWrites : Nat
  bufferId : Nat

structure RecompressionConfig where
  minRecompressionSize : Nat
  minRecompressionSize_pos : 0 < minRecompressionSize
  /-- `o_compressors`; engines are tried in this order up to `CT_NONE`. -/
  compressors : List Compressor

namespace OptimizedObject

def start : OptimizedObject where
  buffer := none
  beingOptimized := false
  optimized := false
  beingDeleted := false
  numReaders := 0
  owner := .nobody
  pass := .idle
  payload := []
  numWrites := 0
  bufferId := 0

def setBuffer (s : OptimizedObject) (b : PayloadBuffer) : OptimizedObject :=
  let s := if s.buffer.isSome then { s with beingOptimized := false, optimized := false } else s
  { s with buffer := some b, bufferId := s.bufferId + 1 }

inductive Action where
  | lock
  /-- `transfer_payload()`. -/
  | write (b : PayloadBuffer)
  | registerReader
  | flagBeingDeleted
  | disposeBuffer
  | unlock
  | unregisterReader
  /-- The steps of the optimizer. -/
  | tryLock
  | examine
  | release
  | compress
  | relock
  | install
  | decline
  | finish
deriving DecidableEq, Repr

def Action.byOptimizer : Action → Bool
  | .tryLock | .examine | .release | .compress | .relock | .install | .decline | .finish => true
  | .lock | .write _ | .registerReader | .flagBeingDeleted | .disposeBuffer | .unlock
  | .unregisterReader => false

variable (library : CompressorEngines) (config : RecompressionConfig)

/-- The payload is unpacked; every payload is assumed to unpack. -/
def takeSnapshot (s : OptimizedObject) (b : PayloadBuffer) : Option Snapshot :=
  match h : b.contents library with
  | some payload => some {
      compressor := b.compressor
      size := b.size
      usize := b.usize
      payload
      length_payload := b.length_contents h
      numWrites := s.numWrites
      bufferId := s.bufferId }
  | none => none

def isOptimizable (s : OptimizedObject) : Bool :=
  !s.beingDeleted && !s.optimized && s.numReaders == 0 &&
    decide (config.minRecompressionSize ≤ (s.buffer.map (·.usize)).getD 0)

def isUndisturbed (s : OptimizedObject) : Bool :=
  !s.beingDeleted && s.beingOptimized && s.numReaders == 0

/-- The result of another engine is used if it is smaller than what there was before. -/
def tryCompressor (snapshot : Snapshot) (best : Option PayloadBuffer) (c : Compressor) :
    Option PayloadBuffer :=
  let bytes := library.pack c snapshot.payload
  let bestSize := (best.map (·.size)).getD snapshot.size
  if bytes.length ≠ 0 ∧ bytes.length < bestSize then some ⟨c, bytes, snapshot.usize⟩
  else best

def stepOther (s : OptimizedObject) : Action → Option OptimizedObject
  | .write b =>
    if s.beingDeleted then none
    else
      match b.contents library with
      | some payload =>
        let s := s.setBuffer b
        some { s with payload, numWrites := s.numWrites + 1 }
      | none => none
  | .registerReader =>
    if s.beingDeleted ∨ s.buffer = none then none
    else some { s with numReaders := s.numReaders + 1 }
  | .flagBeingDeleted => some { s with beingDeleted := true }
  | .disposeBuffer =>
    if s.beingDeleted ∧ s.numReaders = 0 then some { s with buffer := none } else none
  | .unlock => some { s with owner := .nobody }
  | _ => none

def stepOptimizer (s : OptimizedObject) : Action → Option OptimizedObject
  | .tryLock =>
    match s.pass, s.owner with
    | .idle, .nobody => some { s with owner := .optimizer, pass := .locked }
    | _, _ => none
  | .examine =>
    match s.pass, s.buffer with
    | .locked, some b =>
      if s.isOptimizable config then
        match s.takeSnapshot library b with
        | some snapshot => some { s with beingOptimized := true, pass := .unpacked snapshot }
        | none => none
      else some { s with owner := .nobody, pass := .idle }
    -- the size of no payload is zero, which is below every threshold
    | .locked, none => some { s with owner := .nobody, pass := .idle }
    | _, _ => none
  | .release =>
    match s.pass with
    | .unpacked snapshot =>
      some { s with owner := .nobody, pass := .compressing snapshot config.compressors none }
    | _ => none
  | .compress =>
    match s.pass with
    | .compressing snapshot (c :: engines) best =>
      if c = .none then some { s with pass := .compressing snapshot [] best }
      else if c ≠ snapshot.compressor then
        some { s with
          pass := .compressing snapshot engines (tryCompressor library snapshot best c) }
      else some { s with pass := .compressing snapshot engines best }
    | _ => none
  | .relock =>
    match s.pass, s.owner with
    | .compressing snapshot [] best, .nobody =>
      some { s with owner := .optimizer, pass := .relocked snapshot best }
    | _, _ => none
  | .install =>
    match s.pass with
    | .relocked snapshot (some best) =>
      if s.isUndisturbed then
        let s := s.setBuffer best
        some { s with optimized := true, pass := .finishing snapshot (some s.bufferId) }
      else some { s with pass := .declined snapshot }
    | .relocked snapshot none => some { s with pass := .declined snapshot }
    | _ => none
  | .decline =>
    match s.pass with
    | .declined snapshot =>
      some { s with
        optimized := s.optimized || s.isUndisturbed
        pass := .finishing snapshot none }
    | _ => none
  | .finish =>
    match s.pass with
    | .finishing _ _ => some { s with beingOptimized := false, owner := .nobody, pass := .idle }
    | _ => none
  | _ => none

def step (s : OptimizedObject) (action : Action) : Option OptimizedObject :=
  match action with
  | .lock => if s.owner = .nobody then some { s with owner := .other } else none
  | .unregisterReader =>
    if s.numReaders = 0 then none else some { s with numReaders := s.numReaders - 1 }
  | action =>
    if action.byOptimizer then s.stepOptimizer library config action
    else if s.owner = .other then s.stepOther library action
    else none

variable {library config} {s s' : OptimizedObject} {snapshot : Snapshot}
  {best : Option PayloadBuffer} {b : PayloadBuffer}

/-! ## Results -/

def Improves (library : CompressorEngines) (snapshot : Snapshot) (best : Option PayloadBuffer) :
    Prop :=
  ∀ b ∈ best, b.size < snapshot.size ∧ b.contents library = some snapshot.payload

theorem improves_none : Improves library snapshot none := by simp [Improves]

theorem Improves.tryCompressor (h : Improves library snapshot best) {c : Compressor}
    (hc : c ≠ .none) : Improves library snapshot (tryCompressor library snapshot best c) := by
  simp only [OptimizedObject.tryCompressor]
  split_ifs with hsmaller
  · rintro b ⟨⟩
    obtain ⟨hpacked, hlt⟩ := hsmaller
    have hle : (best.map (·.size)).getD snapshot.size ≤ snapshot.size := by
      cases best with
      | none => exact le_rfl
      | some b => exact (h b rfl).1.le
    refine ⟨hlt.trans_le hle, ?_⟩
    have hne : library.pack c snapshot.payload ≠ [] := by
      simpa using hpacked
    simpa [PayloadBuffer.contents, hc, snapshot.length_payload] using
      library.unpack_pack c snapshot.payload hne
  · exact h

/-! ## The invariant -/

/-- Nothing was written since the snapshot was taken. -/
structure Fresh (s : OptimizedObject) (snapshot : Snapshot) : Prop where
  numWrites : s.numWrites = snapshot.numWrites
  bufferId : s.bufferId = snapshot.bufferId
  payload : s.payload = snapshot.payload
  buffer : s.beingDeleted = false → ∃ b, s.buffer = some b ∧ b.size = snapshot.size

/-- The snapshot is as good as the flag says. -/
structure Tracks (s : OptimizedObject) (snapshot : Snapshot) : Prop where
  optimized : s.optimized = false
  fresh : s.beingOptimized = true → s.Fresh snapshot

theorem Tracks.move (h : s.Tracks snapshot) (owner : LockOwner) (pass : OptimizationPass)
    (numReaders : Nat) : { s with owner, pass, numReaders }.Tracks snapshot where
  optimized := h.optimized
  fresh hset := { h.fresh hset with }

def PassValid (library : CompressorEngines) (s : OptimizedObject) : OptimizationPass → Prop
  | .idle => s.beingOptimized = false
  | .locked => s.owner = .optimizer ∧ s.beingOptimized = false
  | .unpacked snapshot => s.owner = .optimizer ∧ s.Tracks snapshot
  | .compressing snapshot _ best => s.Tracks snapshot ∧ Improves library snapshot best
  | .relocked snapshot best =>
    s.owner = .optimizer ∧ s.Tracks snapshot ∧ Improves library snapshot best
  | .declined snapshot => s.owner = .optimizer ∧ s.Tracks snapshot
  | .finishing snapshot produced => s.owner = .optimizer ∧
    (s.optimized = true → s.bufferId = snapshot.bufferId ∨ produced = some s.bufferId)

structure Valid (library : CompressorEngines) (s : OptimizedObject) : Prop where
  contents : s.beingDeleted = false → ∀ b ∈ s.buffer, b.contents library = some s.payload
  pass : s.PassValid library s.pass

theorem start_valid : start.Valid library := ⟨by simp [start], rfl⟩

theorem beingOptimized_setBuffer (h : s.buffer = none → s.beingOptimized = false) :
    (s.setBuffer b).beingOptimized = false := by
  cases hbuffer : s.buffer with
  | none => simpa [setBuffer, hbuffer] using h hbuffer
  | some b' => simp [setBuffer, hbuffer]

theorem optimized_setBuffer (h : s.optimized = false) : (s.setBuffer b).optimized = false := by
  rw [setBuffer]
  split_ifs
  · rfl
  · exact h

/-! ## Steps of other threads -/

section

variable (h : s.Valid library)
include h

/-- Whoever holds the lock finds the optimizer at one of two places. -/
theorem Valid.idle_or_compressing (howner : s.owner ≠ .optimizer) :
    (s.pass = .idle ∧ s.beingOptimized = false) ∨
      ∃ snapshot engines best, s.pass = .compressing snapshot engines best ∧
        s.Tracks snapshot ∧ Improves library snapshot best := by
  have hpass := h.pass
  cases hplace : s.pass with
  | idle =>
    rw [hplace] at hpass
    exact .inl ⟨rfl, hpass⟩
  | compressing snapshot engines best =>
    rw [hplace] at hpass
    exact .inr ⟨snapshot, engines, best, rfl, hpass⟩
  | locked | unpacked | relocked | declined | finishing =>
    rw [hplace] at hpass
    exact absurd hpass.1 howner

/-- The optimizer does not notice what happens to the object unless the flags tell it. -/
theorem Valid.interfere (howner : s.owner ≠ .optimizer)
    (hpass : s'.pass = s.pass)
    (hcontents : s'.beingDeleted = false → ∀ b ∈ s'.buffer, b.contents library = some s'.payload)
    (hflag : s'.beingOptimized = true → s.beingOptimized = true)
    (htracks : ∀ snapshot, s.Tracks snapshot → s'.Tracks snapshot) : s'.Valid library := by
  refine ⟨hcontents, ?_⟩
  rw [hpass]
  rcases h.idle_or_compressing howner with ⟨hplace, hidle⟩ | ⟨snapshot, engines, best, hplace, ht,
    hbest⟩
  · rw [hplace]
    exact Bool.eq_false_iff.mpr fun hset => by simp [hflag hset] at hidle
  · rw [hplace]
    exact ⟨htracks snapshot ht, hbest⟩

theorem Valid.write (howner : s.owner = .other)
    (halive : s.beingDeleted = false) {payload : List UInt8}
    (hpayload : b.contents library = some payload) :
    { s.setBuffer b with payload, numWrites := (s.setBuffer b).numWrites + 1 }.Valid library := by
  have hother : s.owner ≠ .optimizer := by simp [howner]
  -- without a buffer there is nothing to optimize
  have hempty : s.buffer = none → s.beingOptimized = false := by
    intro hbuffer
    rcases h.idle_or_compressing hother with ⟨-, hidle⟩ | ⟨snapshot, -, -, -, htracks, -⟩
    · exact hidle
    · refine Bool.eq_false_iff.mpr fun hset => ?_
      obtain ⟨b', hb', -⟩ := (htracks.fresh hset).buffer halive
      simp [hbuffer] at hb'
  have hcleared := beingOptimized_setBuffer (b := b) hempty
  refine h.interfere hother ?_ ?_ ?_ ?_
  · rw [setBuffer]
    split_ifs <;> rfl
  · rintro - b' ⟨⟩
    exact hpayload
  · intro hset
    simp [hcleared] at hset
  · intro snapshot htracks
    exact ⟨optimized_setBuffer (b := b) htracks.optimized, fun hset => by simp [hcleared] at hset⟩

theorem Valid.stepOther (howner : s.owner = .other) {action : Action}
    (hstep : s.stepOther library action = some s') : s'.Valid library := by
  have hother : s.owner ≠ .optimizer := by simp [howner]
  cases action with
  | write b =>
    obtain ⟨halive, hs⟩ := Option.ite_none_left_eq_some.mp hstep
    split at hs
    case h_1 payload hpayload =>
      cases hs
      exact h.write howner (by simpa using halive) hpayload
    case h_2 => cases hs
  | registerReader =>
    obtain ⟨-, hs⟩ := Option.ite_none_left_eq_some.mp hstep
    cases hs
    exact h.interfere hother rfl h.contents id fun _ ht => ht.move _ _ _
  | flagBeingDeleted =>
    cases hstep
    exact h.interfere hother rfl (by simp) id fun _ ht =>
      ⟨ht.optimized, fun hset => { ht.fresh hset with buffer := by simp }⟩
  | disposeBuffer =>
    obtain ⟨⟨hdeleted, -⟩, hs⟩ := Option.ite_none_right_eq_some.mp hstep
    cases hs
    exact h.interfere hother rfl (by simp) id fun _ ht =>
      ⟨ht.optimized, fun hset => { ht.fresh hset with buffer := by simp [hdeleted] }⟩
  | unlock =>
    cases hstep
    exact h.interfere hother rfl h.contents id fun _ ht => ht.move _ _ _
  | _ => cases hstep

theorem Valid.unregisterReader (n : Nat) :
    { s with numReaders := n }.Valid library := by
  refine ⟨h.contents, ?_⟩
  have hpass := h.pass
  change { s with numReaders := n }.PassValid library s.pass
  cases hplace : s.pass with
  | idle | locked | finishing =>
    rw [hplace] at hpass
    exact hpass
  | unpacked snapshot | declined snapshot =>
    rw [hplace] at hpass
    exact ⟨hpass.1, hpass.2.move _ _ _⟩
  | compressing snapshot engines best =>
    rw [hplace] at hpass
    exact ⟨hpass.1.move _ _ _, hpass.2⟩
  | relocked snapshot best =>
    rw [hplace] at hpass
    exact ⟨hpass.1, hpass.2.1.move _ _ _, hpass.2.2⟩

end

/-! ## Steps of the optimizer -/

theorem isUndisturbed_iff :
    s.isUndisturbed = true ↔ s.beingDeleted = false ∧ s.beingOptimized = true ∧
      s.numReaders = 0 := by
  simp [isUndisturbed, and_assoc]

theorem takeSnapshot_spec (h : s.takeSnapshot library b = some snapshot) :
    b.contents library = some snapshot.payload ∧ snapshot.size = b.size ∧
      snapshot.numWrites = s.numWrites ∧ snapshot.bufferId = s.bufferId := by
  rw [takeSnapshot] at h
  split at h
  case h_1 payload hpayload =>
    cases h
    exact ⟨hpayload, rfl, rfl, rfl⟩
  case h_2 => cases h

section

variable (h : s.Valid library)
include h

theorem Valid.examine (hplace : s.pass = .locked)
    (hbuffer : s.buffer = some b) (hoptimizable : s.isOptimizable config = true)
    (hsnapshot : s.takeSnapshot library b = some snapshot) :
    { s with beingOptimized := true, pass := .unpacked snapshot }.Valid library := by
  have hpass := h.pass
  rw [hplace] at hpass
  obtain ⟨⟨⟨halive, hoptimized⟩, -⟩, -⟩ :
      ((s.beingDeleted = false ∧ s.optimized = false) ∧ s.numReaders = 0) ∧
        config.minRecompressionSize ≤ (s.buffer.map (·.usize)).getD 0 := by
    simpa [isOptimizable] using hoptimizable
  obtain ⟨hpayload, hsize, hwrites, hid⟩ := takeSnapshot_spec hsnapshot
  have hsame : s.payload = snapshot.payload :=
    Option.some.inj ((h.contents halive b hbuffer).symm.trans hpayload)
  exact ⟨h.contents, hpass.1, hoptimized, fun _ =>
    ⟨hwrites.symm, hid.symm, hsame, fun _ => ⟨b, hbuffer, hsize.symm⟩⟩⟩

/-- The result is installed: it has the payload that was written last, because nothing was written
since. -/
theorem Valid.install {best : PayloadBuffer}
    (hplace : s.pass = .relocked snapshot (some best)) (hundisturbed : s.isUndisturbed = true) :
    { s.setBuffer best with
      optimized := true
      pass := .finishing snapshot (some (s.setBuffer best).bufferId) }.Valid library := by
  have hpass := h.pass
  rw [hplace] at hpass
  obtain ⟨howner, htracks, hbest⟩ := hpass
  obtain ⟨-, hflag, -⟩ := isUndisturbed_iff.mp hundisturbed
  have howner' : (s.setBuffer best).owner = .optimizer := by
    rw [setBuffer]
    split_ifs <;> exact howner
  have hpayload : (s.setBuffer best).payload = snapshot.payload := by
    rw [setBuffer]
    split_ifs <;> exact (htracks.fresh hflag).payload
  refine ⟨?_, howner', fun _ => .inr rfl⟩
  rintro - b' ⟨⟩
  exact (hbest best rfl).2.trans (congrArg some hpayload.symm)

theorem Valid.stepExamine
    (hstep : s.stepOptimizer library config .examine = some s') : s'.Valid library := by
  have hpass := h.pass
  simp only [OptimizedObject.stepOptimizer] at hstep
  split at hstep
  case h_1 b hplace hbuffer =>
    split_ifs at hstep with hoptimizable
    · split at hstep
      case h_1 snapshot hsnapshot =>
        cases hstep
        exact h.examine hplace hbuffer hoptimizable hsnapshot
      case h_2 => cases hstep
    · cases hstep
      rw [hplace] at hpass
      exact ⟨h.contents, hpass.2⟩
  case h_2 hplace hbuffer =>
    cases hstep
    rw [hplace] at hpass
    exact ⟨h.contents, hpass.2⟩
  case h_3 => cases hstep

theorem Valid.stepCompress
    (hstep : s.stepOptimizer library config .compress = some s') : s'.Valid library := by
  have hpass := h.pass
  simp only [OptimizedObject.stepOptimizer] at hstep
  split at hstep
  case h_1 snapshot c engines best hplace =>
    rw [hplace] at hpass
    obtain ⟨htracks, hbest⟩ := hpass
    split_ifs at hstep with hnone hother
    · cases hstep
      exact ⟨h.contents, htracks.move _ _ _, hbest⟩
    · cases hstep
      exact ⟨h.contents, htracks.move _ _ _, hbest.tryCompressor hnone⟩
    · cases hstep
      exact ⟨h.contents, htracks.move _ _ _, hbest⟩
  case h_2 => cases hstep

theorem Valid.stepInstall
    (hstep : s.stepOptimizer library config .install = some s') : s'.Valid library := by
  have hpass := h.pass
  simp only [OptimizedObject.stepOptimizer] at hstep
  split at hstep
  case h_1 snapshot best hplace =>
    split_ifs at hstep with hundisturbed
    · cases hstep
      exact h.install hplace hundisturbed
    · cases hstep
      rw [hplace] at hpass
      exact ⟨h.contents, hpass.1, hpass.2.1.move _ _ _⟩
  case h_2 snapshot hplace =>
    cases hstep
    rw [hplace] at hpass
    exact ⟨h.contents, hpass.1, hpass.2.1.move _ _ _⟩
  case h_3 => cases hstep

/-- A payload that is flagged as optimized without a result is still the one that was examined. -/
theorem Valid.decline (hplace : s.pass = .declined snapshot) :
    { s with
      optimized := s.optimized || s.isUndisturbed
      pass := .finishing snapshot none }.Valid library := by
  have hpass := h.pass
  rw [hplace] at hpass
  obtain ⟨howner, htracks⟩ := hpass
  refine ⟨h.contents, howner, fun hset => .inl ?_⟩
  have hundisturbed : s.isUndisturbed = true := by simpa [htracks.optimized] using hset
  exact (htracks.fresh (isUndisturbed_iff.mp hundisturbed).2.1).bufferId

theorem Valid.stepOptimizer {action : Action}
    (hstep : s.stepOptimizer library config action = some s') : s'.Valid library := by
  have hpass := h.pass
  cases action with
  | examine => exact h.stepExamine hstep
  | compress => exact h.stepCompress hstep
  | install => exact h.stepInstall hstep
  | tryLock =>
    simp only [OptimizedObject.stepOptimizer] at hstep
    split at hstep
    case h_1 hplace howner =>
      cases hstep
      rw [hplace] at hpass
      exact ⟨h.contents, rfl, hpass⟩
    case h_2 => cases hstep
  | release =>
    simp only [OptimizedObject.stepOptimizer] at hstep
    split at hstep
    case h_1 snapshot hplace =>
      cases hstep
      rw [hplace] at hpass
      exact ⟨h.contents, hpass.2.move _ _ _, improves_none⟩
    case h_2 => cases hstep
  | relock =>
    simp only [OptimizedObject.stepOptimizer] at hstep
    split at hstep
    case h_1 snapshot best hplace howner =>
      cases hstep
      rw [hplace] at hpass
      exact ⟨h.contents, rfl, hpass.1.move _ _ _, hpass.2⟩
    case h_2 => cases hstep
  | decline =>
    simp only [OptimizedObject.stepOptimizer] at hstep
    split at hstep
    case h_1 snapshot hplace =>
      cases hstep
      exact h.decline hplace
    case h_2 => cases hstep
  | finish =>
    simp only [OptimizedObject.stepOptimizer] at hstep
    split at hstep
    case h_1 =>
      cases hstep
      exact ⟨h.contents, rfl⟩
    case h_2 => cases hstep
  | _ => cases hstep

theorem Valid.step {action : Action}
    (hstep : s.step library config action = some s') : s'.Valid library := by
  simp only [OptimizedObject.step] at hstep
  split at hstep
  case h_1 =>
    obtain ⟨howner, hs⟩ := Option.ite_none_right_eq_some.mp hstep
    cases hs
    exact h.interfere (by simp [howner]) rfl h.contents id fun _ ht =>
      ht.move _ _ _
  case h_2 =>
    obtain ⟨-, hs⟩ := Option.ite_none_left_eq_some.mp hstep
    cases hs
    exact h.unregisterReader _
  case h_3 =>
    split_ifs at hstep with hoptimizer howner
    · exact h.stepOptimizer hstep
    · exact h.stepOther howner hstep

end

/-! ## What the optimizer does to the object -/

/-- The optimizer gives the object another buffer only if nothing was written since it has taken its
snapshot and nobody reads the object, and the buffer is a smaller one. -/
def ReplacesCarefully (s s' : OptimizedObject) : Prop :=
  ∃ snapshot best b, s.pass = .relocked snapshot (some best) ∧ s.numWrites = snapshot.numWrites ∧
    s.numReaders = 0 ∧ s.buffer = some b ∧ s'.buffer = some best ∧ best.size < b.size

theorem Valid.replacesCarefully (h : s.Valid library) {action : Action}
    (haction : action.byOptimizer = true) (hstep : s.step library config action = some s')
    (hbuffer : s'.buffer ≠ s.buffer) : s.ReplacesCarefully s' := by
  have hoptimizer : s.stepOptimizer library config action = some s' := by
    cases action with
    | lock | write | registerReader | flagBeingDeleted | disposeBuffer | unlock
    | unregisterReader => cases haction
    | _ => exact hstep
  have hpass := h.pass
  cases action with
  | install =>
    simp only [OptimizedObject.stepOptimizer] at hoptimizer
    split at hoptimizer
    case h_1 snapshot best hplace =>
      split_ifs at hoptimizer with hundisturbed
      · cases hoptimizer
        rw [hplace] at hpass
        obtain ⟨-, htracks, hbest⟩ := hpass
        obtain ⟨halive, hflag, hreaders⟩ := isUndisturbed_iff.mp hundisturbed
        have hfresh := htracks.fresh hflag
        obtain ⟨b, hb, hsize⟩ := hfresh.buffer halive
        exact ⟨snapshot, best, b, hplace, hfresh.numWrites, hreaders, hb, rfl,
          (hbest best rfl).1.trans_eq hsize.symm⟩
      · cases hoptimizer
        exact absurd rfl hbuffer
    case h_2 =>
      cases hoptimizer
      exact absurd rfl hbuffer
    case h_3 => cases hoptimizer
  | examine | compress =>
    simp only [OptimizedObject.stepOptimizer] at hoptimizer
    grind
  | tryLock | release | relock | decline | finish =>
    simp only [OptimizedObject.stepOptimizer] at hoptimizer
    grind
  | _ => cases haction

/-- After the pass the object is flagged as optimized only if its buffer is the one that was
examined or produced. -/
def EndsCleanly (s s' : OptimizedObject) : Prop :=
  s'.beingOptimized = false ∧ (s'.optimized = true → ∃ snapshot produced,
    s.pass = .finishing snapshot produced ∧
      (s'.bufferId = snapshot.bufferId ∨ produced = some s'.bufferId))

theorem Valid.endsCleanly (h : s.Valid library) (hstep : s.step library config .finish = some s') :
    s.EndsCleanly s' := by
  have hoptimizer : s.stepOptimizer library config .finish = some s' := hstep
  have hpass := h.pass
  simp only [OptimizedObject.stepOptimizer] at hoptimizer
  split at hoptimizer
  case h_1 snapshot produced hplace =>
    cases hoptimizer
    rw [hplace] at hpass
    exact ⟨rfl, fun hset => ⟨snapshot, produced, hplace, hpass.2 hset⟩⟩
  case h_2 => cases hoptimizer

/-! ## Runs -/

/-- Recompression is transparent: clients get what was written last, the optimizer replaces a buffer
only with a smaller one and if nothing has happened meanwhile, and its flags are right
afterwards. -/
theorem recompression_transparent {actions : List Action}
    (hruns : Reaches (step library config) (fun _ _ => True) start actions s) :
    (s.beingDeleted = false → ∀ b ∈ s.buffer, b.contents library = some s.payload) ∧
      (∀ action s', action.byOptimizer = true → s.step library config action = some s' →
        s'.buffer ≠ s.buffer → s.ReplacesCarefully s') ∧
      ∀ s', s.step library config .finish = some s' → s.EndsCleanly s' := by
  have hvalid : s.Valid library := hruns.invariant (P := Valid library) start_valid
    fun _ _ _ hs _ hstep => hs.step hstep
  refine ⟨hvalid.contents, fun action s' haction hstep hbuffer => ?_, fun s' hstep => ?_⟩
  · exact hvalid.replacesCarefully haction hstep hbuffer
  · exact hvalid.endsCleanly hstep

/-- A payload of four bytes is compressed to one byte while somebody reads it for a moment. -/
theorem recompression_transparent_of_pass : ∃ s : OptimizedObject,
    Reaches (step .runLength ⟨1, by decide, [.zlib, .none]⟩) (fun _ _ => True) start
      [.lock, .write ⟨.none, [7, 7, 7, 7], 4⟩, .unlock, .tryLock, .examine, .release, .lock,
        .registerReader, .unlock, .compress, .compress, .unregisterReader, .relock, .install,
        .finish] s ∧
      s.buffer = some ⟨.zlib, [7], 4⟩ ∧ s.optimized = true ∧
      (s.beingDeleted = false → ∀ b ∈ s.buffer, b.contents .runLength = some s.payload) :=
  ⟨_, Reaches.get_foldlM rfl, rfl, rfl, (recompression_transparent (Reaches.get_foldlM rfl)).1⟩

end OptimizedObject

end CyberCache
