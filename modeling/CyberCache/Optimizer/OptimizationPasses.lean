import CyberCache.Optimizer.Recompression

/-!
# Optimization passes over payloads that cannot be unpacked

Clients compress payloads themselves, and the server stores what it gets. The first time that the
bytes are looked at is when an optimizer unpacks them, in order to compress them better. `unpack()`
returns nothing if an engine does not understand the bytes, or if there is no such engine. The pass
goes on as if there were a payload: it hands the null pointer to the engines that it tries, and to
`Memory::free()` after that.

A pass visits the linked objects one after the other. Other threads may do anything to the objects
before a visit, and during a visit while the object is not locked.
-/

namespace CyberCache

namespace OptimizerRun

structure PassObject where
  buffer : Option PayloadBuffer
  beingOptimized : Bool
  optimized : Bool
  beingDeleted : Bool
  hasReaders : Bool
  /-- Another thread has locked the object. -/
  locked : Bool

/-- A buffer that is handed to an engine or to `Memory::free()`; there are no bytes behind a null
pointer. -/
inductive BufferUse where
  | pack (compressor : Compressor) (source : Option (List UInt8))
  | free (buffer : Option (List UInt8))
deriving DecidableEq, Repr

def BufferUse.isNull : BufferUse → Bool
  | .pack _ source => source.isNone
  | .free buffer => buffer.isNone

/-- What happens around the optimizer. -/
structure Circumstances where
  library : CompressorEngines
  /-- What an engine makes of a null pointer that is to be compressed to less than so many bytes; no
  result at all if it crashes. -/
  onNull : Compressor → Nat → Option (Option (List UInt8))
  config : RecompressionConfig
  /-- What other threads do before the visit with this number, and during it. -/
  before : Nat → (Nat → PassObject) → (Nat → PassObject)
  during : Nat → (Nat → PassObject) → (Nat → PassObject)
  /-- After so many checks and compressions, the pass is at its limits, there is a message, or the
  time is over. -/
  stops : Nat → Nat → Bool

variable (c : Circumstances)

def isOptimizable (object : PassObject) : Bool :=
  !object.beingDeleted && !object.optimized && !object.hasReaders &&
    decide (c.config.minRecompressionSize ≤ (object.buffer.map (·.usize)).getD 0)

/-- The payload is copied if it is not compressed. -/
def uncompressedBuffer (b : PayloadBuffer) : Option (List UInt8) :=
  if b.compressor = .none then some b.bytes else c.library.unpack b.compressor b.bytes b.usize

def packBuffer (compressor : Compressor) (source : Option (List UInt8)) (trySize : Nat) :
    Option (Option (List UInt8)) :=
  match source with
  | some payload =>
    let bytes := c.library.pack compressor payload
    some (if bytes.length ≠ 0 ∧ bytes.length < trySize then some bytes else none)
  | none => c.onNull compressor trySize

/-- The loop over `o_compressors`, with the best result so far. -/
def tryEngines (b : PayloadBuffer) (source : Option (List UInt8)) :
    List Compressor → Option PayloadBuffer → Option (Option PayloadBuffer × List BufferUse)
  | [], best => some (best, [])
  | compressor :: engines, best =>
    if compressor = .none then some (best, [])
    else if compressor ≠ b.compressor then do
      let result ← packBuffer c compressor source ((best.map (·.size)).getD b.size)
      match result with
      | some bytes =>
        let (last, uses) ← tryEngines b source engines (some ⟨compressor, bytes, b.usize⟩)
        return (last, .pack compressor source ::
          (best.map fun old => .free (some old.bytes)).toList ++ uses)
      | none =>
        let (last, uses) ← tryEngines b source engines best
        return (last, .pack compressor source :: uses)
    else tryEngines b source engines best

def isUndisturbed (object : PassObject) : Bool :=
  !object.beingDeleted && object.beingOptimized && !object.hasReaders

def setBuffer (object : PassObject) (b : PayloadBuffer) : PassObject × List BufferUse :=
  ({ object with
      buffer := some b
      beingOptimized := if object.buffer.isSome then false else object.beingOptimized
      optimized := if object.buffer.isSome then false else object.optimized },
    (object.buffer.map fun old => .free (some old.bytes)).toList)

def settle (object : PassObject) (best : Option PayloadBuffer) : PassObject × List BufferUse :=
  match best with
  | some best =>
    if isUndisturbed object then
      let (object, uses) := setBuffer object best
      ({ object with optimized := true, beingOptimized := false }, uses)
    else ({ object with beingOptimized := false }, [.free (some best.bytes)])
  | none =>
    ({ object with
        optimized := object.optimized || isUndisturbed object
        beingOptimized := false }, [])

structure Visited where
  objects : Nat → PassObject
  uses : List BufferUse
  compressed : Bool

/-- An object that is locked and can be optimized; no result if an engine crashes. -/
def optimizeObject (number o : Nat) (objects : Nat → PassObject) (b : PayloadBuffer) :
    Option Visited := do
  let flagged := Function.update objects o { objects o with beingOptimized := true }
  let source := uncompressedBuffer c b
  let objects := c.during number flagged
  let (best, uses) ← tryEngines c b source c.config.compressors none
  let (object, uses') := settle (objects o) best
  return ⟨Function.update objects o object, uses ++ [.free source] ++ uses', true⟩

def examined (object : PassObject) : Option PayloadBuffer :=
  if isOptimizable c object ∧ object.locked = false then object.buffer else none

def visit (number o : Nat) (objects : Nat → PassObject) : Option Visited :=
  match examined c (objects o) with
  | some b => optimizeObject c number o objects b
  | none => some ⟨objects, [], false⟩

/-- The visits that are left, with the numbers of checks and compressions so far. -/
def passLoop : List Nat → Nat → Nat → (Nat → PassObject) → Option (Nat × (Nat → PassObject))
  | [], numChecks, _, objects => some (numChecks, objects)
  | o :: visits, numChecks, numCompressions, objects => do
    let visited ← visit c numChecks o (c.before numChecks objects)
    let numCompressions := if visited.compressed then numCompressions + 1 else numCompressions
    if c.stops (numChecks + 1) numCompressions then return (numChecks + 1, visited.objects)
    else passLoop visits (numChecks + 1) numCompressions visited.objects

/-- Every linked object is visited once, if the pass is not stopped. It goes on where the last one
has stopped. -/
def optimizationPass (chain : List Nat) (position : Nat) (objects : Nat → PassObject) :
    Option (Nat × (Nat → PassObject)) :=
  passLoop c (chain.rotate position) 0 0 objects

/-! ## What is asked for -/

def relocked (number o : Nat) (objects : Nat → PassObject) : Nat → PassObject :=
  c.during number (Function.update objects o { objects o with beingOptimized := true })

/-- The visit comes to its end, uses no null pointer, leaves a payload alone that cannot be
unpacked, and clears the flag. -/
structure Handles (number o : Nat) (objects : Nat → PassObject) : Prop where
  completes : (visit c number o objects).isSome
  uses : ∀ visited, visit c number o objects = some visited → ∀ use ∈ visited.uses, use.isNull =
    false
  buffer : ∀ visited b, visit c number o objects = some visited → examined c (objects o) = some b →
    uncompressedBuffer c b = none → (visited.objects o).buffer =
    (relocked c number o objects o).buffer
  flag : ∀ visited b, visit c number o objects = some visited → examined c (objects o) = some b →
    (visited.objects o).beingOptimized = false

def AllHandled : List Nat → Nat → Nat → (Nat → PassObject) → Prop
  | [], _, _, _ => True
  | o :: visits, numChecks, numCompressions, objects =>
    Handles c numChecks o (c.before numChecks objects) ∧
      ∀ visited, visit c numChecks o (c.before numChecks objects) = some visited →
        let numCompressions := if visited.compressed then numCompressions + 1 else numCompressions
        c.stops (numChecks + 1) numCompressions = false →
          AllHandled visits (numChecks + 1) numCompressions visited.objects

/-- Whatever the optimizer gets to look at can be unpacked. -/
def Unpacks (object : PassObject) : Prop :=
  ∀ b, examined c object = some b → b.compressor = .none ∨
    (c.library.unpack b.compressor b.bytes b.usize).isSome

def AllUnpack : List Nat → Nat → Nat → (Nat → PassObject) → Prop
  | [], _, _, _ => True
  | o :: visits, numChecks, numCompressions, objects =>
    Unpacks c (c.before numChecks objects o) ∧
      ∀ visited, visit c numChecks o (c.before numChecks objects) = some visited →
        let numCompressions := if visited.compressed then numCompressions + 1 else numCompressions
        c.stops (numChecks + 1) numCompressions = false →
          AllUnpack visits (numChecks + 1) numCompressions visited.objects

variable {c} {object : PassObject} {b : PayloadBuffer} {objects : Nat → PassObject} {number o : Nat}

/-! ## Single visits -/

theorem uncompressedBuffer_isSome :
    (uncompressedBuffer c b).isSome ↔ b.compressor = .none ∨
      (c.library.unpack b.compressor b.bytes b.usize).isSome := by
  rw [uncompressedBuffer]
  split_ifs with hplain
  · simp [hplain]
  · simp [hplain]

theorem tryEngines_of_some (b : PayloadBuffer) (payload : List UInt8) (engines : List Compressor)
    (best : Option PayloadBuffer) : ∃ last uses,
      tryEngines c b (some payload) engines best = some (last, uses) ∧
      ∀ use ∈ uses, use.isNull = false := by
  induction engines generalizing best with
  | nil => exact ⟨best, [], rfl, by simp⟩
  | cons compressor engines ih =>
    rw [tryEngines]
    split_ifs with hend hother
    · exact ⟨best, [], rfl, by simp⟩
    · simp only [packBuffer, Option.bind_eq_bind, Option.bind_some]
      split_ifs with hsmaller
      · obtain ⟨last, uses, hrest, huses⟩ :=
          ih (some ⟨compressor, c.library.pack compressor payload, b.usize⟩)
        simp only [hrest, Option.bind_some]
        refine ⟨last, _, rfl, fun use huse => ?_⟩
        obtain huse | huse := List.mem_append.mp huse
        · obtain rfl | hold := List.mem_cons.mp huse
          · rfl
          · obtain ⟨old, -, rfl⟩ := Option.map_eq_some_iff.mp (Option.mem_toList.mp hold)
            rfl
        · exact huses use huse
      · obtain ⟨last, uses, hrest, huses⟩ := ih best
        simp only [hrest, Option.bind_some]
        refine ⟨last, _, rfl, fun use huse => ?_⟩
        obtain rfl | huse := List.mem_cons.mp huse
        · rfl
        · exact huses use huse
    · exact ih best

theorem settle_uses (object : PassObject) (best : Option PayloadBuffer) :
    ∀ use ∈ (settle object best).2, use.isNull = false := by
  intro use huse
  cases best with
  | none => simp [settle] at huse
  | some best =>
    simp only [settle] at huse
    split_ifs at huse
    · obtain ⟨old, -, rfl⟩ := Option.map_eq_some_iff.mp (Option.mem_toList.mp huse)
      rfl
    · obtain rfl := List.mem_singleton.mp huse
      rfl

theorem settle_beingOptimized (object : PassObject) (best : Option PayloadBuffer) :
    (settle object best).1.beingOptimized = false := by
  cases best with
  | none => rfl
  | some best =>
    simp only [settle]
    split_ifs
    · rfl
    · rfl

theorem visit_of_examined (number : Nat) (h : examined c (objects o) = some b) :
    visit c number o objects =
    (tryEngines c b (uncompressedBuffer c b) c.config.compressors none).map
      fun (best, uses) => ⟨Function.update (relocked c number o objects) o
          (settle (relocked c number o objects o) best).1,
        uses ++ [.free (uncompressedBuffer c b)] ++ (settle (relocked c number o objects o) best).2,
        true⟩ := by
  simp only [visit, h, optimizeObject]
  cases tryEngines c b (uncompressedBuffer c b) c.config.compressors none with
  | none => rfl
  | some result => rfl

theorem handles_of_unpacks (h : Unpacks c (objects o)) : Handles c number o objects := by
  cases hexamined : examined c (objects o) with
  | none =>
    have hvisit : visit c number o objects = some ⟨objects, [], false⟩ := by rw [visit, hexamined]
    constructor
    · simp [hvisit]
    · intro visited hs use huse
      rw [hvisit] at hs
      cases hs
      cases huse
    · intro visited b _ hb
      cases hexamined.symm.trans hb
    · intro visited b _ hb
      cases hexamined.symm.trans hb
  | some b =>
    obtain ⟨payload, hpayload⟩ :=
      Option.isSome_iff_exists.mp (uncompressedBuffer_isSome.mpr (h b hexamined))
    obtain ⟨best, uses, hengines, huses⟩ :=
      tryEngines_of_some (c := c) b payload c.config.compressors none
    have hvisit := visit_of_examined number hexamined
    rw [hpayload, hengines, Option.map_some] at hvisit
    constructor
    · rw [hvisit]
      rfl
    · intro visited hs use huse
      rw [hvisit] at hs
      cases hs
      obtain huse | huse := List.mem_append.mp huse
      · obtain huse | huse := List.mem_append.mp huse
        · exact huses use huse
        · obtain rfl := List.mem_singleton.mp huse
          rfl
      · exact settle_uses _ _ use huse
    · intro visited b' _ hb' hnull
      obtain rfl := Option.some.inj (hexamined.symm.trans hb')
      rw [hpayload] at hnull
      cases hnull
    · intro visited b' hs _
      rw [hvisit] at hs
      cases hs
      simp [settle_beingOptimized]

theorem unpacks_of_handles (h : Handles c number o objects) : Unpacks c (objects o) := by
  intro b hexamined
  by_contra hfails
  have hnull : uncompressedBuffer c b = none := by
    rw [← Option.not_isSome_iff_eq_none, uncompressedBuffer_isSome]
    exact hfails
  obtain ⟨visited, hs⟩ := Option.isSome_iff_exists.mp h.completes
  have hvisit := hs
  rw [visit_of_examined number hexamined, hnull] at hvisit
  obtain ⟨⟨best, uses⟩, -, rfl⟩ := Option.map_eq_some_iff.mp hvisit
  have hfree := h.uses _ hs (.free none) (by simp)
  cases hfree

theorem handles_iff : Handles c number o objects ↔ Unpacks c (objects o) :=
  ⟨unpacks_of_handles, handles_of_unpacks⟩

/-! ## Visits and the life of a single object -/

def ofObject (s : OptimizedObject) : PassObject :=
  ⟨s.buffer, s.beingOptimized, s.optimized, s.beingDeleted, s.numReaders != 0, s.owner = .other⟩

section Object

open OptimizedObject

variable {s : OptimizedObject} {snapshot : Snapshot}

theorem step_compress {compressor : Compressor} {engines : List Compressor}
    {best : Option PayloadBuffer}
    (hpass : s.pass = .compressing snapshot (compressor :: engines) best)
    (hend : compressor ≠ .none) :
    s.step c.library c.config .compress = some { s with
      pass := .compressing snapshot engines (if compressor ≠ snapshot.compressor then
        tryCompressor c.library snapshot best compressor else best) } := by
  simp only [OptimizedObject.step, Action.byOptimizer, stepOptimizer, hpass, if_neg hend, if_true]
  split_ifs <;> rfl

theorem exists_compress (hcompressor : snapshot.compressor = b.compressor)
    (hsize : snapshot.size = b.size) (husize : snapshot.usize = b.usize)
    {engines : List Compressor} {best : Option PayloadBuffer}
    (hpass : s.pass = .compressing snapshot engines best) :
    ∃ last uses, ∃ actions : List Action, tryEngines c b (some snapshot.payload) engines best =
      some (last, uses) ∧ actions.foldlM (OptimizedObject.step c.library c.config) s =
        some { s with pass := .compressing snapshot [] last } := by
  induction engines generalizing s best with
  | nil => exact ⟨best, [], [], rfl, by rw [← hpass]; rfl⟩
  | cons compressor engines ih =>
    by_cases hend : compressor = .none
    · refine ⟨best, [], [.compress], if_pos hend, ?_⟩
      simp [OptimizedObject.step, Action.byOptimizer, stepOptimizer, hpass, hend]
    · have hstep := step_compress (c := c) hpass hend
      rw [tryEngines, if_neg hend]
      obtain ⟨last, uses, actions, hrest, hrun⟩ := ih (s := { s with
        pass := .compressing snapshot engines (if compressor ≠ snapshot.compressor then
        tryCompressor c.library snapshot best compressor else best) }) rfl
      have hrun' : (.compress :: actions).foldlM (OptimizedObject.step c.library c.config) s =
          some { s with pass := .compressing snapshot [] last } := by
        rw [List.foldlM_cons, hstep]
        exact hrun
      simp only [hcompressor, OptimizedObject.tryCompressor, hsize, husize] at hrest
      simp only [packBuffer, Option.bind_eq_bind, Option.bind_some]
      split_ifs at hrest ⊢
      · exact ⟨last, _, _, by simp only [hrest, Option.bind_some]; rfl, hrun'⟩
      · exact ⟨last, _, _, by simp only [hrest, Option.bind_some]; rfl, hrun'⟩
      · exact ⟨last, uses, _, hrest, hrun'⟩

theorem exists_settle {best : Option PayloadBuffer} (howner : s.owner = .nobody)
    (hpass : s.pass = .compressing snapshot [] best) :
    ∃ (actions : List Action) (s' : OptimizedObject),
    actions.foldlM (OptimizedObject.step c.library c.config) s = some s' ∧
      s'.pass = .idle ∧ ofObject s' = (settle (ofObject s) best).1 := by
  obtain ⟨buffer, beingOptimized, optimized, beingDeleted, numReaders, owner, pass⟩ := s
  dsimp only at howner hpass
  subst howner hpass
  -- the flags and the readers decide which steps there are
  cases best <;> cases buffer <;> cases numReaders <;> cases beingDeleted <;>
    cases beingOptimized <;> cases optimized <;>
    first
    | exact ⟨[.relock, .install, .finish], _, rfl, rfl, rfl⟩
    | exact ⟨[.relock, .install, .decline, .finish], _, rfl, rfl, rfl⟩

/-- A visit to a payload that can be unpacked is what the optimizer does to the object after it has
unlocked it, whatever others have done to the object in the meantime. -/
theorem visit_simulated {s₀ : OptimizedObject} (hexamined : examined c (objects o) = some b)
    (hsnapshot : s₀.takeSnapshot c.library b = some snapshot)
    (hpass : s.pass = .compressing snapshot c.config.compressors none) (howner : s.owner = .nobody)
    (hrelocked : relocked c number o objects o = ofObject s) :
    ∃ visited s', ∃ actions : List Action, visit c number o objects = some visited ∧
      actions.foldlM (OptimizedObject.step c.library c.config) s = some s' ∧ s'.pass = .idle ∧
      ofObject s' = visited.objects o := by
  obtain ⟨hcontents, hcompressor, hsize, husize⟩ : b.contents c.library = some snapshot.payload ∧
      snapshot.compressor = b.compressor ∧ snapshot.size = b.size ∧ snapshot.usize = b.usize := by
    rw [takeSnapshot] at hsnapshot
    split at hsnapshot
    · cases hsnapshot
      exact ⟨‹_›, rfl, rfl, rfl⟩
    · cases hsnapshot
  have hpayload : uncompressedBuffer c b = some snapshot.payload := by
    rw [PayloadBuffer.contents] at hcontents
    rw [uncompressedBuffer]
    split_ifs at hcontents ⊢ <;> exact hcontents
  obtain ⟨best, uses, actions, hengines, hrun⟩ :=
    exists_compress (c := c) hcompressor hsize husize hpass
  obtain ⟨actions', s', hrun', hidle, hsettle⟩ :=
    exists_settle (c := c) (s := { s with pass := .compressing snapshot [] best }) howner rfl
  rw [visit_of_examined number hexamined, hpayload, hengines, hrelocked]
  refine ⟨_, s', actions ++ actions', rfl, ?_, hidle, ?_⟩
  · rw [List.foldlM_append, hrun]
    exact hrun'
  · rw [hsettle]
    exact (Function.update_self (β := fun _ => PassObject) ..).symm

end Object

/-! ## Passes -/

theorem allHandled_iff_allUnpack (visits : List Nat) (numChecks numCompressions : Nat)
    (objects : Nat → PassObject) :
    AllHandled c visits numChecks numCompressions objects ↔
      AllUnpack c visits numChecks numCompressions objects := by
  induction visits generalizing numChecks numCompressions objects with
  | nil => exact Iff.rfl
  | cons o visits ih =>
    refine and_congr handles_iff (forall₂_congr fun visited _ => ?_)
    exact imp_congr_right fun _ => ih _ _ _

theorem passLoop_isSome {visits : List Nat} {numChecks numCompressions : Nat}
    (h : AllHandled c visits numChecks numCompressions objects) :
    (passLoop c visits numChecks numCompressions objects).isSome := by
  induction visits generalizing numChecks numCompressions objects with
  | nil => rfl
  | cons o visits ih =>
    obtain ⟨hhandles, hrest⟩ := h
    obtain ⟨visited, hvisit⟩ := Option.isSome_iff_exists.mp hhandles.completes
    have hnext := hrest visited hvisit
    simp only [passLoop, hvisit, Option.bind_eq_bind, Option.bind_some]
    generalize (if visited.compressed = true then numCompressions + 1 else numCompressions) =
      n at hnext ⊢
    split_ifs with hstops
    · rfl
    · exact ih (hnext (eq_false_of_ne_true hstops))

/-- The pass comes to its end, and all its visits are as they should be. -/
def PassesWell (c : Circumstances) (chain : List Nat) (position : Nat)
    (objects : Nat → PassObject) : Prop :=
  (optimizationPass c chain position objects).isSome ∧
    AllHandled c (chain.rotate position) 0 0 objects

theorem passesWell_iff (chain : List Nat) (position : Nat) (objects : Nat → PassObject) :
    PassesWell c chain position objects ↔ AllUnpack c (chain.rotate position) 0 0 objects := by
  rw [PassesWell, ← allHandled_iff_allUnpack]
  exact and_iff_right_of_imp passLoop_isSome

def withoutEngines : Circumstances where
  library :=
    { pack := fun _ _ => []
      unpack := fun _ _ _ => none
      length_unpack := by simp
      unpack_pack := by simp }
  onNull _ _ := some none
  config := ⟨8, by decide, [.brotli, .zlib]⟩
  before _ objects := objects
  during _ objects := objects
  stops _ _ := false

def pretender : PassObject := ⟨some ⟨.zlib, [1, 2, 3], 100⟩, false, false, false, false, false⟩

/-- The null pointer is handed to the first engine, and is freed later. -/
theorem null_freed : ∃ visited, visit withoutEngines 0 0 (fun _ => pretender) = some visited ∧
    visited.uses = [.pack .brotli none, .free none] ∧
      ¬PassesWell withoutEngines [0] 0 fun _ => pretender := by
  refine ⟨_, rfl, rfl, fun h => ?_⟩
  have hfree := h.2.1.uses _ rfl (.free none) (by decide)
  exact absurd hfree (by decide)

end OptimizerRun

end CyberCache
