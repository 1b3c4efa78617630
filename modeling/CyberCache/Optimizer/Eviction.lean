import CyberCache.Store.Lifecycle

/-!
# Eviction during recompression

While the optimizer compresses an object, it can run out of memory. It then frees memory itself
before it goes on: it evicts objects from its chains. It passes over objects that are locked, but
the object that it is busy with is not locked while engines try to compress it. If it evicts this
very object, a table may dispose it before the optimizer comes back to it.

The store is as before, with the flag `HOF_BEING_OPTIMIZED` of its objects and the place of the
optimizer in its optimization pass. Whether an object is otherwise worth compressing is given.
-/

namespace CyberCache

open PayloadStore

inductive RecompressionPhase where
  /-- The object is locked. -/
  | unpacking
  /-- The object is not locked. -/
  | compressing
deriving DecidableEq, Repr

structure RecompressingStore where
  store : PayloadStore
  beingOptimized : Finset Nat
  /-- The object that the optimizer is busy with. -/
  current : Option (Nat × RecompressionPhase)

namespace RecompressingStore

variable (config : StoreConfiguration)

def create : RecompressingStore := ⟨.create config, ∅, none⟩

def locked (s : PayloadStore) : StoreAction → List Nat
  | .write key _ _ | .read key _ | .destroy key => (s.findAlive config key).join.toList
  | .run chosen | .optimizer _ chosen | .tagManager _ chosen => chosen
  | .clean | .gc | .freeMemory => []

def rewritten (s : PayloadStore) : StoreAction → List Nat
  | .write key _ _ => (s.findAlive config key).join.toList
  | _ => []

/-- The optimizer takes no messages during its pass, and others wait for the object that it has
locked. -/
def isEnabled (s : RecompressingStore) (action : StoreAction) : Bool :=
  match s.current, action with
  | none, _ => true
  | some _, .optimizer _ _ => false
  | some (o, .unpacking), action => o ∉ locked config s.store action
  | some (_, .compressing), _ => true

inductive Action where
  /-- During the pass, `run` is the eviction by the optimizer itself. -/
  | store (action : StoreAction)
  /-- The optimizer locks an object of its chains, finds it worth optimizing and flags it. -/
  | examine (o : Nat)
  | release
  /-- The optimizer locks the object again, and clears the flag. -/
  | finish

def step (s : RecompressingStore) : Action → Option RecompressingStore
  | .store action =>
    if s.isEnabled config action then
      (s.store.step config action).map fun store =>
        { s with
          store
          beingOptimized := s.beingOptimized \ (rewritten config s.store action).toFinset }
    else none
  | .examine o =>
    if s.current = none ∧ (s.store.flags o).linkedByOptimizer ∧ s.store.isAlive o ∧
        s.store.disposed o = false then
      some { s with
        beingOptimized := insert o s.beingOptimized
        current := some (o, .unpacking) }
    else none
  | .release =>
    match s.current with
    | some (o, .unpacking) => some { s with current := some (o, .compressing) }
    | _ => none
  | .finish =>
    match s.current with
    | some (o, .compressing) =>
      if s.store.disposed o then none
      else some { s with beingOptimized := s.beingOptimized.erase o, current := none }
    | _ => none

/-! ## Objects that are left alone -/

/-- The optimizer has let go of the objects that are or were in the queue of deleted objects. -/
structure LetsGo (s : RecompressingStore) : Prop where
  posted : ∀ o ∈ s.store.posted,
    o ∉ s.beingOptimized ∧ (s.store.flags o).linkedByOptimizer = false
  disposed : ∀ o, s.store.disposed o = true →
    o ∉ s.beingOptimized ∧ (s.store.flags o).linkedByOptimizer = false
  current : ∀ o phase, s.current = some (o, phase) → o ∉ s.store.posted

/-- The optimizer does not evict the object that it is busy with. -/
def SparesCurrent (s : RecompressingStore) : StoreAction → Prop
  | .run chosen => ∀ o ∈ s.current.map (·.1), o ∉ chosen
  | _ => True

def Considerate (s : RecompressingStore) : Action → Prop
  | .store action => ForgetsFirst config s.store action ∧ s.SparesCurrent action
  | .examine _ | .release | .finish => True

instance (s : RecompressingStore) : (action : StoreAction) → Decidable (s.SparesCurrent action)
  | .run chosen => inferInstanceAs (Decidable (∀ o ∈ s.current.map (·.1), o ∉ chosen))
  | .write _ _ _ | .read _ _ | .destroy _ | .clean | .gc | .freeMemory | .optimizer _ _
  | .tagManager _ _ => .isTrue trivial

instance (s : RecompressingStore) : (action : Action) → Decidable (s.Considerate config action)
  | .store action =>
    inferInstanceAs (Decidable (ForgetsFirst config s.store action ∧ s.SparesCurrent action))
  | .examine _ | .release | .finish => .isTrue trivial

variable {config} {s s' : RecompressingStore} {actions : List Action} {o : Nat}

/-- The optimizer has the object that it is busy with in its chains. -/
structure Busy (s : RecompressingStore) : Prop where
  flagged : ∀ o ∈ s.beingOptimized, ∃ phase, s.current = some (o, phase)
  linked : ∀ o phase, s.current = some (o, phase) → (s.store.flags o).linkedByOptimizer = true

variable (config) in
structure Valid (s : RecompressingStore) : Prop where
  sound : s.store.Sound config
  forgotten : ∀ o, (s.store.life config o).Forgotten
  busy : s.Busy

theorem create_valid : (create config).Valid config where
  sound := create_sound
  forgotten := create_forgotten
  busy := ⟨by simp [create], by simp [create]⟩

theorem Valid.linked_step (h : s.Valid config) {action : StoreAction} {store : PayloadStore}
    {phase : RecompressionPhase} (hcurrent : s.current = some (o, phase))
    (henabled : s.isEnabled config action = true) (hspares : s.SparesCurrent action)
    (hstep : s.store.step config action = some store) :
    (store.flags o).linkedByOptimizer = true := by
  refine (h.sound.advances hstep o).induct (I := fun l => l.flags.linkedByOptimizer = true)
    (h.busy.linked o phase hcurrent) fun l e l' hl hnext hcause => ?_
  have hnoMessage : ∀ m chosen, action ≠ .optimizer m chosen := by
    rintro m chosen rfl
    cases phase <;> simp [isEnabled, hcurrent] at henabled
  refine hnext.linkedByOptimizer ?_ ?_ hl
  · rintro rfl
    obtain he | he | he | ⟨-, retries, chosen, haction⟩ := hcause
    · cases he
    · cases he
    · cases he
    · exact hnoMessage _ _ haction
  · rintro rfl
    obtain he | he | he | ⟨-, chosen, hmem, rfl | haction⟩ := hcause
    · cases he
    · cases he
    · cases he
    · exact hspares o (by simp [hcurrent]) hmem
    · exact hnoMessage _ _ haction

theorem Valid.step (h : s.Valid config) {action : Action} (hadmits : s.Considerate config action)
    (hstep : s.step config action = some s') : s'.Valid config := by
  cases action with
  | store action =>
    obtain ⟨henabled, hs⟩ := Option.ite_none_right_eq_some.mp hstep
    obtain ⟨store, hstore, rfl⟩ := Option.map_eq_some_iff.mp hs
    refine ⟨h.sound.step hstore, h.sound.forgotten_step h.forgotten hadmits.1 hstore, ?_, ?_⟩
    · intro o ho
      exact h.busy.flagged o (Finset.mem_sdiff.mp ho).1
    · intro o phase hcurrent
      exact h.linked_step hcurrent henabled hadmits.2 hstore
  | examine o =>
    obtain ⟨⟨hidle, hlinked, -⟩, hs⟩ := Option.ite_none_right_eq_some.mp hstep
    cases hs
    refine ⟨h.sound, h.forgotten, ?_, ?_⟩
    · intro o' ho'
      obtain rfl | ho' := Finset.mem_insert.mp ho'
      · exact ⟨_, rfl⟩
      · obtain ⟨phase, hcurrent⟩ := h.busy.flagged o' ho'
        simp [hidle] at hcurrent
    · rintro o' phase ⟨⟩
      exact hlinked
  | release =>
    simp only [RecompressingStore.step] at hstep
    split at hstep
    case h_1 o hcurrent =>
      cases hstep
      refine ⟨h.sound, h.forgotten, ?_, ?_⟩
      · intro o' ho'
        obtain ⟨phase, hphase⟩ := h.busy.flagged o' ho'
        obtain ⟨rfl, -⟩ : o = o' ∧ _ := by simpa [hcurrent] using hphase
        exact ⟨_, rfl⟩
      · rintro o' phase ⟨⟩
        exact h.busy.linked o _ hcurrent
    case h_2 => cases hstep
  | finish =>
    simp only [RecompressingStore.step] at hstep
    split at hstep
    case h_1 o hcurrent =>
      obtain ⟨-, hs⟩ := Option.ite_none_left_eq_some.mp hstep
      cases hs
      refine ⟨h.sound, h.forgotten, ?_, by rintro o' phase ⟨⟩⟩
      intro o' ho'
      obtain ⟨hne, ho'⟩ := Finset.mem_erase.mp ho'
      obtain ⟨phase, hphase⟩ := h.busy.flagged o' ho'
      obtain ⟨rfl, -⟩ : o = o' ∧ _ := by simpa [hcurrent] using hphase
      exact absurd rfl hne
    case h_2 => cases hstep

theorem Valid.letsGo (h : s.Valid config) : s.LetsGo := by
  have hposted : ∀ o ∈ s.store.posted, (s.store.flags o).linkedByOptimizer = false := by
    intro o ho
    have hcount : 0 < (s.store.life config o).posted := List.count_pos_iff.mpr ho
    rw [(h.sound.lives o).posted, flags_life] at hcount
    refine (h.forgotten o ?_).1
    cases hdeleted : (s.store.flags o).deleted with
    | true => exact hdeleted
    | false => simp [hdeleted] at hcount
  have hcurrent : ∀ o phase, s.current = some (o, phase) → o ∉ s.store.posted := by
    intro o phase hbusy hmem
    have hlinked := h.busy.linked o phase hbusy
    simp [hposted o hmem] at hlinked
  have hunflagged : ∀ o ∈ s.store.posted, o ∉ s.beingOptimized := by
    intro o hmem hflagged
    obtain ⟨phase, hbusy⟩ := h.busy.flagged o hflagged
    exact hcurrent o phase hbusy hmem
  have hdisposed : ∀ o, s.store.disposed o = true → o ∈ s.store.posted := by
    intro o ho
    have hqueued := (h.sound.lives o).queued
    have hone : (s.store.life config o).disposed = true := ho
    rw [hone, Bool.toNat_true] at hqueued
    exact List.count_pos_iff.mp (show 0 < (s.store.life config o).posted by omega)
  refine ⟨fun o ho => ⟨hunflagged o ho, hposted o ho⟩, fun o ho => ?_, hcurrent⟩
  exact ⟨hunflagged o (hdisposed o ho), hposted o (hdisposed o ho)⟩

/-- The optimizer has let go of deleted objects in every run in which it does not evict the object
that it is busy with, and objects are put into the queue of deleted objects only when nobody has a
message about them for the optimizer. -/
theorem deleted_let_go
    (hruns : Reaches (step config) (Considerate config) (create config) actions s) : s.LetsGo :=
  (hruns.invariant create_valid fun _ _ _ h hadmits hstep => h.step hadmits hstep).letsGo

theorem deleted_let_go_of_eviction :
    ∃ s, Reaches (step (singleTable .session)) (Considerate (singleTable .session))
        (create (singleTable .session))
        [.store (.write ⟨1, [97]⟩ 10 fun _ _ => false), .store (.optimizer (.write 0) []),
          .store (.write ⟨2, [98]⟩ 11 fun _ _ => false), .store (.optimizer (.write 1) []),
          .examine 0, .release, .store (.run [1]), .finish] s ∧
      s.store.posted = [1] ∧ s.LetsGo :=
  ⟨_, Reaches.get_foldlM rfl, rfl, deleted_let_go (Reaches.get_foldlM rfl)⟩

/-- The optimizer runs out of memory while it compresses a session, and evicts it. The session is
disposed when somebody else writes a session; the optimizer has yet to lock it. -/
theorem evicted_during_recompression :
    ∃ s, Reaches (step (singleTable .session)) (fun _ _ => True) (create (singleTable .session))
        [.store (.write ⟨1, [97]⟩ 10 fun _ _ => false), .store (.optimizer (.write 0) []),
          .examine 0, .release, .store (.run [0]),
          .store (.write ⟨1, [97]⟩ 11 fun _ _ => false)] s ∧
      s.store.posted = [0] ∧ s.store.disposed 0 = true ∧ 0 ∈ s.beingOptimized ∧
      s.current = some (0, .compressing) ∧ ¬s.LetsGo :=
  ⟨_, Reaches.get_foldlM rfl, rfl, rfl, by decide, rfl, fun h => h.current 0 _ rfl (by decide)⟩

end RecompressingStore

end CyberCache
