import CyberCache.Lib.Runs
import CyberCache.Store.StoreLives

/-!
# The end of an object

An object leaves its store in three stages. Two things can go wrong. If the object is put into the
queue of deleted objects while the optimizer still has messages about it, the optimizer links it
again, and later uses an object that was disposed. If a message that carries the object meets
somebody who has not yet heard of it, the message is dropped, and the object stays forever. Runs
without these two meetings are all right.
-/

namespace CyberCache

namespace PayloadStore

variable {config : StoreConfiguration} {s s' : PayloadStore} {actions : List StoreAction} {o : Nat}

/-! ## Deleted objects are forgotten -/

/-- The optimizer has nothing to do with objects that were deleted. -/
structure ForgetsDeleted (s : PayloadStore) : Prop where
  unlinked : ∀ o, (s.flags o).deleted = true → (s.flags o).linkedByOptimizer = false
  once : s.posted.Nodup
  messages : ∀ m ∈ s.optimizerQueue, ∀ o, m.object? = some o → s.disposed o = false
  chains : ∀ o, (s.flags o).linkedByOptimizer = true → s.disposed o = false

def NoneAbout (messages : List OptimizerMessage) (o : Nat) : Prop :=
  ∀ m ∈ messages, m.object? ≠ some o

instance (messages : List OptimizerMessage) (o : Nat) : Decidable (NoneAbout messages o) :=
  inferInstanceAs (Decidable (∀ m ∈ messages, m.object? ≠ some o))

variable (config) in
/-- If an object is put into the queue of deleted objects, the optimizer does not have it in its
chains and no other message about it in its queue. -/
def ForgetsFirst (s : PayloadStore) : StoreAction → Prop
  | .optimizer (.delete o retries) _ =>
    (s.flags o).linkedByOptimizer = true → NoneAbout (s.optimizerQueue.erase (.delete o retries)) o
  | .optimizer .purge chosen | .run chosen =>
    config.domain = .session → ∀ o ∈ chosen, NoneAbout s.optimizerQueue o
  | .tagManager (.unlinkObject o) _ =>
    (s.flags o).linkedByOptimizer = false ∧ NoneAbout s.optimizerQueue o
  | _ => True

instance (s : PayloadStore) : (a : StoreAction) → Decidable (ForgetsFirst config s a)
  | .optimizer (.delete _ _) _ => inferInstanceAs (Decidable (_ → _))
  | .optimizer .purge _ | .run _ => inferInstanceAs (Decidable (_ → _))
  | .tagManager (.unlinkObject _) _ => inferInstanceAs (Decidable (_ ∧ _))
  | .optimizer (.write _) _ | .optimizer (.read _) _ | .tagManager (.save _) _
  | .tagManager (.remove _) _ | .tagManager .clean _ | .tagManager .cleanOld _ | .write _ _ _
  | .read _ _ | .destroy _ | .clean | .gc | .freeMemory => .isTrue trivial

theorem accesses_eq_zero (h : NoneAbout s.optimizerQueue o) :
    (s.life config o).accesses = 0 := by
  refine List.countP_eq_zero.mpr fun m hm hisAccess => h m hm ?_
  cases m <;> simp_all [OptimizerMessage.isAccess, OptimizerMessage.object?]

theorem accesses_eq_zero_of_erase {retries : Nat}
    (h : NoneAbout (s.optimizerQueue.erase (.delete o retries)) o) :
    (s.life config o).accesses = 0 := by
  refine List.countP_eq_zero.mpr fun m hm hisAccess => ?_
  by_cases heq : m = .delete o retries
  · subst heq
    simp [OptimizerMessage.isAccess] at hisAccess
  · refine h m ((List.mem_erase_of_ne heq).mpr hm) ?_
    cases m <;> simp_all [OptimizerMessage.isAccess, OptimizerMessage.object?]

theorem forgets_of_occurs {a : StoreAction} {e : LifeEvent} (hadmits : ForgetsFirst config s a)
    (hoccurs : Occurs a o e) (hlinked : e = .unlink → (s.flags o).linkedByOptimizer = true) :
    (s.life config o).Forgets config.domain e := by
  cases e with
  | unlink =>
    obtain ⟨retries, chosen, rfl⟩ := hoccurs
    exact accesses_eq_zero_of_erase (hadmits (hlinked rfl))
  | purge =>
    obtain ⟨chosen, hmem, rfl | rfl⟩ := hoccurs
    · exact fun hdomain => accesses_eq_zero (hadmits hdomain o hmem)
    · exact fun hdomain => accesses_eq_zero (hadmits hdomain o hmem)
  | untagPurged =>
    obtain ⟨chosen, rfl⟩ := hoccurs
    exact ⟨hadmits.1, accesses_eq_zero hadmits.2⟩
  | _ => trivial

theorem Sound.forgotten_step {a : StoreAction} (hsound : s.Sound config)
    (hforgotten : ∀ o, (s.life config o).Forgotten) (hadmits : ForgetsFirst config s a)
    (hs' : s.step config a = some s') (o : Nat) : (s'.life config o).Forgotten := by
  have hinv : (s'.life config o).Valid config.domain ∧ (s'.life config o).Forgotten := by
    refine (hsound.advances hs' o).induct
      (I := fun l => l.Valid config.domain ∧ l.Forgotten) ⟨hsound.lives o, hforgotten o⟩
      fun l e l' ⟨hvalid, hl⟩ hnext hcause => ⟨hvalid.next hnext, hl.next hvalid hnext ?_⟩
    obtain rfl | rfl | rfl | ⟨rfl, hoccurs⟩ := hcause
    · trivial
    · trivial
    · trivial
    · exact forgets_of_occurs hadmits hoccurs fun he => (he ▸ hnext).of_unlink
  exact hinv.2

theorem create_forgotten (o : Nat) : ((create config).life config o).Forgotten := by
  rw [create_life]
  exact fun hdeleted => absurd hdeleted Bool.false_ne_true

theorem reaches_forgotten
    (h : Reaches (PayloadStore.step config) (ForgetsFirst config) (create config) actions s) :
    s.Sound config ∧ ∀ o, (s.life config o).Forgotten :=
  h.invariant (P := fun s => s.Sound config ∧ ∀ o, (s.life config o).Forgotten)
    ⟨create_sound, create_forgotten⟩
    fun _ _ _ ⟨hsound, hforgotten⟩ hadmits hs' =>
      ⟨hsound.step hs', hsound.forgotten_step hforgotten hadmits hs'⟩

/-- In every run in which objects are put into the queue of deleted objects only when the optimizer
is through with them, the optimizer has nothing to do with deleted objects. -/
theorem deleted_forgotten
    (h : Reaches (PayloadStore.step config) (ForgetsFirst config) (create config) actions s) :
    s.ForgetsDeleted := by
  obtain ⟨hsound, hforgotten⟩ := reaches_forgotten h
  refine ⟨fun o hdeleted => (hforgotten o hdeleted).1, ?_, fun m hm o ho => ?_, fun o ho => ?_⟩
  · rw [List.nodup_iff_count_le_one]
    exact fun o => (hsound.lives o).posted.trans_le (Bool.toNat_le _)
  · by_contra hdisposed
    obtain ⟨-, haccesses, hdeletes⟩ :=
      (hforgotten o).of_disposed (hsound.lives o) (eq_true_of_ne_false hdisposed)
    have hnotAccess := List.countP_eq_zero.mp haccesses m hm
    have hnotDelete := List.countP_eq_zero.mp hdeletes m hm
    cases m <;>
      simp_all [OptimizerMessage.isAccess, OptimizerMessage.isDelete, OptimizerMessage.object?]
  · by_contra hdisposed
    have hunlinked :=
      ((hforgotten o).of_disposed (hsound.lives o) (eq_true_of_ne_false hdisposed)).1
    simp [ho] at hunlinked

theorem deleted_forgotten_of_destroy :
    ∃ s, Reaches (PayloadStore.step (singleTable .session)) (ForgetsFirst (singleTable .session))
        (create (singleTable .session))
        [.write ⟨1, [97]⟩ 10 (fun _ _ => false), .optimizer (.write 0) [], .destroy ⟨1, [97]⟩,
          .optimizer (.delete 0 0) [], .write ⟨1, [97]⟩ 11 (fun _ _ => false)] s ∧
      s.disposed 0 = true ∧ s.ForgetsDeleted :=
  ⟨_, Reaches.get_foldlM rfl, rfl, deleted_forgotten (Reaches.get_foldlM rfl)⟩

/-- A session is purged while a message that it was written waits behind the request. -/
theorem purged_session_relinked :
    ∃ s, Reaches (PayloadStore.step (singleTable .session)) (fun _ _ => True)
        (create (singleTable .session))
        [.write ⟨1, [97]⟩ 10 (fun _ _ => false), .optimizer (.write 0) [], .gc,
          .write ⟨1, [97]⟩ 11 (fun _ _ => false), .optimizer .purge [0],
          .optimizer (.write 0) []] s ∧
      (s.flags 0).deleted = true ∧ (s.flags 0).linkedByOptimizer = true ∧ ¬s.ForgetsDeleted :=
  ⟨_, Reaches.get_foldlM rfl, rfl, rfl, fun h => Bool.false_ne_true (h.unlinked 0 rfl).symm⟩

/-! ## Objects that are being deleted can be disposed -/

/-- When all messages have been processed, objects in tables that are being deleted wait for their
disposal. -/
def NoStrayObjects (s : PayloadStore) : Prop :=
  s.optimizerQueue = [] → s.tagQueue = [] → ∀ i, ∃ objects, (s.tables i).enumerate = some objects ∧
    ∀ o ∈ objects, (s.flags o).beingDeleted = true →
      (s.flags o).deleted = true ∧ o ∈ s.queues i

/-- The tag manager has linked the page that it is to remove, and the optimizer has linked the
object of a `DELETE` message before it gives up. -/
def MeetsLinked (s : PayloadStore) : StoreAction → Prop
  | .tagManager (.remove o) _ => (s.flags o).linkedByTM = true
  | .optimizer (.delete o retries) _ =>
    (s.flags o).linkedByOptimizer = true ∨ retries + 1 < maxNumRetries
  | _ => True

instance (s : PayloadStore) : (a : StoreAction) → Decidable (MeetsLinked s a)
  | .tagManager (.remove _) _ => inferInstanceAs (Decidable (_ = _))
  | .optimizer (.delete _ _) _ => inferInstanceAs (Decidable (_ ∨ _))
  | .optimizer .purge _ | .optimizer (.write _) _ | .optimizer (.read _) _ | .tagManager (.save _) _
  | .tagManager (.unlinkObject _) _ | .tagManager .clean _ | .tagManager .cleanOld _ | .write _ _ _
  | .read _ _ | .destroy _ | .clean | .gc | .freeMemory | .run _ => .isTrue trivial

theorem reaches_carried
    (h : Reaches (PayloadStore.step config) MeetsLinked (create config) actions s) :
    s.Sound config ∧ ∀ o, (s.life config o).Carried := by
  refine h.invariant (P := fun s => s.Sound config ∧ ∀ o, (s.life config o).Carried)
    ⟨create_sound, fun o => by rw [create_life]; rfl⟩
    fun s a s' ⟨hsound, hcarried⟩ hadmits hs' => ⟨hsound.step hs', fun o => ?_⟩
  have hinv : (s'.life config o).Valid config.domain ∧ (s'.life config o).Carried := by
    refine (hsound.advances hs' o).induct
      (I := fun l => l.Valid config.domain ∧ l.Carried) ⟨hsound.lives o, hcarried o⟩
      fun l e l' ⟨hvalid, hl⟩ hnext hcause => ⟨hvalid.next hnext, hl.next hvalid hnext ⟨?_, ?_⟩⟩
    · rintro rfl
      obtain he | he | he | ⟨rfl, retries, chosen, rfl, hretries⟩ := hcause
      · cases he
      · cases he
      · cases he
      · have hunlinked : (s.flags o).linkedByOptimizer = false := hnext.of_giveUp
        obtain hlinked | hlt := hadmits
        · exact absurd hlinked (by simp [hunlinked])
        · omega
    · rintro rfl
      obtain he | he | he | ⟨rfl, chosen, rfl⟩ := hcause
      · cases he
      · cases he
      · cases he
      · have huntagged : (s.flags o).linkedByTM = false := hnext.of_skipRemove
        exact absurd hadmits (by simp [MeetsLinked, huntagged])
  exact hinv.2

/-- In every run in which the messages that carry an object meet those who have linked it, no object
is left behind. -/
theorem no_stray_objects
    (h : Reaches (PayloadStore.step config) MeetsLinked (create config) actions s) :
    s.NoStrayObjects := by
  obtain ⟨hsound, hcarried⟩ := reaches_carried h
  intro hoptimizer htag i
  obtain ⟨recent, old, hholds⟩ := hsound.tables i
  refine ⟨recent ++ old, hholds.represents.enumerate, fun o ho hflag => ?_⟩
  obtain ⟨-, hdisposed, htable⟩ := (hholds.mem_iff o).mp ho
  -- with both queues empty, only the queue of deleted objects can carry the object
  have hdeleted : (s.flags o).deleted = true := by
    have hone := hcarried o
    simp [Life.Carried, Life.carriers, life, hoptimizer, htag, hflag] at hone
    exact hone
  refine ⟨hdeleted, List.count_pos_iff.mp ?_⟩
  have hposted := (hsound.lives o).posted
  have hqueued := (hsound.lives o).queued
  simp only [life, hdeleted, hdisposed, htable, Bool.toNat_true, Bool.toNat_false]
    at hposted hqueued
  omega

theorem no_stray_objects_of_remove :
    ∃ s, Reaches (PayloadStore.step (singleTable .page)) MeetsLinked (create (singleTable .page))
        [.write ⟨1, [97]⟩ 10 (fun _ _ => false), .tagManager (.save 0) [],
          .optimizer (.write 0) [], .destroy ⟨1, [97]⟩, .tagManager (.remove 0) [],
          .optimizer (.delete 0 0) []] s ∧
      s.optimizerQueue = [] ∧ s.tagQueue = [] ∧ (s.flags 0).deleted = true ∧ s.NoStrayObjects :=
  ⟨_, Reaches.get_foldlM rfl, rfl, rfl, rfl, no_stray_objects (Reaches.get_foldlM rfl)⟩

/-- A page is removed before the tag manager knows it. -/
theorem early_removal_leaves_stray :
    ∃ s, Reaches (PayloadStore.step (singleTable .page)) (fun _ _ => True)
        (create (singleTable .page))
        [.write ⟨1, [97]⟩ 10 (fun _ _ => false), .destroy ⟨1, [97]⟩, .tagManager (.save 0) [],
          .tagManager (.remove 0) []] s ∧
      s.optimizerQueue = [] ∧ s.tagQueue = [] ∧ (s.tables 0).enumerate = some [0] ∧
      (s.flags 0).beingDeleted = true ∧ (s.flags 0).deleted = false ∧ s.queues 0 = [] ∧
      ¬s.NoStrayObjects := by
  refine ⟨_, Reaches.get_foldlM rfl, rfl, rfl, rfl, rfl, rfl, rfl, fun h => ?_⟩
  obtain ⟨objects, henumerate, hobjects⟩ := h rfl rfl 0
  obtain rfl : [0] = objects := Option.some.inj henumerate
  exact Bool.false_ne_true (hobjects 0 (by simp) rfl).1

/-! ## All objects -/

variable (config) in
/-- Where an object that is being deleted is: in messages, queues of deleted objects, or nowhere. -/
def numPlaces (s : PayloadStore) (o : Nat) : Nat :=
  s.optimizerQueue.countP (·.isDelete o) + s.tagQueue.count (.remove o) +
    s.tagQueue.count (.unlinkObject o) + (s.queues (s.tableOf config o)).count o +
    (s.disposed o).toNat

/-- Whatever the threads do and in whatever order: an object that is being deleted is in one place
at most. Every table has the objects with its hash codes that were not disposed of. -/
theorem objects_accounted
    (hrun : Reaches (PayloadStore.step config) (fun _ _ => True) (create config) actions s)
    (o : Nat) :
    s.numPlaces config o ≤ (s.flags o).beingDeleted.toNat ∧
      ∀ i, (o ∈ s.queues i → s.tableOf config o = i) ∧
        ∃ objects, (s.tables i).enumerate = some objects ∧ objects.Nodup ∧
          (o ∈ objects ↔ o < s.numObjects ∧ s.disposed o = false ∧ s.tableOf config o = i) := by
  have hsound : s.Sound config := hrun.invariant create_sound fun _ _ _ h _ => h.step
  constructor
  · have hcarriers := (hsound.lives o).carriers
    have hqueued := (hsound.lives o).queued.trans (hsound.lives o).posted
    simp only [life, Life.carriers, numPlaces] at hcarriers hqueued ⊢
    omega
  · intro i
    obtain ⟨recent, old, hholds⟩ := hsound.tables i
    have hnodup : (recent ++ old).Nodup := hholds.decreasing.imp Nat.ne_of_gt
    exact ⟨hsound.filed i o, _, hholds.represents.enumerate, hnodup, hholds.mem_iff o⟩

theorem destroyed_session_accounted :
    ∃ s, Reaches (PayloadStore.step (singleTable .session)) (fun _ _ => True)
        (create (singleTable .session))
        [.write ⟨1, [97]⟩ 10 (fun _ _ => false), .optimizer (.write 0) [], .destroy ⟨1, [97]⟩,
          .optimizer (.delete 0 0) []] s ∧ s.queues 0 = [0] ∧
      s.numPlaces (singleTable .session) 0 ≤ (s.flags 0).beingDeleted.toNat :=
  ⟨_, Reaches.get_foldlM rfl, rfl, (objects_accounted (Reaches.get_foldlM rfl) 0).1⟩

end PayloadStore

end CyberCache
