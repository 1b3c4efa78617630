import CyberCache.Lib.Runs

/-!
# Locks of hash objects

A `LockableObject` keeps one word: its highest bit says that the object is locked, the other bits
name the threads that wait for it. A thread that cannot lock the object waits for its own event; the
thread that unlocks the object takes all waiting threads out of the word, puts all but the first of
them back, and triggers the event of the first. There is no other protection, so that threads may
come between any two of these steps.

The events belong to threads and not to objects. No trigger is lost, for a thread that waits for an
object is in one place only: in the word of the object, in the hands of one thread that is in
`unlock()`, or triggered.
-/

namespace CyberCache

open Function (update update_apply)

/-! ## Threads -/

/-- There has to be a bit for each thread besides the highest one; this is a static assertion. -/
structure ThreadPool where
  maxNumThreads : Nat
  fits : maxNumThreads < 64

def ThreadPool.Id (pool : ThreadPool) : Type := Fin pool.maxNumThreads

variable {pool : ThreadPool}

namespace ThreadPool.Id

instance : DecidableEq pool.Id := inferInstanceAs (DecidableEq (Fin pool.maxNumThreads))

instance : Fintype pool.Id := inferInstanceAs (Fintype (Fin pool.maxNumThreads))

def index (t : pool.Id) : Nat := Fin.val t

theorem index_lt (t : pool.Id) : t.index < 63 :=
  Nat.lt_of_lt_of_le (Fin.isLt t) (Nat.le_of_lt_succ pool.fits)

theorem index_inj {t u : pool.Id} : t.index = u.index ↔ t = u := Fin.val_inj

end ThreadPool.Id

/-! ## The word of an object -/

def loLocked : BitVec 64 := 0x8000000000000000#64

def threadMask (t : pool.Id) : BitVec 64 := 1#64 <<< t.index

structure LockWord where
  bits : BitVec 64
deriving DecidableEq

namespace LockWord

def empty : LockWord := ⟨0⟩

def IsLocked (word : LockWord) : Prop := word.bits &&& loLocked ≠ 0

instance (word : LockWord) : Decidable word.IsLocked := inferInstanceAs (Decidable (_ ≠ _))

def HasThread (word : LockWord) (t : pool.Id) : Prop := word.bits &&& threadMask t ≠ 0

instance (word : LockWord) (t : pool.Id) : Decidable (word.HasThread t) :=
  inferInstanceAs (Decidable (_ ≠ _))

/-- The `fetch_or()` of `lock()`. -/
def addLocking (word : LockWord) (t : pool.Id) : LockWord :=
  ⟨word.bits ||| (threadMask t + loLocked)⟩

def setLocked (word : LockWord) : LockWord := ⟨word.bits ||| loLocked⟩

def clearLocked (word : LockWord) : LockWord := ⟨word.bits &&& ~~~loLocked⟩

def clearThread (word : LockWord) (t : pool.Id) : LockWord := ⟨word.bits &&& ~~~threadMask t⟩

def addThreads (word others : LockWord) : LockWord := ⟨word.bits ||| others.bits⟩

theorem getLsbD_loLocked (i : Nat) : loLocked.getLsbD i = decide (i = 63) := by
  have hloLocked : loLocked = 1#64 <<< 63 := by decide
  simp only [hloLocked, BitVec.getLsbD_shiftLeft, BitVec.getLsbD_one]
  grind

theorem getLsbD_threadMask (t : pool.Id) (i : Nat) :
    (threadMask t).getLsbD i = decide (t.index = i) := by
  have hlt := t.index_lt
  simp only [threadMask, BitVec.getLsbD_shiftLeft, BitVec.getLsbD_one]
  grind

theorem and_ne_zero {bits mask : BitVec 64} {i : Nat}
    (hmask : ∀ j, mask.getLsbD j = decide (i = j)) : bits &&& mask ≠ 0 ↔ bits.getLsbD i = true := by
  rw [ne_eq, BitVec.eq_of_getLsbD_eq_iff]
  simp only [not_forall, BitVec.getLsbD_and, hmask]
  grind

theorem isLocked_iff (word : LockWord) : word.IsLocked ↔ word.bits.getLsbD 63 = true :=
  and_ne_zero (by simp [getLsbD_loLocked, eq_comm])

theorem hasThread_iff (word : LockWord) (t : pool.Id) :
    word.HasThread t ↔ word.bits.getLsbD t.index = true :=
  and_ne_zero (getLsbD_threadMask t)

theorem threadMask_add_loLocked (t : pool.Id) :
    threadMask t + loLocked = threadMask t ||| loLocked := by
  have hlt := t.index_lt
  apply BitVec.add_eq_or_of_and_eq_zero
  apply BitVec.eq_of_getLsbD_eq
  intro i _
  simp only [BitVec.getLsbD_and, getLsbD_loLocked, getLsbD_threadMask, BitVec.getLsbD_zero]
  grind

variable (word others : LockWord) (t u : pool.Id)

@[simp, grind .]
theorem not_isLocked_empty : ¬ empty.IsLocked := by decide

@[simp, grind .]
theorem not_hasThread_empty : ¬ empty.HasThread t := by simp [HasThread, empty]

@[simp, grind .]
theorem isLocked_addLocking : (word.addLocking t).IsLocked := by
  simp [isLocked_iff, addLocking, threadMask_add_loLocked, getLsbD_loLocked]

@[simp, grind =]
theorem hasThread_addLocking : (word.addLocking t).HasThread u ↔ word.HasThread u ∨ t = u := by
  have hlt := u.index_lt
  simp only [hasThread_iff, addLocking, threadMask_add_loLocked, BitVec.getLsbD_or,
    getLsbD_loLocked, getLsbD_threadMask, ThreadPool.Id.index_inj]
  grind

@[simp, grind .]
theorem isLocked_setLocked : word.setLocked.IsLocked := by
  simp [isLocked_iff, setLocked, getLsbD_loLocked]

@[simp, grind =]
theorem hasThread_setLocked : word.setLocked.HasThread t ↔ word.HasThread t := by
  have hlt := t.index_lt
  simp only [hasThread_iff, setLocked, BitVec.getLsbD_or, getLsbD_loLocked]
  grind

theorem setLocked_eq {word : LockWord} (h : word.IsLocked) : word.setLocked = word := by
  rw [isLocked_iff] at h
  refine congrArg LockWord.mk (BitVec.eq_of_getLsbD_eq fun i _ => ?_)
  simp only [BitVec.getLsbD_or, getLsbD_loLocked]
  grind

@[simp, grind =]
theorem hasThread_clearLocked : word.clearLocked.HasThread t ↔ word.HasThread t := by
  have hlt := t.index_lt
  simp only [hasThread_iff, clearLocked, BitVec.getLsbD_and, BitVec.getLsbD_not, getLsbD_loLocked]
  grind

@[simp, grind =]
theorem isLocked_clearThread : (word.clearThread t).IsLocked ↔ word.IsLocked := by
  have hlt := t.index_lt
  simp only [isLocked_iff, clearThread, BitVec.getLsbD_and, BitVec.getLsbD_not, getLsbD_threadMask]
  grind

@[simp, grind =]
theorem hasThread_clearThread : (word.clearThread t).HasThread u ↔ word.HasThread u ∧ t ≠ u := by
  have hlt := u.index_lt
  simp only [hasThread_iff, clearThread, BitVec.getLsbD_and, BitVec.getLsbD_not, getLsbD_threadMask,
    ThreadPool.Id.index_inj]
  grind

@[simp, grind =]
theorem isLocked_addThreads :
    (word.addThreads others).IsLocked ↔ word.IsLocked ∨ others.IsLocked := by
  simp [isLocked_iff, addThreads]

@[simp, grind =]
theorem hasThread_addThreads :
    (word.addThreads others).HasThread t ↔ word.HasThread t ∨ others.HasThread t := by
  simp [hasThread_iff, addThreads]

end LockWord

/-! ## What the threads do -/

inductive QuickEvent where
  | idle
  | triggered
deriving DecidableEq

variable (pool) (Object : Type*)

/-- Where a thread is in the methods of `LockableObject`. -/
inductive LockerState where
  | outside
  /-- In `lock()`, before its first `fetch_or()`. -/
  | locking (o : Object)
  | waiting (o : Object)
  /-- The event has been triggered, and is not yet idle again. -/
  | woken (o : Object)
  /-- It has consumed its trigger, and is about to try again. -/
  | retrying (o : Object)
  /-- It has got the lock, and its own bit is still set. -/
  | acquired (o : Object)
  /-- In `unlock()`, after the exchange; `i` will be woken, `others` have to be put back. -/
  | restoring (o : Object) (i : pool.Id) (others : LockWord)
  | triggering (o : Object) (i : pool.Id)

structure ObjectLocks where
  words : Object → LockWord
  events : pool.Id → QuickEvent
  places : pool.Id → LockerState pool Object
  /-- Which threads have locked the object; this is not stored anywhere. -/
  owners : Object → Finset pool.Id

inductive LockerAction where
  | lock (t : pool.Id) (o : Object)
  | fetchOr (t : pool.Id)
  | wake (t : pool.Id)
  | consume (t : pool.Id)
  | fetchAnd (t : pool.Id)
  | tryLock (t : pool.Id) (o : Object)
  | unlock (t : pool.Id) (o : Object)
  | restore (t : pool.Id)
  | trigger (t : pool.Id)

variable {pool Object}

namespace ObjectLocks

def create : ObjectLocks pool Object where
  words := fun _ => .empty
  events := fun _ => .idle
  places := fun _ => .outside
  owners := fun _ => ∅

section Updates

variable (s : ObjectLocks pool Object) (t u : pool.Id) (place : LockerState pool Object)
  (event : QuickEvent) (o o' : Object) (word : LockWord) (owners : Finset pool.Id)

def goto : ObjectLocks pool Object := { s with places := update s.places t place }

def setEvent : ObjectLocks pool Object := { s with events := update s.events t event }

@[simp, grind =]
theorem places_goto : (s.goto t place).places u = if u = t then place else s.places u :=
  update_apply ..

@[simp, grind =]
theorem words_goto : (s.goto t place).words o = s.words o := rfl

@[simp, grind =]
theorem events_goto : (s.goto t place).events u = s.events u := rfl

@[simp, grind =]
theorem owners_goto : (s.goto t place).owners o = s.owners o := rfl

@[simp, grind =]
theorem events_setEvent : (s.setEvent t event).events u = if u = t then event else s.events u :=
  update_apply ..

@[simp, grind =]
theorem words_setEvent : (s.setEvent t event).words o = s.words o := rfl

@[simp, grind =]
theorem places_setEvent : (s.setEvent t event).places u = s.places u := rfl

@[simp, grind =]
theorem owners_setEvent : (s.setEvent t event).owners o = s.owners o := rfl

variable [DecidableEq Object]

def setWord : ObjectLocks pool Object := { s with words := update s.words o word }

def setOwners : ObjectLocks pool Object := { s with owners := update s.owners o owners }

@[simp, grind =]
theorem words_setWord : (s.setWord o word).words o' = if o' = o then word else s.words o' :=
  update_apply ..

@[simp, grind =]
theorem events_setWord : (s.setWord o word).events u = s.events u := rfl

@[simp, grind =]
theorem places_setWord : (s.setWord o word).places u = s.places u := rfl

@[simp, grind =]
theorem owners_setWord : (s.setWord o word).owners o' = s.owners o' := rfl

@[simp, grind =]
theorem owners_setOwners :
    (s.setOwners o owners).owners o' = if o' = o then owners else s.owners o' :=
  update_apply ..

@[simp, grind =]
theorem words_setOwners : (s.setOwners o owners).words o' = s.words o' := rfl

@[simp, grind =]
theorem events_setOwners : (s.setOwners o owners).events u = s.events u := rfl

@[simp, grind =]
theorem places_setOwners : (s.setOwners o owners).places u = s.places u := rfl

end Updates

variable [DecidableEq Object]

/-- The condition of the loop in `lock()`. -/
def fetchOr (s : ObjectLocks pool Object) (t : pool.Id) (o : Object) : ObjectLocks pool Object :=
  let s' := s.setWord o ((s.words o).addLocking t)
  if (s.words o).IsLocked then s'.goto t (.waiting o)
  else (s'.setOwners o (insert t (s.owners o))).goto t (.acquired o)

def tryLock (s : ObjectLocks pool Object) (t : pool.Id) (o : Object) : ObjectLocks pool Object :=
  let s' := s.setWord o (s.words o).setLocked
  if (s.words o).IsLocked then s' else s'.setOwners o (insert t (s.owners o))

def firstThread (state : LockWord) : Option pool.Id :=
  (List.finRange pool.maxNumThreads).find? fun i : pool.Id => state.HasThread i

theorem hasThread_of_firstThread {state : LockWord} {i : pool.Id}
    (hi : firstThread state = some i) : state.HasThread i := by
  simpa using List.find?_some hi

theorem not_hasThread_of_firstThread {state : LockWord}
    (hi : (firstThread state : Option pool.Id) = none) (u : pool.Id) : ¬ state.HasThread u := by
  simpa using List.find?_eq_none.mp hi u (List.mem_finRange _)

def exchange (s : ObjectLocks pool Object) (t : pool.Id) (o : Object) : ObjectLocks pool Object :=
  let state := (s.words o).clearLocked
  let s' := (s.setWord o .empty).setOwners o ((s.owners o).erase t)
  if state ≠ .empty then
    match firstThread state with
    | some i => s'.goto t (.restoring o i (state.clearThread i))
    | none => s'
  else s'

def step (s : ObjectLocks pool Object) : LockerAction pool Object → Option (ObjectLocks pool Object)
  | .lock t o =>
    match s.places t with
    | .outside => some (s.goto t (.locking o))
    | _ => none
  | .fetchOr t =>
    match s.places t with
    | .locking o | .retrying o => some (s.fetchOr t o)
    | _ => none
  | .wake t =>
    match s.places t with
    | .waiting o => if s.events t = .triggered then some (s.goto t (.woken o)) else none
    | _ => none
  | .consume t =>
    match s.places t with
    | .woken o => some ((s.setEvent t .idle).goto t (.retrying o))
    | _ => none
  | .fetchAnd t =>
    match s.places t with
    | .acquired o => some ((s.setWord o ((s.words o).clearThread t)).goto t .outside)
    | _ => none
  | .tryLock t o =>
    match s.places t with
    | .outside => some (s.tryLock t o)
    | _ => none
  | .unlock t o =>
    match s.places t with
    | .outside => if t ∈ s.owners o then some (s.exchange t o) else none
    | _ => none
  | .restore t =>
    match s.places t with
    | .restoring o i others =>
      some ((s.setWord o ((s.words o).addThreads others)).goto t (.triggering o i))
    | _ => none
  | .trigger t =>
    match s.places t with
    | .triggering _ i => some ((s.setEvent i .triggered).goto t .outside)
    | _ => none

end ObjectLocks

/-! ## Where the waiting threads are -/

namespace LockerState

/-- The thread `i` waits for the object, and is in the hands of the thread at this place. -/
def Carries : LockerState pool Object → Object → pool.Id → Prop
  | .restoring o i others, o', j => o = o' ∧ (i = j ∨ others.HasThread j)
  | .triggering o i, o', j => o = o' ∧ i = j
  | _, _, _ => False

def InWait : LockerState pool Object → Prop
  | .waiting _ | .woken _ => True
  | _ => False

def Unlocks : LockerState pool Object → Object → Prop
  | .restoring o _ _, o' | .triggering o _, o' => o = o'
  | _, _ => False

def Locks : LockerState pool Object → Object → Prop
  | .locking o, o' | .waiting o, o' | .woken o, o' | .retrying o, o' | .acquired o, o' => o = o'
  | _, _ => False

instance [DecidableEq Object] (o : Object) :
    (place : LockerState pool Object) → Decidable (place.Unlocks o)
  | .restoring _ _ _ | .triggering _ _ => inferInstanceAs (Decidable (_ = o))
  | .outside | .locking _ | .waiting _ | .woken _ | .retrying _ | .acquired _ => .isFalse id

instance [DecidableEq Object] (o : Object) :
    (place : LockerState pool Object) → Decidable (place.Locks o)
  | .locking _ | .waiting _ | .woken _ | .retrying _ | .acquired _ =>
    inferInstanceAs (Decidable (_ = o))
  | .outside | .restoring _ _ _ | .triggering _ _ => .isFalse id

end LockerState

namespace ObjectLocks

open LockerState

/-- Somebody is going to lock or unlock the object: it is being unlocked, or a thread that has been
woken up for it has not tried again yet. -/
def Hastens (s : ObjectLocks pool Object) (o : Object) (u : pool.Id) : Prop :=
  (s.places u).Unlocks o ∨ (s.places u).Locks o ∧ s.events u = .triggered ∨ s.places u = .retrying o

/-- The thread waits for the object, and will be found: in the word of the object, by a thread in
`unlock()`, or by itself. -/
def Kept (s : ObjectLocks pool Object) (o : Object) (t : pool.Id) : Prop :=
  (s.words o).HasThread t ∨ (∃ u, (s.places u).Carries o t) ∨ s.events t = .triggered

structure Owned (s : ObjectLocks pool Object) : Prop where
  owner : ∀ o t, t ∈ s.owners o → (s.words o).IsLocked
  owner_unique : ∀ o t u, t ∈ s.owners o → u ∈ s.owners o → t = u
  acquired : ∀ t o, s.places t = .acquired o → t ∈ s.owners o

structure Marked (s : ObjectLocks pool Object) : Prop where
  bit : ∀ o (t : pool.Id), (s.words o).HasThread t →
    s.places t = .waiting o ∨ s.places t = .acquired o
  event : ∀ t, s.events t = .triggered → (s.places t).InWait
  bit_idle : ∀ o (t : pool.Id), (s.words o).HasThread t → s.events t = .idle
  woken : ∀ t o, s.places t = .woken o → s.events t = .triggered

structure Handed (s : ObjectLocks pool Object) : Prop where
  carried : ∀ u o t, (s.places u).Carries o t →
    s.places t = .waiting o ∧ ¬ (s.words o).HasThread t ∧ s.events t = .idle
  carried_once : ∀ u v o t, (s.places u).Carries o t → (s.places v).Carries o t → u = v
  picked : ∀ u o i others, s.places u = .restoring o i others → ¬ others.HasThread i

structure Valid (s : ObjectLocks pool Object) : Prop extends s.Owned, s.Marked, s.Handed where
  kept : ∀ t o, s.places t = .waiting o → s.Kept o t
  hastened : ∀ o (t : pool.Id), ¬ (s.words o).IsLocked → (s.words o).HasThread t →
    ∃ u, s.Hastens o u

theorem create_valid : (create : ObjectLocks pool Object).Valid := by
  constructor
  case toOwned | toMarked | toHanded => constructor <;> simp [create, Carries]
  all_goals simp [create]

variable {s s' : ObjectLocks pool Object} {t t' : pool.Id} {o : Object}

/-! The thread `t` moves, and the others remain where they are. -/

theorem not_hastens_of_outside (ht : s.places t = .outside) : ¬ s.Hastens o t := by
  simp [Hastens, ht, Unlocks, Locks]

theorem exists_hastens (h : ∃ u, s.Hastens o u) (hplaces : ∀ u, u ≠ t → s'.places u = s.places u)
    (hevents : ∀ u, u ≠ t → s.events u = .triggered → s'.events u = .triggered)
    (ht : s.Hastens o t → ∃ u, s'.Hastens o u) : ∃ u, s'.Hastens o u := by
  obtain ⟨u, hu⟩ := h
  by_cases hne : u = t
  · exact ht (hne ▸ hu)
  · refine ⟨u, ?_⟩
    simp only [Hastens, hplaces u hne] at hu ⊢
    exact hu.imp_right (Or.imp_left (And.imp_right (hevents u hne)))

theorem Kept.move (h : s.Kept o t') (hplaces : ∀ u, u ≠ t → s'.places u = s.places u)
    (hword : (s.words o).HasThread t' → s'.Kept o t')
    (ht : (s.places t).Carries o t' → s'.Kept o t')
    (hevents : s.events t' = .triggered → s'.events t' = .triggered) : s'.Kept o t' := by
  rcases h with hbit | ⟨u, hu⟩ | hevent
  · exact hword hbit
  · by_cases hne : u = t
    · exact ht (hne ▸ hu)
    · exact .inr (.inl ⟨u, by rwa [hplaces u hne]⟩)
  · exact .inr (.inr (hevents hevent))

/-- The thread has nobody in its hands afterwards, and what the others have is still unmarked. -/
theorem Handed.move (h : s.Handed) (hplaces : ∀ u, u ≠ t → s'.places u = s.places u)
    (hfree : ∀ o u, ¬ (s'.places t).Carries o u)
    (hothers : ∀ v o u, v ≠ t → (s.places v).Carries o u →
      u ≠ t ∧ ¬ (s'.words o).HasThread u ∧ s'.events u = .idle) : s'.Handed := by
  have hold {v : pool.Id} {o : Object} {u : pool.Id} (hv : (s'.places v).Carries o u) :
      v ≠ t ∧ (s.places v).Carries o u := by
    have hne : v ≠ t := fun hv' => hfree o u (hv' ▸ hv)
    exact ⟨hne, by rwa [hplaces v hne] at hv⟩
  constructor
  case carried =>
    intro v o u hv
    obtain ⟨hne, hv⟩ := hold hv
    obtain ⟨hu, hmarks⟩ := hothers v o u hne hv
    exact ⟨(hplaces u hu).trans (h.carried v o u hv).1, hmarks⟩
  case carried_once =>
    intro v w o u hv hw
    exact h.carried_once v w o u (hold hv).2 (hold hw).2
  case picked =>
    intro v o i others hv
    have hne : v ≠ t := by
      rintro rfl
      exact hfree o i (by simp [hv, Carries])
    exact h.picked v o i others (by rwa [hplaces v hne] at hv)

theorem Marked.events_eq_idle (h : s.Marked) (ht : ¬ (s.places t).InWait) : s.events t = .idle := by
  cases hevent : s.events t with
  | idle => rfl
  | triggered => exact absurd (h.event t hevent) ht

theorem Handed.ne_of_carries (h : s.Handed) {v u : pool.Id} (hu : (s.places v).Carries o u)
    (ht : (∀ o, s.places t ≠ .waiting o) ∨ s.events t = .triggered) : u ≠ t := by
  rintro rfl
  obtain ⟨hwaiting, -, hquiet⟩ := h.carried v o u hu
  rcases ht with ht | ht
  · exact ht o hwaiting
  · simp [ht] at hquiet

/-- A step of the thread `t`, which has nobody in its hands and is in nobody's, leaves the other
threads alone, and what the words say about them. For itself, the thread keeps what `Valid`
demands. -/
structure Moves (t : pool.Id) (s s' : ObjectLocks pool Object) : Prop where
  places : ∀ u, u ≠ t → s'.places u = s.places u
  events : ∀ u, u ≠ t → s'.events u = s.events u
  bits : ∀ o u, u ≠ t → ((s'.words o).HasThread u ↔ (s.words o).HasThread u)
  empty : ∀ o u, ¬ (s.places t).Carries o u
  empty' : ∀ o u, ¬ (s'.places t).Carries o u
  apart : (∀ o, s.places t ≠ .waiting o) ∨ s.events t = .triggered
  owners : ∀ o u, u ≠ t → u ∈ s.owners o → u ∈ s'.owners o
  owned : ∀ o u, u ∈ s'.owners o →
    (s'.words o).IsLocked ∧ (u ∈ s.owners o ∨ u = t ∧ ¬ (s.words o).IsLocked)
  acquired : ∀ o, s'.places t = .acquired o → t ∈ s'.owners o
  bit : ∀ o, (s'.words o).HasThread t → s'.events t = .idle ∧
    (s'.places t = .waiting o ∨ s'.places t = .acquired o)
  event : s'.events t = .triggered → (s'.places t).InWait
  woken : ∀ o, s'.places t = .woken o → s'.events t = .triggered
  kept : ∀ o, s'.places t = .waiting o → s'.Kept o t
  hastened : ∀ o (u : pool.Id), ¬ (s'.words o).IsLocked → (s'.words o).HasThread u →
    ¬ (s.words o).IsLocked ∧ (s.words o).HasThread u ∧ (s.Hastens o t → s'.Hastens o t)

namespace Moves

theorem owned' (hmoves : Moves t s s') (h : s.Owned) : s'.Owned where
  owner o u hu := (hmoves.owned o u hu).1
  owner_unique o u v hu hv := by
    rcases (hmoves.owned o u hu).2 with hu | ⟨rfl, hfree⟩ <;>
      rcases (hmoves.owned o v hv).2 with hv | ⟨rfl, hfree'⟩
    · exact h.owner_unique o u v hu hv
    · exact absurd (h.owner o u hu) hfree'
    · exact absurd (h.owner o v hv) hfree
    · rfl
  acquired u o hu := by
    by_cases hne : u = t
    · exact hne ▸ hmoves.acquired o (hne ▸ hu)
    · exact hmoves.owners o u hne (h.acquired u o (hmoves.places u hne ▸ hu))

theorem marked (hmoves : Moves t s s') (h : s.Marked) : s'.Marked := by
  constructor
  case bit =>
    intro o u hu
    by_cases hne : u = t
    · exact hne ▸ (hmoves.bit o (hne ▸ hu)).2
    · exact hmoves.places u hne ▸ h.bit o u ((hmoves.bits o u hne).mp hu)
  case event =>
    intro u hu
    by_cases hne : u = t
    · exact hne ▸ hmoves.event (hne ▸ hu)
    · exact hmoves.places u hne ▸ h.event u (hmoves.events u hne ▸ hu)
  case bit_idle =>
    intro o u hu
    by_cases hne : u = t
    · exact hne ▸ (hmoves.bit o (hne ▸ hu)).1
    · exact hmoves.events u hne ▸ h.bit_idle o u ((hmoves.bits o u hne).mp hu)
  case woken =>
    intro u o hu
    by_cases hne : u = t
    · exact hne ▸ hmoves.woken o (hne ▸ hu)
    · exact hmoves.events u hne ▸ h.woken u o (hmoves.places u hne ▸ hu)

end Moves

namespace Valid

theorem move (h : s.Valid) (hmoves : Moves t s s') : s'.Valid := by
  have hevents := hmoves.events
  constructor
  case toOwned => exact hmoves.owned' h.toOwned
  case toMarked => exact hmoves.marked h.toMarked
  case toHanded =>
    refine h.toHanded.move hmoves.places hmoves.empty' fun v o u _ hu => ?_
    have hne : u ≠ t := h.ne_of_carries hu hmoves.apart
    rw [hmoves.bits o u hne, hevents u hne]
    exact ⟨hne, (h.carried v o u hu).2⟩
  case kept =>
    intro t' o ht'
    by_cases hne : t' = t
    · exact hne ▸ hmoves.kept o (hne ▸ ht')
    · exact (h.kept t' o (hmoves.places t' hne ▸ ht')).move hmoves.places
        (fun hbit => .inl ((hmoves.bits o t' hne).mpr hbit)) (absurd · (hmoves.empty o t'))
        (hevents t' hne ▸ ·)
  case hastened =>
    intro o u hfree hbit
    obtain ⟨hfree', hbit', hmine⟩ := hmoves.hastened o u hfree hbit
    exact exists_hastens (h.hastened o u hfree' hbit') hmoves.places (by grind)
      fun hu => ⟨t, hmine hu⟩

end Valid

section Single

variable [DecidableEq Object]

/-- The steps of the thread `t` in which nobody is handed over: all but an exchange that takes
waiting threads out of the word, and what follows it. -/
inductive Single (t : pool.Id) (s : ObjectLocks pool Object) (o : Object) :
    ObjectLocks pool Object → Prop
  | lock (ht : s.places t = .outside) : Single t s o (s.goto t (.locking o))
  | wait (ht : s.places t = .locking o ∨ s.places t = .retrying o) :
      Single t s o ((s.setWord o ((s.words o).addLocking t)).goto t (.waiting o))
  | acquire (ht : s.places t = .locking o ∨ s.places t = .retrying o)
      (hfree : ¬ (s.words o).IsLocked) :
      Single t s o (((s.setWord o ((s.words o).addLocking t)).setOwners o
        (insert t (s.owners o))).goto t (.acquired o))
  | wake (ht : s.places t = .waiting o) (hevent : s.events t = .triggered) :
      Single t s o (s.goto t (.woken o))
  | consume (ht : s.places t = .woken o) :
      Single t s o ((s.setEvent t .idle).goto t (.retrying o))
  | fetchAnd (ht : s.places t = .acquired o) :
      Single t s o ((s.setWord o ((s.words o).clearThread t)).goto t .outside)
  | takeLock (ht : s.places t = .outside) (hfree : ¬ (s.words o).IsLocked) :
      Single t s o ((s.setWord o (s.words o).setLocked).setOwners o (insert t (s.owners o)))
  | release (ht : s.places t = .outside) (howns : t ∈ s.owners o)
      (hnone : ∀ u : pool.Id, ¬ (s.words o).HasThread u) :
      Single t s o ((s.setWord o .empty).setOwners o ((s.owners o).erase t))

theorem Single.moves (h : s.Valid) (hstep : Single t s o s') : Moves t s s' := by
  -- `t` has no trigger pending unless it waits, and an object it has acquired is locked.
  have hidle := h.events_eq_idle (t := t)
  have hwoken := h.woken t o
  have hlocked (ht : s.places t = .acquired o) := h.owner o t (h.acquired t o ht)
  cases hstep <;> constructor <;> grind [Carries, InWait, Kept, Hastens, Locks, Unlocks, h.bit,
    h.bit_idle, h.event, h.owner, h.owner_unique]

end Single

namespace Valid

variable [DecidableEq Object]

theorem single (h : s.Valid) (hstep : Single t s o s') : s'.Valid :=
  h.move (hstep.moves h)

theorem tryLock (h : s.Valid) (ht : s.places t = .outside) : (s.tryLock t o).Valid := by
  by_cases hlocked : (s.words o).IsLocked
  · simpa [ObjectLocks.tryLock, hlocked, LockWord.setLocked_eq hlocked, setWord] using h
  · simpa [ObjectLocks.tryLock, hlocked] using h.single (.takeLock ht hlocked)

omit [DecidableEq Object] in
theorem waiting_of_bit (h : s.Valid) (ht : s.places t = .outside) (howns : t ∈ s.owners o)
    (u : pool.Id) (hbit : (s.words o).HasThread u) : s.places u = .waiting o := by
  rcases h.bit o u hbit with hu | hu
  · exact hu
  · obtain rfl := h.owner_unique o t u howns (h.acquired u o hu)
    simp [ht] at hu

theorem releaseTo (h : s.Valid) (ht : s.places t = .outside) (howns : t ∈ s.owners o)
    {i : pool.Id} {others : LockWord} (hi : (s.words o).HasThread i)
    (hothers : ∀ u : pool.Id, others.HasThread u ↔ (s.words o).HasThread u ∧ i ≠ u) :
    (((s.setWord o .empty).setOwners o ((s.owners o).erase t)).goto t
      (.restoring o i others)).Valid := by
  have hevent := h.events_eq_idle (t := t) (by simp [ht, InWait])
  have hwaiting := h.waiting_of_bit ht howns
  have hmine (o' : Object) (u : pool.Id) : (LockerState.restoring o i others).Carries o' u ↔
      o = o' ∧ (s.words o).HasThread u := by
    simp only [Carries, hothers]
    grind
  constructor
  case toOwned => constructor <;> grind [h.owner, h.owner_unique, h.acquired]
  case toMarked =>
    constructor <;> grind [InWait, h.bit, h.event, h.bit_idle, h.woken]
  case toHanded =>
    constructor
    case carried => grind [h.carried, h.bit_idle]
    case carried_once => grind [h.carried_once, h.carried]
    case picked => grind [h.picked]
  case kept =>
    intro t' o' ht'
    refine (h.kept t' o' (by grind)).move (t := t) (by grind) (fun hbit => ?_)
      (by simp [ht, Carries]) id
    by_cases ho : o' = o
    · exact .inr (.inl ⟨t, by grind⟩)
    · exact .inl (by grind)
  case hastened =>
    intro o' t' hfree hbit
    by_cases ho : o' = o
    · exact ⟨t, .inl (by simp [Unlocks, ho])⟩
    · exact exists_hastens (t := t) (h.hastened o' t' (by grind) (by grind)) (by grind) (by grind)
        (absurd · (not_hastens_of_outside ht))

theorem restore (h : s.Valid) {i : pool.Id} {others : LockWord}
    (ht : s.places t = .restoring o i others) :
    ((s.setWord o ((s.words o).addThreads others)).goto t (.triggering o i)).Valid := by
  have hevent := h.events_eq_idle (t := t) (by simp [ht, InWait])
  have hpicked := h.picked t o i others ht
  have hmine (o' : Object) (u : pool.Id) : (s.places t).Carries o' u ↔
      o = o' ∧ (i = u ∨ others.HasThread u) := by simp [ht, Carries]
  have hi := h.carried t o i ((hmine o i).mpr ⟨rfl, .inl rfl⟩)
  have hothers (u : pool.Id) (hu : others.HasThread u) :=
    h.carried t o u ((hmine o u).mpr ⟨rfl, .inr hu⟩)
  have hkeeps {u : pool.Id} {o' : Object} {t' : pool.Id}
      (hu : (((s.setWord o ((s.words o).addThreads others)).goto t
        (.triggering o i)).places u).Carries o' t') :
      (s.places u).Carries o' t' ∧ (u = t → i = t') := by
    by_cases hut : u = t
    · obtain ⟨rfl, rfl⟩ : o = o' ∧ i = t' := by simpa [hut, Carries] using hu
      exact ⟨by simp [hut, ht, Carries], fun _ => rfl⟩
    · exact ⟨by simpa [hut] using hu, fun hut' => absurd hut' hut⟩
  constructor
  case toOwned => constructor <;> grind [h.owner, h.owner_unique, h.acquired]
  case toMarked => constructor <;> grind [InWait, h.bit, h.event, h.bit_idle, h.woken]
  case toHanded =>
    constructor
    case carried =>
      intro u o' t' hu
      obtain ⟨hold, hlast⟩ := hkeeps hu
      obtain ⟨hwaiting, hunset, hquiet⟩ := h.carried u o' t' hold
      have hapart : o' = o → ¬ others.HasThread t' := by
        rintro rfl
        by_contra hother
        have hboth := (hmine o' t').mpr ⟨rfl, .inr (by simpa using hother)⟩
        have hut := h.carried_once u t o' t' hold hboth
        grind
      grind
    case carried_once =>
      intro u v o' t' hu hv
      exact h.carried_once u v o' t' (hkeeps hu).1 (hkeeps hv).1
    case picked => grind [h.picked]
  case kept =>
    intro t' o' ht'
    refine (h.kept t' o' (by grind)).move (t := t) (by grind) (fun _ => .inl (by grind))
      (fun hu => ?_) id
    rcases (hmine o' t').mp hu with ⟨rfl, rfl | hother⟩
    · exact .inr (.inl ⟨t, by simp [Carries]⟩)
    · exact .inl (by grind)
  case hastened =>
    intro o' t' hfree hbit
    by_cases ho : o' = o
    · exact ⟨t, .inl (by simp [Unlocks, ho])⟩
    · exact exists_hastens (t := t) (h.hastened o' t' (by grind) (by grind)) (by grind) (by grind)
        (by grind [Hastens, Locks, Unlocks])

omit [DecidableEq Object] in
theorem trigger (h : s.Valid) {i : pool.Id} (ht : s.places t = .triggering o i) :
    ((s.setEvent i .triggered).goto t .outside).Valid := by
  have hmine : (s.places t).Carries o i := by simp [ht, Carries]
  obtain ⟨hi, hbit, hquiet⟩ := h.carried t o i hmine
  have hevent := h.events_eq_idle (t := t) (by simp [ht, InWait])
  constructor
  case toOwned => constructor <;> grind [h.owner, h.owner_unique, h.acquired]
  case toMarked =>
    -- the thread that is triggered is in no word: its bit was taken out by the exchange
    have hbits := h.bit
    constructor <;> grind [InWait, h.event, h.bit_idle, h.woken]
  case toHanded =>
    refine h.toHanded.move (t := t) (by grind) (by simp [Carries]) fun v o' u hv hu => ?_
    have hne : u ≠ t := h.ne_of_carries hu (.inl (by simp [ht]))
    have hcarried := h.carried v o' u hu
    have hui : u ≠ i := by
      rintro rfl
      obtain rfl : o = o' := by simpa [hi] using hcarried.1
      exact hv (h.carried_once v t o u hu hmine)
    exact ⟨hne, by simpa [hui] using hcarried.2⟩
  case kept =>
    intro t' o' ht'
    exact (h.kept t' o' (by grind)).move (t := t) (by grind) .inl
      (fun hcarries => .inr (.inr (by grind [Carries]))) (by grind)
  case hastened =>
    intro o' t' hfree hbit
    exact exists_hastens (t := t) (h.hastened o' t' (by grind) (by grind)) (by grind) (by grind)
      (fun _ => ⟨i, by grind [Hastens, Locks, Unlocks]⟩)

theorem exchange (h : s.Valid) (ht : s.places t = .outside) (howns : t ∈ s.owners o) :
    (s.exchange t o).Valid := by
  have hstate (u : pool.Id) := LockWord.hasThread_clearLocked (s.words o) u
  simp only [ObjectLocks.exchange]
  split_ifs with hempty
  · cases hi : (firstThread (s.words o).clearLocked : Option pool.Id) with
    | none =>
      have hnone := not_hasThread_of_firstThread hi
      exact h.single (.release ht howns fun u => by simpa using hnone u)
    | some i =>
      have hfirst := hasThread_of_firstThread hi
      exact h.releaseTo ht howns (by simpa using hfirst) fun u => by simp
  · refine h.single (.release ht howns fun u => ?_)
    simp [← hstate u, not_not.mp hempty]

theorem step (h : s.Valid) {action : LockerAction pool Object} (hstep : s.step action = some s') :
    s'.Valid := by
  cases action with
  | lock t o =>
    cases ht : s.places t with
    | outside =>
      obtain rfl : s.goto t (.locking o) = s' := by simpa [ObjectLocks.step, ht] using hstep
      exact h.single (.lock ht)
    | _ => simp [ObjectLocks.step, ht] at hstep
  | fetchOr t =>
    obtain ⟨o, ht, rfl⟩ : ∃ o, (s.places t = .locking o ∨ s.places t = .retrying o) ∧
        s.fetchOr t o = s' := by
      cases ht : s.places t with
      | locking o | retrying o => exact ⟨o, by simp, by simpa [ObjectLocks.step, ht] using hstep⟩
      | _ => simp [ObjectLocks.step, ht] at hstep
    simp only [ObjectLocks.fetchOr]
    split_ifs with hlocked
    · exact h.single (.wait ht)
    · exact h.single (.acquire ht hlocked)
  | wake t =>
    cases ht : s.places t with
    | waiting o =>
      simp only [ObjectLocks.step, ht] at hstep
      obtain ⟨hevent, hs'⟩ := Option.ite_none_right_eq_some.mp hstep
      cases hs'
      exact h.single (.wake ht hevent)
    | _ => simp [ObjectLocks.step, ht] at hstep
  | consume t =>
    cases ht : s.places t with
    | woken o =>
      obtain rfl : (s.setEvent t .idle).goto t (.retrying o) = s' := by
        simpa [ObjectLocks.step, ht] using hstep
      exact h.single (.consume ht)
    | _ => simp [ObjectLocks.step, ht] at hstep
  | fetchAnd t =>
    cases ht : s.places t with
    | acquired o =>
      obtain rfl : (s.setWord o ((s.words o).clearThread t)).goto t .outside = s' := by
        simpa [ObjectLocks.step, ht] using hstep
      exact h.single (.fetchAnd ht)
    | _ => simp [ObjectLocks.step, ht] at hstep
  | tryLock t o =>
    cases ht : s.places t with
    | outside =>
      obtain rfl : s.tryLock t o = s' := by simpa [ObjectLocks.step, ht] using hstep
      exact h.tryLock ht
    | _ => simp [ObjectLocks.step, ht] at hstep
  | unlock t o =>
    cases ht : s.places t with
    | outside =>
      simp only [ObjectLocks.step, ht] at hstep
      obtain ⟨howns, hs'⟩ := Option.ite_none_right_eq_some.mp hstep
      cases hs'
      exact h.exchange ht howns
    | _ => simp [ObjectLocks.step, ht] at hstep
  | restore t =>
    cases ht : s.places t with
    | restoring o i others =>
      obtain rfl : (s.setWord o ((s.words o).addThreads others)).goto t (.triggering o i) = s' := by
        simpa [ObjectLocks.step, ht] using hstep
      exact h.restore ht
    | _ => simp [ObjectLocks.step, ht] at hstep
  | trigger t =>
    cases ht : s.places t with
    | triggering o i =>
      obtain rfl : (s.setEvent i .triggered).goto t .outside = s' := by
        simpa [ObjectLocks.step, ht] using hstep
      exact h.trigger ht
    | _ => simp [ObjectLocks.step, ht] at hstep

end Valid

/-! ## The protocol -/

/-- `Attends o` is what saves the threads that wait for an object that is not locked. -/
structure Protocol (s : ObjectLocks pool Object) (Attends : Object → Prop) : Prop where
  one_owner : ∀ o t u, t ∈ s.owners o → u ∈ s.owners o → t = u
  not_self : ∀ t o i, s.places t = .triggering o i → i ≠ t
  not_overwritten : ∀ t o i, s.places t = .triggering o i → s.events i = .idle
  not_lost : ∀ t o, s.places t = .waiting o → (s.words o).IsLocked ∨ Attends o

/-- An unlock is between its exchange and its trigger, or a thread in `lock()` has a trigger that it
has not consumed. -/
def Attended (s : ObjectLocks pool Object) (o : Object) : Prop :=
  ∃ u, (s.places u).Unlocks o ∨ (s.places u).Locks o ∧ s.events u = .triggered

instance [DecidableEq Object] (s : ObjectLocks pool Object) (o : Object) :
    Decidable (s.Attended o) :=
  inferInstanceAs (Decidable (∃ u, (s.places u).Unlocks o ∨
    (s.places u).Locks o ∧ s.events u = .triggered))

/-- Or a thread has consumed its trigger, and is about to try again. -/
def AttendedOrRetried (s : ObjectLocks pool Object) (o : Object) : Prop :=
  s.Attended o ∨ ∃ u, s.places u = .retrying o

theorem Hastens.attended {u : pool.Id} (h : s.Hastens o u) : s.AttendedOrRetried o := by
  rcases h with hunlocks | hlocks | hretries
  · exact .inl ⟨u, .inl hunlocks⟩
  · exact .inl ⟨u, .inr hlocks⟩
  · exact .inr ⟨u, hretries⟩

theorem Valid.protocol (h : s.Valid) : s.Protocol s.AttendedOrRetried where
  one_owner := h.owner_unique
  not_self t o i ht := by
    rintro rfl
    have hi := (h.carried i o i (by simp [ht, Carries])).1
    simp [ht] at hi
  not_overwritten t o i ht := (h.carried t o i (by simp [ht, Carries])).2.2
  not_lost t o ht := by
    by_cases hlocked : (s.words o).IsLocked
    · exact .inl hlocked
    · refine .inr ?_
      rcases h.kept t o ht with hbit | ⟨u, hu⟩ | hevent
      · obtain ⟨u, hu⟩ := h.hastened o t hlocked hbit
        exact hu.attended
      · refine .inl ⟨u, .inl ?_⟩
        cases hplace : s.places u <;> simp_all [Carries, Unlocks]
      · exact .inl ⟨t, .inr ⟨by simp [ht, Locks], hevent⟩⟩

variable [DecidableEq Object]

theorem locks_follow_protocol {actions : List (LockerAction pool Object)}
    (h : Reaches step (fun _ _ => True) create actions s) : s.Protocol s.AttendedOrRetried :=
  (h.invariant create_valid fun _ _ _ hs _ hstep => hs.step hstep).protocol

def threeThreads : ThreadPool := ⟨3, by decide⟩

def thread (i : Fin 3) : threeThreads.Id := i

/-- The third thread waits while the first unlocks the object and the second is woken up. -/
def wakeUp : List (LockerAction threeThreads Unit) :=
  [.lock (thread 0) (), .fetchOr (thread 0), .fetchAnd (thread 0), .lock (thread 1) (),
    .lock (thread 2) (), .fetchOr (thread 1), .fetchOr (thread 2), .unlock (thread 0) (),
    .restore (thread 0), .trigger (thread 0), .wake (thread 1), .consume (thread 1)]

theorem locks_follow_protocol_of_three : ∃ s, Reaches step (fun _ _ => True) create wakeUp s ∧
    s.places (thread 2) = .waiting () ∧ s.Protocol s.AttendedOrRetried :=
  ⟨_, Reaches.get_foldlM rfl, rfl, locks_follow_protocol (Reaches.get_foldlM rfl)⟩

/-- The thread that has been woken up has consumed its trigger, and the object is neither locked nor
being unlocked. -/
theorem waits_unattended : ∃ s, Reaches step (fun _ _ => True) create wakeUp s ∧
    s.places (thread 2) = .waiting () ∧ ¬ (s.words ()).IsLocked ∧ ¬ s.Attended () ∧
    ¬ s.Protocol s.Attended := by
  have hwaiting {s : ObjectLocks threeThreads Unit} (ht : s.places (thread 2) = .waiting ())
      (hfree : ¬ (s.words ()).IsLocked) (hnone : ¬ s.Attended ()) : ¬ s.Protocol s.Attended :=
    fun h => (h.not_lost _ _ ht).elim hfree hnone
  exact ⟨_, Reaches.get_foldlM rfl, rfl, by decide, by decide, hwaiting rfl (by decide) (by decide)⟩

end ObjectLocks

end CyberCache
