import CyberCache.Lib.Counting
import CyberCache.Lib.Runs

/-!
# Guards of a dynamic mutex

`DynamicMutex` counts its readers and knows whether it is locked exclusively. A `DynamicMutexLock`
only knows that it has been locked; which lock to release, and whether there is something to upgrade
or downgrade, it finds out by looking at the mutex. It looks without holding the internal mutex, so
that others may come between the look and the call that follows it. This is sound as long as a guard
has the lock that it looks for. A guard whose timed upgrade has given up the shared lock in vain has
none, and still believes that it is locked.
-/

namespace CyberCache

inductive LockMode where
  | shared
  | exclusive
deriving DecidableEq

/-- The methods of the mutex that a guard calls after a look at `m_exclusive`. -/
inductive GuardCall where
  | downgradeLock
  | upgradeLock (msecs : Nat)
  | unlockShared
  | unlockExclusive
deriving DecidableEq

def GuardCall.mode : GuardCall → LockMode
  | .downgradeLock | .unlockExclusive => .exclusive
  | .upgradeLock _ | .unlockShared => .shared

/-- The mutex alone, with as many readers as there are. -/
structure DynamicMutex where
  exclusive : Bool
  numReaders : Nat

namespace DynamicMutex

def create : DynamicMutex := ⟨false, 0⟩

/-- `none` if the thread has to wait. -/
def lockShared (mutex : DynamicMutex) : Option DynamicMutex :=
  if mutex.exclusive then none else some { mutex with numReaders := mutex.numReaders + 1 }

/-- The beginning of `upgrade_lock()`: the shared lock is released, and if there were no other
readers, the lock is exclusive at once. -/
def beginUpgrade (mutex : DynamicMutex) : Bool × DynamicMutex :=
  if mutex.numReaders - 1 = 0 then (true, ⟨true, 0⟩)
  else (false, { mutex with numReaders := mutex.numReaders - 1 })

/-- The end of `upgrade_lock()` for a thread that had to wait. -/
def endUpgrade (mutex : DynamicMutex) : Option DynamicMutex :=
  if mutex.exclusive = false ∧ mutex.numReaders = 0 then some { mutex with exclusive := true }
  else none

def downgradeLock (mutex : DynamicMutex) : DynamicMutex :=
  { mutex with numReaders := 1, exclusive := false }

def unlockShared (mutex : DynamicMutex) : DynamicMutex :=
  { mutex with numReaders := mutex.numReaders - 1 }

def unlockExclusive (mutex : DynamicMutex) : DynamicMutex := { mutex with exclusive := false }

def perform (mutex : DynamicMutex) : GuardCall → DynamicMutex
  | .downgradeLock => mutex.downgradeLock
  | .upgradeLock _ => mutex.beginUpgrade.2
  | .unlockShared => mutex.unlockShared
  | .unlockExclusive => mutex.unlockExclusive

end DynamicMutex

/-- Where a guard is. What it holds is not a field of the guard; it only has `mlb_locked`, which is
set in `locked` and all later states. -/
inductive GuardState where
  | absent
  | constructing (mode : LockMode)
  | locked (holds : Option LockMode)
  /-- It has looked at `m_exclusive`, and not yet locked the internal mutex. -/
  | calling (holds : Option LockMode) (call : GuardCall)
  /-- In `upgrade_lock()`; it has given up its shared lock, and waits. -/
  | upgrading (msecs : Nat)
deriving DecidableEq

def GuardState.holds : GuardState → Option LockMode
  | .locked holds | .calling holds _ => holds
  | .absent | .constructing _ | .upgrading _ => none

@[simp]
theorem GuardState.holds_locked (holds : Option LockMode) : (locked holds).holds = holds := rfl

@[simp]
theorem GuardState.holds_calling (holds : Option LockMode) (call : GuardCall) :
    (calling holds call).holds = holds := rfl

@[simp]
theorem GuardState.holds_absent : absent.holds = none := rfl

@[simp]
theorem GuardState.holds_constructing (mode : LockMode) : (constructing mode).holds = none := rfl

@[simp]
theorem GuardState.holds_upgrading (msecs : Nat) : (upgrading msecs).holds = none := rfl

/-- The mutex, with all guards that there may be for it. A thread may have several of them. -/
structure GuardedMutex (Guard : Type*) where
  exclusive : Bool
  numReaders : UInt8
  guards : Guard → GuardState

inductive GuardAction (Guard : Type*) where
  | construct (g : Guard) (mode : LockMode)
  | acquire (g : Guard)
  | downgradeLock (g : Guard)
  | upgradeLock (g : Guard) (msecs : Nat)
  | destroy (g : Guard)
  | perform (g : Guard)
  /-- The time of an upgrade is over, and its condition does not hold. -/
  | timeOut (g : Guard)

namespace GuardedMutex

variable {Guard : Type*}

def create : GuardedMutex Guard := ⟨false, 0, fun _ => .absent⟩

def isFree (s : GuardedMutex Guard) : Bool := !s.exclusive && s.numReaders == 0

variable [DecidableEq Guard]

def setGuard (s : GuardedMutex Guard) (g : Guard) (state : GuardState) : GuardedMutex Guard :=
  { s with guards := Function.update s.guards g state }

def lockShared (s : GuardedMutex Guard) (g : Guard) : Option (GuardedMutex Guard) :=
  if s.exclusive then none
  else some ({ s with numReaders := s.numReaders + 1 }.setGuard g (.locked (some .shared)))

/-- The end of `lock_exclusive()`, and of an `upgrade_lock()` that has waited. -/
def lockExclusive (s : GuardedMutex Guard) (g : Guard) : Option (GuardedMutex Guard) :=
  if s.isFree then some ({ s with exclusive := true }.setGuard g (.locked (some .exclusive)))
  else none

def perform (s : GuardedMutex Guard) (g : Guard) : GuardCall → GuardedMutex Guard
  | .downgradeLock =>
    { s with numReaders := 1, exclusive := false }.setGuard g (.locked (some .shared))
  | .upgradeLock msecs =>
    let s : GuardedMutex Guard := { s with numReaders := s.numReaders - 1 }
    if s.numReaders = 0 then { s with exclusive := true }.setGuard g (.locked (some .exclusive))
    else s.setGuard g (.upgrading msecs)
  | .unlockShared => { s with numReaders := s.numReaders - 1 }.setGuard g .absent
  | .unlockExclusive => { s with exclusive := false }.setGuard g .absent

def step (s : GuardedMutex Guard) : GuardAction Guard → Option (GuardedMutex Guard)
  | .construct g mode =>
    match s.guards g with
    | .absent => some (s.setGuard g (.constructing mode))
    | _ => none
  | .acquire g =>
    match s.guards g with
    | .constructing .shared => s.lockShared g
    | .constructing .exclusive => s.lockExclusive g
    | .upgrading _ => s.lockExclusive g
    | _ => none
  | .downgradeLock g =>
    match s.guards g with
    | .locked holds =>
      -- the call fails if the mutex is not locked exclusively
      some (if s.exclusive then s.setGuard g (.calling holds .downgradeLock) else s)
    | _ => none
  | .upgradeLock g msecs =>
    match s.guards g with
    | .locked holds =>
      some (if s.exclusive then s else s.setGuard g (.calling holds (.upgradeLock msecs)))
    | _ => none
  | .destroy g =>
    match s.guards g with
    | .locked holds =>
      some (s.setGuard g (.calling holds
        (if s.exclusive then .unlockExclusive else .unlockShared)))
    | _ => none
  | .perform g =>
    match s.guards g with
    | .calling _ call => some (s.perform g call)
    | _ => none
  | .timeOut g =>
    match s.guards g with
    -- with no time limit the wait goes on, and a condition that holds makes the upgrade succeed
    | .upgrading msecs =>
      if 0 < msecs ∧ s.isFree = false then some (s.setGuard g (.locked none)) else none
    | _ => none

/-! ## What the mutex says, and what its guards hold -/

variable [Fintype Guard]

def numHolding (s : GuardedMutex Guard) (mode : LockMode) : Nat :=
  countOf (fun state : GuardState => state.holds = some mode) s.guards

/-- What the mutex says of its guards is true, and so is what a call takes for granted. -/
structure Agrees (s : GuardedMutex Guard) : Prop where
  readers : s.numReaders.toNat = s.numHolding .shared
  writers : s.numHolding .exclusive = if s.exclusive then 1 else 0
  alone : s.exclusive = true → s.numReaders = 0
  called : ∀ g holds call, s.guards g = .calling holds call → holds = some call.mode

/-- The guard may not have lost its lock in an upgrade, and the number of readers has to fit. -/
def Admits (s : GuardedMutex Guard) : GuardAction Guard → Prop
  | .acquire g => s.guards g = .constructing .shared → s.numReaders < 255
  | .downgradeLock g | .upgradeLock g _ | .destroy g => s.guards g ≠ .locked none
  | .construct _ _ | .perform _ | .timeOut _ => True

instance (s : GuardedMutex Guard) : (action : GuardAction Guard) → Decidable (s.Admits action)
  | .acquire _ => inferInstanceAs (Decidable (_ → _))
  | .downgradeLock _ | .upgradeLock _ _ | .destroy _ => inferInstanceAs (Decidable (_ ≠ _))
  | .construct _ _ | .perform _ | .timeOut _ => .isTrue trivial

omit [DecidableEq Guard] in
theorem create_agrees : (create : GuardedMutex Guard).Agrees where
  readers := (countOf_eq_zero_iff.mpr (by simp [create])).symm
  writers := countOf_eq_zero_iff.mpr (by simp [create])
  alone := by simp [create]
  called := by simp [create]

namespace Agrees

variable {s s' : GuardedMutex Guard} {g : Guard} {state : GuardState}

omit [DecidableEq Guard] in
theorem exclusive_iff (h : s.Agrees) {mode : LockMode} (hg : (s.guards g).holds = some mode) :
    s.exclusive = true ↔ mode = .exclusive := by
  have hpos : 0 < s.numHolding mode := countOf_pos hg
  have hwriters := h.writers
  cases mode with
  | exclusive => grind
  | shared =>
    have hne : s.numReaders ≠ 0 := by
      intro hzero
      have hreaders := h.readers
      simp only [hzero, UInt8.toNat_zero] at hreaders
      omega
    simpa using fun hexclusive => hne (h.alone hexclusive)

/-- The mutex counts right after a change of one guard if it counts what that guard loses and
gains. -/
theorem change (h : s.Agrees) {exclusive : Bool} {numReaders : UInt8}
    (hreaders : numReaders.toNat + (if (s.guards g).holds = some .shared then 1 else 0) =
      s.numReaders.toNat + if state.holds = some .shared then 1 else 0)
    (hwriters : (if exclusive then 1 else 0 : Nat) +
        (if (s.guards g).holds = some .exclusive then 1 else 0) =
      (if s.exclusive then 1 else 0) + if state.holds = some .exclusive then 1 else 0)
    (halone : exclusive = true → numReaders = 0)
    (hcalled : ∀ holds call, state = .calling holds call → holds = some call.mode) :
    (setGuard ⟨exclusive, numReaders, s.guards⟩ g state).Agrees where
  readers := by
    have hcount := countOf_update (p := fun state => state.holds = some .shared) (f := s.guards)
      g state
    have hold : s.numReaders.toNat =
      countOf (fun state => state.holds = some .shared) s.guards := h.readers
    rw [← hold] at hcount
    exact Nat.add_right_cancel (hreaders.trans hcount.symm)
  writers := by
    have hcount := countOf_update (p := fun state => state.holds = some .exclusive)
      (f := s.guards) g state
    have hold : countOf (fun state => state.holds = some .exclusive) s.guards =
      if s.exclusive then 1 else 0 := h.writers
    rw [hold] at hcount
    exact Nat.add_right_cancel (hcount.trans hwriters.symm)
  alone := halone
  called g' holds call hg' := by
    by_cases hne : g' = g
    · subst hne
      exact hcalled holds call (by simpa [setGuard] using hg')
    · exact h.called g' holds call (by simpa [setGuard, hne] using hg')

theorem setGuard (h : s.Agrees) (hholds : state.holds = (s.guards g).holds)
    (hcalled : ∀ holds call, state = .calling holds call → holds = some call.mode) :
    (s.setGuard g state).Agrees :=
  h.change (by rw [hholds]) (by rw [hholds]) h.alone hcalled

theorem toNat_add_one {n : UInt8} (hfits : n < 255) : (n + 1).toNat = n.toNat + 1 := by
  rw [UInt8.lt_iff_toNat_lt] at hfits
  rw [UInt8.toNat_add]
  exact Nat.mod_eq_of_lt (by simpa using Nat.add_lt_add_right hfits 1)

theorem lockShared (h : s.Agrees) (hg : s.guards g = .constructing .shared)
    (hfits : s.numReaders < 255) (hlock : s.lockShared g = some s') : s'.Agrees := by
  obtain ⟨hfree, hs'⟩ := Option.ite_none_left_eq_some.mp hlock
  cases hs'
  exact h.change (by simp [hg, toNat_add_one hfits]) (by simp [hg])
    (fun hexclusive => absurd hexclusive hfree) (by simp)

theorem lockExclusive (h : s.Agrees) (hg : (s.guards g).holds = none)
    (hlock : s.lockExclusive g = some s') : s'.Agrees := by
  obtain ⟨hfree, hs'⟩ := Option.ite_none_right_eq_some.mp hlock
  cases hs'
  obtain ⟨hexclusive, hreaders⟩ : s.exclusive = false ∧ s.numReaders = 0 := by
    simpa [isFree] using hfree
  exact h.change (by simp [hg]) (by simp [hg, hexclusive])
    (fun _ => hreaders) (by simp)

omit [DecidableEq Guard] in
theorem toNat_pred (h : s.Agrees) (hg : (s.guards g).holds = some .shared) :
    (s.numReaders - 1).toNat + 1 = s.numReaders.toNat := by
  have hpos : 0 < s.numHolding .shared := countOf_pos hg
  have hle : (1 : UInt8) ≤ s.numReaders := by
    rw [UInt8.le_iff_toNat_le, h.readers]
    exact hpos
  rw [UInt8.toNat_sub_of_le _ _ hle, h.readers, UInt8.toNat_one]
  omega

theorem perform (h : s.Agrees) {holds : Option LockMode} {call : GuardCall}
    (hg : s.guards g = .calling holds call) : (s.perform g call).Agrees := by
  obtain rfl := h.called g holds call hg
  have hholds : (s.guards g).holds = some call.mode := by simp [hg]
  have hexclusive := h.exclusive_iff hholds
  cases call with
  | downgradeLock =>
    have hlocked : s.exclusive = true := hexclusive.mpr rfl
    exact h.change (by simp [hholds, h.alone hlocked, GuardCall.mode])
      (by simp [hholds, hlocked, GuardCall.mode]) (by simp) (by simp)
  | upgradeLock msecs =>
    have hpred := h.toNat_pred hholds
    have hunlocked : s.exclusive = false := by simpa [GuardCall.mode] using hexclusive
    by_cases hlast : s.numReaders - 1 = 0
    · simp only [GuardedMutex.perform, if_pos hlast]
      exact h.change (by simpa [hholds, GuardCall.mode] using hpred)
        (by simp [hholds, hunlocked, GuardCall.mode]) (fun _ => hlast) (by simp)
    · simp only [GuardedMutex.perform, if_neg hlast]
      exact h.change (by simpa [hholds, GuardCall.mode] using hpred)
        (by simp [hholds, GuardCall.mode]) (by simp [hunlocked]) (by simp)
  | unlockShared =>
    have hunlocked : s.exclusive = false := by simpa [GuardCall.mode] using hexclusive
    exact h.change
      (by simpa [hholds, GuardCall.mode] using h.toNat_pred hholds)
      (by simp [hholds, GuardCall.mode]) (by simp [hunlocked]) (by simp)
  | unlockExclusive =>
    have hlocked : s.exclusive = true := hexclusive.mpr rfl
    exact h.change (by simp [hholds, GuardCall.mode])
      (by simp [hholds, hlocked, GuardCall.mode]) (by simp) (by simp)

omit [DecidableEq Guard] in
theorem exclusive_eq (h : s.Agrees) {holds : Option LockMode} (hg : s.guards g = .locked holds)
    (hkept : s.guards g ≠ .locked none) :
    (s.exclusive = true ∧ holds = some .exclusive) ∨
      (s.exclusive = false ∧ holds = some .shared) := by
  rcases holds with _ | mode
  · exact absurd hg hkept
  · have hholds : (s.guards g).holds = some mode := by simp [hg]
    have hexclusive := h.exclusive_iff hholds
    cases mode with
    | shared => exact .inr ⟨by simpa using hexclusive, rfl⟩
    | exclusive => exact .inl ⟨hexclusive.mpr rfl, rfl⟩

/-- Nobody can lock or unlock the mutex in another mode while the guard has its lock. What the guard
has seen therefore remains true until it calls. -/
theorem startCall (h : s.Agrees) {mode : LockMode} {call : GuardCall}
    (hg : s.guards g = .locked (some mode)) (hcall : call.mode = mode) :
    (s.setGuard g (.calling (some mode) call)).Agrees := by
  refine h.setGuard (by simp [hg]) ?_
  rintro holds call' ⟨⟩
  rw [hcall]

theorem step (h : s.Agrees) {action : GuardAction Guard} (hadmits : s.Admits action)
    (hstep : s.step action = some s') : s'.Agrees := by
  cases action with
  | construct g mode =>
    cases hg : s.guards g with
    | absent =>
      obtain rfl : s.setGuard g (.constructing mode) = s' := by
        simpa [GuardedMutex.step, hg] using hstep
      exact h.setGuard (by simp [hg]) (by simp)
    | _ => simp [GuardedMutex.step, hg] at hstep
  | acquire g =>
    cases hg : s.guards g with
    | constructing mode =>
      cases mode with
      | shared => exact h.lockShared hg (hadmits hg) (by simpa [GuardedMutex.step, hg] using hstep)
      | exclusive =>
        exact h.lockExclusive (g := g) (by simp [hg]) (by simpa [GuardedMutex.step, hg] using hstep)
    | upgrading msecs =>
      exact h.lockExclusive (g := g) (by simp [hg]) (by simpa [GuardedMutex.step, hg] using hstep)
    | _ => simp [GuardedMutex.step, hg] at hstep
  | downgradeLock g =>
    cases hg : s.guards g with
    | locked holds =>
      simp only [GuardedMutex.step, hg, Option.some.injEq] at hstep
      obtain rfl := hstep
      rcases h.exclusive_eq hg hadmits with ⟨hlocked, rfl⟩ | ⟨hlocked, rfl⟩
      · have hcall : GuardCall.downgradeLock.mode = .exclusive := rfl
        simpa [hlocked] using h.startCall hg hcall
      · simpa [hlocked] using h
    | _ => simp [GuardedMutex.step, hg] at hstep
  | upgradeLock g msecs =>
    cases hg : s.guards g with
    | locked holds =>
      simp only [GuardedMutex.step, hg, Option.some.injEq] at hstep
      obtain rfl := hstep
      rcases h.exclusive_eq hg hadmits with ⟨hlocked, rfl⟩ | ⟨hlocked, rfl⟩
      · simpa [hlocked] using h
      · have hcall : (GuardCall.upgradeLock msecs).mode = .shared := rfl
        simpa [hlocked] using h.startCall hg hcall
    | _ => simp [GuardedMutex.step, hg] at hstep
  | destroy g =>
    cases hg : s.guards g with
    | locked holds =>
      simp only [GuardedMutex.step, hg, Option.some.injEq] at hstep
      obtain rfl := hstep
      rcases h.exclusive_eq hg hadmits with ⟨hlocked, rfl⟩ | ⟨hlocked, rfl⟩
      · have hcall : GuardCall.unlockExclusive.mode = .exclusive := rfl
        simpa [hlocked] using h.startCall hg hcall
      · have hcall : GuardCall.unlockShared.mode = .shared := rfl
        simpa [hlocked] using h.startCall hg hcall
    | _ => simp [GuardedMutex.step, hg] at hstep
  | perform g =>
    cases hg : s.guards g with
    | calling holds call =>
      obtain rfl : s.perform g call = s' := by simpa [GuardedMutex.step, hg] using hstep
      exact h.perform hg
    | _ => simp [GuardedMutex.step, hg] at hstep
  | timeOut g =>
    cases hg : s.guards g with
    | upgrading msecs =>
      simp only [GuardedMutex.step, hg] at hstep
      obtain ⟨-, hs'⟩ := Option.ite_none_right_eq_some.mp hstep
      cases hs'
      exact h.setGuard (by simp [hg]) (by simp)
    | _ => simp [GuardedMutex.step, hg] at hstep

end Agrees

/-! ## Guards and the mutex alone -/

section Mutex

variable {s s' : GuardedMutex Guard} {g : Guard}

omit [DecidableEq Guard] [Fintype Guard] in
def mutex (s : GuardedMutex Guard) : DynamicMutex := ⟨s.exclusive, s.numReaders.toNat⟩

omit [Fintype Guard] in
@[simp]
theorem mutex_setGuard (state : GuardState) : (s.setGuard g state).mutex = s.mutex := rfl

omit [Fintype Guard] in
theorem mutex_lockShared (hfits : s.numReaders < 255) (hlock : s.lockShared g = some s') :
    s.mutex.lockShared = some s'.mutex := by
  obtain ⟨hfree, hs'⟩ := Option.ite_none_left_eq_some.mp hlock
  cases hs'
  simp [DynamicMutex.lockShared, mutex, setGuard, hfree, Agrees.toNat_add_one hfits]

omit [Fintype Guard] in
theorem mutex_lockExclusive (hlock : s.lockExclusive g = some s') :
    s.mutex.endUpgrade = some s'.mutex := by
  obtain ⟨hfree, hs'⟩ := Option.ite_none_right_eq_some.mp hlock
  cases hs'
  obtain ⟨hexclusive, hreaders⟩ : s.exclusive = false ∧ s.numReaders = 0 := by
    simpa [isFree] using hfree
  simp [DynamicMutex.endUpgrade, mutex, setGuard, hexclusive, hreaders]

theorem Agrees.mutex_perform (h : s.Agrees) {holds : Option LockMode} {call : GuardCall}
    (hg : s.guards g = .calling holds call) : (s.perform g call).mutex = s.mutex.perform call := by
  obtain rfl := h.called g holds call hg
  have hholds : (s.guards g).holds = some call.mode := by simp [hg]
  cases call with
  | downgradeLock => rfl
  | upgradeLock msecs =>
    have hpred : s.numReaders.toNat - 1 = (s.numReaders - 1).toNat := by
      rw [← h.toNat_pred hholds, Nat.add_sub_cancel]
    by_cases hlast : s.numReaders - 1 = 0
    · simp [GuardedMutex.perform, DynamicMutex.perform, DynamicMutex.beginUpgrade, mutex,
        GuardedMutex.setGuard, hpred, hlast]
    · have hne : (s.numReaders - 1).toNat ≠ 0 := fun hzero => hlast (UInt8.toNat_inj.mp hzero)
      simp only [GuardedMutex.perform, DynamicMutex.perform, DynamicMutex.beginUpgrade, mutex,
        GuardedMutex.setGuard, hpred, if_neg hlast, if_neg hne]
  | unlockShared =>
    have hpred : s.numReaders.toNat - 1 = (s.numReaders - 1).toNat := by
      rw [← h.toNat_pred hholds, Nat.add_sub_cancel]
    simp only [GuardedMutex.perform, DynamicMutex.perform, DynamicMutex.unlockShared, mutex,
      GuardedMutex.setGuard, hpred]
  | unlockExclusive => rfl

/-- Guards lock, upgrade, downgrade and unlock a mutex as the threads of a store do, which have one
without guards. -/
theorem Agrees.mutex_step (h : s.Agrees) {action : GuardAction Guard} (hadmits : s.Admits action)
    (hstep : s.step action = some s') :
    s'.mutex = s.mutex ∨ s.mutex.lockShared = some s'.mutex ∨ s.mutex.endUpgrade = some s'.mutex ∨
      ∃ call, s'.mutex = s.mutex.perform call := by
  cases action with
  | acquire g =>
    cases hg : s.guards g with
    | constructing mode =>
      simp only [GuardedMutex.step, hg] at hstep
      cases mode with
      | shared => exact .inr (.inl (mutex_lockShared (hadmits hg) hstep))
      | exclusive => exact .inr (.inr (.inl (mutex_lockExclusive hstep)))
    | upgrading msecs =>
      simp only [GuardedMutex.step, hg] at hstep
      exact .inr (.inr (.inl (mutex_lockExclusive hstep)))
    | _ => simp [GuardedMutex.step, hg] at hstep
  | perform g =>
    cases hg : s.guards g with
    | calling holds call =>
      obtain rfl : s.perform g call = s' := by simpa [GuardedMutex.step, hg] using hstep
      exact .inr (.inr (.inr ⟨call, h.mutex_perform hg⟩))
    | _ => simp [GuardedMutex.step, hg] at hstep
  | timeOut g =>
    cases hg : s.guards g with
    | upgrading msecs =>
      simp only [GuardedMutex.step, hg] at hstep
      obtain rfl := Option.some.inj (Option.ite_none_right_eq_some.mp hstep).2
      exact .inl rfl
    | _ => simp [GuardedMutex.step, hg] at hstep
  | construct g | downgradeLock g | upgradeLock g | destroy g =>
    simp only [GuardedMutex.step] at hstep
    split at hstep
    · cases hstep
      exact .inl (by first | rfl | split_ifs <;> rfl)
    · cases hstep

end Mutex

/-- The mutex is locked exclusively by one guard alone or by as many guards in shared mode as it
counts, and a guard that is being destroyed releases the lock that it has. -/
structure Balanced (s : GuardedMutex Guard) : Prop where
  exclusive : s.exclusive = true →
    s.numReaders = 0 ∧ ∃! g, (s.guards g).holds = some .exclusive
  readers : s.numReaders.toNat = s.numHolding .shared
  released_shared : ∀ g holds, s.guards g = .calling holds .unlockShared → holds = some .shared
  released_exclusive : ∀ g holds, s.guards g = .calling holds .unlockExclusive →
    holds = some .exclusive

omit [DecidableEq Guard] in
theorem Agrees.balanced {s : GuardedMutex Guard} (h : s.Agrees) : s.Balanced where
  exclusive hexclusive :=
    ⟨h.alone hexclusive, countOf_eq_one_iff.mp (by simpa [hexclusive, numHolding] using h.writers)⟩
  readers := h.readers
  released_shared g holds hg := h.called g holds _ hg
  released_exclusive g holds hg := h.called g holds _ hg

theorem guards_balanced {actions : List (GuardAction Guard)} {s : GuardedMutex Guard}
    (h : Reaches step Admits create actions s) : s.Balanced :=
  (h.invariant create_agrees fun _ _ _ hs hadmits hstep => hs.step hadmits hstep).balanced

/-- One of two guards upgrades its lock when the other is gone, downgrades it, and is destroyed. -/
theorem guards_balanced_of_upgrade : ∃ s : GuardedMutex (Fin 2),
    Reaches step Admits create
      [.construct 0 .shared, .construct 1 .shared, .acquire 0, .acquire 1, .upgradeLock 0 5,
        .perform 0, .destroy 1, .perform 1, .acquire 0, .downgradeLock 0, .perform 0, .destroy 0]
        s ∧
      s.guards 0 = .calling (some .shared) .unlockShared ∧ s.Balanced :=
  ⟨_, Reaches.get_foldlM rfl, rfl, guards_balanced (Reaches.get_foldlM rfl)⟩

/-- After an upgrade that has timed out, the guard is destroyed, and releases the other guard's
lock: a third one then locks the mutex exclusively while the second still has a shared lock. -/
theorem timed_out_guard_releases : ∃ s : GuardedMutex (Fin 3),
    Reaches step (fun _ _ => True) create
      [.construct 0 .shared, .construct 1 .shared, .acquire 0, .acquire 1, .upgradeLock 0 5,
        .perform 0, .timeOut 0, .destroy 0, .perform 0, .construct 2 .exclusive, .acquire 2] s ∧
      s.exclusive = true ∧ (s.guards 2).holds = some .exclusive ∧
      (s.guards 1).holds = some .shared ∧ ¬ s.Balanced := by
  refine ⟨_, Reaches.get_foldlM rfl, rfl, rfl, rfl, fun h => ?_⟩
  exact absurd h.readers (by decide)

end GuardedMutex

end CyberCache
