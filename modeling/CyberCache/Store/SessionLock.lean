import CyberCache.Lib.Runs

/-!
# Locks on sessions

A request that reads a session is meant to keep other requests away from it until it has written the
session back. The session object remembers the request that has the lock; `lock_session()` and
`unlock_session()` are called by threads that hold the lock of the hash object, and `lock_session()`
gives that lock up while it waits. Threads are woken up by an event or because their time is over,
that is, at any moment.

The request is recorded only behind the wait. Since nobody waits for a session that no request is
recorded for, no request is ever recorded, and everybody gets the lock at once.
-/

namespace CyberCache

inductive SessionLockResult where
  | success
  | brokeLock
  | deleted
deriving DecidableEq, Repr

def tiFirstConnectionThread : Nat := 13

def maxNumConnectionThreads : Nat := 48

def maxNumThreads : Nat := tiFirstConnectionThread + maxNumConnectionThreads

instance : NeZero maxNumThreads := ⟨by decide⟩

structure SessionObject where
  /-- One bit for each thread that waits for the session. -/
  threads : UInt64
  /-- The request that has the session lock, or 0. -/
  requestId : UInt32
  beingDeleted : Bool

/-- `lock_session()` has come to its end, or it waits for an event with the hash object unlocked. -/
inductive LockProgress where
  | returns (result : SessionLockResult)
  | waits (lockingRequestId : UInt32)

namespace SessionObject

def mask (thread : Fin maxNumThreads) : UInt64 := 1 <<< UInt64.ofNat thread

/-- The part of `lock_session()` up to the first wait. -/
def lockSession (lockWaitTime : UInt32) (so : SessionObject) (thread : Fin maxNumThreads)
    (requestId : UInt32) : SessionObject × LockProgress :=
  if requestId ≠ 0 then
    if lockWaitTime ≠ 0 then
      let lockingRequestId := so.requestId
      if lockingRequestId ≠ 0 ∧ lockingRequestId ≠ requestId then
        ({ so with threads := so.threads ||| mask thread }, .waits lockingRequestId)
      else (so, .returns .success)
    else (so, .returns .success)
  else (so, .returns .success)

def afterWait (so : SessionObject) (thread : Fin maxNumThreads)
    (requestId lockingRequestId : UInt32) : SessionObject × LockProgress :=
  if so.requestId ≠ 0 ∧ so.requestId ≠ lockingRequestId then (so, .waits so.requestId)
  else
    let threads := so.threads &&& ~~~mask thread
    let brokeTheLock := so.requestId ≠ 0
    if so.beingDeleted then ({ so with threads := threads, requestId := 0 }, .returns .deleted)
    else
      ({ so with threads := threads, requestId := requestId },
        .returns (if brokeTheLock then .brokeLock else .success))

/-- The event that wakes a thread up is left out: a thread may wake up without it. -/
def unlockSession (so : SessionObject) (requestId : UInt32) : SessionObject :=
  if requestId ≠ 0 then
    if requestId = so.requestId then { so with requestId := 0 } else so
  else so

end SessionObject

/-! ## Threads -/

inductive ThreadState where
  | outside
  | holding
  /-- The thread is inside `lock_session()`, without the lock on the hash object. -/
  | waiting (requestId lockingRequestId : UInt32)
deriving DecidableEq

inductive SessionEvent where
  | locked (requestId : UInt32) (result : SessionLockResult)
  | unlocked (requestId : UInt32)
deriving DecidableEq, Repr

structure SessionThreads where
  so : SessionObject
  isLocked : Bool
  thread : Fin maxNumThreads → ThreadState
  /-- Calls that came to their end, in order. -/
  log : List SessionEvent

inductive SessionAction where
  | lock (thread : Fin maxNumThreads)
  | unlock (thread : Fin maxNumThreads)
  | lockSession (thread : Fin maxNumThreads) (requestId : UInt32)
  | wakeUp (thread : Fin maxNumThreads)
  | unlockSession (thread : Fin maxNumThreads) (requestId : UInt32)
  | markDeleted (thread : Fin maxNumThreads)

namespace SessionThreads

def create : SessionThreads := ⟨⟨0, 0, false⟩, false, fun _ => .outside, []⟩

def setThread (s : SessionThreads) (thread : Fin maxNumThreads) (state : ThreadState) :
    SessionThreads :=
  { s with thread := Function.update s.thread thread state }

@[simp]
theorem setThread_log (s : SessionThreads) (thread : Fin maxNumThreads) (state : ThreadState) :
    (s.setThread thread state).log = s.log := rfl

/-- `lock_session()` returns with the hash object locked, and waits with the hash object
unlocked. -/
def proceed (s : SessionThreads) (thread : Fin maxNumThreads) (requestId : UInt32) :
    SessionObject × LockProgress → SessionThreads
  | (so, .returns result) =>
    { s.setThread thread .holding with
      so := so, isLocked := true, log := s.log ++ [.locked requestId result] }
  | (so, .waits lockingRequestId) =>
    { s.setThread thread (.waiting requestId lockingRequestId) with so := so, isLocked := false }

def step (lockWaitTime : UInt32) (s : SessionThreads) : SessionAction → Option SessionThreads
  | .lock t =>
    if s.thread t = .outside ∧ !s.isLocked then
      some { s.setThread t .holding with isLocked := true }
    else none
  | .unlock t =>
    if s.thread t = .holding then some { s.setThread t .outside with isLocked := false } else none
  | .lockSession t requestId =>
    if s.thread t = .holding then
      some (s.proceed t requestId (s.so.lockSession lockWaitTime t requestId))
    else none
  | .wakeUp t =>
    match s.thread t with
    | .waiting requestId lockingRequestId =>
      if s.isLocked then none
      else some (s.proceed t requestId (s.so.afterWait t requestId lockingRequestId))
    | _ => none
  | .unlockSession t requestId =>
    if s.thread t = .holding then
      some { s.setThread t .outside with
        so := s.so.unlockSession requestId, isLocked := false
        log := s.log ++ [.unlocked requestId] }
    else none
  | .markDeleted t =>
    if s.thread t = .holding then some { s with so.beingDeleted := true } else none

end SessionThreads

/-! ## Who gets the lock -/

/-- A request that got the lock keeps all others out until it is unlocked or broken. -/
def Excludes (log : List SessionEvent) : Prop :=
  ∀ (before between after : List SessionEvent) (r s : UInt32) (result : SessionLockResult),
    log = before ++ .locked r result :: between ++ .locked s .success :: after →
    r ≠ 0 → result ≠ .deleted → s ≠ 0 → s ≠ r →
    ∃ e ∈ between, e = .unlocked r ∨ ∃ q, e = .locked q .brokeLock ∨ e = .locked q .deleted

/-- Nobody asks for the lock while another request has it. -/
def OneAtATime (actions : List SessionAction) : Prop :=
  ∀ (before between after : List SessionAction) (t t' : Fin maxNumThreads) (r s : UInt32),
    actions = before ++ .lockSession t r :: between ++ .lockSession t' s :: after →
    r ≠ 0 → s ≠ 0 → s ≠ r → ∃ t'', .unlockSession t'' r ∈ between

def SessionAction.event : SessionAction → Option SessionEvent
  | .lockSession _ requestId => some (.locked requestId .success)
  | .unlockSession _ requestId => some (.unlocked requestId)
  | _ => none

namespace SessionThreads

/-- No request is recorded and nobody waits. -/
structure Unrecorded (actions : List SessionAction) (s : SessionThreads) : Prop where
  requestId : s.so.requestId = 0
  thread : ∀ t r l, s.thread t ≠ .waiting r l
  log : s.log = actions.filterMap SessionAction.event

theorem unrecorded_create : Unrecorded [] create :=
  ⟨rfl, fun _ _ _ => by simp [create], rfl⟩

variable {lockWaitTime : UInt32} {s s' : SessionThreads} {actions : List SessionAction}
  {t : Fin maxNumThreads}

theorem lockSession_of_requestId {so : SessionObject} (h : so.requestId = 0)
    (t : Fin maxNumThreads) (requestId : UInt32) :
    so.lockSession lockWaitTime t requestId = (so, .returns .success) := by
  simp [SessionObject.lockSession, h]

theorem unlockSession_of_requestId {so : SessionObject} (h : so.requestId = 0)
    (requestId : UInt32) : so.unlockSession requestId = so := by
  unfold SessionObject.unlockSession
  split_ifs with hzero heq
  · exact absurd (heq.trans h) hzero
  · rfl
  · rfl

theorem Unrecorded.thread_setThread (h : Unrecorded actions s) {state : ThreadState}
    (hstate : ∀ r l, state ≠ .waiting r l) (t' : Fin maxNumThreads) (r l : UInt32) :
    (s.setThread t state).thread t' ≠ .waiting r l := by
  by_cases ht : t' = t
  · subst ht
    simpa [SessionThreads.setThread] using hstate r l
  · simpa [SessionThreads.setThread, ht] using h.thread t' r l

theorem Unrecorded.step {action : SessionAction} (h : Unrecorded actions s)
    (hstep : s.step lockWaitTime action = some s') : Unrecorded (actions ++ [action]) s' := by
  have hthread {state : ThreadState} (t) (hstate : ∀ r l, state ≠ .waiting r l) :=
    h.thread_setThread (t := t) hstate
  cases action with
  | lock t | unlock t =>
    simp only [SessionThreads.step, Option.ite_none_right_eq_some, Option.some.injEq] at hstep
    obtain ⟨-, rfl⟩ := hstep
    exact ⟨h.requestId, hthread t (by simp), by simp [h.log, SessionAction.event]⟩
  | lockSession t requestId =>
    simp only [SessionThreads.step, Option.ite_none_right_eq_some, Option.some.injEq,
      lockSession_of_requestId h.requestId, proceed] at hstep
    obtain ⟨-, rfl⟩ := hstep
    exact ⟨h.requestId, hthread t (by simp), by simp [h.log, SessionAction.event]⟩
  | wakeUp t =>
    -- nobody waits
    cases hwaiting : s.thread t with
    | waiting r l => exact absurd hwaiting (h.thread t r l)
    | outside | holding => simp [SessionThreads.step, hwaiting] at hstep
  | unlockSession t requestId =>
    simp only [SessionThreads.step, Option.ite_none_right_eq_some, Option.some.injEq,
      unlockSession_of_requestId h.requestId] at hstep
    obtain ⟨-, rfl⟩ := hstep
    exact ⟨h.requestId, hthread t (by simp), by simp [h.log, SessionAction.event]⟩
  | markDeleted t =>
    simp only [SessionThreads.step, Option.ite_none_right_eq_some, Option.some.injEq] at hstep
    obtain ⟨-, rfl⟩ := hstep
    exact ⟨h.requestId, h.thread, by simp [h.log, SessionAction.event]⟩

theorem reaches_unrecorded (h : Reaches (step lockWaitTime) (fun _ _ => True) create actions s) :
    Unrecorded actions s :=
  h.invariant_inputs unrecorded_create fun _ _ _ _ hs _ hstep => hs.step hstep

end SessionThreads

namespace SessionAction

theorem event_eq_locked_iff (action : SessionAction) (r : UInt32) (result : SessionLockResult) :
    action.event = some (.locked r result) ↔
      (∃ t, action = .lockSession t r) ∧ result = .success := by
  cases action <;> simp [event, eq_comm]

theorem event_eq_unlocked_iff (action : SessionAction) (r : UInt32) :
    action.event = some (.unlocked r) ↔ ∃ t, action = .unlockSession t r := by
  cases action <;> simp [event]

end SessionAction

theorem excludes_filterMap_iff (actions : List SessionAction) :
    Excludes (actions.filterMap SessionAction.event) ↔ OneAtATime actions := by
  constructor
  · rintro h before between after t t' r s rfl hr hs hne
    obtain ⟨e, he, hends⟩ := h (before.filterMap SessionAction.event)
      (between.filterMap SessionAction.event) (after.filterMap SessionAction.event) r s .success
      (by simp [SessionAction.event]) hr (by simp) hs hne
    obtain ⟨action, hmem, hevent⟩ := List.mem_filterMap.mp he
    obtain rfl | ⟨q, rfl | rfl⟩ := hends
    · obtain ⟨t'', rfl⟩ := (action.event_eq_unlocked_iff r).mp hevent
      exact ⟨t'', hmem⟩
    · cases ((action.event_eq_locked_iff q _).mp hevent).2
    · cases ((action.event_eq_locked_iff q _).mp hevent).2
  · intro h before between after r s result hlog hr hresult hs hne
    obtain ⟨front, last, rfl, hfront, hlast⟩ := List.filterMap_eq_append_iff.mp hlog
    obtain ⟨front', rest, rfl, hbefore, hrest⟩ := List.filterMap_eq_append_iff.mp hfront
    obtain ⟨skipped, first, middle, rfl, hskipped, hfirst, hmiddle⟩ :=
      List.filterMap_eq_cons_iff.mp hrest
    obtain ⟨skipped', second, tail, rfl, hskipped', hsecond, htail⟩ :=
      List.filterMap_eq_cons_iff.mp hlast
    obtain ⟨⟨t, rfl⟩, -⟩ := (first.event_eq_locked_iff r result).mp hfirst
    obtain ⟨⟨t', rfl⟩, -⟩ := (second.event_eq_locked_iff s _).mp hsecond
    obtain ⟨t'', hmem⟩ := h (front' ++ skipped) (middle ++ skipped') tail t t' r s
      (by simp) hr hs hne
    have hunlocked : SessionEvent.unlocked r ∈ between := by
      obtain hmem | hmem := List.mem_append.mp hmem
      · rw [← hmiddle]
        exact List.mem_filterMap.mpr ⟨_, hmem, rfl⟩
      · cases (hskipped' _ hmem)
    exact ⟨_, hunlocked, .inl rfl⟩

/-- Session locks keep requests apart in exactly those runs in which no request asks for a session
that another one has locked. -/
theorem sessionLock_excludes_iff {lockWaitTime : UInt32} {actions : List SessionAction}
    {s : SessionThreads}
    (h : Reaches (SessionThreads.step lockWaitTime) (fun _ _ => True) .create actions s) :
    Excludes s.log ↔ OneAtATime actions := by
  rw [(SessionThreads.reaches_unrecorded h).log, excludes_filterMap_iff]

/-- Two requests, one after the other. -/
theorem sessionLock_in_turn :
    ∃ s, Reaches (SessionThreads.step 1000) (fun _ _ => True) .create
        [.lock 0, .lockSession 0 5, .unlockSession 0 5, .lock 1, .lockSession 1 6] s ∧
      Excludes s.log := by
  refine ⟨_, Reaches.get_foldlM rfl, (sessionLock_excludes_iff (Reaches.get_foldlM rfl)).mpr ?_⟩
  rintro before between after t t' r s hactions hr hs hne
  obtain ⟨-, ⟨-, rfl⟩, hrest⟩ : before = [.lock 0] ∧ (t = 0 ∧ r = 5) ∧
      between ++ .lockSession t' s :: after = [.unlockSession 0 5, .lock 1, .lockSession 1 6] := by
    simpa [List.cons_eq_append_iff] using hactions
  cases between with
  | nil => simp at hrest
  | cons action between =>
    rw [List.cons_append, List.cons.injEq] at hrest
    exact ⟨0, hrest.1 ▸ List.mem_cons_self⟩

/-- The first request has the session, and the second one gets it too. -/
theorem sessionLock_admits_two :
    ∃ s, Reaches (SessionThreads.step 1000) (fun _ _ => True) .create
        [.lock 0, .lockSession 0 5, .unlock 0, .lock 1, .lockSession 1 6] s ∧
      s.log = [.locked 5 .success, .locked 6 .success] ∧ ¬Excludes s.log := by
  refine ⟨_, Reaches.get_foldlM rfl, rfl, fun h => ?_⟩
  obtain ⟨e, he, -⟩ := h [] [] [] 5 6 .success rfl (by decide) (by decide) (by decide) (by decide)
  exact absurd he List.not_mem_nil

end CyberCache
