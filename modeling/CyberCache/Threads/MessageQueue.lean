import CyberCache.Lib.Runs
import CyberCache.Pipeline.Queue

/-!
# Message queues

Threads send messages to each other through a `MessageQueue`, which keeps them in the same kind of
ring buffer as a local `Queue`. A thread that finds the queue full waits, unless the queue may still
grow. A `CriticalMessageQueue` can also be made to grow beyond its maximum capacity, and to shrink
again later. All methods lock the queue while they work, so that a queue lives through a sequence of
calls; a call that has to wait comes later in that sequence.
-/

namespace CyberCache

/-- A `CriticalMessageQueue` remembers the maximum capacity that it was given. -/
structure MessageQueue (α : Type) extends Queue α where
  cmqSetMaxCapacity : Nat

inductive QueueCall (α : Type) where
  | put (x : α)
  | timedPut (x : α) (msecs : Nat)
  | putAlways (x : α)
  | get
  | timedGet (msecs : Nat)
  | tryGet
  | setCapacity (capacity : Nat)
  | setMaxCapacity (maxCapacity : Nat)
  | storeAndSetMaxCapacity (maxCapacity : Nat)
  | reduceCapacity

/-- What a method returns; retrieval methods return an invalid message if there is none. -/
inductive QueueResult (α : Type) where
  | put (accepted : Bool)
  | message (x : Option α)
  | capacity (capacity : Nat)
  | reduced (reduced : Bool)

variable {α : Type}

namespace Queue

def forceCapacity (q : Queue α) (capacity : Nat) : Queue α :=
  if capacity ≠ q.capacity then q.reallocate capacity else q

def forceCapacityWith (allocates : Bool) (q : Queue α) (capacity : Nat) : Queue α :=
  if allocates then q.forceCapacity capacity else q

def putAlwaysWith (allocates : Bool) (q : Queue α) (x : α) : Bool × Queue α :=
  if q.count = q.capacity then
    if q.capacity = q.maxCapacity then
      if q.maxCapacity < 2 ^ 31 then
        let q := { q with maxCapacity := q.maxCapacity * 2 }
        (true, (q.forceCapacityWith allocates (q.capacity * 2)).append x)
      else (false, q)
    else (true, (q.forceCapacityWith allocates (q.capacity * 2)).append x)
  else (true, q.append x)

def putAlways (q : Queue α) (x : α) : Bool × Queue α := q.putAlwaysWith true x

end Queue

namespace MessageQueue

def create (capacity maxCapacity : Nat) : MessageQueue α :=
  let q := Queue.create capacity maxCapacity
  { q with cmqSetMaxCapacity := q.maxCapacity }

def setMaxCapacityWith (allocates : Bool) (q : MessageQueue α) (maxCapacity : Nat) :
    MessageQueue α :=
  { q with toQueue := q.configureMaxCapacityWith allocates maxCapacity }

/-- What the method returns, and the queue after it; `none` if the thread waits. There may be no
memory for another buffer. -/
def callWith (allocates : Bool) (q : MessageQueue α) :
    QueueCall α → Option (QueueResult α × MessageQueue α)
  | .put x =>
    let (accepted, q') := q.toQueue.putWith allocates x
    if accepted then some (.put true, { q with toQueue := q' }) else none
  | .timedPut x msecs =>
    let (accepted, q') := q.toQueue.putWith allocates x
    -- a thread waits for as long as it takes if there is no time limit
    if accepted ∨ 0 < msecs then some (.put accepted, { q with toQueue := q' }) else none
  | .putAlways x =>
    let (accepted, q') := q.toQueue.putAlwaysWith allocates x
    some (.put accepted, { q with toQueue := q' })
  | .get =>
    if q.count = 0 then none
    else some (.message q.toQueue.get.1, { q with toQueue := q.toQueue.get.2 })
  | .timedGet msecs =>
    if q.count = 0 ∧ msecs = 0 then none
    else some (.message q.toQueue.get.1, { q with toQueue := q.toQueue.get.2 })
  | .tryGet => some (.message q.toQueue.get.1, { q with toQueue := q.toQueue.get.2 })
  | .setCapacity capacity =>
    let q := { q with toQueue := q.configureCapacityWith allocates capacity }
    some (.capacity q.capacity, q)
  | .setMaxCapacity maxCapacity =>
    let q := q.setMaxCapacityWith allocates maxCapacity
    some (.capacity q.maxCapacity, q)
  | .storeAndSetMaxCapacity maxCapacity =>
    let q := { q with cmqSetMaxCapacity := Queue.validateCapacity maxCapacity }
    let q := q.setMaxCapacityWith allocates q.cmqSetMaxCapacity
    some (.capacity q.maxCapacity, q)
  | .reduceCapacity =>
    let currentMaxCapacity := q.maxCapacity
    if q.cmqSetMaxCapacity < currentMaxCapacity then
      let q := q.setMaxCapacityWith allocates q.cmqSetMaxCapacity
      some (.reduced (q.maxCapacity < currentMaxCapacity), q)
    else some (.reduced false, q)

def call (q : MessageQueue α) : QueueCall α → Option (QueueResult α × MessageQueue α) :=
    q.callWith true

end MessageQueue

/-! ## Relations between queues and lists -/

/-- What a call may do to the list of messages, whatever happens to the buffer. -/
inductive FifoStep (xs : List α) : QueueCall α → QueueResult α → List α → Prop
  | put (x : α) : FifoStep xs (.put x) (.put true) (xs ++ [x])
  | timedPut (x : α) (msecs : Nat) : FifoStep xs (.timedPut x msecs) (.put true) (xs ++ [x])
  | putAlways (x : α) : FifoStep xs (.putAlways x) (.put true) (xs ++ [x])
  | reject (call : QueueCall α) : FifoStep xs call (.put false) xs
  | get {x : α} {ys : List α} (call : QueueCall α) (h : xs = x :: ys) :
      FifoStep xs call (.message (some x)) ys
  | empty (call : QueueCall α) (h : xs = []) : FifoStep xs call (.message none) xs
  | capacity (call : QueueCall α) (capacity : Nat) : FifoStep xs call (.capacity capacity) xs
  | reduced (call : QueueCall α) (reduced : Bool) : FifoStep xs call (.reduced reduced) xs

namespace Queue

variable {q : Queue α} {xs : List α} {allocates : Bool} {R : Queue α → List α → Prop}

/-- A relation between queues and the messages in them that survives whatever calls are made of. -/
structure Tracks (allocates : Bool) (R : Queue α → List α → Prop) : Prop where
  count : ∀ {q xs}, R q xs → q.count = xs.length
  fits : ∀ {q xs}, R q xs → xs.length ≤ q.capacity
  configureCapacity : ∀ {q xs}, R q xs → ∀ wish, R (q.configureCapacityWith allocates wish) xs
  configureMaxCapacity : ∀ {q xs}, R q xs → ∀ wish, R (q.configureMaxCapacityWith allocates wish) xs
  append : ∀ {q xs}, R q xs → xs.length < q.capacity → ∀ x, R (q.append x) (xs ++ [x])
  /-- A queue that is full, and remains full, is not changed by an attempt to grow. -/
  grow : ∀ {q xs}, R q xs → q.count = q.capacity → ∀ wish,
    q.configureCapacityWith allocates wish = q ∨
      xs.length < (q.configureCapacityWith allocates wish).capacity
  get : ∀ {q xs}, R q xs → (xs = [] ∧ q.get = (none, q)) ∨
    ∃ x ys q', xs = x :: ys ∧ q.get = (some x, q') ∧ R q' ys

theorem Tracks.put (ht : Tracks allocates R) (h : R q xs) (x : α) :
    (∃ q', q.putWith allocates x = (true, q') ∧ R q' (xs ++ [x])) ∨
      q.putWith allocates x = (false, q) := by
  have hcount := ht.count h
  have hfits := ht.fits h
  by_cases hgrow : q.count = q.capacity ∧ q.capacity < q.maxCapacity
  · have hq := ht.configureCapacity h (q.capacity * 2)
    simp only [putWith, if_pos hgrow]
    rcases ht.grow h hgrow.1 (q.capacity * 2) with hsame | hspace
    · rw [hsame, if_pos hgrow.1]
      exact .inr rfl
    · rw [ht.count hq, if_neg hspace.ne]
      exact .inl ⟨_, rfl, ht.append hq hspace x⟩
  · simp only [putWith, if_neg hgrow]
    split_ifs with hfull
    · exact .inr rfl
    · exact .inl ⟨_, rfl, ht.append h (by omega) x⟩

end Queue

namespace MessageQueue

variable {q q' : MessageQueue α} {xs : List α} {result : QueueResult α} {allocates : Bool}
  {call : QueueCall α} {R : Queue α → List α → Prop}

theorem get_fifo (ht : Queue.Tracks allocates R) (h : R q.toQueue xs) (call : QueueCall α) :
    ∃ ys, FifoStep xs call (.message q.toQueue.get.1) ys ∧ R q.toQueue.get.2 ys := by
  rcases ht.get h with ⟨hnil, hget⟩ | ⟨x, ys, q', hcons, hget, hq'⟩
  · exact ⟨xs, by rw [hget]; exact .empty call hnil, by rw [hget]; exact h⟩
  · exact ⟨ys, by rw [hget]; exact .get call hcons, by rw [hget]; exact hq'⟩

/-- It remains to see what `put_always()` does, which does not care for the capacity. -/
theorem callWith_fifo (ht : Queue.Tracks allocates R) (h : R q.toQueue xs)
    (hput : ∀ x, call = .putAlways x →
      (∃ r, q.putAlwaysWith allocates x = (true, r) ∧ R r (xs ++ [x])) ∨
        q.putAlwaysWith allocates x = (false, q.toQueue))
    (hcall : q.callWith allocates call = some (result, q')) :
    ∃ ys, FifoStep xs call result ys ∧ R q'.toQueue ys ∧ (result = .put false → q' = q) := by
  cases call with
  | put x =>
    rcases ht.put h x with ⟨r, hput, hr⟩ | hput
    · simp only [callWith, hput, if_true, Option.some.injEq, Prod.mk.injEq] at hcall
      obtain ⟨rfl, rfl⟩ := hcall
      exact ⟨xs ++ [x], .put x, hr, by simp⟩
    · simp [callWith, hput] at hcall
  | timedPut x msecs =>
    rcases ht.put h x with ⟨r, hput, hr⟩ | hput
    · simp only [callWith, hput, true_or, if_true, Option.some.injEq, Prod.mk.injEq] at hcall
      obtain ⟨rfl, rfl⟩ := hcall
      exact ⟨xs ++ [x], .timedPut x msecs, hr, by simp⟩
    · simp only [callWith, hput] at hcall
      obtain ⟨-, hs⟩ := Option.ite_none_right_eq_some.mp hcall
      cases hs
      exact ⟨xs, .reject _, h, fun _ => rfl⟩
  | putAlways x =>
    rcases hput x rfl with ⟨r, hput, hr⟩ | hput
    · simp only [callWith, hput, Option.some.injEq, Prod.mk.injEq] at hcall
      obtain ⟨rfl, rfl⟩ := hcall
      exact ⟨xs ++ [x], .putAlways x, hr, by simp⟩
    · simp only [callWith, hput, Option.some.injEq, Prod.mk.injEq] at hcall
      obtain ⟨rfl, rfl⟩ := hcall
      exact ⟨xs, .reject _, h, fun _ => rfl⟩
  | get =>
    obtain ⟨-, hs⟩ := Option.ite_none_left_eq_some.mp hcall
    cases hs
    obtain ⟨ys, hstep, hys⟩ := get_fifo ht h .get
    exact ⟨ys, hstep, hys, by simp⟩
  | timedGet msecs =>
    obtain ⟨-, hs⟩ := Option.ite_none_left_eq_some.mp hcall
    cases hs
    obtain ⟨ys, hstep, hys⟩ := get_fifo ht h (.timedGet msecs)
    exact ⟨ys, hstep, hys, by simp⟩
  | tryGet =>
    cases hcall
    obtain ⟨ys, hstep, hys⟩ := get_fifo ht h .tryGet
    exact ⟨ys, hstep, hys, by simp⟩
  | setCapacity capacity =>
    cases hcall
    exact ⟨xs, .capacity _ _, ht.configureCapacity h capacity, by simp⟩
  | setMaxCapacity maxCapacity =>
    cases hcall
    exact ⟨xs, .capacity _ _, ht.configureMaxCapacity h maxCapacity, by simp⟩
  | storeAndSetMaxCapacity maxCapacity =>
    cases hcall
    exact ⟨xs, .capacity _ _, ht.configureMaxCapacity h _, by simp⟩
  | reduceCapacity =>
    simp only [callWith] at hcall
    split_ifs at hcall with hlarger
    · cases hcall
      exact ⟨xs, .reduced _ _, ht.configureMaxCapacity h _, by simp⟩
    · cases hcall
      exact ⟨xs, .reduced _ _, h, by simp⟩

end MessageQueue

/-! ## The ring buffer beyond its usual limits -/

namespace Queue

variable {q : Queue α} {xs : List α}

/-- The maximum capacity can be as large as a power of two in 32 bits. -/
structure Contains (q : Queue α) (xs : List α) : Prop extends q.Ring xs where
  le : q.capacity ≤ q.maxCapacity
  maxCapacity : ∃ m ≤ 31, q.maxCapacity = 2 ^ m

theorem Ring.contains {q' : Queue α} (h : q.Ring xs) (hle : q.capacity ≤ q'.maxCapacity)
    (hmax : q.maxCapacity = q'.maxCapacity) (hmax' : ∃ m ≤ 31, q'.maxCapacity = 2 ^ m) :
    q.Contains xs :=
  { h with le := hmax ▸ hle, maxCapacity := hmax ▸ hmax' }

theorem Ring.minPossibleCapacity (h : q.Ring xs) (hle : q.capacity ≤ 2 ^ 31) :
    let capacity := (getNextPowerOf2 (UInt32.ofNat q.count)).toNat
    xs.length ≤ capacity ∧ capacity ≤ q.capacity ∧ (capacity = 0 ∨ ∃ k, capacity = 2 ^ k) := by
  have hfits := h.fits
  rw [h.count]
  rcases Nat.eq_zero_or_pos xs.length with hzero | hpos
  · have hnone : (getNextPowerOf2 0).toNat = 0 := by decide
    simp [hzero, hnone]
  · obtain ⟨c, hc⟩ := h.capacity
    have hnat : (UInt32.ofNat xs.length).toNat = xs.length :=
      UInt32.toNat_ofNat_of_lt' ((hfits.trans hle).trans_lt (by decide))
    have hne : UInt32.ofNat xs.length ≠ 0 := by
      intro hzero
      rw [hzero] at hnat
      exact hpos.ne hnat
    have hnext := toNat_getNextPowerOf2 hne (by omega)
    rw [hnat] at hnext
    have hlt := Nat.lt_size_self (xs.length - 1)
    have hsize : (xs.length - 1).size ≤ c := Nat.size_le.mpr (by omega)
    simp only [hnext]
    refine ⟨by omega, ?_, .inr ⟨_, rfl⟩⟩
    rw [hc]
    exact Nat.pow_le_pow_right Nat.two_pos hsize

namespace Contains

section

variable (h : q.Contains xs)
include h

theorem capacity_le : q.capacity ≤ 2 ^ 31 := by
  obtain ⟨m, hm, hmax⟩ := h.maxCapacity
  exact h.le.trans (hmax ▸ Nat.pow_le_pow_right Nat.two_pos hm)

theorem exists_possibleCapacity_eq (wish : Nat) :
    ∃ k, q.possibleCapacity wish = 2 ^ k ∧ xs.length ≤ 2 ^ k ∧ 2 ^ k ≤ q.maxCapacity := by
  obtain ⟨j, -, hj⟩ := exists_validateCapacity_eq wish
  obtain ⟨m, -, hmax⟩ := h.maxCapacity
  obtain ⟨hfits, hmin, hpower⟩ := h.minPossibleCapacity h.capacity_le
  have hle := h.le
  obtain ⟨a, ha, halimit⟩ : ∃ a,
      (if validateCapacity wish > q.maxCapacity then q.maxCapacity else validateCapacity wish) =
        2 ^ a ∧ 2 ^ a ≤ q.maxCapacity := by
    split_ifs with hgt
    · exact ⟨m, hmax, hmax.ge⟩
    · exact ⟨j, hj, by omega⟩
  simp only [possibleCapacity, ha]
  split_ifs with hlt
  · rcases hpower with hzero | ⟨k, hk⟩
    · omega
    · exact ⟨k, hk, by omega, by omega⟩
  · exact ⟨a, rfl, by omega, halimit⟩

theorem reallocate {k : Nat} (hfits : xs.length ≤ 2 ^ k)
    (hmax : 2 ^ k ≤ q.maxCapacity) : (q.reallocate (2 ^ k)).Contains xs :=
  (h.toRing.reallocate hfits).contains hmax rfl h.maxCapacity

theorem configureCapacity (wish : Nat) :
    (q.configureCapacity wish).Contains xs := by
  obtain ⟨k, hk, hfits, hmax⟩ := h.exists_possibleCapacity_eq wish
  rw [Queue.configureCapacity, hk]
  split_ifs
  · exact h.reallocate hfits hmax
  · exact h

theorem configureMaxCapacity (wish : Nat) :
    (q.configureMaxCapacity wish).Contains xs := by
  obtain ⟨j, hj, hvalid⟩ := exists_validateCapacity_eq wish
  have hlimit : ∃ m ≤ 31, 2 ^ j = 2 ^ m := ⟨j, by omega, rfl⟩
  simp only [Queue.configureMaxCapacity, configureMaxCapacityWith, configureCapacityWith, hvalid,
    if_true]
  split_ifs with hshrink hlarge
  · have hq := h.configureCapacity (2 ^ j)
    obtain ⟨c, hc⟩ := hq.capacity
    have hcapacity := hq.capacity_le
    refine { hq.toRing with le := le_rfl, maxCapacity := ⟨c, ?_, hc⟩ }
    rw [hc] at hcapacity
    exact (Nat.pow_le_pow_iff_right (by omega)).mp hcapacity
  · exact { (h.configureCapacity (2 ^ j)).toRing with
      le := Nat.not_lt.mp hlarge, maxCapacity := hlimit }
  · exact { h.toRing with le := Nat.not_lt.mp hshrink, maxCapacity := hlimit }

theorem append (hspace : xs.length < q.capacity) (x : α) :
    (q.append x).Contains (xs ++ [x]) :=
  (h.toRing.store hspace x).contains h.le rfl h.maxCapacity

theorem grow (hfull : q.count = q.capacity) (wish : Nat) :
    q.configureCapacity wish = q ∨ xs.length < (q.configureCapacity wish).capacity := by
  obtain ⟨k, hk, hfits, -⟩ := h.exists_possibleCapacity_eq wish
  rw [Queue.configureCapacity, hk]
  split_ifs with hne
  · have hcapacity : (q.reallocate (2 ^ k)).capacity = 2 ^ k := rfl
    have hcount := h.count
    exact .inr (by omega)
  · exact .inl rfl

theorem double {max : Nat} (hle : q.capacity * 2 ≤ max)
    (hmax : ∃ m ≤ 31, max = 2 ^ m) (x : α) :
    ((({ q with maxCapacity := max } : Queue α).forceCapacity (q.capacity * 2)).append x).Contains
      (xs ++ [x]) := by
  obtain ⟨c, hc⟩ := h.capacity
  have hpos := Nat.two_pow_pos c
  have hfits := h.fits
  have hpow : q.capacity * 2 = 2 ^ (c + 1) := by rw [hc, Nat.pow_succ]
  have hsmaller : q.capacity ≤ max := by omega
  have hq : ({ q with maxCapacity := max } : Queue α).Contains xs :=
    { h.toRing with le := hsmaller, maxCapacity := hmax }
  have hne : q.capacity * 2 ≠ q.capacity := by omega
  rw [Queue.forceCapacity, if_pos hne, hpow]
  refine (hq.reallocate (by omega) (hpow ▸ hle)).append ?_ x
  have hcapacity : (Queue.reallocate { q with maxCapacity := max } (2 ^ (c + 1))).capacity =
    2 ^ (c + 1) := rfl
  omega

theorem putAlways (x : α) :
    (∃ q', q.putAlways x = (true, q') ∧ q'.Contains (xs ++ [x])) ∨ q.putAlways x = (false, q) := by
  obtain ⟨m, hm, hmax⟩ := h.maxCapacity
  obtain ⟨c, hc⟩ := h.capacity
  have hfits := h.fits
  have hcount := h.count
  have hle := h.le
  simp only [Queue.putAlways, putAlwaysWith, forceCapacityWith, if_true]
  split_ifs with hfull hlargest hgrows
  · have hlt : m < 31 := by
      rw [hmax] at hgrows
      exact (Nat.pow_lt_pow_iff_right (by omega)).mp hgrows
    exact .inl ⟨_, rfl, h.double (by omega) ⟨m + 1, by omega, by rw [hmax, Nat.pow_succ]⟩ x⟩
  · exact .inr rfl
  · have hdouble : q.capacity * 2 ≤ q.maxCapacity := by
      have hexp : c < m := by
        have hlt : 2 ^ c < 2 ^ m := by omega
        exact (Nat.pow_lt_pow_iff_right (by omega)).mp hlt
      rw [hc, hmax, ← Nat.pow_succ]
      exact Nat.pow_le_pow_right Nat.two_pos hexp
    exact .inl ⟨_, rfl, h.double hdouble ⟨m, hm, hmax⟩ x⟩
  · exact .inl ⟨_, rfl, h.append (by omega) x⟩

theorem get :
    (xs = [] ∧ q.get = (none, q)) ∨
      ∃ x ys q', xs = x :: ys ∧ q.get = (some x, q') ∧ q'.Contains ys := by
  cases xs with
  | nil => exact .inl ⟨rfl, h.get_nil⟩
  | cons x ys =>
    obtain ⟨q', hget, hring, hcapacity, hmax⟩ := h.get_cons
    exact .inr ⟨x, ys, q', rfl, hget, hring.contains (hcapacity ▸ h.le) hmax h.maxCapacity⟩

end

theorem tracks : Tracks (α := α) true Contains where
  count h := h.count
  fits h := h.fits
  configureCapacity := configureCapacity
  configureMaxCapacity := configureMaxCapacity
  append := append
  grow := grow
  get := get

end Contains

theorem Holds.contains (h : q.Holds xs) : q.Contains xs := by
  obtain ⟨m, hm, hmax⟩ := h.maxCapacity
  exact h.toRing.contains h.le rfl ⟨m, by omega, hmax⟩

end Queue

namespace MessageQueue

variable {q q' : MessageQueue α} {xs : List α} {result : QueueResult α}

/-- A put waits if and only if the queue has reached its maximum capacity. -/
theorem call_put (h : q.Holds xs) (x : α) :
    if xs.length < q.maxCapacity then
      ∃ q', q.call (.put x) = some (.put true, q') ∧ q'.Holds (xs ++ [x]) ∧
        q'.maxCapacity = q.maxCapacity
    else q.call (.put x) = none := by
  have hput := h.put x
  simp only [Queue.put] at hput
  split_ifs at hput ⊢
  · obtain ⟨r, hput, hr, hmax⟩ := hput
    exact ⟨{ q with toQueue := r }, by simp [call, callWith, hput], hr, hmax⟩
  · simp [call, callWith, hput]

theorem call_get (h : q.Holds xs) (hcall : q.call .get = some (result, q')) :
    ∃ x ys, xs = x :: ys ∧ q'.Holds ys ∧ q'.maxCapacity = q.maxCapacity := by
  obtain ⟨hcount, hs⟩ := Option.ite_none_left_eq_some.mp hcall
  obtain ⟨-, rfl⟩ := Prod.mk.inj (Option.some.inj hs)
  cases xs with
  | nil => exact absurd h.count hcount
  | cons x ys =>
    obtain ⟨r, hget, hr, hmax⟩ := h.get_cons
    exact ⟨x, ys, rfl, by rwa [hget], by rw [hget, hmax]⟩

theorem call_fifo (h : q.Contains xs) {call : QueueCall α}
    (hcall : q.call call = some (result, q')) :
    ∃ ys, FifoStep xs call result ys ∧ q'.Contains ys ∧ (result = .put false → q' = q) :=
  callWith_fifo Queue.Contains.tracks h (fun x _ => h.putAlways x) hcall

end MessageQueue

/-! ## Runs of calls -/

/-- A queue, with the messages that it has accepted and those that it has handed out. -/
structure QueueHistory (α : Type) where
  queue : MessageQueue α
  accepted : List α
  handed : List α

namespace QueueHistory

def create (capacity maxCapacity : Nat) : QueueHistory α := ⟨.create capacity maxCapacity, [], []⟩

def acceptedBy : QueueCall α → QueueResult α → List α
  | .put x, .put true | .timedPut x _, .put true | .putAlways x, .put true => [x]
  | _, _ => []

def handedBy : QueueResult α → List α
  | .message (some x) => [x]
  | _ => []

def step (h : QueueHistory α) (call : QueueCall α) : Option (QueueHistory α) := do
  let (result, queue) ← h.queue.call call
  return ⟨queue, h.accepted ++ acceptedBy call result, h.handed ++ handedBy result⟩

theorem balance {xs ys : List α} {call : QueueCall α} {result : QueueResult α}
    (h : FifoStep xs call result ys) : xs ++ acceptedBy call result = handedBy result ++ ys := by
  cases h with
  | put x | timedPut x msecs | putAlways x => simp [acceptedBy, handedBy]
  | reject | empty | capacity | reduced => simp [acceptedBy, handedBy]
  | get call h => simp [acceptedBy, handedBy, h]

/-- What the queue holds is what has been accepted and not been handed out. -/
def Valid (h : QueueHistory α) : Prop :=
  ∃ xs, h.queue.Contains xs ∧ h.accepted = h.handed ++ xs

theorem create_valid (capacity maxCapacity : Nat) :
    (create capacity maxCapacity : QueueHistory α).Valid :=
  ⟨[], (Queue.create_holds capacity maxCapacity).contains, rfl⟩

theorem Valid.step {h h' : QueueHistory α} (hvalid : h.Valid) {call : QueueCall α}
    (hstep : h.step call = some h') : h'.Valid := by
  obtain ⟨xs, hholds, horder⟩ := hvalid
  obtain ⟨⟨result, queue⟩, hcall, hs⟩ := Option.bind_eq_some_iff.mp hstep
  cases hs
  obtain ⟨ys, hfifo, hys, -⟩ := MessageQueue.call_fifo hholds hcall
  refine ⟨ys, hys, ?_⟩
  simp only [horder, List.append_assoc, balance hfifo]

/-- The messages that have been handed out are the first ones that were accepted, the others are in
the ring buffer, and a call that reports failure changes nothing. -/
structure Fifo (h : QueueHistory α) : Prop where
  order : ∃ xs, h.accepted = h.handed ++ xs ∧ h.queue.count = xs.length ∧
    ringSlice h.queue.buffer h.queue.capacity h.queue.getIndex h.queue.count = xs.map some
  count : h.queue.count ≤ h.queue.capacity
  capacity : ∃ k, h.queue.capacity = 2 ^ k
  getIndex : h.queue.getIndex < h.queue.capacity
  putIndex : h.queue.putIndex < h.queue.capacity
  distance : h.queue.putIndex = (h.queue.getIndex + h.queue.count) % h.queue.capacity
  rejected : ∀ call q, h.queue.call call = some (.put false, q) → q = h.queue

theorem Valid.fifo {h : QueueHistory α} (hvalid : h.Valid) : h.Fifo := by
  obtain ⟨xs, hholds, horder⟩ := hvalid
  have hcount := hholds.count
  constructor
  case order => exact ⟨xs, horder, hcount, hcount ▸ hholds.contents⟩
  case count => exact hcount ▸ hholds.fits
  case capacity => exact hholds.capacity
  case getIndex => exact hholds.getIndex
  case putIndex =>
    rw [hholds.putIndex]
    exact Nat.mod_lt _ (Nat.zero_lt_of_lt hholds.getIndex)
  case distance => rw [hholds.putIndex, hcount]
  case rejected =>
    intro call q hcall
    obtain ⟨-, -, -, hsame⟩ := MessageQueue.call_fifo hholds hcall
    exact hsame rfl

theorem queue_fifo (capacity maxCapacity : Nat) {calls : List (QueueCall α)} {h : QueueHistory α}
    (hruns : Reaches step (fun _ _ => True) (create capacity maxCapacity) calls h) : h.Fifo :=
  (hruns.invariant (P := Valid) (create_valid capacity maxCapacity)
    fun _ _ _ hs _ hstep => hs.step hstep).fifo

/-- A queue for two messages is made to grow, and made smaller again with one message left. -/
theorem queue_fifo_of_four : ∃ h : QueueHistory Nat,
    Reaches step (fun _ _ => True) (create 2 2)
      [.put 5, .put 6, .timedPut 7 10, .get, .put 7, .putAlways 8, .tryGet, .timedGet 1,
        .reduceCapacity] h ∧
      h.handed = [5, 6, 7] ∧ h.accepted = [5, 6, 7, 8] ∧ h.queue.capacity = 2 ∧ h.Fifo :=
  ⟨_, Reaches.get_foldlM rfl, rfl, rfl, rfl, queue_fifo 2 2 (Reaches.get_foldlM rfl)⟩

end QueueHistory

end CyberCache
