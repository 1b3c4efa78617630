import CyberCache.Threads.MessageQueue

/-!
# Message queues that get no memory

A message queue asks for a new buffer with `optional_calloc()`, which returns nothing while some
thread is trying to reclaim memory; the queue then keeps the buffer that it has. No call asks for
more than one buffer. An ordinary put waits if the queue could not grow. A `put_always()` does not
look at what became of its request: it stores the message behind the others, even if there is no
room for it.
-/

namespace CyberCache

variable {α : Type}

namespace Queue

/-- The messages as they would be handed out. -/
def contents (q : Queue α) : List (Option α) := ringSlice q.buffer q.capacity q.getIndex q.count

end Queue

/-! ## Queues with and without a buffer -/

namespace Queue

variable {q : Queue α} {xs : List α}

/-- A queue that got no memory when it was created. -/
structure Unallocated (q : Queue α) : Prop where
  capacity : q.capacity = 0
  count : q.count = 0
  maxCapacity : ∃ m ≤ 31, q.maxCapacity = 2 ^ m

theorem Unallocated.configureCapacity (h : q.Unallocated) (wish : Nat) :
    (q.configureCapacity wish).Contains [] := by
  obtain ⟨m, hm, hmax⟩ := h.maxCapacity
  obtain ⟨j, -, hj⟩ := exists_validateCapacity_eq wish
  obtain ⟨k, hk, hle⟩ : ∃ k, q.possibleCapacity wish = 2 ^ k ∧ 2 ^ k ≤ q.maxCapacity := by
    have hzero : (getNextPowerOf2 (UInt32.ofNat 0)).toNat = 0 := by decide
    simp only [possibleCapacity, hj, h.count, hzero, Nat.not_lt_zero, if_false]
    split_ifs with hgt
    · exact ⟨m, hmax, hmax.ge⟩
    · exact ⟨j, rfl, Nat.not_lt.mp hgt⟩
  have hne : 2 ^ k ≠ q.capacity := by
    rw [h.capacity]
    exact (Nat.two_pow_pos k).ne'
  rw [Queue.configureCapacity, hk, if_pos hne]
  exact
    { contents := rfl
      count := h.count
      putIndex := by simp [Queue.reallocate, h.count]
      getIndex := Nat.two_pow_pos k
      fits := Nat.zero_le _
      capacity := ⟨k, rfl⟩
      indexMask := rfl
      le := hle
      maxCapacity := h.maxCapacity }

/-- The queue holds these messages, if it has a buffer at all. -/
def Keeps (q : Queue α) (xs : List α) : Prop := q.Contains xs ∨ q.Unallocated ∧ xs = []

namespace Keeps

section

variable (h : q.Keeps xs)
include h

theorem count : q.count = xs.length := by
  rcases h with h | ⟨h, rfl⟩
  · exact h.count
  · exact h.count

theorem fits : xs.length ≤ q.capacity := by
  rcases h with h | ⟨h, rfl⟩
  · exact h.fits
  · exact Nat.zero_le _

theorem contents : q.contents = xs.map some := by
  rw [Queue.contents, h.count]
  rcases h with h | ⟨h, rfl⟩
  · exact h.contents
  · rfl

theorem configureCapacity (allocates : Bool) (wish : Nat) :
    (q.configureCapacityWith allocates wish).Keeps xs := by
  cases allocates with
  | false => exact h
  | true =>
    rcases h with h | ⟨h, rfl⟩
    · exact .inl (h.configureCapacity wish)
    · exact .inl (h.configureCapacity wish)

theorem configureMaxCapacity (allocates : Bool) (wish : Nat) :
    (q.configureMaxCapacityWith allocates wish).Keeps xs := by
  obtain ⟨j, hj, hvalid⟩ := exists_validateCapacity_eq wish
  have hlimit : ∃ m ≤ 31, 2 ^ j = 2 ^ m := ⟨j, by omega, rfl⟩
  rcases h with h | ⟨h, rfl⟩
  · cases allocates with
    | true => exact .inl (h.configureMaxCapacity wish)
    | false =>
      obtain ⟨c, hc⟩ := h.capacity
      have hcapacity := h.capacity_le
      refine .inl ?_
      simp only [configureMaxCapacityWith, configureCapacityWith, hvalid, Bool.false_eq_true,
        if_false]
      split_ifs with hsmaller
      · refine { h.toRing with le := le_rfl, maxCapacity := ⟨c, ?_, hc⟩ }
        rw [hc] at hcapacity
        exact (Nat.pow_le_pow_iff_right (by omega)).mp hcapacity
      · exact { h.toRing with le := Nat.not_lt.mp hsmaller, maxCapacity := hlimit }
  · have hsmaller : ¬2 ^ j < q.capacity := by
      rw [h.capacity]
      exact Nat.not_lt_zero _
    refine .inr ⟨?_, rfl⟩
    simp only [configureMaxCapacityWith, hvalid, if_neg hsmaller]
    exact ⟨h.capacity, h.count, hlimit⟩

theorem append (hspace : xs.length < q.capacity) (x : α) :
    (q.append x).Keeps (xs ++ [x]) := by
  rcases h with h | ⟨h, -⟩
  · exact .inl (h.append hspace x)
  · rw [h.capacity] at hspace
    exact absurd hspace (Nat.not_lt_zero _)

theorem grow (hfull : q.count = q.capacity) (allocates : Bool) (wish : Nat) :
    q.configureCapacityWith allocates wish = q ∨
      xs.length < (q.configureCapacityWith allocates wish).capacity := by
  cases allocates with
  | false => exact .inl rfl
  | true =>
    rcases h with h | ⟨h, rfl⟩
    · exact h.grow hfull wish
    · exact .inr (Nat.zero_lt_of_lt (h.configureCapacity wish).getIndex)

theorem get :
    (xs = [] ∧ q.get = (none, q)) ∨
      ∃ x ys q', xs = x :: ys ∧ q.get = (some x, q') ∧ q'.Keeps ys := by
  rcases h with h | ⟨h, rfl⟩
  · rcases h.get with hempty | ⟨x, ys, q', hcons, hget, hq'⟩
    · exact .inl hempty
    · exact .inr ⟨x, ys, q', hcons, hget, .inl hq'⟩
  · exact .inl ⟨rfl, by rw [Queue.get, if_pos h.count]⟩

end

theorem tracks (allocates : Bool) : Tracks (α := α) allocates Keeps where
  count := count
  fits := fits
  configureCapacity h := h.configureCapacity allocates
  configureMaxCapacity h := h.configureMaxCapacity allocates
  append := append
  grow h hfull := h.grow hfull allocates
  get := get

end Keeps

/-- There is room for one more message, or there will be. -/
def HasRoom (allocates : Bool) (q : Queue α) : Prop :=
  q.count < q.capacity ∨ (q.capacity = q.maxCapacity ∧ 2 ^ 31 ≤ q.maxCapacity) ∨
    (allocates = true ∧ 0 < q.capacity)

theorem Keeps.putAlways {allocates : Bool} (h : q.Keeps xs) (hroom : q.HasRoom allocates) (x : α) :
    (∃ q', q.putAlwaysWith allocates x = (true, q') ∧ q'.Keeps (xs ++ [x])) ∨
      q.putAlwaysWith allocates x = (false, q) := by
  have hcount := h.count
  by_cases hfull : q.count = q.capacity
  · rcases hroom with hspace | ⟨hlargest, hlimit⟩ | ⟨rfl, hbuffer⟩
    · exact absurd hfull hspace.ne
    · exact .inr (by rw [putAlwaysWith, if_pos hfull, if_pos hlargest, if_neg hlimit.not_gt])
    · rcases h with h | ⟨h, -⟩
      · rcases h.putAlways x with ⟨q', hput, hq'⟩ | hput
        · exact .inl ⟨q', hput, .inl hq'⟩
        · exact .inr hput
      · rw [h.capacity] at hbuffer
        exact absurd hbuffer (Nat.lt_irrefl 0)
  · have hfits := h.fits
    refine .inl ⟨q.append x, ?_, h.append (by omega) x⟩
    rw [putAlwaysWith, if_neg hfull]

theorem forceCapacityWith_eq {allocates : Bool} (h : allocates = true → q.capacity = 0) :
    q.forceCapacityWith allocates (q.capacity * 2) = q := by
  cases allocates with
  | false => rfl
  | true => simp [forceCapacityWith, forceCapacity, h rfl]

theorem Keeps.overflows {allocates : Bool} (h : q.Keeps xs) (hroom : ¬q.HasRoom allocates) (x : α) :
    (q.putAlwaysWith allocates x).1 = true ∧
      (q.putAlwaysWith allocates x).2.capacity < (q.putAlwaysWith allocates x).2.count := by
  have hcount := h.count
  have hfits := h.fits
  simp only [HasRoom, not_or, not_and, Nat.not_lt, Nat.not_le, Nat.le_zero] at hroom
  obtain ⟨hfull, hlimit, hbuffer⟩ := hroom
  have hfull : q.count = q.capacity := by omega
  have hlarger {max : Nat} : ({ q with maxCapacity := max } : Queue α).capacity <
      (({ q with maxCapacity := max } : Queue α).append x).count :=
    Nat.lt_succ_of_le hfull.ge
  simp only [putAlwaysWith, if_pos hfull]
  split_ifs with hlargest hgrows
  · have hsame := forceCapacityWith_eq (q := { q with maxCapacity := q.maxCapacity * 2 }) hbuffer
    simp only [hsame]
    exact ⟨trivial, hlarger⟩
  · exact absurd (hlimit hlargest) hgrows
  · rw [forceCapacityWith_eq hbuffer]
    exact ⟨rfl, hlarger⟩

end Queue

/-! ## Single calls -/

namespace MessageQueue

variable {q q' : MessageQueue α} {xs : List α} {result : QueueResult α} {allocates : Bool}
  {call : QueueCall α}

/-- No message is lost or overwritten or comes before its time, a message that is not accepted
leaves the queue as it was, and there are no more messages than there are places for them. -/
structure Safe (q : MessageQueue α) (call : QueueCall α) (result : QueueResult α)
    (q' : MessageQueue α) : Prop where
  fifo : ∃ xs ys, q.contents = xs.map some ∧ q'.contents = ys.map some ∧ FifoStep xs call result ys
  rejected : result = .put false → q' = q
  count : q'.count ≤ q'.capacity

def HasRoomFor (allocates : Bool) (q : MessageQueue α) : QueueCall α → Prop
  | .putAlways _ => q.HasRoom allocates
  | _ => True

theorem callWith_keeps (h : q.Keeps xs) (hroom : q.HasRoomFor allocates call)
    (hcall : q.callWith allocates call = some (result, q')) :
    ∃ ys, FifoStep xs call result ys ∧ q'.Keeps ys ∧ (result = .put false → q' = q) := by
  refine callWith_fifo (Queue.Keeps.tracks allocates) h (fun x hx => ?_) hcall
  subst hx
  exact h.putAlways hroom x

theorem safe_iff_hasRoomFor (h : q.Keeps xs)
    (hcall : q.callWith allocates call = some (result, q')) :
    q.Safe call result q' ↔ q.HasRoomFor allocates call := by
  constructor
  · intro hsafe
    by_contra hroom
    cases call with
    | putAlways x =>
      obtain ⟨-, rfl⟩ := Prod.mk.inj (Option.some.inj hcall)
      exact (h.overflows hroom x).2.not_ge hsafe.count
    | _ => exact hroom trivial
  · intro hroom
    obtain ⟨ys, hstep, hys, hrejected⟩ := callWith_keeps h hroom hcall
    exact
      { fifo := ⟨xs, ys, h.contents, hys.contents, hstep⟩
        rejected := hrejected
        count := hys.count ▸ hys.fits }

/-! ## Sequences of calls -/

/-- Every call of the sequence is safe, up to the first one that has to wait; each call comes with
what becomes of its request for a buffer. -/
def AllSafe : MessageQueue α → List (Bool × QueueCall α) → Prop
  | _, [] => True
  | q, (allocates, call) :: calls =>
    ∀ result q', q.callWith allocates call = some (result, q') → q.Safe call result q' ∧
      q'.AllSafe calls

/-- No `put_always()` finds the queue full when there is no memory, or without a buffer. -/
def AllHaveRoom : MessageQueue α → List (Bool × QueueCall α) → Prop
  | _, [] => True
  | q, (allocates, call) :: calls =>
    ∀ result q', q.callWith allocates call = some (result, q') →
      q.HasRoomFor allocates call ∧ q'.AllHaveRoom calls

theorem allSafe_iff (h : q.Keeps xs) (calls : List (Bool × QueueCall α)) :
    q.AllSafe calls ↔ q.AllHaveRoom calls := by
  induction calls generalizing q xs with
  | nil => exact Iff.rfl
  | cons first calls ih =>
    obtain ⟨allocates, call⟩ := first
    refine forall₃_congr fun result q' hcall => ?_
    rw [safe_iff_hasRoomFor h hcall]
    refine and_congr_right fun hroom => ?_
    obtain ⟨ys, -, hys, -⟩ := callWith_keeps h hroom hcall
    exact ih hys

/-- There is no memory at first, but a message has been taken before the third one comes. -/
theorem allSafe_of_two :
    let calls := [(false, QueueCall.putAlways 5), (false, .putAlways 6), (false, .get),
      (false, .putAlways 7), (true, .putAlways 8), (false, .setCapacity 1)]
    (create 2 2 : MessageQueue Nat).AllSafe calls ↔ (create 2 2 : MessageQueue Nat).AllHaveRoom
    calls :=
  allSafe_iff (.inl (Queue.create_holds 2 2).contains) _

/-- The third message overwrites the first one, and is handed out before the second. -/
theorem overwrites_first_message :
    ∃ q q' : MessageQueue Nat, q.Keeps [5, 6] ∧
    q.callWith false (.putAlways 7) = some (.put true, q') ∧
      q'.contents = [some 7, some 6, some 7] ∧ q'.count = 3 ∧ q'.capacity = 2 ∧
      ¬q.AllSafe [(false, .putAlways 7)] := by
  let q : MessageQueue Nat := ⟨⟨fun i => if i = 0 then some 5 else some 6, 2, 2, 2, 0, 0, 1⟩, 2⟩
  refine ⟨q, _, .inl ?_, rfl, by decide, rfl, rfl, ?_⟩
  · exact
      { contents := rfl
        count := rfl
        putIndex := by decide
        getIndex := by decide
        fits := by decide
        capacity := ⟨1, rfl⟩
        indexMask := rfl
        le := by decide
        maxCapacity := ⟨1, by decide, rfl⟩ }
  · intro hsafe
    have hcount := (hsafe _ _ rfl).1.count
    exact absurd hcount (by decide)

end MessageQueue

end CyberCache
