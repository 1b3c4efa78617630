import CyberCache.Lib.RingBuffer
import CyberCache.Types

/-!
# Local queues

A `Queue` is a ring buffer whose capacity is a power of two. A queue that is full grows to twice its
size unless it has reached its maximum capacity. `Holds` connects a queue with the list of its
elements.
-/

namespace CyberCache

/-- Elements that were created by their default constructor are not valid. -/
structure Queue (α : Type) where
  buffer : Nat → Option α
  maxCapacity : Nat
  capacity : Nat
  count : Nat
  putIndex : Nat
  getIndex : Nat
  indexMask : Nat

namespace Queue

variable {α : Type}

def minAllowedCapacity : Nat := 1

def maxAllowedCapacity : Nat := 2 ^ 16

def validateCapacity (capacity : Nat) : Nat :=
  let capacity := if capacity < minAllowedCapacity then minAllowedCapacity else capacity
  let capacity := if capacity > maxAllowedCapacity then maxAllowedCapacity else capacity
  (getNextPowerOf2 (UInt32.ofNat capacity)).toNat

def possibleCapacity (q : Queue α) (capacity : Nat) : Nat :=
  let capacity := validateCapacity capacity
  let capacity := if capacity > q.maxCapacity then q.maxCapacity else capacity
  let minPossibleCapacity := (getNextPowerOf2 (UInt32.ofNat q.count)).toNat
  if capacity < minPossibleCapacity then minPossibleCapacity else capacity

def reallocate (q : Queue α) (capacity : Nat) : Queue α :=
  { q with
    buffer := fun i => if i < q.count then q.buffer ((q.getIndex + i) &&& q.indexMask) else none
    capacity := capacity
    indexMask := capacity - 1
    getIndex := 0
    putIndex := q.count &&& (capacity - 1) }

def configureCapacity (q : Queue α) (capacity : Nat) : Queue α :=
  if q.possibleCapacity capacity ≠ q.capacity then q.reallocate (q.possibleCapacity capacity) else q

/-- A queue keeps the buffer that it has if there is no memory for another one. -/
def configureCapacityWith (allocates : Bool) (q : Queue α) (capacity : Nat) : Queue α :=
  if allocates then q.configureCapacity capacity else q

def configureMaxCapacityWith (allocates : Bool) (q : Queue α) (maxCapacity : Nat) : Queue α :=
  let maxCapacity := validateCapacity maxCapacity
  if maxCapacity < q.capacity then
    let q := q.configureCapacityWith allocates maxCapacity
    { q with maxCapacity := if maxCapacity < q.capacity then q.capacity else maxCapacity }
  else { q with maxCapacity := maxCapacity }

def configureMaxCapacity (q : Queue α) (maxCapacity : Nat) : Queue α :=
  q.configureMaxCapacityWith true maxCapacity

def create (capacity maxCapacity : Nat) : Queue α :=
  let q : Queue α := ⟨fun _ => none, 0, 0, 0, 0, 0, 0⟩
  (q.configureMaxCapacity (if maxCapacity > 0 then maxCapacity else capacity)).configureCapacity
    capacity

def append (q : Queue α) (x : α) : Queue α :=
  { q with
    buffer := Function.update q.buffer q.putIndex (some x)
    putIndex := (q.putIndex + 1) &&& q.indexMask
    count := q.count + 1 }

def putWith (allocates : Bool) (q : Queue α) (x : α) : Bool × Queue α :=
  let q :=
    if q.count = q.capacity ∧ q.capacity < q.maxCapacity then
      q.configureCapacityWith allocates (q.capacity * 2)
    else q
  if q.count = q.capacity then (false, q) else (true, q.append x)

def put (q : Queue α) (x : α) : Bool × Queue α := q.putWith true x

def get (q : Queue α) : Option α × Queue α :=
  if q.count = 0 then (none, q)
  else
    (q.buffer q.getIndex,
      { q with getIndex := (q.getIndex + 1) &&& q.indexMask, count := q.count - 1 })

structure Ring (q : Queue α) (xs : List α) : Prop where
  contents : ringSlice q.buffer q.capacity q.getIndex xs.length = xs.map some
  count : q.count = xs.length
  putIndex : q.putIndex = (q.getIndex + xs.length) % q.capacity
  getIndex : q.getIndex < q.capacity
  fits : xs.length ≤ q.capacity
  capacity : ∃ k, q.capacity = 2 ^ k
  indexMask : q.indexMask = q.capacity - 1

/-- The queue holds these elements; the first one will be taken first. -/
structure Holds (q : Queue α) (xs : List α) : Prop extends q.Ring xs where
  allowed : ∃ k ≤ 16, q.capacity = 2 ^ k
  maxCapacity : ∃ k ≤ 16, q.maxCapacity = 2 ^ k
  le : q.capacity ≤ q.maxCapacity

variable {q : Queue α} {xs : List α}

theorem exists_validateCapacity_eq (capacity : Nat) : ∃ k ≤ 16, validateCapacity capacity =
    2 ^ k := by
  let wish := if capacity < minAllowedCapacity then minAllowedCapacity else capacity
  let allowed := if wish > maxAllowedCapacity then maxAllowedCapacity else wish
  have hallowed : 0 < allowed ∧ allowed ≤ 2 ^ 16 := by
    have hwish : 0 < wish := by grind [minAllowedCapacity]
    grind [maxAllowedCapacity]
  have hnat : (UInt32.ofNat allowed).toNat = allowed :=
    UInt32.toNat_ofNat_of_lt' (hallowed.2.trans_lt (by decide))
  have hne : UInt32.ofNat allowed ≠ 0 := by
    intro hzero
    rw [hzero] at hnat
    exact hallowed.1.ne hnat
  refine ⟨(allowed - 1).size, Nat.size_le.mpr (by omega), ?_⟩
  rw [← hnat, ← toNat_getNextPowerOf2 hne (by omega)]
  rfl

theorem getNextPowerOf2_two_pow {k : Nat} (h : k ≤ 16) :
    (getNextPowerOf2 (UInt32.ofNat (2 ^ k))).toNat = 2 ^ k := by
  interval_cases k <;> decide

theorem validateCapacity_two_pow {k : Nat} (h : k ≤ 16) : validateCapacity (2 ^ k) = 2 ^ k := by
  have hmin : ¬2 ^ k < minAllowedCapacity := Nat.not_lt.mpr Nat.one_le_two_pow
  have hmax : ¬2 ^ k > maxAllowedCapacity :=
    Nat.not_lt.mpr (Nat.pow_le_pow_right Nat.two_pos h)
  simp only [validateCapacity, hmin, hmax, if_false, getNextPowerOf2_two_pow h]

namespace Ring

theorem and_indexMask (h : q.Ring xs) (i : Nat) : i &&& q.indexMask = i % q.capacity := by
  obtain ⟨k, hk⟩ := h.capacity
  rw [h.indexMask, hk, Nat.and_two_pow_sub_one_eq_mod]

theorem reallocate (h : q.Ring xs) {k : Nat} (hfits : xs.length ≤ 2 ^ k) :
    (q.reallocate (2 ^ k)).Ring xs where
  contents := by
    rw [← h.contents]
    refine ringSlice_copy hfits fun i hi => ?_
    rw [← h.count] at hi
    simp [Queue.reallocate, hi, h.and_indexMask]
  count := h.count
  putIndex := by simp [Queue.reallocate, h.count, Nat.and_two_pow_sub_one_eq_mod]
  getIndex := Nat.two_pow_pos k
  fits := hfits
  capacity := ⟨k, rfl⟩
  indexMask := rfl

theorem store (h : q.Ring xs) (hspace : xs.length < q.capacity) (x : α) :
    (q.append x).Ring (xs ++ [x]) where
  contents := by
    rw [List.length_append, List.length_singleton, List.map_append, List.map_singleton,
      ← h.contents, Queue.append, h.putIndex]
    exact ringSlice_update hspace _
  count := by simp [Queue.append, h.count]
  putIndex := by
    rw [Queue.append, h.and_indexMask, h.putIndex, Nat.mod_add_mod, List.length_append,
      Nat.add_assoc]
    rfl
  getIndex := h.getIndex
  fits := by
    rw [List.length_append]
    exact hspace
  capacity := h.capacity
  indexMask := h.indexMask

theorem unique {ys : List α} (h : q.Ring xs) (h' : q.Ring ys) : xs = ys := by
  have hlength : xs.length = ys.length := h.count.symm.trans h'.count
  have hcontents : xs.map some = ys.map some := by
    rw [← h.contents, ← h'.contents, hlength]
  exact List.map_injective_iff.mpr (Option.some_injective α) hcontents

theorem get_nil (h : q.Ring []) : q.get = (none, q) := by
  simp [Queue.get, h.count]

theorem get_cons {x : α} (h : q.Ring (x :: xs)) :
    ∃ q', q.get = (some x, q') ∧ q'.Ring xs ∧ q'.capacity = q.capacity ∧
      q'.maxCapacity = q.maxCapacity := by
  have hcontents := h.contents
  rw [List.length_cons, ringSlice_succ, Nat.mod_eq_of_lt h.getIndex, List.map_cons,
    List.cons.injEq] at hcontents
  have hcount : q.count ≠ 0 := by simp [h.count]
  have hpos : 0 < q.capacity := Nat.zero_lt_of_lt h.getIndex
  refine ⟨{ q with getIndex := (q.getIndex + 1) &&& q.indexMask, count := q.count - 1 },
    ?_, ?_, rfl, rfl⟩
  · simp [Queue.get, hcount, hcontents.1]
  · exact
      { contents := by rw [h.and_indexMask]; exact hcontents.2
        count := by simp [h.count]
        putIndex := by
          rw [h.and_indexMask, Nat.mod_add_mod, h.putIndex, List.length_cons]
          congr 1
          omega
        getIndex := by rw [h.and_indexMask]; exact Nat.mod_lt _ hpos
        fits := (Nat.le_succ _).trans h.fits
        capacity := h.capacity
        indexMask := h.indexMask }

end Ring

theorem Holds.reallocate (h : q.Holds xs) {k : Nat} (hk : k ≤ 16) (hmax : 2 ^ k ≤ q.maxCapacity)
    (hfits : xs.length ≤ 2 ^ k) : (q.reallocate (2 ^ k)).Holds xs :=
  ⟨h.toRing.reallocate hfits, ⟨k, hk, rfl⟩, h.maxCapacity, hmax⟩

theorem create_holds (capacity maxCapacity : Nat) :
    (create capacity maxCapacity : Queue α).Holds [] := by
  obtain ⟨m, hm, hmax⟩ := exists_validateCapacity_eq
    (if maxCapacity > 0 then maxCapacity else capacity)
  obtain ⟨j, hj, hwish⟩ := exists_validateCapacity_eq capacity
  let q : Queue α := ⟨fun _ => none, 2 ^ m, 0, 0, 0, 0, 0⟩
  obtain ⟨k, hk, hpossible, hle⟩ : ∃ k ≤ 16, q.possibleCapacity capacity = 2 ^ k ∧
      2 ^ k ≤ 2 ^ m := by
    have hzero : (getNextPowerOf2 (UInt32.ofNat 0)).toNat = 0 := by decide
    simp only [possibleCapacity, hwish, q, hzero, Nat.not_lt_zero, if_false]
    split_ifs with hgt
    · exact ⟨m, hm, rfl, le_rfl⟩
    · exact ⟨j, hj, rfl, Nat.not_lt.mp hgt⟩
  have hcreate : create capacity maxCapacity = q.reallocate (2 ^ k) := by
    simp only [create, Queue.configureMaxCapacity, configureMaxCapacityWith, hmax, Nat.not_lt_zero,
      if_false]
    rw [Queue.configureCapacity, hpossible, if_pos (Nat.two_pow_pos k).ne']
  rw [hcreate]
  exact
    { contents := rfl
      count := rfl
      putIndex := by simp [Queue.reallocate, q]
      getIndex := Nat.two_pow_pos k
      fits := (Nat.two_pow_pos k).le
      capacity := ⟨k, rfl⟩
      allowed := ⟨k, hk, rfl⟩
      maxCapacity := ⟨m, hm, rfl⟩
      indexMask := rfl
      le := hle }

theorem Holds.grow (h : q.Holds xs) (hfull : q.count = q.capacity)
    (hmax : q.capacity < q.maxCapacity) :
    ∃ k ≤ 16, q.configureCapacity (q.capacity * 2) = q.reallocate (2 ^ k) ∧
      2 ^ k ≤ q.maxCapacity ∧ xs.length < 2 ^ k := by
  obtain ⟨k, hk, hcapacity⟩ := h.allowed
  obtain ⟨m, hm, hmaxCapacity⟩ := h.maxCapacity
  have hlt : k + 1 ≤ m := by
    rw [hcapacity, hmaxCapacity] at hmax
    exact (Nat.pow_lt_pow_iff_right (by omega)).mp hmax
  have hle : 2 ^ (k + 1) ≤ 2 ^ m := Nat.pow_le_pow_right Nat.two_pos hlt
  have hpos := Nat.two_pow_pos k
  have hpow : 2 ^ (k + 1) = 2 ^ k * 2 := pow_succ 2 k
  have hpossible : q.possibleCapacity (q.capacity * 2) = 2 ^ (k + 1) := by
    rw [possibleCapacity, hfull, hcapacity, ← hpow, validateCapacity_two_pow (hlt.trans hm),
      getNextPowerOf2_two_pow hk, hmaxCapacity]
    have hmin : ¬2 ^ (k + 1) > 2 ^ m := Nat.not_lt.mpr hle
    have hcount : ¬2 ^ (k + 1) < 2 ^ k := by omega
    simp only [hmin, hcount, if_false]
  refine ⟨k + 1, hlt.trans hm, ?_, hmaxCapacity ▸ hle, ?_⟩
  · rw [configureCapacity, hpossible, if_pos (by omega)]
  · rw [← h.count]
    omega

theorem Holds.store (h : q.Holds xs) (hspace : xs.length < q.capacity) (x : α) :
    (q.append x).Holds (xs ++ [x]) :=
  ⟨h.toRing.store hspace x, h.allowed, h.maxCapacity, h.le⟩

theorem Holds.put (h : q.Holds xs) (x : α) :
    if xs.length < q.maxCapacity then
      ∃ q', q.put x = (true, q') ∧ q'.Holds (xs ++ [x]) ∧ q'.maxCapacity = q.maxCapacity
    else q.put x = (false, q) := by
  have hfits := h.fits
  have hle := h.le
  have hcount := h.count
  by_cases hfull : q.count = q.capacity
  · by_cases hmax : q.capacity < q.maxCapacity
    · obtain ⟨k, hk, hgrow, hpow, hspace⟩ := h.grow hfull hmax
      have hholds := h.reallocate hk hpow hspace.le
      have hne : ¬(q.reallocate (2 ^ k)).count = (q.reallocate (2 ^ k)).capacity := by
        have hcapacity : (q.reallocate (2 ^ k)).capacity = 2 ^ k := rfl
        rw [hholds.count]
        omega
      rw [if_pos (by omega)]
      refine ⟨_, ?_, hholds.store hspace x, rfl⟩
      simp only [Queue.put, putWith, configureCapacityWith, hfull, hmax, and_self, if_true, hgrow]
      rw [if_neg hne]
    · rw [if_neg (by omega)]
      simp [Queue.put, putWith, hfull, hmax]
  · rw [if_pos (by omega)]
    refine ⟨_, ?_, h.store (by omega) x, rfl⟩
    simp [Queue.put, putWith, hfull]

theorem Holds.unique {ys : List α} (h : q.Holds xs) (h' : q.Holds ys) : xs = ys :=
  h.toRing.unique h'.toRing

theorem Holds.get_nil (h : q.Holds []) : q.get = (none, q) := h.toRing.get_nil

theorem Holds.get_cons {x : α} (h : q.Holds (x :: xs)) :
    ∃ q', q.get = (some x, q') ∧ q'.Holds xs ∧ q'.maxCapacity = q.maxCapacity := by
  obtain ⟨q', hget, hring, hcapacity, hmax⟩ := h.toRing.get_cons
  refine ⟨q', hget, ⟨hring, ?_, ?_, ?_⟩, hmax⟩
  · rw [hcapacity]
    exact h.allowed
  · rw [hmax]
    exact h.maxCapacity
  · rw [hcapacity, hmax]
    exact h.le

end Queue

end CyberCache
