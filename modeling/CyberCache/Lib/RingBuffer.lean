import Mathlib

/-!
# Ring buffers

A ring buffer keeps its elements in consecutive cells, around the end of the buffer if need be.
`ringSlice` is the list of these elements; storing behind the last one and taking the first one away
are what they are for a list.
-/

variable {α : Type*}

/-- `n` cells from `start` on. -/
def ringSlice (buffer : Nat → α) (capacity start n : Nat) : List α :=
  (List.range n).map fun k => buffer ((start + k) % capacity)

variable {buffer : Nat → α} {capacity start n : Nat}

@[simp]
theorem add_mod_ne {i j : Nat} (hi : i < j) (hj : j < capacity) :
    (start + i) % capacity ≠ (start + j) % capacity := by
  intro h
  have hmod : i % capacity = j % capacity := Nat.ModEq.add_left_cancel' start h
  rw [Nat.mod_eq_of_lt (hi.trans hj), Nat.mod_eq_of_lt hj] at hmod
  omega

theorem ringSlice_update (h : n < capacity) (x : α) :
    ringSlice (Function.update buffer ((start + n) % capacity) x) capacity start (n + 1) =
      ringSlice buffer capacity start n ++ [x] := by
  rw [ringSlice, List.range_succ, List.map_append, List.map_singleton, Function.update_self]
  refine congrArg (· ++ [x]) (List.map_congr_left fun k hk => ?_)
  exact Function.update_of_ne (add_mod_ne (List.mem_range.mp hk) h) _ _

theorem ringSlice_succ :
    ringSlice buffer capacity start (n + 1) =
      buffer (start % capacity) :: ringSlice buffer capacity ((start + 1) % capacity) n := by
  rw [ringSlice, List.range_succ_eq_map, List.map_cons, List.map_map, Nat.add_zero]
  refine congrArg (_ :: ·) (List.map_congr_left fun k _ => ?_)
  simp [← Nat.add_assoc, Nat.add_right_comm start 1 k]

theorem ringSlice_copy {buffer' : Nat → α} {capacity' : Nat} (hn : n ≤ capacity')
    (h : ∀ i < n, buffer' i = buffer ((start + i) % capacity)) :
    ringSlice buffer' capacity' 0 n = ringSlice buffer capacity start n := by
  refine List.map_congr_left fun k hk => ?_
  have hk : k < n := List.mem_range.mp hk
  rw [Nat.zero_add, Nat.mod_eq_of_lt (hk.trans_le hn), h k hk]
