import Mathlib

/-!
# How many places satisfy a predicate

A finite family of states, one for each thread or guard, changes one place at a time. The number of
places that satisfy a predicate then changes by what the one place loses and gains.
-/

variable {ι α : Type*} [Fintype ι] (p : α → Prop) [DecidablePred p]

def countOf (f : ι → α) : Nat := (Finset.univ.filter fun i => p (f i)).card

variable {p} {f : ι → α}

theorem countOf_pos {i : ι} (h : p (f i)) : 0 < countOf p f :=
  Finset.card_pos.mpr ⟨i, by simpa using h⟩

theorem countOf_eq_zero_iff : countOf p f = 0 ↔ ∀ i, ¬ p (f i) := by
  simp [countOf, Finset.filter_eq_empty_iff]

theorem countOf_eq_one_iff : countOf p f = 1 ↔ ∃! i, p (f i) := by
  simp only [countOf, Finset.card_eq_one, Finset.ext_iff, Finset.mem_filter, Finset.mem_univ,
    true_and, Finset.mem_singleton, ExistsUnique]
  constructor
  · rintro ⟨i, hi⟩
    exact ⟨i, (hi i).mpr rfl, fun j hj => (hi j).mp hj⟩
  · rintro ⟨i, hi, hall⟩
    exact ⟨i, fun j => ⟨hall j, fun hj => hj ▸ hi⟩⟩

variable [DecidableEq ι]

theorem countOf_update (i : ι) (x : α) :
    countOf p (Function.update f i x) + (if p (f i) then 1 else 0) =
      countOf p f + if p x then 1 else 0 := by
  have hcount (g : ι → α) : countOf p g =
      (if p (g i) then 1 else 0) + ∑ j ∈ Finset.univ.erase i, if p (g j) then 1 else 0 := by
    rw [countOf, Finset.card_filter, ← Finset.add_sum_erase _ _ (Finset.mem_univ i)]
  have hrest : ∑ j ∈ Finset.univ.erase i, (if p (Function.update f i x j) then 1 else 0) =
      ∑ j ∈ Finset.univ.erase i, if p (f j) then 1 else 0 :=
    Finset.sum_congr rfl fun j hj => by
      rw [Function.update_of_ne (Finset.ne_of_mem_erase hj)]
  rw [hcount, hcount f, hrest, Function.update_self]
  omega
