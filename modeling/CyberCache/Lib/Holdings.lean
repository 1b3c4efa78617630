import Mathlib

/-!
# Sums over holders

Finitely many holders, each with its own amount. When the amount of one holder changes, the sum
changes by as much. Holders may belong to different domains, each of which has a sum of its own.
-/

variable {ι δ : Type*} [Fintype ι] [DecidableEq δ]

/-- What the holders of a domain have together. -/
def holdings (domain : ι → δ) (amount : ι → Nat) (d : δ) : Nat :=
  ∑ i, if domain i = d then amount i else 0

theorem amount_le_holdings (domain : ι → δ) (amount : ι → Nat) (i : ι) :
    amount i ≤ holdings domain amount (domain i) := by
  have hle := Finset.single_le_sum
    (f := fun j => if domain j = domain i then amount j else 0) (fun _ _ => Nat.zero_le _)
    (Finset.mem_univ i)
  simpa [holdings] using hle

theorem holdings_update [DecidableEq ι] (domain : ι → δ) (amount : ι → Nat) (i : ι) (n : Nat)
    (d : δ) :
    holdings domain (Function.update amount i n) d + (if domain i = d then amount i else 0) =
      holdings domain amount d + if domain i = d then n else 0 := by
  have hothers : ∑ j ∈ Finset.univ.erase i,
    (if domain j = d then Function.update amount i n j else 0) =
      ∑ j ∈ Finset.univ.erase i, if domain j = d then amount j else 0 := by
    refine Finset.sum_congr rfl fun j hj => ?_
    rw [Function.update_of_ne (Finset.ne_of_mem_erase hj)]
  have hnew := Finset.add_sum_erase Finset.univ
    (fun j => if domain j = d then Function.update amount i n j else 0) (Finset.mem_univ i)
  have hold := Finset.add_sum_erase Finset.univ
    (fun j => if domain j = d then amount j else 0) (Finset.mem_univ i)
  simp only [Function.update_self] at hnew
  rw [holdings, holdings, ← hnew, ← hold, hothers]
  omega
