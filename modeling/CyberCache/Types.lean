import CyberCache.Lib.BitSmear

/-!
# Machine types

`c3_uint_t` is a 32-bit unsigned number, kept as a natural number below `uintRange`; sums and
differences wrap around. So do those of `c3_ulong_t`, which has 64 bits. `c3_hash_t` has 64 bits.
-/

namespace CyberCache

/-- A `c3_uint_t` has 32 bits. -/
def uintRange : Nat := 2 ^ 32

def uintMax : Nat := uintRange - 1

def uintAdd (a b : Nat) : Nat := (a + b) % uintRange

def uintSub (a b : Nat) : Nat := (a + uintRange - b) % uintRange

theorem uintAdd_eq {a b : Nat} (h : a + b < uintRange) : uintAdd a b = a + b :=
  Nat.mod_eq_of_lt h

theorem uintSub_eq {a b : Nat} (ha : a < uintRange) (h : b ≤ a) : uintSub a b = a - b := by
  have hsum : a + uintRange - b = a - b + uintRange := by omega
  rw [uintSub, hsum, Nat.add_mod_right, Nat.mod_eq_of_lt (by omega)]

theorem uintSub_of_lt {a b : Nat} (hb : b ≤ uintRange) (h : a < b) :
    uintSub a b = a + uintRange - b :=
  Nat.mod_eq_of_lt (by omega)

theorem uintAdd_mod (a b : Nat) : uintAdd (a % uintRange) b = (a + b) % uintRange :=
  Nat.mod_add_mod a uintRange b

theorem uintSub_mod {a b : Nat} (h : b ≤ uintRange) :
    uintSub ((a + b) % uintRange) b = a % uintRange := by
  rw [uintSub, Nat.add_sub_assoc h, Nat.mod_add_mod, add_assoc, Nat.add_sub_cancel' h,
    Nat.add_mod_right]

theorem uintSub_lt (a b : Nat) : uintSub a b < uintRange :=
  Nat.mod_lt _ (Nat.two_pow_pos 32)

def ulongRange : Nat := 2 ^ 64

def ulongAdd (a b : Nat) : Nat := (a + b) % ulongRange

def ulongSub (a b : Nat) : Nat := (a + ulongRange - b) % ulongRange

theorem ulongSub_eq {a b : Nat} (ha : a < ulongRange) (h : b ≤ a) : ulongSub a b = a - b := by
  have hsum : a + ulongRange - b = a - b + ulongRange := by omega
  rw [ulongSub, hsum, Nat.add_mod_right, Nat.mod_eq_of_lt (by omega)]

def getNextPowerOf2 (num : UInt32) : UInt32 :=
  let num := num - 1
  let num := num ||| (num >>> 1)
  let num := num ||| (num >>> 2)
  let num := num ||| (num >>> 4)
  let num := num ||| (num >>> 8)
  let num := num ||| (num >>> 16)
  num + 1

theorem toNat_getNextPowerOf2 {num : UInt32} (hpos : num ≠ 0) (hle : num.toNat ≤ 2 ^ 31) :
    (getNextPowerOf2 num).toNat = 2 ^ (num.toNat - 1).size := by
  have hnat : num.toNat ≠ 0 := fun hzero => hpos (UInt32.toNat_inj.mp hzero)
  have hone : (1 : UInt32) ≤ num := UInt32.le_iff_toNat_le.mpr (Nat.one_le_iff_ne_zero.mpr hnat)
  have hpred : (num - 1).toNat = num.toNat - 1 := UInt32.toNat_sub_of_le _ _ hone
  have hlt : num.toNat - 1 < 2 ^ 32 := by omega
  have hsmears := (Smears.refl (num.toNat - 1)).double.double.double.double.double
  have hfilled := hsmears.eq_two_pow_size hlt
  have hsize : (num.toNat - 1).size ≤ 31 := Nat.size_le.mpr (by omega)
  have hpow : 2 ^ (num.toNat - 1).size ≤ 2 ^ 31 := Nat.pow_le_pow_right Nat.two_pos hsize
  have hpowpos := Nat.two_pow_pos (num.toNat - 1).size
  simp only [getNextPowerOf2, UInt32.toNat_add, UInt32.toNat_or, UInt32.toNat_shiftRight, hpred]
  simp only [UInt32.reduceToNat, Nat.reduceMod] at hfilled ⊢
  rw [hfilled, Nat.sub_add_cancel hpowpos]
  omega

def invalidHashValue : UInt64 := 0

end CyberCache
