import Mathlib

/-!
# Byte memories and little-endian numbers

A memory block is a total function from offsets to bytes; how many of its offsets are allocated is
kept by whoever owns the block. The two ways of filling a block that matter for incremental I/O are
here, writing a list of bytes at an offset and writing the continuation of such a list, together
with the little-endian reading and writing of fixed-width numbers.
-/

/-- A block of memory, whatever its size: the byte stored at each offset. -/
abbrev ByteMemory := Nat → UInt8

namespace ByteMemory

variable {pos i k n p : Nat} {m m' : ByteMemory} {xs : List UInt8}

def write (m : ByteMemory) (pos : Nat) (bytes : List UInt8) : ByteMemory :=
  fun i => if pos ≤ i then (bytes[i - pos]?).getD (m i) else m i

def slice (m : ByteMemory) (pos n : Nat) : List UInt8 :=
  (List.range n).map fun i => m (pos + i)

def ofList (bytes : List UInt8) : ByteMemory :=
  write (fun _ => 0) 0 bytes

/-- Two blocks that agree on every offset below `n`. -/
def AgreeBelow (n : Nat) (m m' : ByteMemory) : Prop :=
  ∀ i, i < n → m i = m' i

/-! ## Writing -/

theorem write_of_lt (m : ByteMemory) (bytes : List UInt8) (h : i < pos) :
    m.write pos bytes i = m i := by
  simp [write, Nat.not_le.mpr h]

theorem write_of_ge (m : ByteMemory) (bytes : List UInt8)
    (h : pos + bytes.length ≤ i) : m.write pos bytes i = m i := by
  have hout : bytes.length ≤ i - pos := by omega
  simp [write, List.getElem?_eq_none hout]

theorem write_add (m : ByteMemory) (pos : Nat) (bytes : List UInt8)
    (h : k < bytes.length) : m.write pos bytes (pos + k) = bytes[k] := by
  simp [write, h]

theorem write_append (m : ByteMemory) (pos : Nat) (xs ys : List UInt8) :
    (m.write pos xs).write (pos + xs.length) ys = m.write pos (xs ++ ys) := by
  funext i
  by_cases hpos : pos ≤ i
  · by_cases hxs : i < pos + xs.length
    · rw [write_of_lt _ _ hxs]
      have hk : i - pos < xs.length := by omega
      simp [write, hpos, List.getElem?_append_left hk]
    · have hk : xs.length ≤ i - pos := by omega
      have hge : pos + xs.length ≤ i := by omega
      simp [write, hpos, hge, List.getElem?_append_right hk, List.getElem?_eq_none hk,
        Nat.sub_sub]
  · have hlt : i < pos := by omega
    rw [write_of_lt _ _ (by omega), write_of_lt _ _ hlt, write_of_lt _ _ hlt]

theorem ofList_append (xs ys : List UInt8) :
    ofList (xs ++ ys) = (ofList xs).write xs.length ys := by
  rw [ofList, ofList, ← write_append, Nat.zero_add]

theorem ofList_of_lt {bytes : List UInt8} (h : i < bytes.length) :
    ofList bytes i = bytes[i] := by
  simpa [ofList] using write_add (fun _ => 0) 0 bytes h

/-! ## Reading back -/

@[simp]
theorem length_slice (m : ByteMemory) (pos n : Nat) : (m.slice pos n).length = n := by
  simp [slice]

@[simp]
theorem getElem_slice (m : ByteMemory) (pos n : Nat) (h : i < (m.slice pos n).length) :
    (m.slice pos n)[i] = m (pos + i) := by
  simp [slice]

theorem slice_congr
    (h : ∀ i, pos ≤ i → i < pos + n → m i = m' i) : m.slice pos n = m'.slice pos n := by
  apply List.map_congr_left
  intro i hi
  have : i < n := List.mem_range.mp hi
  exact h _ (by omega) (by omega)

@[simp]
theorem slice_write_self (m : ByteMemory) (pos : Nat) (bytes : List UInt8) :
    (m.write pos bytes).slice pos bytes.length = bytes := by
  apply List.ext_getElem
  · simp
  · intro i h₁ h₂
    simp [slice, write_add, h₂]

theorem slice_succ (m : ByteMemory) (pos n : Nat) :
    m.slice pos (n + 1) = m pos :: m.slice (pos + 1) n := by
  simp [slice, List.range_succ_eq_map, Nat.add_left_comm, Nat.add_comm]

theorem slice_add (m : ByteMemory) (pos n k : Nat) :
    m.slice pos (n + k) = m.slice pos n ++ m.slice (pos + n) k := by
  simp [slice, List.range_add, Nat.add_assoc]

theorem drop_slice (m : ByteMemory) (pos n k : Nat) :
    (m.slice pos n).drop k = m.slice (pos + k) (n - k) := by
  by_cases h : k ≤ n
  · obtain ⟨j, rfl⟩ := Nat.exists_eq_add_of_le h
    rw [slice_add, List.drop_left' (by simp), Nat.add_sub_cancel_left]
  · rw [List.drop_eq_nil_of_le (by simp; omega), Nat.sub_eq_zero_of_le (by omega)]
    rfl

theorem slice_write_of_lt (m : ByteMemory) (bytes : List UInt8)
    (h : p + n ≤ pos) : (m.write pos bytes).slice p n = m.slice p n :=
  slice_congr fun _ _ hi => write_of_lt m bytes (by omega)

/-- The part of a written list that lies at offsets `p` to `p + n` is read back from there. -/
theorem slice_write_append (m : ByteMemory) (pos : Nat) (xs ys zs : List UInt8) :
    (m.write pos (xs ++ ys ++ zs)).slice (pos + xs.length) ys.length = ys := by
  apply List.ext_getElem
  · simp
  · intro i h₁ h₂
    have hi : xs.length + i < (xs ++ ys ++ zs).length := by simp; omega
    have hget : (xs ++ ys ++ zs)[xs.length + i] = ys[i] := by
      simp [List.getElem_append_right, List.getElem_append_left, h₂]
    simp only [slice, List.getElem_map, List.getElem_range, Nat.add_assoc]
    rw [write_add _ _ _ hi, hget]

theorem AgreeBelow.refl (n : Nat) (m : ByteMemory) : AgreeBelow n m m :=
  fun _ _ => rfl

theorem AgreeBelow.symm (h : AgreeBelow n m m') :
    AgreeBelow n m' m :=
  fun i hi => (h i hi).symm

theorem AgreeBelow.trans {m'' : ByteMemory} (h : AgreeBelow n m m')
    (h' : AgreeBelow n m' m'') : AgreeBelow n m m'' :=
  fun i hi => (h i hi).trans (h' i hi)

theorem AgreeBelow.mono (h : AgreeBelow n m m') (hk : k ≤ n) :
    AgreeBelow k m m' :=
  fun i hi => h i (by omega)

theorem AgreeBelow.slice_eq (h : AgreeBelow n m m') (hk : p + k ≤ n) : m.slice p k = m'.slice p k :=
  slice_congr fun i _ hi => h i (by omega)

theorem AgreeBelow.write (h : AgreeBelow n m m') (bytes : List UInt8) :
    AgreeBelow (n + bytes.length) (m.write n bytes) (m'.write n bytes) := by
  intro i hi
  by_cases hn : i < n
  · rw [write_of_lt _ _ hn, write_of_lt _ _ hn, h i hn]
  · obtain ⟨k, rfl⟩ := Nat.exists_eq_add_of_le (Nat.le_of_not_lt hn)
    rw [write_add _ _ _ (by omega), write_add _ _ _ (by omega)]

theorem agreeBelow_ofList_append (xs ys : List UInt8) :
    AgreeBelow xs.length (ofList xs) (ofList (xs ++ ys)) := by
  intro i hi
  rw [ofList_append, write_of_lt _ _ hi]

theorem AgreeBelow.write_ofList (h : AgreeBelow xs.length m (ofList xs)) (ys : List UInt8) :
    AgreeBelow (xs ++ ys).length (m.write xs.length ys) (ofList (xs ++ ys)) := by
  rw [ofList_append, List.length_append]
  exact h.write ys

theorem AgreeBelow.write_take
    (h : AgreeBelow n m (ofList xs)) (hn : n ≤ xs.length) : m.write 0 (xs.take n) = m := by
  funext i
  by_cases hi : i < n
  · have hlt : i < xs.length := by omega
    simp [ByteMemory.write, hi, hlt, h i hi, ofList]
  · exact write_of_ge _ _ (by rw [List.length_take]; omega)

/-! ## Unknown bytes -/

def fill (m : ByteMemory) (n : Nat) (b : UInt8) : ByteMemory :=
  fun i => if i < n then m i else b

theorem agreeBelow_fill (m : ByteMemory) (n : Nat) (b : UInt8) : AgreeBelow n m (m.fill n b) :=
  fun i hi => by simp [fill, hi]

def change (m : ByteMemory) (k : Nat) : ByteMemory :=
  fun i => if i = k then m i + 1 else m i

theorem change_of_ne (m : ByteMemory) (h : i ≠ k) : m.change k i = m i := by
  simp [change, h]

theorem slice_change_ne (m : ByteMemory) (hpos : pos ≤ k) (hk : k < pos + n) :
    (m.change k).slice pos n ≠ m.slice pos n := by
  intro h
  have hget := congrArg (·[k - pos]?) h
  have hlt : k - pos < n := by omega
  have hend : pos + (k - pos) = k := by omega
  simp [slice, hlt, hend, change] at hget

theorem slice_fill_ne (m : ByteMemory) {b b' : UInt8} (hb : b ≠ b') (hpos : pos ≤ n)
    (hk : n < pos + k) : (m.fill n b).slice pos k ≠ (m.fill n b').slice pos k := by
  intro h
  have hget := congrArg (·[n - pos]?) h
  have hlt : n - pos < k := by omega
  have hend : pos + (n - pos) = n := by omega
  simp [slice, hlt, hend, fill] at hget
  exact hb hget

/-! ## Little-endian numbers -/

/-- The number whose little-endian digits in base 256 are the given bytes. -/
def ofBytesLE : List UInt8 → Nat
  | [] => 0
  | b :: bs => b.toNat + 256 * ofBytesLE bs

/-- The `n` lowest bytes of `v`, the lowest first. -/
def toBytesLE : Nat → Nat → List UInt8
  | 0, _ => []
  | n + 1, v => UInt8.ofNat v :: toBytesLE n (v / 256)

/-- The little-endian number in the `n` bytes of `m` from offset `pos` on. -/
def readLE (m : ByteMemory) (pos n : Nat) : Nat :=
  ofBytesLE (m.slice pos n)

@[simp]
theorem length_toBytesLE (n v : Nat) : (toBytesLE n v).length = n := by
  induction n generalizing v with
  | zero => rfl
  | succ n ih => simp [toBytesLE, ih]

theorem ofBytesLE_lt (bytes : List UInt8) : ofBytesLE bytes < 256 ^ bytes.length := by
  induction bytes with
  | nil => simp [ofBytesLE]
  | cons b bs ih =>
    have hb : b.toNat < 256 := b.toNat_lt
    simp only [ofBytesLE, List.length_cons, Nat.pow_succ]
    omega

theorem ofBytesLE_toBytesLE {v : Nat} (h : v < 256 ^ n) : ofBytesLE (toBytesLE n v) = v := by
  induction n generalizing v with
  | zero => simp [toBytesLE, ofBytesLE] at *; omega
  | succ n ih =>
    have hdiv : v / 256 < 256 ^ n := by
      rw [Nat.pow_succ, Nat.mul_comm] at h
      exact Nat.div_lt_of_lt_mul h
    simp only [toBytesLE, ofBytesLE, ih hdiv, UInt8.toNat_ofNat']
    omega

theorem ofBytesLE_inj {ys : List UInt8} (hlength : xs.length = ys.length)
    (h : ofBytesLE xs = ofBytesLE ys) : xs = ys := by
  induction xs generalizing ys with
  | nil => exact (List.length_eq_zero_iff.mp hlength.symm).symm
  | cons x xs ih =>
    cases ys with
    | nil => simp at hlength
    | cons y ys =>
      have hx : x.toNat < 256 := x.toNat_lt
      have hy : y.toNat < 256 := y.toNat_lt
      simp only [ofBytesLE] at h
      rw [UInt8.toNat_inj.mp (by omega : x.toNat = y.toNat),
        ih (by simpa using hlength) (by omega)]

theorem readLE_fill_ne (m : ByteMemory) {b b' : UInt8} (hb : b ≠ b')
    (hpos : pos ≤ n) (hk : n < pos + k) : (m.fill n b).readLE pos k ≠ (m.fill n b').readLE pos k :=
  fun h => slice_fill_ne m hb hpos hk (ofBytesLE_inj (by simp) h)

theorem readLE_change_ne (m : ByteMemory) (hpos : pos ≤ k) (hk : k < pos + n) :
    (m.change k).readLE pos n ≠ m.readLE pos n :=
  fun h => slice_change_ne m hpos hk (ofBytesLE_inj (by simp) h)

theorem readLE_lt (m : ByteMemory) (pos n : Nat) : m.readLE pos n < 256 ^ n := by
  simpa [readLE] using ofBytesLE_lt (m.slice pos n)

theorem AgreeBelow.readLE_eq (h : AgreeBelow n m m')
    (hk : p + k ≤ n) : m.readLE p k = m'.readLE p k := by
  rw [readLE, readLE, h.slice_eq hk]

end ByteMemory
