import CyberCache.Wire.Chunks

/-!
# Chunks that end behind the header

The chunk iterator trusts the lengths and counts in the header. As long as they do not lead it past
the end of the header, what it yields is determined by the bytes of the header; as soon as they do,
it is not.
-/

namespace CyberCache

open ByteMemory

namespace HeaderChunkIterator

variable {size n : Nat} {m m' : ByteMemory} {it it' : HeaderChunkIterator}

/-- Iterators at the same place of two blocks that hold the same header of `size` bytes. -/
structure Same (size : Nat) (m m' : ByteMemory) (it it' : HeaderChunkIterator) : Prop where
  left : it.m = m
  right : it'.m = m'
  header : AgreeBelow size m m'
  offset : it'.offset = it.offset
  remains : it'.remains = it.remains
  inBounds : it'.inBounds = it.inBounds
  within : it.inBounds → it.offset + it.remains = size

theorem inBounds_skip : (it.skip n).inBounds = true ↔ it.inBounds = true ∧ n ≤ it.remains := by
  simp [skip]

theorem skip_within (hsize : size < uintRange) (hin : (it.skip n).inBounds)
    (h : it.inBounds → it.offset + it.remains = size) :
    (it.skip n).offset = it.offset + n ∧ (it.skip n).offset + (it.skip n).remains = size := by
  obtain ⟨hin, hle⟩ := inBounds_skip.mp hin
  have hend := h hin
  simp only [skip]
  rw [uintAdd_eq (by omega), uintSub_eq (by omega) hle]
  omega

namespace Same

theorem agree (h : Same size m m' it it') : AgreeBelow size it.m it'.m := by
  rw [h.left, h.right]
  exact h.header

theorem skip (h : Same size m m' it it') (hsize : size < uintRange) (n : Nat) :
    Same size m m' (it.skip n) (it'.skip n) where
  offset := by simp only [HeaderChunkIterator.skip, h.offset]
  remains := by simp only [HeaderChunkIterator.skip, h.remains]
  inBounds := by simp only [HeaderChunkIterator.skip, h.remains, h.inBounds]
  left := h.left
  right := h.right
  header := h.header
  within hin := (skip_within hsize hin h.within).2

theorem head_eq (h : Same size m m' it it') (hin : it.inBounds) (hpos : 0 < it.remains) :
    it'.m it'.offset = it.m it.offset := by
  have := h.within hin
  rw [h.offset, h.agree it.offset (by omega)]

end Same

theorem first_byte_cases : ∀ c : Fin 256,
    (∃ t : Fin 3, ∃ n : Fin 64, UInt8.ofNat c = UInt8.ofNat (64 * t) ||| UInt8.ofNat n) ∨
      ∃ s n : Fin 8, UInt8.ofNat c = chnkSubtype ||| UInt8.ofNat (8 * s) ||| UInt8.ofNat n := by
  decide +kernel

/-- What `get_next_chunk()` finds depends on the first byte and, for some subtypes, on the bytes
that follow it. -/
theorem getNextChunk_shape (c : UInt8) :
    (∃ t n, n < chnkLargeBias ∧ ∀ it : HeaderChunkIterator, 0 < it.remains → it.m it.offset = c →
      it.getNextChunk = it.mediumChunk n t) ∨
    ∃ s n, n < 8 ∧ ∀ it : HeaderChunkIterator, 0 < it.remains → it.m it.offset = c →
      it.getNextChunk = it.subtypeChunk n s := by
  have hc : UInt8.ofNat c.toNat = c := UInt8.ofNat_toNat
  obtain ⟨t, n, h⟩ | ⟨s, n, h⟩ := first_byte_cases ⟨c.toNat, c.toNat_lt⟩
  · have hn : n + chnkMediumBias < chnkLargeBias := by
      simp only [chnkMediumBias, chnkLargeBias]
      omega
    refine .inl ⟨t, n + chnkMediumBias, hn, fun it hremains hit => ?_⟩
    refine getNextChunk_medium hremains t ⟨by omega, hn⟩ ?_
    rw [hit, Nat.add_sub_cancel, ← hc]
    exact h
  · refine .inr ⟨s, n, n.isLt, fun it hremains hit => getNextChunk_subtype hremains s n.isLt ?_⟩
    rw [hit, ← hc]
    exact h

/-! ## Chunks within the header -/

theorem inBounds_getCount {c : UInt8} (h : (it.getCount c).2.inBounds) : it.inBounds := by
  unfold getCount at h
  dsimp only at h
  split_ifs at h
  · exact (inBounds_skip.mp h).1
  · exact h

/-- A string that was found lies within the header. -/
def ChunkData.Within (size : Nat) : ChunkData → Prop
  | .string offset length => offset + length ≤ size
  | _ => True

theorem Same.getCount (h : Same size m m' it it') (hsize : size < uintRange) (c : UInt8)
    (hin : (it.getCount c).2.inBounds) :
    (it'.getCount c).1 = (it.getCount c).1 ∧ Same size m m' (it.getCount c).2
    (it'.getCount c).2 := by
  unfold HeaderChunkIterator.getCount at hin ⊢
  dsimp only at hin ⊢
  split_ifs at hin ⊢ with hk
  · obtain ⟨hin', hle⟩ := inBounds_skip.mp hin
    have hend := h.within hin'
    refine ⟨?_, h.skip hsize _⟩
    rw [h.offset, uintAdd_eq (by omega)]
    exact (h.agree.readLE_eq (by omega)).symm
  · exact ⟨rfl, h⟩

theorem Same.mediumChunk (h : Same size m m' it it') (hsize : size < uintRange) (n : Nat)
    (t : Fin 3) (hin : (it.mediumChunk n t).2.inBounds) :
    (it'.mediumChunk n t).1 = (it.mediumChunk n t).1 ∧
      Same size m m' (it.mediumChunk n t).2 (it'.mediumChunk n t).2 ∧
      ChunkData.Within size (it.mediumChunk n t).1 := by
  match t with
  | 0 | 2 => exact ⟨rfl, h.skip hsize 1, trivial⟩
  | 1 =>
    simp only [HeaderChunkIterator.mediumChunk] at hin ⊢
    obtain ⟨hin', hle⟩ := inBounds_skip.mp hin
    have hend := h.within hin'
    refine ⟨by rw [h.offset], h.skip hsize _, ?_⟩
    simp only [ChunkData.Within]
    rw [uintAdd_eq (by omega)]
    omega

theorem Same.subtypeChunk (h : Same size m m' it it') (hsize : size < uintRange)
    (hhead : it'.m it'.offset = it.m it.offset) (n : Nat) (s : Fin 8)
    (hin : (it.subtypeChunk n s).2.inBounds) :
    (it'.subtypeChunk n s).1 = (it.subtypeChunk n s).1 ∧
      Same size m m' (it.subtypeChunk n s).2 (it'.subtypeChunk n s).2 ∧
      ChunkData.Within size (it.subtypeChunk n s).1 := by
  match s with
  | 0 | 2 | 4 => exact ⟨rfl, h.skip hsize 1, trivial⟩
  | 1 | 5 | 7 =>
    simp only [HeaderChunkIterator.subtypeChunk, hhead] at hin ⊢
    obtain ⟨hcount, hsame⟩ := h.getCount hsize _ hin
    exact ⟨by rw [hcount], hsame, trivial⟩
  | 3 =>
    simp only [HeaderChunkIterator.subtypeChunk] at hin ⊢
    obtain ⟨hin', hle⟩ := inBounds_skip.mp hin
    have hend := h.within hin'
    refine ⟨by rw [h.offset], h.skip hsize _, ?_⟩
    simp only [ChunkData.Within]
    rw [uintAdd_eq (by omega)]
    omega
  | 6 =>
    simp only [HeaderChunkIterator.subtypeChunk, hhead] at hin ⊢
    obtain ⟨hin', hle⟩ := inBounds_skip.mp hin
    obtain ⟨hcount, hsame⟩ := h.getCount hsize _ hin'
    have hend := hsame.within hin'
    refine ⟨by rw [hcount, hsame.offset], by rw [hcount]; exact hsame.skip hsize _, ?_⟩
    simp only [ChunkData.Within]
    omega

theorem inBounds_mediumChunk {t : Fin 3} (h : (it.mediumChunk n t).2.inBounds) : it.inBounds := by
  match t with
  | 0 | 1 | 2 => exact (inBounds_skip.mp h).1

theorem inBounds_subtypeChunk {s : Fin 8} (h : (it.subtypeChunk n s).2.inBounds) :
    it.inBounds := by
  match s with
  | 0 | 2 | 3 | 4 => exact (inBounds_skip.mp h).1
  | 1 | 5 | 7 => exact inBounds_getCount h
  | 6 => exact inBounds_getCount (inBounds_skip.mp h).1

theorem inBounds_getNextChunk (h : it.getNextChunk.2.inBounds) : it.inBounds := by
  by_cases hpos : 0 < it.remains
  · obtain ⟨t, n, -, hshape⟩ | ⟨s, n, -, hshape⟩ := getNextChunk_shape (it.m it.offset)
    · rw [hshape it hpos rfl] at h
      exact inBounds_mediumChunk h
    · rw [hshape it hpos rfl] at h
      exact inBounds_subtypeChunk h
  · simpa [getNextChunk, hpos] using h

theorem Same.getNextChunk (h : Same size m m' it it') (hsize : size < uintRange)
    (hin : it.getNextChunk.2.inBounds) :
    it'.getNextChunk.1 = it.getNextChunk.1 ∧ Same size m m' it.getNextChunk.2 it'.getNextChunk.2 ∧
      ChunkData.Within size it.getNextChunk.1 := by
  by_cases hpos : 0 < it.remains
  · have hhead := h.head_eq (inBounds_getNextChunk hin) hpos
    have hpos' : 0 < it'.remains := by rw [h.remains]; exact hpos
    obtain ⟨t, n, -, hshape⟩ | ⟨s, n, -, hshape⟩ := getNextChunk_shape (it.m it.offset)
    · rw [hshape it hpos rfl] at hin ⊢
      rw [hshape it' hpos' hhead]
      exact h.mediumChunk hsize n t hin
    · rw [hshape it hpos rfl] at hin ⊢
      rw [hshape it' hpos' hhead]
      exact h.subtypeChunk hsize hhead n s hin
  · have hpos' : ¬0 < it'.remains := by rw [h.remains]; exact hpos
    simp only [HeaderChunkIterator.getNextChunk, hpos, hpos', if_false]
    exact ⟨trivial, h, trivial⟩

theorem inBounds_getLength {fuel length : Nat} (h : (it.getLength fuel length).2.inBounds) :
    it.inBounds := by
  induction fuel generalizing it length with
  | zero => exact h
  | succ fuel ih =>
    simp only [getLength] at h
    split_ifs at h
    · exact (inBounds_skip.mp (ih h)).1
    · exact (inBounds_skip.mp h).1

theorem Same.getLength (h : Same size m m' it it') (hsize : size < uintRange) {fuel length : Nat}
    (hin : (it.getLength fuel length).2.inBounds) :
    (it'.getLength fuel length).1 = (it.getLength fuel length).1 ∧
      Same size m m' (it.getLength fuel length).2 (it'.getLength fuel length).2 := by
  induction fuel generalizing it it' length with
  | zero => exact ⟨rfl, h⟩
  | succ fuel ih =>
    have hskip : (it.skip 1).inBounds := by
      simp only [HeaderChunkIterator.getLength] at hin
      split_ifs at hin
      · exact inBounds_getLength hin
      · exact hin
    obtain ⟨hin', hle⟩ := inBounds_skip.mp hskip
    have hhead := h.head_eq hin' hle
    simp only [HeaderChunkIterator.getLength, hhead] at hin ⊢
    split_ifs at hin ⊢
    · exact ih (h.skip hsize 1) hin
    · exact ⟨rfl, h.skip hsize 1⟩

theorem getListString_snd (it : HeaderChunkIterator) : it.getListString.2 =
    (it.getLength uintRange 0).2.skip (it.getLength uintRange 0).1 := rfl

theorem inBounds_getListString (h : it.getListString.2.inBounds) :
    (it.getLength uintRange 0).2.inBounds := by
  rw [getListString_snd, inBounds_skip] at h
  exact h.1

theorem Same.getListString (h : Same size m m' it it') (hsize : size < uintRange)
    (hin : it.getListString.2.inBounds) :
    it'.getListString.1 = it.getListString.1 ∧ Same size m m' it.getListString.2
    it'.getListString.2 := by
  rw [getListString_snd, inBounds_skip] at hin
  obtain ⟨hin', hle⟩ := hin
  obtain ⟨hlength, hsame⟩ := h.getLength hsize hin'
  have hend := hsame.within hin'
  rw [getListString_snd, getListString_snd, hlength]
  simp only [HeaderChunkIterator.getListString, hlength, hsame.offset]
  exact ⟨(hsame.agree.slice_eq (by omega)).symm, hsame.skip hsize _⟩

theorem inBounds_getListStrings {count : Nat} (h : (it.getListStrings count).2.inBounds) :
    it.inBounds := by
  induction count generalizing it with
  | zero => exact h
  | succ count ih => exact inBounds_getLength (inBounds_getListString (ih h))

theorem Same.getListStrings (h : Same size m m' it it') (hsize : size < uintRange) {count : Nat}
    (hin : (it.getListStrings count).2.inBounds) :
    (it'.getListStrings count).1 = (it.getListStrings count).1 ∧
      Same size m m' (it.getListStrings count).2 (it'.getListStrings count).2 := by
  induction count generalizing it it' with
  | zero => exact ⟨rfl, h⟩
  | succ count ih =>
    obtain ⟨hs, hsame⟩ := h.getListString hsize (inBounds_getListStrings hin)
    obtain ⟨hstrings, hsame'⟩ := ih hsame hin
    exact ⟨by simp only [HeaderChunkIterator.getListStrings, hs, hstrings], hsame'⟩

theorem inBounds_takeChunk (h : it.takeChunk.2.inBounds) : it.getNextChunk.2.inBounds := by
  unfold takeChunk at h
  split at h
  · simp_all
  · simp_all
  · simp_all
  · next hnext =>
    rw [hnext]
    exact inBounds_getListStrings h

theorem Same.takeChunk (h : Same size m m' it it') (hsize : size < uintRange)
    (hin : it.takeChunk.2.inBounds) :
    it'.takeChunk.1 = it.takeChunk.1 ∧ Same size m m' it.takeChunk.2 it'.takeChunk.2 := by
  obtain ⟨hdata, hsame, hwithin⟩ := h.getNextChunk hsize (inBounds_takeChunk hin)
  unfold HeaderChunkIterator.takeChunk at hin ⊢
  generalize it.getNextChunk = next at *
  generalize it'.getNextChunk = next' at *
  obtain ⟨data, jt⟩ := next
  obtain ⟨data', jt'⟩ := next'
  obtain rfl : data' = data := hdata
  cases data' with
  | none => exact ⟨rfl, hsame⟩
  | number n => exact ⟨rfl, hsame⟩
  | string offset length =>
    exact ⟨by simp only [(hsame.agree.slice_eq hwithin).symm], hsame⟩
  | list count =>
    obtain ⟨hstrings, hsame'⟩ := hsame.getListStrings hsize hin
    exact ⟨by simp only [hstrings], hsame'⟩

theorem inBounds_takeChunks (h : (it.takeChunks n).2.inBounds) : it.inBounds := by
  induction n generalizing it with
  | zero => exact h
  | succ n ih =>
    have hchunk : it.takeChunk.2.inBounds := by
      simp only [takeChunks] at h
      split at h
      · simp_all
      · next hchunk =>
        rw [hchunk]
        exact ih h
    exact inBounds_getNextChunk (inBounds_takeChunk hchunk)

theorem Same.takeChunks (h : Same size m m' it it') (hsize : size < uintRange)
    (hin : (it.takeChunks n).2.inBounds) : (it'.takeChunks n).1 = (it.takeChunks n).1 := by
  induction n generalizing it it' with
  | zero => rfl
  | succ n ih =>
    have hchunk : it.takeChunk.2.inBounds := by
      simp only [HeaderChunkIterator.takeChunks] at hin
      split at hin
      · simp_all
      · next hchunk =>
        rw [hchunk]
        exact inBounds_takeChunks hin
    obtain ⟨htake, hsame⟩ := h.takeChunk hsize hchunk
    simp only [HeaderChunkIterator.takeChunks] at hin ⊢
    generalize it.takeChunk = next at *
    generalize it'.takeChunk = next' at *
    obtain ⟨chunk, jt⟩ := next
    obtain ⟨chunk', jt'⟩ := next'
    obtain rfl : chunk' = chunk := htake
    cases chunk' with
    | none => rfl
    | some chunk => simp only [ih hsame hin]

/-! ## Chunks that leave the header -/

/-- An iterator that is still within its header, and two of what may follow the header. -/
structure Split (size : Nat) (m : ByteMemory) (it it₀ it₁ : HeaderChunkIterator) : Prop where
  zero : Same size m (m.fill size 0) it it₀
  one : Same size m (m.fill size 1) it it₁
  inBounds : it.inBounds

theorem slice_zero_ne_one {pos k : Nat} (hpos : pos ≤ size) (hk : size < pos + k) :
    (m.fill size 0).slice pos k ≠ (m.fill size 1).slice pos k :=
  slice_fill_ne m (by decide) hpos hk

theorem uintAdd_inj {a b k : Nat} (ha : a < uintRange) (hb : b < uintRange)
    (h : uintAdd a k = uintAdd b k) : a = b := by
  simp only [uintAdd, uintRange] at *
  omega

namespace Split

variable {it₀ it₁ : HeaderChunkIterator}

section

variable (h : Split size m it it₀ it₁)
include h

theorem getCount_ne (hsize : size < uintRange)
    (hpos : 0 < it.remains) {c : UInt8} (hout : ¬(it.getCount c).2.inBounds) :
    (it₀.getCount c).1 ≠ (it₁.getCount c).1 ∧ (it₀.getCount c).1 < uintRange ∧
      (it₁.getCount c).1 < uintRange := by
  have hend := h.zero.within h.inBounds
  unfold getCount at hout ⊢
  dsimp only at hout ⊢
  split_ifs at hout ⊢ with hk
  · rw [inBounds_skip] at hout
    have hlong : it.remains < (c &&& chnkShortMask).toNat + 2 := by
      by_contra hle
      exact hout ⟨h.inBounds, by omega⟩
    have hbound (m : ByteMemory) :
        m.readLE (it.offset + 1) ((c &&& chnkShortMask).toNat + 1) < uintRange := by
      refine Nat.lt_of_lt_of_le (m.readLE_lt _ _) ?_
      exact Nat.pow_le_pow_right (by omega) (by omega : (c &&& chnkShortMask).toNat + 1 ≤ 4)
    rw [h.zero.offset, h.one.offset, h.zero.right, h.one.right, uintAdd_eq (by omega)]
    exact ⟨readLE_fill_ne m (by decide) (by omega) (by omega), hbound _, hbound _⟩
  · exact absurd h.inBounds hout

theorem getLength (hsize : size < uintRange) {fuel length : Nat}
    (hfuel : it.remains < fuel) (hout : ¬(it.getLength fuel length).2.inBounds) :
    ∃ sum, (it₀.getLength fuel length).1 = uintAdd sum 0 ∧
      (it₁.getLength fuel length).1 = uintAdd sum 1 := by
  have hend := h.zero.within h.inBounds
  induction fuel generalizing it it₀ it₁ length with
  | zero => omega
  | succ fuel ih =>
    by_cases hpos : 0 < it.remains
    · have hhead₀ := h.zero.head_eq h.inBounds hpos
      have hhead₁ := h.one.head_eq h.inBounds hpos
      have hin : (it.skip 1).inBounds := inBounds_skip.mpr ⟨h.inBounds, hpos⟩
      simp only [HeaderChunkIterator.getLength, hhead₀, hhead₁] at hout ⊢
      split_ifs at hout ⊢
      · have hremains : (it.skip 1).remains = it.remains - 1 := by
          have := skip_within hsize hin h.zero.within
          omega
        exact ih ⟨h.zero.skip hsize 1, h.one.skip hsize 1, hin⟩ (by omega) hout
          (skip_within hsize hin h.zero.within).2
      · exact absurd hin hout
    · have hzero : it₀.m it₀.offset = 0 := by
        rw [h.zero.right, h.zero.offset, fill, if_neg (by omega)]
      have hone : it₁.m it₁.offset = 1 := by
        rw [h.one.right, h.one.offset, fill, if_neg (by omega)]
      refine ⟨length, ?_, ?_⟩
      · simp [HeaderChunkIterator.getLength, hzero]
      · simp [HeaderChunkIterator.getLength, hone]

theorem getListString_ne (hsize : size < uintRange)
    (hout : ¬it.getListString.2.inBounds) : it₀.getListString.1 ≠ it₁.getListString.1 := by
  have hend := h.zero.within h.inBounds
  by_cases hin : (it.getLength uintRange 0).2.inBounds
  · obtain ⟨hlength₀, hsame₀⟩ := h.zero.getLength hsize hin
    obtain ⟨hlength₁, hsame₁⟩ := h.one.getLength hsize hin
    have hend' := hsame₀.within hin
    rw [getListString_snd, inBounds_skip] at hout
    simp only [getListString, hlength₀, hlength₁, hsame₀.offset, hsame₁.offset, hsame₀.right,
      hsame₁.right]
    refine slice_zero_ne_one (by omega) ?_
    by_contra hle
    exact hout ⟨hin, by omega⟩
  · obtain ⟨sum, hsum₀, hsum₁⟩ := h.getLength hsize (by omega) hin
    intro heq
    have hlength := congrArg List.length heq
    simp only [getListString, length_slice, hsum₀, hsum₁] at hlength
    simp only [uintAdd, uintRange] at hlength
    omega

theorem getListStrings_ne (hsize : size < uintRange) {count : Nat}
    (hout : ¬(it.getListStrings count).2.inBounds) :
    (it₀.getListStrings count).1 ≠ (it₁.getListStrings count).1 := by
  induction count generalizing it it₀ it₁ with
  | zero => exact absurd h.inBounds hout
  | succ count ih =>
    simp only [getListStrings, ne_eq, List.cons.injEq, not_and]
    intro hhead
    by_cases hin : it.getListString.2.inBounds
    · exact ih ⟨(h.zero.getListString hsize hin).2, (h.one.getListString hsize hin).2, hin⟩ hout
    · exact absurd hhead (h.getListString_ne hsize hin)

end

end Split

theorem length_getListStrings (it : HeaderChunkIterator) (count : Nat) :
    (it.getListStrings count).1.length = count := by
  induction count generalizing it with
  | zero => rfl
  | succ count ih => simp [getListStrings, ih]

/-- The chunk that `take_chunk()` makes of what `get_next_chunk()` found. -/
def chunkOf : ChunkData × HeaderChunkIterator → Option Chunk
  | (.none, _) => none
  | (.number n, _) => some (.number n)
  | (.string offset length, it) => some (.string (it.m.slice offset length))
  | (.list count, it) => some (.list (it.getListStrings count).1)

theorem takeChunk_fst (it : HeaderChunkIterator) : it.takeChunk.1 = chunkOf it.getNextChunk := by
  unfold takeChunk chunkOf
  split <;> simp_all

namespace Split

variable {it₀ it₁ : HeaderChunkIterator}

section

variable (h : Split size m it it₀ it₁)
include h

theorem string_ne (hpos : 0 < it.remains) (hsize : size < uintRange)
    (hlong : it.remains < n + 1) :
    chunkOf (.string (uintAdd it₀.offset 1) n, it₀.skip (n + 1)) ≠
      chunkOf (.string (uintAdd it₁.offset 1) n, it₁.skip (n + 1)) := by
  have hend := h.zero.within h.inBounds
  simp only [chunkOf, m_skip, h.zero.right, h.one.right, h.zero.offset, h.one.offset, ne_eq,
    Option.some.injEq, Chunk.string.injEq]
  rw [uintAdd_eq (by omega)]
  exact slice_zero_ne_one (by omega) (by omega)

theorem mediumChunk_ne (hsize : size < uintRange)
    (hpos : 0 < it.remains) {t : Fin 3} (hout : ¬(it.mediumChunk n t).2.inBounds) :
    chunkOf (it₀.mediumChunk n t) ≠ chunkOf (it₁.mediumChunk n t) := by
  have hskip : (it.skip 1).inBounds := inBounds_skip.mpr ⟨h.inBounds, hpos⟩
  match t with
  | 0 => exact absurd hskip hout
  | 1 =>
    simp only [mediumChunk, inBounds_skip, h.inBounds, true_and] at hout
    exact h.string_ne hpos hsize (by omega)
  | 2 => exact absurd hskip hout

theorem subtypeChunk_ne (hsize : size < uintRange)
    (hpos : 0 < it.remains) {s : Fin 8} (hout : ¬(it.subtypeChunk n s).2.inBounds) :
    chunkOf (it₀.subtypeChunk n s) ≠ chunkOf (it₁.subtypeChunk n s) := by
  have hskip : (it.skip 1).inBounds := inBounds_skip.mpr ⟨h.inBounds, hpos⟩
  have hhead₀ := h.zero.head_eq h.inBounds hpos
  have hhead₁ := h.one.head_eq h.inBounds hpos
  match s with
  | 0 | 2 | 4 => exact absurd hskip hout
  | 3 =>
    simp only [subtypeChunk, inBounds_skip, h.inBounds, true_and] at hout
    exact h.string_ne hpos hsize (by omega)
  | 1 =>
    obtain ⟨hne, -, -⟩ := h.getCount_ne hsize hpos hout
    simp only [subtypeChunk, hhead₀, hhead₁, chunkOf, ne_eq, Option.some.injEq,
      Chunk.number.injEq]
    omega
  | 5 =>
    obtain ⟨hne, hlt₀, hlt₁⟩ := h.getCount_ne hsize hpos hout
    simp only [subtypeChunk, hhead₀, hhead₁, chunkOf, ne_eq, Option.some.injEq,
      Chunk.number.injEq, Int.ofNat_inj]
    exact fun heq => hne (uintAdd_inj hlt₀ hlt₁ heq)
  | 7 =>
    obtain ⟨hne, hlt₀, hlt₁⟩ := h.getCount_ne hsize hpos hout
    simp only [subtypeChunk, hhead₀, hhead₁, chunkOf, ne_eq, Option.some.injEq, Chunk.list.injEq]
    intro heq
    have hlength := congrArg List.length heq
    rw [length_getListStrings, length_getListStrings] at hlength
    exact hne (uintAdd_inj hlt₀ hlt₁ hlength)
  | 6 =>
    simp only [subtypeChunk, hhead₀, hhead₁, chunkOf, ne_eq, Option.some.injEq,
      Chunk.string.injEq, m_skip] at hout ⊢
    by_cases hin : (it.getCount (it.m it.offset)).2.inBounds
    · obtain ⟨hcount₀, hsame₀⟩ := h.zero.getCount hsize _ hin
      obtain ⟨hcount₁, hsame₁⟩ := h.one.getCount hsize _ hin
      have hend := hsame₀.within hin
      rw [inBounds_skip] at hout
      rw [hcount₀, hcount₁, hsame₀.offset, hsame₁.offset, hsame₀.right, hsame₁.right]
      refine slice_zero_ne_one (by omega) ?_
      by_contra hle
      exact hout ⟨hin, by omega⟩
    · obtain ⟨hne, hlt₀, hlt₁⟩ := h.getCount_ne hsize hpos hin
      intro heq
      have hlength := congrArg List.length heq
      rw [length_slice, length_slice] at hlength
      exact hne (uintAdd_inj hlt₀ hlt₁ hlength)

/-- A chunk that leaves the header depends on what follows it. -/
theorem takeChunk_ne (hsize : size < uintRange)
    (hout : ¬it.takeChunk.2.inBounds) : it₀.takeChunk.1 ≠ it₁.takeChunk.1 := by
  rw [takeChunk_fst, takeChunk_fst]
  by_cases hin : it.getNextChunk.2.inBounds
  · -- only the strings of a list are still to be read
    obtain ⟨hdata₀, hsame₀, -⟩ := h.zero.getNextChunk hsize hin
    obtain ⟨hdata₁, hsame₁, -⟩ := h.one.getNextChunk hsize hin
    unfold HeaderChunkIterator.takeChunk at hout
    generalize it.getNextChunk = next at *
    generalize it₀.getNextChunk = next₀ at *
    generalize it₁.getNextChunk = next₁ at *
    obtain ⟨data, jt⟩ := next
    obtain ⟨data₀, jt₀⟩ := next₀
    obtain ⟨data₁, jt₁⟩ := next₁
    obtain rfl : data₀ = data := hdata₀
    obtain rfl : data₁ = data₀ := hdata₁
    cases data₁ with
    | none => exact absurd hin hout
    | number n => exact absurd hin hout
    | string offset length => exact absurd hin hout
    | list count =>
      simp only [chunkOf, ne_eq, Option.some.injEq, Chunk.list.injEq]
      exact getListStrings_ne ⟨hsame₀, hsame₁, hin⟩ hsize hout
  · have hpos : 0 < it.remains := by
      by_contra hzero
      exact hin (by simpa [getNextChunk, hzero] using h.inBounds)
    have hpos₀ : 0 < it₀.remains := by rw [h.zero.remains]; exact hpos
    have hpos₁ : 0 < it₁.remains := by rw [h.one.remains]; exact hpos
    have hhead₀ := h.zero.head_eq h.inBounds hpos
    have hhead₁ := h.one.head_eq h.inBounds hpos
    obtain ⟨t, n, -, hshape⟩ | ⟨s, n, -, hshape⟩ := getNextChunk_shape (it.m it.offset)
    · rw [hshape it hpos rfl] at hin
      rw [hshape it₀ hpos₀ hhead₀, hshape it₁ hpos₁ hhead₁]
      exact h.mediumChunk_ne hsize hpos hin
    · rw [hshape it hpos rfl] at hin
      rw [hshape it₀ hpos₀ hhead₀, hshape it₁ hpos₁ hhead₁]
      exact h.subtypeChunk_ne hsize hpos hin

/-- A sequence of chunks that leaves the header depends on what follows it. -/
theorem takeChunks_ne (hsize : size < uintRange)
    (hout : ¬(it.takeChunks n).2.inBounds) : (it₀.takeChunks n).1 ≠ (it₁.takeChunks n).1 := by
  induction n generalizing it it₀ it₁ with
  | zero => exact absurd h.inBounds hout
  | succ n ih =>
    simp only [takeChunks] at hout ⊢
    by_cases hin : it.takeChunk.2.inBounds
    · obtain ⟨hchunk₀, hsame₀⟩ := h.zero.takeChunk hsize hin
      obtain ⟨hchunk₁, hsame₁⟩ := h.one.takeChunk hsize hin
      generalize it.takeChunk = next at *
      generalize it₀.takeChunk = next₀ at *
      generalize it₁.takeChunk = next₁ at *
      obtain ⟨chunk, jt⟩ := next
      obtain ⟨chunk₀, jt₀⟩ := next₀
      obtain ⟨chunk₁, jt₁⟩ := next₁
      obtain rfl : chunk₀ = chunk := hchunk₀
      obtain rfl : chunk₁ = chunk₀ := hchunk₁
      cases chunk₁ with
      | none => exact absurd hin hout
      | some chunk =>
        simp only [ne_eq, List.cons.injEq, true_and]
        exact ih ⟨hsame₀, hsame₁, hin⟩ hout
    · have hne := h.takeChunk_ne hsize hin
      generalize it₀.takeChunk = next₀ at *
      generalize it₁.takeChunk = next₁ at *
      obtain ⟨chunk₀, jt₀⟩ := next₀
      obtain ⟨chunk₁, jt₁⟩ := next₁
      cases chunk₀ <;> cases chunk₁ <;> simp_all

end

end Split

end HeaderChunkIterator

end CyberCache
