import CyberCache.Wire.Reader

/-!
# Data chunks

A header ends with a sequence of chunks: numbers, strings and lists of strings. The first byte of a
chunk holds its type and, for small values, the number, the length of the string or the number of
strings as well; bigger values stand in the one to four bytes that follow. The encoding side is that
of `io_chunk_builders.cc`, the decoding side that of `io_chunk_iterators.cc`; the second inverts the
first.
-/

namespace CyberCache

open ByteMemory

inductive Chunk where
  | number (n : Int)
  | string (s : List UInt8)
  | list (strings : List (List UInt8))
deriving DecidableEq, Repr

def intMin : Int := -2 ^ 31

/-- Conversion of a 64-bit signed number to `c3_uint_t`. -/
def uintOfInt (n : Int) : Nat := (n % uintRange).toNat

theorem uintOfInt_eq {n : Int} (h : 0 ≤ n) (hlt : n < uintRange) : uintOfInt n = n.toNat := by
  rw [uintOfInt, Int.emod_eq_of_lt h hlt]

/-! ## Encoding -/

namespace ChunkBuilder

/-- Number of bytes that follow the first byte of a big value, 1 to 4: the cascade of tests against
`0xFFFFFF00`, `0xFFFF0000` and `0xFF000000`. -/
def extraBytes (n : Nat) : Nat :=
  if n < 2 ^ 8 then 1 else if n < 2 ^ 16 then 2 else if n < 2 ^ 24 then 3 else 4

def measureEntity (n : Nat) : Nat :=
  if n < chnkLargeBias then 1 else 1 + extraBytes (n - chnkLargeBias)

/-- First byte and extra bytes of a value that does not fit into the first byte. -/
def putBig (mask : UInt8) (n : Nat) : List UInt8 :=
  (chnkSubtype ||| mask ||| UInt8.ofNat (extraBytes n - 1)) :: toBytesLE (extraBytes n) n

def putEntity (n : Nat) (smallMask mediumMask largeMask : UInt8) : List UInt8 :=
  if n < chnkMediumBias then [chnkSubtype ||| smallMask ||| UInt8.ofNat n]
  else if n < chnkLargeBias then [mediumMask ||| UInt8.ofNat (n - chnkMediumBias)]
  else putBig largeMask (n - chnkLargeBias)

/-- Length of a string within a list: 255 for as long as it has that many bytes left, and the
remainder. -/
def putLength (size : Nat) : List UInt8 :=
  List.replicate (size / 255) 255 ++ [UInt8.ofNat (size % 255)]

def putString (s : List UInt8) : List UInt8 :=
  putLength s.length ++ s

def measureString (size : Nat) : Nat :=
  size / 255 + 1 + size

def putNumber (n : Int) : List UInt8 :=
  if 0 ≤ n ∧ n ≤ uintMax then putEntity n.toNat chnkSmallInteger chnkInteger chnkBigInteger
  else if chnkBigNegativeBias < n then
    [chnkSubtype ||| chnkSmallNegative ||| UInt8.ofNat (uintOfInt (-n + chnkSmallNegativeBias))]
  else putBig chnkBigNegative (uintOfInt (-n + chnkBigNegativeBias))

def measureNumber (n : Int) : Nat :=
  if 0 ≤ n ∧ n ≤ uintMax then measureEntity n.toNat
  else if chnkBigNegativeBias < n then 1
  else 1 + extraBytes (uintOfInt (-n + chnkBigNegativeBias))

theorem extraBytes_cases (n : Nat) : extraBytes n = 1 ∨ extraBytes n = 2 ∨ extraBytes n = 3 ∨
    extraBytes n = 4 := by
  unfold extraBytes
  split_ifs <;> simp

theorem extraBytes_lt (n : Nat) : extraBytes n - 1 < 8 := by
  obtain h | h | h | h := extraBytes_cases n <;> rw [h] <;> decide

theorem lt_extraBytes {n : Nat} (h : n < uintRange) : n < 256 ^ extraBytes n := by
  simp only [uintRange] at h
  unfold extraBytes
  split_ifs <;> omega

@[simp]
theorem length_putBig (mask : UInt8) (n : Nat) : (putBig mask n).length = 1 + extraBytes n := by
  simp [putBig, Nat.add_comm]

@[simp]
theorem length_putEntity (n : Nat) (small medium large : UInt8) :
    (putEntity n small medium large).length = measureEntity n := by
  have : chnkMediumBias < chnkLargeBias := by decide
  unfold putEntity measureEntity
  split_ifs <;> first | rfl | omega | exact length_putBig _ _

@[simp]
theorem length_putNumber (n : Int) : (putNumber n).length = measureNumber n := by
  unfold putNumber measureNumber
  split_ifs <;> simp

@[simp]
theorem length_putLength (size : Nat) : (putLength size).length = size / 255 + 1 := by
  simp [putLength]

@[simp]
theorem length_putString (s : List UInt8) : (putString s).length = measureString s.length := by
  simp [putString, measureString]

theorem length_le_flatMap_putString (strings : List (List UInt8)) :
    strings.length ≤ (strings.flatMap putString).length := by
  induction strings with
  | nil => exact Nat.le_refl _
  | cons s strings ih =>
    rw [List.flatMap_cons, List.length_append, length_putString, measureString, List.length_cons]
    omega

theorem measureEntity_pos (n : Nat) : 0 < measureEntity n := by
  unfold measureEntity
  split_ifs <;> omega

theorem measureNumber_pos (n : Int) : 0 < measureNumber n := by
  unfold measureNumber
  split_ifs
  · exact measureEntity_pos _
  all_goals omega

end ChunkBuilder

namespace Chunk

open ChunkBuilder

/-- Numbers are within the range of `add_number()`; anything may be a string or a list. -/
def Valid : Chunk → Prop
  | number n => intMin ≤ n ∧ n ≤ uintMax
  | string _ => True
  | list _ => True

instance : (c : Chunk) → Decidable c.Valid
  | number n => inferInstanceAs (Decidable (intMin ≤ n ∧ n ≤ uintMax))
  | string _ => .isTrue trivial
  | list _ => .isTrue trivial

def encode : Chunk → List UInt8
  | number n => putNumber n
  | string s => putEntity s.length chnkShortString chnkString chnkLongString ++ s
  | list strings =>
    putEntity strings.length chnkShortList chnkList chnkLongList ++ strings.flatMap putString

theorem length_encode_pos (c : Chunk) : 0 < c.encode.length := by
  cases c with
  | number n => simpa [encode] using measureNumber_pos n
  | string s =>
    have := measureEntity_pos s.length
    simp only [encode, List.length_append, length_putEntity]
    omega
  | list strings =>
    have := measureEntity_pos strings.length
    simp only [encode, List.length_append, length_putEntity]
    omega

end Chunk

/-! ## Decoding -/

/-- `chunk_t` with its `chunk_data_t`: where a string is, and how many strings a list has. -/
inductive ChunkData where
  | none
  | number (n : Int)
  | string (offset length : Nat)
  | list (count : Nat)
deriving DecidableEq, Repr

/-- An iterator over the header in `m`: offset and remaining size of the chunks, both 32-bit. Only a
debug build checks that no more is skipped than remains; `inBounds` says whether that was so. -/
structure HeaderChunkIterator where
  m : ByteMemory
  offset : Nat
  remains : Nat
  inBounds : Bool

namespace HeaderChunkIterator

def ofHeader (f : MessageFormat) (m : ByteMemory) : HeaderChunkIterator :=
  match f.getHeaderInfo m with
  | some (offset, size) => ⟨m, offset, size, true⟩
  | none => ⟨m, 0, 0, true⟩

def create (f : MessageFormat) (sb : SharedBuffers) : HeaderChunkIterator :=
  ofHeader f sb.header

def skip (it : HeaderChunkIterator) (n : Nat) : HeaderChunkIterator :=
  { it with
    offset := uintAdd it.offset n
    remains := uintSub it.remains n
    inBounds := it.inBounds && n ≤ it.remains }

def hasMoreChunks (it : HeaderChunkIterator) : Bool :=
  it.remains != 0

/-- The number in the bytes that follow the first byte `c` of a chunk. A byte that announces more
than four of them stops a debug build; here it leaves the iterator where it is. -/
def getCount (it : HeaderChunkIterator) (c : UInt8) : Nat × HeaderChunkIterator :=
  let k := (c &&& chnkShortMask).toNat
  if k < 4 then (it.m.readLE (uintAdd it.offset 1) (k + 1), it.skip (k + 2)) else (0, it)

def getNextChunk (it : HeaderChunkIterator) : ChunkData × HeaderChunkIterator :=
  if 0 < it.remains then
    let c := it.m it.offset
    let long := (c &&& chnkLongMask).toNat + chnkMediumBias
    let short := (c &&& chnkShortMask).toNat
    if c &&& chnkTypeBits = chnkInteger then (.number long, it.skip 1)
    else if c &&& chnkTypeBits = chnkString then
      (.string (uintAdd it.offset 1) long, it.skip (long + 1))
    else if c &&& chnkTypeBits = chnkList then (.list long, it.skip 1)
    else if c &&& chnkSubtypeBits = chnkSmallNegative then
      (.number (-(short : Int) + chnkSmallNegativeBias), it.skip 1)
    else if c &&& chnkSubtypeBits = chnkBigNegative then
      let (count, it) := it.getCount c
      (.number (-(count : Int) + chnkBigNegativeBias), it)
    else if c &&& chnkSubtypeBits = chnkSmallInteger then (.number short, it.skip 1)
    else if c &&& chnkSubtypeBits = chnkShortString then
      (.string (uintAdd it.offset 1) short, it.skip (short + 1))
    else if c &&& chnkSubtypeBits = chnkShortList then (.list short, it.skip 1)
    else if c &&& chnkSubtypeBits = chnkBigInteger then
      let (count, it) := it.getCount c
      (.number (uintAdd count chnkLargeBias), it)
    else if c &&& chnkSubtypeBits = chnkLongString then
      let (count, it) := it.getCount c
      let length := uintAdd count chnkLargeBias
      (.string it.offset length, it.skip length)
    else
      let (count, it) := it.getCount c
      (.list (uintAdd count chnkLargeBias), it)
  else (.none, it)

/-- The loop of `ListChunk::get_string()` over the bytes of a length. It ends at the first byte that
is not 255; `fuel` bounds it by the number of offsets there are. -/
def getLength : (fuel : Nat) → HeaderChunkIterator → (length : Nat) → Nat × HeaderChunkIterator
  | 0, it, length => (length, it)
  | fuel + 1, it, length =>
    let c := it.m it.offset
    let length := uintAdd length c.toNat
    if c = 255 then getLength fuel (it.skip 1) length else (length, it.skip 1)

def getListString (it : HeaderChunkIterator) : List UInt8 × HeaderChunkIterator :=
  let (length, it) := it.getLength uintRange 0
  (it.m.slice it.offset length, it.skip length)

def getListStrings : (count : Nat) → HeaderChunkIterator → List (List UInt8) × HeaderChunkIterator
  | 0, it => ([], it)
  | count + 1, it =>
    let (s, it) := it.getListString
    let (strings, it) := getListStrings count it
    (s :: strings, it)

/-- Take the next chunk with the method for its type, and all strings if it is a list. -/
def takeChunk (it : HeaderChunkIterator) : Option Chunk × HeaderChunkIterator :=
  match it.getNextChunk with
  | (.none, it) => (none, it)
  | (.number n, it) => (some (.number n), it)
  | (.string offset length, it) => (some (.string (it.m.slice offset length)), it)
  | (.list count, it) =>
    let (strings, it) := it.getListStrings count
    (some (.list strings), it)

/-- Take chunks for as long as there are more of them, at most `n`. -/
def takeChunks : (n : Nat) → HeaderChunkIterator → List Chunk × HeaderChunkIterator
  | 0, it => ([], it)
  | n + 1, it =>
    match it.takeChunk with
    | (none, it) => ([], it)
    | (some chunk, it) =>
      let (chunks, it) := takeChunks n it
      (chunk :: chunks, it)

/-! ## Decoding what was encoded -/

/-- The iterator stands before the given bytes, and all of them belong to the chunks. -/
structure Before (it : HeaderChunkIterator) (bytes : List UInt8) : Prop where
  holds : it.m.slice it.offset bytes.length = bytes
  fits : bytes.length ≤ it.remains
  range : it.offset + it.remains < uintRange

@[simp]
theorem m_skip (it : HeaderChunkIterator) (n : Nat) : (it.skip n).m = it.m := rfl

namespace Before

variable {it : HeaderChunkIterator} {xs ys : List UInt8} {b : UInt8} {n : Nat}

theorem skip_eq (h : it.Before xs) (hn : n ≤ xs.length) :
    it.skip n = ⟨it.m, it.offset + n, it.remains - n, it.inBounds⟩ := by
  have hfits := h.fits
  have hrange := h.range
  have hle : n ≤ it.remains := by omega
  rw [skip, uintAdd_eq (by omega), uintSub_eq (by omega) hle]
  simp [hle]

theorem skip_zero (h : it.Before xs) : it.skip 0 = it := by
  rw [h.skip_eq (Nat.zero_le _), Nat.add_zero, Nat.sub_zero]

theorem skip_skip (h : it.Before xs) {k : Nat} (hk : k + n ≤ xs.length) :
    (it.skip k).skip n = it.skip (k + n) := by
  have hfits := h.fits
  have hrange := h.range
  have hle : n ≤ it.remains - k := by omega
  rw [h.skip_eq hk, h.skip_eq (by omega), skip, uintAdd_eq (by simp only; omega),
    uintSub_eq (by simp only; omega) (by simp only; omega)]
  simp [Nat.add_assoc, Nat.sub_sub, hle]

theorem offset_skip (h : it.Before xs) (hn : n ≤ xs.length) :
    (it.skip n).offset = it.offset + n := by
  rw [h.skip_eq hn]

theorem remains_pos (h : it.Before xs) (hpos : 0 < xs.length) : 0 < it.remains :=
  Nat.lt_of_lt_of_le hpos h.fits

theorem head (h : it.Before (b :: xs)) : it.m it.offset = b := by
  have hbytes := h.holds
  rw [List.length_cons, slice_succ] at hbytes
  exact (List.cons.inj hbytes).1

theorem left (h : it.Before (xs ++ ys)) : it.Before xs := by
  have hbytes := h.holds
  have hfits := h.fits
  rw [List.length_append] at hbytes hfits
  rw [slice_add] at hbytes
  exact ⟨(List.append_inj hbytes (by simp)).1, by omega, h.range⟩

theorem right (h : it.Before (xs ++ ys)) : (it.skip xs.length).Before ys := by
  have hbytes := h.holds
  have hfits := h.fits
  have hrange := h.range
  rw [h.skip_eq (by simp)]
  rw [List.length_append] at hbytes hfits
  rw [slice_add] at hbytes
  exact ⟨(List.append_inj hbytes (by simp)).2, by simp only; omega, by simp only; omega⟩

theorem tail (h : it.Before (b :: xs)) : (it.skip 1).Before xs := by
  rw [← List.singleton_append] at h
  exact h.right

end Before

theorem subtype_byte : ∀ s n : Fin 8,
    let c := chnkSubtype ||| UInt8.ofNat (8 * s) ||| UInt8.ofNat n
    c &&& chnkTypeBits = chnkSubtype ∧ c &&& chnkSubtypeBits = UInt8.ofNat (8 * s) ∧
      (c &&& chnkShortMask).toNat = n := by
  decide +kernel

theorem medium_byte : ∀ t : Fin 3, ∀ n : Fin 64,
    let c := UInt8.ofNat (64 * t) ||| UInt8.ofNat n
    c &&& chnkTypeBits = UInt8.ofNat (64 * t) ∧ (c &&& chnkLongMask).toNat = n := by
  decide +kernel

variable {it : HeaderChunkIterator}

open ChunkBuilder

theorem getCount_eq {mask : UInt8} {n : Nat} (hn : n < uintRange) (s : Fin 8)
    (hmask : mask = UInt8.ofNat (8 * s)) (h : it.Before (putBig mask n)) :
    it.getCount (it.m it.offset) = (n, it.skip (1 + extraBytes n)) := by
  obtain ⟨k, hk⟩ : ∃ k : Fin 4, extraBytes n = k + 1 := by
    obtain hk | hk | hk | hk := extraBytes_cases n
    · exact ⟨0, hk⟩
    · exact ⟨1, hk⟩
    · exact ⟨2, hk⟩
    · exact ⟨3, hk⟩
  have hcount := (subtype_byte s ⟨k, by omega⟩).2.2
  rw [← hmask] at hcount
  have hhead : it.m it.offset = chnkSubtype ||| mask ||| UInt8.ofNat k := by
    rw [h.head, hk, Nat.add_sub_cancel]
  have hbytes := h.tail.holds
  rw [length_toBytesLE, h.offset_skip (by simp), m_skip, hk] at hbytes
  have hlt := lt_extraBytes hn
  rw [hk] at hlt
  simp only [getCount, hhead, hcount, k.isLt, if_true]
  rw [uintAdd_eq, readLE, hbytes, ofBytesLE_toBytesLE hlt, hk, Nat.add_comm 1]
  have hfits := h.fits
  have hrange := h.range
  rw [length_putBig] at hfits
  omega

/-- What a chunk of subtype `s` holds; `n` are the low bits of its first byte. -/
def subtypeChunk (it : HeaderChunkIterator) (n : Nat) : (s : Fin 8) →
    ChunkData × HeaderChunkIterator
  | 0 => (.number (-(n : Int) + chnkSmallNegativeBias), it.skip 1)
  | 1 =>
    let (count, it) := it.getCount (it.m it.offset)
    (.number (-(count : Int) + chnkBigNegativeBias), it)
  | 2 => (.number n, it.skip 1)
  | 3 => (.string (uintAdd it.offset 1) n, it.skip (n + 1))
  | 4 => (.list n, it.skip 1)
  | 5 =>
    let (count, it) := it.getCount (it.m it.offset)
    (.number (uintAdd count chnkLargeBias), it)
  | 6 =>
    let (count, it) := it.getCount (it.m it.offset)
    (.string it.offset (uintAdd count chnkLargeBias), it.skip (uintAdd count chnkLargeBias))
  | 7 =>
    let (count, it) := it.getCount (it.m it.offset)
    (.list (uintAdd count chnkLargeBias), it)

def mediumChunk (it : HeaderChunkIterator) (n : Nat) : (t : Fin 3) → ChunkData × HeaderChunkIterator
  | 0 => (.number n, it.skip 1)
  | 1 => (.string (uintAdd it.offset 1) n, it.skip (n + 1))
  | 2 => (.list n, it.skip 1)

theorem getNextChunk_subtype (hremains : 0 < it.remains) (s : Fin 8) {n : Nat} (hn : n < 8)
    (h : it.m it.offset = chnkSubtype ||| UInt8.ofNat (8 * s) ||| UInt8.ofNat n) :
    it.getNextChunk = it.subtypeChunk n s := by
  obtain ⟨htype, hsubtype, hshort⟩ := subtype_byte s ⟨n, hn⟩
  rw [← h] at htype hsubtype hshort
  simp only [getNextChunk, hremains, if_true, htype, hsubtype, hshort]
  match s with
  | 0 | 1 | 2 | 3 | 4 | 5 | 6 | 7 => simp (disch := decide) only [if_neg, if_pos, subtypeChunk]

theorem getNextChunk_medium (hremains : 0 < it.remains) (t : Fin 3) {n : Nat}
    (hn : chnkMediumBias ≤ n ∧ n < chnkLargeBias)
    (h : it.m it.offset = UInt8.ofNat (64 * t) ||| UInt8.ofNat (n - chnkMediumBias)) :
    it.getNextChunk = it.mediumChunk n t := by
  have hlt : n - chnkMediumBias < 64 := by
    simp only [chnkMediumBias, chnkLargeBias] at *
    omega
  obtain ⟨htype, hlong⟩ := medium_byte t ⟨_, hlt⟩
  rw [← h] at htype hlong
  simp only [getNextChunk, hremains, if_true, htype, hlong, Nat.sub_add_cancel hn.1]
  match t with
  | 0 | 1 | 2 => simp (disch := decide) only [if_neg, if_pos, mediumChunk]

theorem getCount_bias {n : Nat} (hlarge : ¬n < chnkLargeBias) (hn : n < uintRange) :
    uintAdd (n - chnkLargeBias) chnkLargeBias = n := by
  rw [uintAdd_eq (by omega)]
  omega

theorem getNextChunk_integer {n : Nat} (hn : n < uintRange)
    (h : it.Before (putEntity n chnkSmallInteger chnkInteger chnkBigInteger)) :
    it.getNextChunk = (.number n, it.skip (measureEntity n)) := by
  have hremains := h.remains_pos (by simpa using measureEntity_pos n)
  unfold putEntity at h
  unfold measureEntity
  split_ifs at h with hsmall hlarge
  · rw [getNextChunk_subtype hremains 2 hsmall h.head, if_pos (Nat.lt_trans hsmall (by decide)),
      subtypeChunk]
  · rw [getNextChunk_medium hremains 0 ⟨Nat.le_of_not_lt hsmall, hlarge⟩ h.head, if_pos hlarge,
      mediumChunk]
  · rw [getNextChunk_subtype hremains 5 (extraBytes_lt _) h.head, if_neg hlarge]
    simp only [subtypeChunk, getCount_eq (by omega) 5 rfl h, getCount_bias hlarge hn]

theorem getNextChunk_number {n : Int} (hn : intMin ≤ n ∧ n ≤ uintMax)
    (h : it.Before (putNumber n)) :
    it.getNextChunk = (.number n, it.skip (measureNumber n)) := by
  have hremains := h.remains_pos (by simpa using measureNumber_pos n)
  have hmax : (uintMax : Int) = 2 ^ 32 - 1 := by decide
  have hmin : intMin = -2 ^ 31 := rfl
  have hrange : (uintRange : Int) = 2 ^ 32 := by decide
  have hbias : chnkSmallNegativeBias = -1 ∧ chnkBigNegativeBias = -9 := ⟨rfl, rfl⟩
  unfold putNumber at h
  unfold measureNumber
  split_ifs at h with hpos hsmall
  · rw [getNextChunk_integer (by omega) h, if_pos hpos, Int.toNat_of_nonneg hpos.1]
  · rw [uintOfInt_eq (by omega) (by omega)] at h
    rw [getNextChunk_subtype hremains 0 (by omega) h.head, if_neg hpos, if_pos hsmall]
    simp only [subtypeChunk, Prod.mk.injEq, ChunkData.number.injEq, and_true]
    omega
  · rw [uintOfInt_eq (by omega) (by omega)] at h ⊢
    rw [getNextChunk_subtype hremains 1 (extraBytes_lt _) h.head, if_neg hpos, if_neg hsmall]
    simp only [subtypeChunk, getCount_eq (by omega) 1 rfl h, Prod.mk.injEq,
      ChunkData.number.injEq, and_true]
    omega

theorem getNextChunk_string {s : List UInt8} (hn : s.length < uintRange)
    (h : it.Before (putEntity s.length chnkShortString chnkString chnkLongString ++ s)) :
    it.getNextChunk = (.string (it.offset + measureEntity s.length) s.length,
      it.skip (measureEntity s.length + s.length)) := by
  have hremains := h.left.remains_pos (by simpa using measureEntity_pos s.length)
  have hoffset : uintAdd it.offset 1 = it.offset + 1 := by
    have := h.range
    exact uintAdd_eq (by omega)
  have hentity := h.left
  unfold putEntity at hentity
  unfold measureEntity
  split_ifs at hentity with hsmall hlarge
  · rw [getNextChunk_subtype hremains 3 hsmall hentity.head,
      if_pos (Nat.lt_trans hsmall (by decide)), subtypeChunk, hoffset, Nat.add_comm 1 s.length]
  · rw [getNextChunk_medium hremains 1 ⟨Nat.le_of_not_lt hsmall, hlarge⟩ hentity.head,
      if_pos hlarge, mediumChunk, hoffset, Nat.add_comm 1 s.length]
  · rw [getNextChunk_subtype hremains 6 (extraBytes_lt _) hentity.head, if_neg hlarge]
    have hlength : 1 + extraBytes (s.length - chnkLargeBias) = measureEntity s.length := by
      rw [measureEntity, if_neg hlarge]
    simp only [subtypeChunk, getCount_eq (by omega) 6 rfl hentity, getCount_bias hlarge hn, hlength,
      hentity.offset_skip (n := measureEntity s.length) (by simp [hlength]),
      h.skip_skip (k := measureEntity s.length) (n := s.length) (by simp)]

theorem getNextChunk_list {n : Nat} (hn : n < uintRange)
    (h : it.Before (putEntity n chnkShortList chnkList chnkLongList)) :
    it.getNextChunk = (.list n, it.skip (measureEntity n)) := by
  have hremains := h.remains_pos (by simpa using measureEntity_pos n)
  unfold putEntity at h
  unfold measureEntity
  split_ifs at h with hsmall hlarge
  · rw [getNextChunk_subtype hremains 4 hsmall h.head, if_pos (Nat.lt_trans hsmall (by decide)),
      subtypeChunk]
  · rw [getNextChunk_medium hremains 2 ⟨Nat.le_of_not_lt hsmall, hlarge⟩ h.head, if_pos hlarge,
      mediumChunk]
  · rw [getNextChunk_subtype hremains 7 (extraBytes_lt _) h.head, if_neg hlarge]
    simp only [subtypeChunk, getCount_eq (by omega) 7 rfl h, getCount_bias hlarge hn]

theorem getLength_eq {fuel k rest length : Nat} (hrest : rest < 255) (hfuel : k < fuel)
    (hlength : length + (255 * k + rest) < uintRange)
    (h : it.Before (List.replicate k 255 ++ [UInt8.ofNat rest])) :
    it.getLength fuel length = (length + (255 * k + rest), it.skip (k + 1)) := by
  induction k generalizing fuel length it with
  | zero =>
    obtain ⟨fuel, rfl⟩ := Nat.exists_eq_add_one_of_ne_zero (by omega : fuel ≠ 0)
    have hbyte : (UInt8.ofNat rest).toNat = rest := UInt8.toNat_ofNat_of_lt' (by
      simp only [UInt8.size]; omega)
    have hlast : UInt8.ofNat rest ≠ 255 := by
      intro heq
      rw [heq] at hbyte
      have : (255 : UInt8).toNat = 255 := rfl
      omega
    have hhead : it.m it.offset = UInt8.ofNat rest := h.head
    simp only [getLength, hhead, hlast, if_false, hbyte, Nat.mul_zero, Nat.zero_add]
    rw [uintAdd_eq (by omega)]
  | succ k ih =>
    obtain ⟨fuel, rfl⟩ := Nat.exists_eq_add_one_of_ne_zero (by omega : fuel ≠ 0)
    rw [List.replicate_succ, List.cons_append] at h
    have hbyte : (255 : UInt8).toNat = 255 := rfl
    simp only [getLength, h.head, if_true, hbyte]
    rw [uintAdd_eq (by omega), ih (by omega) (by omega) h.tail, h.skip_skip (by simp; omega)]
    simp only [Prod.mk.injEq]
    exact ⟨by omega, by rw [Nat.add_comm 1]⟩

theorem getListString_eq {s : List UInt8} (h : it.Before (putString s)) :
    it.getListString = (s, it.skip (measureString s.length)) := by
  have hrange := h.range
  have hfits := h.fits
  rw [length_putString, measureString] at hfits
  have hlength : it.getLength uintRange 0 =
      (0 + (255 * (s.length / 255) + s.length % 255), it.skip (s.length / 255 + 1)) :=
    getLength_eq (Nat.mod_lt _ (by decide)) (by omega) (by omega) h.left
  have hright := h.right
  rw [length_putLength] at hright
  rw [Nat.zero_add, Nat.div_add_mod] at hlength
  simp only [getListString, hlength, hright.holds]
  rw [h.skip_skip (by simp [measureString]), measureString]

theorem getListStrings_eq {strings : List (List UInt8)}
    (h : it.Before (strings.flatMap putString)) :
    it.getListStrings strings.length =
      (strings, it.skip (strings.flatMap putString).length) := by
  induction strings generalizing it with
  | nil =>
    simp only [List.length_nil, getListStrings, List.flatMap_nil, h.skip_zero]
  | cons s strings ih =>
    rw [List.flatMap_cons] at h ⊢
    have hright := h.right
    rw [length_putString] at hright
    simp only [List.length_cons, getListStrings, getListString_eq h.left, ih hright]
    rw [List.length_append, length_putString, h.skip_skip (by simp)]

/-- Every chunk is found again, and the iterator moves to its end. -/
theorem takeChunk_encode {c : Chunk} (hc : c.Valid) (h : it.Before c.encode) :
    it.takeChunk = (some c, it.skip c.encode.length) := by
  have hlt : c.encode.length < uintRange := by
    have := h.fits
    have := h.range
    omega
  cases c with
  | number n =>
    simp only [Chunk.encode] at h ⊢
    simp only [takeChunk, getNextChunk_number hc h, length_putNumber]
  | string s =>
    simp only [Chunk.encode, List.length_append, length_putEntity] at h hlt ⊢
    have hright := h.right.holds
    rw [length_putEntity, h.offset_skip (by simp), m_skip] at hright
    simp only [takeChunk, getNextChunk_string (by omega) h, m_skip, hright]
  | list strings =>
    simp only [Chunk.encode, List.length_append, length_putEntity] at h hlt ⊢
    have hcount := length_le_flatMap_putString strings
    have hright := h.right
    rw [length_putEntity] at hright
    simp only [takeChunk, getNextChunk_list (by omega) h.left, getListStrings_eq hright]
    rw [h.skip_skip (by simp)]

theorem takeChunks_encode {chunks : List Chunk} (hvalid : ∀ c ∈ chunks, c.Valid)
    (h : it.Before (chunks.flatMap Chunk.encode)) :
    it.takeChunks chunks.length = (chunks, it.skip (chunks.flatMap Chunk.encode).length) := by
  induction chunks generalizing it with
  | nil =>
    simp only [List.length_nil, takeChunks, List.flatMap_nil, h.skip_zero]
  | cons c chunks ih =>
    rw [List.flatMap_cons] at h ⊢
    rw [List.forall_mem_cons] at hvalid
    simp only [List.length_cons, takeChunks, takeChunk_encode hvalid.1 h.left,
      ih hvalid.2 h.right]
    rw [List.length_append, h.skip_skip (by simp)]

end HeaderChunkIterator

end CyberCache
