import CyberCache.Commands.Slots

/-!
# Decoding within the header

An iterator over the chunks of a header computes with 32-bit offsets, and outside of debug builds
nobody tests that what it takes lies within the header. Here the same chunks are taken from the list
of bytes that the header has left, with natural numbers, and what does not fit into that list is an
error. The iterator stays within the header exactly as long as there is no such error.
-/

namespace CyberCache

open ByteMemory

/-! ## Chunks in a list of bytes -/

namespace CheckedDecoding

/-- The number behind the first byte `c` of a chunk, and the number of bytes up to its end. -/
def countIn (c : UInt8) (rest : List UInt8) : Option (Nat × Nat) :=
  let k := (c &&& chnkShortMask).toNat
  if k < 4 then
    if k + 1 ≤ rest.length then some (ofBytesLE (rest.take (k + 1)), k + 2) else none
  else some (0, 0)

/-- A string of the given length that begins behind the first `taken` bytes. -/
def textIn (pos : Nat) (bytes : List UInt8) (taken length : Nat) : Option (ChunkData × Nat) :=
  if taken + length ≤ bytes.length then some (.string (pos + taken) length, taken + length)
  else none

/-- The first chunk of the bytes that begin at offset `pos`, and the number of bytes it takes. -/
def chunkIn (pos : Nat) : List UInt8 → Option (ChunkData × Nat)
  | [] => some (.none, 0)
  | c :: rest =>
    let long := (c &&& chnkLongMask).toNat + chnkMediumBias
    let short := (c &&& chnkShortMask).toNat
    if c &&& chnkTypeBits = chnkInteger then some (.number long, 1)
    else if c &&& chnkTypeBits = chnkString then textIn pos (c :: rest) 1 long
    else if c &&& chnkTypeBits = chnkList then some (.list long, 1)
    else if c &&& chnkSubtypeBits = chnkSmallNegative then
      some (.number (-(short : Int) + chnkSmallNegativeBias), 1)
    else if c &&& chnkSubtypeBits = chnkBigNegative then
      (countIn c rest).map fun (count, taken) =>
        (.number (-(count : Int) + chnkBigNegativeBias), taken)
    else if c &&& chnkSubtypeBits = chnkSmallInteger then some (.number short, 1)
    else if c &&& chnkSubtypeBits = chnkShortString then textIn pos (c :: rest) 1 short
    else if c &&& chnkSubtypeBits = chnkShortList then some (.list short, 1)
    else if c &&& chnkSubtypeBits = chnkBigInteger then
      (countIn c rest).map fun (count, taken) =>
        (.number ((count + chnkLargeBias) % uintRange : Nat), taken)
    else if c &&& chnkSubtypeBits = chnkLongString then
      (countIn c rest).bind fun (count, taken) =>
        textIn pos (c :: rest) taken ((count + chnkLargeBias) % uintRange)
    else
      (countIn c rest).map fun (count, taken) =>
        (.list ((count + chnkLargeBias) % uintRange), taken)

def lengthIn : List UInt8 → (length : Nat) → Option (Nat × Nat)
  | [], _ => none
  | c :: rest, length =>
    let length := (length + c.toNat) % uintRange
    if c = 255 then (lengthIn rest length).map fun (n, taken) => (n, taken + 1)
    else some (length, 1)

def listStringIn (pos : Nat) (bytes : List UInt8) : Option (StringChunk × Nat) :=
  (lengthIn bytes 0).bind fun (length, taken) =>
    if taken + length ≤ bytes.length then some (⟨pos + taken, length⟩, taken + length) else none

end CheckedDecoding

/-! ## Iterators and lists of bytes -/

/-- A string lies between two offsets; the number of strings in a list has 32 bits. -/
def ChunkData.Between (first last : Nat) : ChunkData → Prop
  | .string offset length => first ≤ offset ∧ offset + length ≤ last
  | .list count => count < uintRange
  | _ => True

theorem ChunkData.Between.mono {data : ChunkData} {first last first' last' : Nat}
    (h : data.Between first last) (hfirst : first' ≤ first) (hlast : last ≤ last') :
    data.Between first' last' := by
  cases data with
  | string offset length => exact ⟨hfirst.trans h.1, h.2.trans hlast⟩
  | list count => exact h
  | number n => trivial
  | none => trivial

namespace HeaderChunkIterator

open CheckedDecoding

/-- The iterator has just these bytes left. -/
structure Spans (it : HeaderChunkIterator) (bytes : List UInt8) : Prop where
  holds : it.m.slice it.offset it.remains = bytes
  range : it.offset + it.remains < uintRange

variable {it : HeaderChunkIterator} {bytes rest : List UInt8} {c : UInt8} {n : Nat}

namespace Spans

theorem remains_eq (h : it.Spans bytes) : it.remains = bytes.length := by
  rw [← h.holds, length_slice]

theorem before (h : it.Spans bytes) : it.Before bytes where
  holds := by rw [← h.remains_eq, h.holds]
  fits := h.remains_eq.ge
  range := h.range

theorem skip_eq (h : it.Spans bytes) (hn : n ≤ bytes.length) :
    it.skip n = ⟨it.m, it.offset + n, it.remains - n, it.inBounds⟩ :=
  h.before.skip_eq hn

theorem skip (h : it.Spans bytes) (hn : n ≤ bytes.length) : (it.skip n).Spans (bytes.drop n) := by
  have hrange := h.range
  have hremains := h.remains_eq
  rw [h.skip_eq hn]
  refine ⟨?_, by simp only; omega⟩
  rw [← h.holds, drop_slice]

theorem inBounds_skip (h : it.Spans bytes) (hn : ¬n ≤ bytes.length) : ¬(it.skip n).inBounds := by
  rw [HeaderChunkIterator.inBounds_skip, h.remains_eq]
  exact fun h => hn h.2

theorem head (h : it.Spans (c :: rest)) : it.m it.offset = c := h.before.head

theorem uintAdd_offset (h : it.Spans (c :: rest)) : uintAdd it.offset 1 = it.offset + 1 := by
  have hrange := h.range
  have hremains := h.remains_eq
  rw [List.length_cons] at hremains
  exact uintAdd_eq (by omega)

theorem getCount (h : it.Spans (c :: rest)) :
    match countIn c rest with
    | some (count, taken) =>
      it.getCount c = (count, it.skip taken) ∧ taken ≤ (c :: rest).length
    | none => ¬(it.getCount c).2.inBounds := by
  have hrest : it.m.slice (it.offset + 1) rest.length = rest := by
    have hholds := h.before.tail.holds
    rwa [h.before.offset_skip (by simp), m_skip] at hholds
  unfold countIn HeaderChunkIterator.getCount
  dsimp only
  by_cases hk : (c &&& chnkShortMask).toNat < 4
  · simp only [hk, if_true]
    split_ifs with hlength
    · refine ⟨Prod.ext ?_ rfl, by simpa using hlength⟩
      dsimp only
      obtain ⟨j, hj⟩ := Nat.exists_eq_add_of_le hlength
      rw [hj, slice_add] at hrest
      rw [h.uintAdd_offset, readLE, ← hrest, List.take_left' (length_slice _ _ _)]
    · exact h.inBounds_skip (by simpa using hlength)
  · simp only [hk, if_false]
    exact ⟨Prod.ext rfl h.before.skip_zero.symm, Nat.zero_le _⟩

/-- The next chunk is the first one of the bytes that are left. -/
def Finds (it : HeaderChunkIterator) (bytes : List UInt8) (next : ChunkData × HeaderChunkIterator) :
    Option (ChunkData × Nat) → Prop
  | some (data, taken) => next = (data, it.skip taken) ∧ taken ≤ bytes.length ∧
      data.Between it.offset (it.offset + bytes.length)
  | none => ¬next.2.inBounds

theorem finds_ite {p : Prop} [Decidable p] {next next' : ChunkData × HeaderChunkIterator}
    {found found' : Option (ChunkData × Nat)} (h : Finds it bytes next found)
    (h' : Finds it bytes next' found') :
    Finds it bytes (if p then next else next') (if p then found else found') := by
  split_ifs
  · exact h
  · exact h'

theorem finds_text (h : it.Spans (c :: rest)) (length : Nat) :
    Finds it (c :: rest) (.string (uintAdd it.offset 1) length, it.skip (length + 1))
      (textIn it.offset (c :: rest) 1 length) := by
  rw [h.uintAdd_offset, textIn, Nat.add_comm length]
  split_ifs with hlength
  · exact ⟨rfl, hlength, Nat.le_add_right _ _, by omega⟩
  · exact h.inBounds_skip hlength

theorem finds_count (h : it.Spans (c :: rest)) (data : Nat → ChunkData)
    (hdata : ∀ count first last, (data count).Between first last) :
    Finds it (c :: rest) (data (it.getCount c).1, (it.getCount c).2)
      ((countIn c rest).map fun (count, taken) => (data count, taken)) := by
  have hcount := h.getCount
  generalize countIn c rest = found at hcount
  match found with
  | some (count, taken) =>
    obtain ⟨heq, hle⟩ := hcount
    rw [heq]
    exact ⟨rfl, hle, hdata _ _ _⟩
  | none => exact hcount

theorem finds_longText (h : it.Spans (c :: rest)) :
    Finds it (c :: rest)
      (.string (it.getCount c).2.offset (uintAdd (it.getCount c).1 chnkLargeBias),
        (it.getCount c).2.skip (uintAdd (it.getCount c).1 chnkLargeBias))
      ((countIn c rest).bind fun (count, taken) =>
        textIn it.offset (c :: rest) taken ((count + chnkLargeBias) % uintRange)) := by
  have hcount := h.getCount
  generalize countIn c rest = found at hcount
  match found with
  | some (count, taken) =>
    obtain ⟨heq, hle⟩ := hcount
    rw [heq, Option.bind_some]
    dsimp only [textIn]
    rw [h.before.offset_skip hle, uintAdd]
    split_ifs with hlength
    · exact ⟨Prod.ext rfl (h.before.skip_skip hlength), hlength, Nat.le_add_right _ _, by omega⟩
    · rw [List.length_cons] at hlength hle
      refine (h.skip hle).inBounds_skip ?_
      rw [List.length_drop, List.length_cons]
      omega
  | none => exact fun hin => hcount (HeaderChunkIterator.inBounds_skip.mp hin).1

theorem getNextChunk (h : it.Spans bytes) :
    Finds it bytes it.getNextChunk (chunkIn it.offset bytes) := by
  cases bytes with
  | nil =>
    have hremains : it.remains = 0 := h.remains_eq
    rw [HeaderChunkIterator.getNextChunk, hremains, if_neg (Nat.lt_irrefl 0)]
    exact ⟨Prod.ext rfl h.before.skip_zero.symm, Nat.zero_le _, trivial⟩
  | cons c rest =>
    have hpos : 0 < it.remains := h.before.remains_pos (Nat.succ_pos _)
    have hle : 1 ≤ (c :: rest).length := Nat.succ_le_succ (Nat.zero_le _)
    have hnumber (n : Int) :
        Finds it (c :: rest) (.number n, it.skip 1) (some (.number n, 1)) := ⟨rfl, hle, trivial⟩
    have hlist {count : Nat} (hcount : count < uintRange) :
        Finds it (c :: rest) (.list count, it.skip 1) (some (.list count, 1)) :=
      ⟨rfl, hle, hcount⟩
    have hshort : (c &&& chnkShortMask).toNat < uintRange :=
      (UInt8.toNat_lt _).trans (by decide)
    have hlong : (c &&& chnkLongMask).toNat + chnkMediumBias < uintRange :=
      (Nat.add_lt_add_right (UInt8.toNat_lt _) _).trans (by decide)
    rw [HeaderChunkIterator.getNextChunk, if_pos hpos, h.head, chunkIn]
    dsimp only
    apply finds_ite (hnumber _)
    apply finds_ite (h.finds_text _)
    apply finds_ite (hlist hlong)
    apply finds_ite (hnumber _)
    apply finds_ite (h.finds_count (fun count => .number (-(count : Int) + chnkBigNegativeBias))
      fun _ _ _ => trivial)
    apply finds_ite (hnumber _)
    apply finds_ite (h.finds_text _)
    apply finds_ite (hlist hshort)
    apply finds_ite (h.finds_count (fun count => .number (uintAdd count chnkLargeBias))
      fun _ _ _ => trivial)
    apply finds_ite h.finds_longText
    exact h.finds_count (fun count => .list (uintAdd count chnkLargeBias)) fun _ _ _ =>
      Nat.mod_lt _ (by decide)

theorem getLength (h : it.Spans bytes) {fuel : Nat} (hfuel : bytes.length < fuel) (length : Nat) :
    match lengthIn bytes length with
    | some (n, taken) => it.getLength fuel length = (n, it.skip taken) ∧ taken ≤ bytes.length
    | none => ¬(it.getLength fuel length).2.inBounds := by
  induction bytes generalizing it fuel length with
  | nil =>
    obtain ⟨fuel, rfl⟩ : ∃ k, fuel = k + 1 := ⟨fuel - 1, by omega⟩
    have hskip : ¬(it.skip 1).inBounds := h.inBounds_skip (by simp)
    rw [lengthIn, HeaderChunkIterator.getLength]
    dsimp only
    split_ifs
    · exact fun hin => hskip (inBounds_getLength hin)
    · exact hskip
  | cons c rest ih =>
    obtain ⟨fuel, rfl⟩ : ∃ k, fuel = k + 1 := ⟨fuel - 1, by omega⟩
    have hone : 1 ≤ (c :: rest).length := Nat.succ_le_succ (Nat.zero_le _)
    rw [lengthIn, HeaderChunkIterator.getLength, h.head]
    dsimp only
    by_cases hc : c = 255
    · rw [if_pos hc, if_pos hc]
      have hrest := ih (h.skip hone) (by simpa using hfuel) ((length + c.toNat) % uintRange)
      rw [uintAdd]
      generalize lengthIn rest ((length + c.toNat) % uintRange) = found at hrest
      rcases found with _ | ⟨n, taken⟩
      · exact hrest
      · obtain ⟨heq, hle⟩ := hrest
        refine ⟨?_, Nat.succ_le_succ hle⟩
        rw [heq, h.before.skip_skip (by rw [List.length_cons]; omega), Nat.add_comm]
    · rw [if_neg hc, if_neg hc]
      exact ⟨rfl, hone⟩

end Spans

end HeaderChunkIterator

/-! ## Sequences of calls -/

def StringChunk.Inside (first last : Nat) (s : StringChunk) : Prop :=
  first ≤ s.offset ∧ s.offset + s.length ≤ last

/-- The calls that fetch something from the header; the last is made on a list. -/
inductive ChunkRequest where
  | number
  | string
  | list
  | listString
deriving DecidableEq, Repr

namespace ChunkReader

open Decoder CheckedDecoding

def validString (result : Option StringChunk × ChunkReader) : List StringChunk :=
  result.1.toList.filter fun s => s.isValid result.2.it

def perform (r : ChunkReader) : ChunkRequest → List StringChunk × ChunkReader
  | .number => ([], (getNumber r).2)
  | .string => (validString (getString r), (getString r).2)
  | .list => ([], (getList r).2)
  | .listString => (validString (getListString r), (getListString r).2)

def performAll : ChunkReader → List ChunkRequest → List StringChunk × ChunkReader
  | r, [] => ([], r)
  | r, request :: requests =>
    let (strings, r) := r.perform request
    let (more, r) := r.performAll requests
    (strings ++ more, r)

end ChunkReader

/-- Bytes of a header and calls that are made to fetch chunks from it. -/
structure StaysInside (f : MessageFormat) (sb : SharedBuffers) (stack : Nat → BitVec 64)
    (requests : List ChunkRequest) : Prop where
  checked : sb.header 0 &&& descHeaderBits ≠ descNoHeader →
    f.payloadInfoOffset (sb.header 0) + payloadInfoLength (sb.header 0) ≤ f.headerSize sb.header
  inBounds : (ChunkReader.performAll ⟨.create f sb, stack, []⟩ requests).2.it.inBounds = true
  inside : ∀ s ∈ (ChunkReader.performAll ⟨.create f sb, stack, []⟩ requests).1,
    s.Inside (HeaderChunkIterator.create f sb).offset
      ((HeaderChunkIterator.create f sb).offset + (HeaderChunkIterator.create f sb).remains)

namespace CheckedDecoding

/-- What `get_string()` finds is a string, or what it takes for one is invalid or happens to lie
between the given offsets. `pos` is the offset behind it, `dc` what the stack holds. -/
def Tolerates (first last pos : Nat) (dc : BitVec 64) : ChunkData → Prop
  | .string _ _ => True
  | .number n => pos = uintMax ∨ n % uintRange = uintMax ∨ first ≤ n ∧ n ≤ last
  | .list count => pos = uintMax ∨ count = uintMax ∨
      first ≤ count ∧ count + dc.toNat / uintRange ≤ last
  | .none => pos = uintMax ∨ dc.toNat % uintRange = uintMax ∨
      first ≤ dc.toNat % uintRange ∧ dc.toNat % uintRange + dc.toNat / uintRange ≤ last

/-- All that the calls take is there. -/
def Fits (first last : Nat) (stack : Nat → BitVec 64) :
    List ChunkRequest → (pos : Nat) → (bytes : List UInt8) → (k : Nat) → Prop
  | [], _, _, _ => True
  | .listString :: requests, pos, bytes, k =>
    match listStringIn pos bytes with
    | some (_, taken) => Fits first last stack requests (pos + taken) (bytes.drop taken) k
    | none => False
  | request :: requests, pos, bytes, k =>
    match chunkIn pos bytes with
    | some (data, taken) =>
      (request = .string → Tolerates first last (pos + taken) (stack k) data) ∧
        Fits first last stack requests (pos + taken) (bytes.drop taken) (k + 1)
    | none => False

theorem fits_cons {first last : Nat} {stack : Nat → BitVec 64} {request : ChunkRequest}
    (h : request ≠ .listString) {requests : List ChunkRequest} {pos : Nat} {bytes : List UInt8}
    {k : Nat} :
    Fits first last stack (request :: requests) pos bytes k =
      match chunkIn pos bytes with
      | some (data, taken) =>
        (request = .string → Tolerates first last (pos + taken) (stack k) data) ∧
          Fits first last stack requests (pos + taken) (bytes.drop taken) (k + 1)
      | none => False := by
  cases request with
  | listString => exact absurd rfl h
  | number | string | list => rfl

/-- The size field of a header covers the parts in front of the chunks, and the size of the header
is a 32-bit number. -/
def SizeFits (f : MessageFormat) (m : ByteMemory) : Prop :=
  let length := headerDataSizeLength (m 0)
  m 0 &&& descHeaderBits ≠ descNoHeader →
    f.fixedLength (m 0) + payloadInfoLength (m 0) ≤ m.readLE 1 length ∧
      length + 1 + m.readLE 1 length < uintRange

theorem sizeFits_iff (f : MessageFormat) (m : ByteMemory) : SizeFits f m ↔
    (m 0 &&& descHeaderBits ≠ descNoHeader →
      f.payloadInfoOffset (m 0) + payloadInfoLength (m 0) ≤ f.headerSize m) := by
  unfold SizeFits MessageFormat.payloadInfoOffset MessageFormat.headerSize
  dsimp only
  refine imp_congr_right fun hbits => ?_
  rw [if_neg hbits]
  have hlength : headerDataSizeLength (m 0) ≤ 4 := by
    unfold headerDataSizeLength
    split_ifs <;> decide
  have hlt : m.readLE 1 (headerDataSizeLength (m 0)) < uintRange :=
    (readLE_lt m 1 _).trans_le (Nat.pow_le_pow_right (by decide) hlength)
  simp only [uintRange] at *
  omega

end CheckedDecoding

namespace ChunkReader

open Decoder CheckedDecoding HeaderChunkIterator

variable {r : ChunkReader} {bytes : List UInt8}

theorem getListString_eq {n : Nat} {it : HeaderChunkIterator}
    (h : r.it.getLength uintRange 0 = (n, it)) :
    Decoder.getListString r = (some ⟨it.offset, n⟩, { r with it := it.skip n }) := by
  unfold Decoder.getListString
  rw [h]

theorem getListString_spans (h : r.it.Spans bytes) :
    match listStringIn r.it.offset bytes with
    | some (s, taken) =>
      Decoder.getListString r = (some s, { r with it := r.it.skip taken }) ∧
        taken ≤ bytes.length ∧ r.it.offset ≤ s.offset ∧ s.offset + s.length = r.it.offset + taken
    | none => ¬(Decoder.getListString r).2.it.inBounds := by
  have hfuel : bytes.length < uintRange := by
    have hrange := h.range
    have hremains := h.remains_eq
    omega
  have hlength := h.getLength hfuel 0
  obtain ⟨n', it', heq'⟩ : ∃ n it, r.it.getLength uintRange 0 = (n, it) := ⟨_, _, Prod.mk.eta.symm⟩
  rw [heq'] at hlength
  rw [getListString_eq heq']
  unfold listStringIn
  generalize lengthIn bytes 0 = found at hlength
  match found with
  | none => exact fun hin => hlength (inBounds_skip.mp hin).1
  | some (n, taken) =>
    obtain ⟨heq, hle⟩ := hlength
    obtain ⟨rfl, rfl⟩ := Prod.mk.inj heq
    rw [Option.bind_some]
    dsimp only
    rw [h.before.offset_skip hle]
    split_ifs with hn
    · rw [h.before.skip_skip hn]
      exact ⟨rfl, hn, Nat.le_add_right _ _, Nat.add_assoc _ _ _⟩
    · refine (h.skip hle).inBounds_skip ?_
      rw [List.length_drop]
      omega

theorem perform_fetch (r : ChunkReader) {request : ChunkRequest} (h : request ≠ .listString) :
    (r.perform request).2.it = r.it.getNextChunk.2 ∧ (r.perform request).2.stack = r.stack ∧
      (r.perform request).2.calls.length = r.calls.length + 1 := by
  cases request with
  | listString => exact absurd rfl h
  | number | string | list =>
    refine ⟨rfl, rfl, ?_⟩
    exact List.length_append

theorem inBounds_perform {request : ChunkRequest} (h : (r.perform request).2.it.inBounds) :
    r.it.inBounds := by
  by_cases hrequest : request = .listString
  · subst hrequest
    obtain ⟨n, it, heq⟩ : ∃ n it, r.it.getLength uintRange 0 = (n, it) := ⟨_, _, Prod.mk.eta.symm⟩
    rw [perform, getListString_eq heq] at h
    have hin : (r.it.getLength uintRange 0).2.inBounds := by
      rw [heq]
      exact (inBounds_skip.mp h).1
    exact inBounds_getLength hin
  · rw [(r.perform_fetch hrequest).1] at h
    exact inBounds_getNextChunk h

theorem inBounds_performAll {requests : List ChunkRequest}
    (h : (r.performAll requests).2.it.inBounds) : r.it.inBounds := by
  induction requests generalizing r with
  | nil => exact h
  | cons request requests ih => exact inBounds_perform (ih h)

theorem toNat_store_list_div {count : Nat} (hcount : count < uintRange) (old : BitVec 64) :
    ((ChunkData.list count).store old).toNat / uintRange = old.toNat / uintRange := by
  have hlt := old.isLt
  simp only [ChunkData.store, BitVec.toNat_ofNat, uintRange] at *
  omega

theorem toNat_store_number_of_nonneg {n : Int} (hn : 0 ≤ n ∧ n ≤ uintMax) (old : BitVec 64) :
    (((ChunkData.number n).store old).toNat : Int) = n := by
  have hmax : (uintMax : Int) = 2 ^ 32 - 1 := by decide
  simp only [ChunkData.store, BitVec.toNat_ofInt]
  omega

theorem toNat_store_number_of_neg {n : Int} (hn : -(2 * uintRange : Int) ≤ n ∧ n < 0)
    (old : BitVec 64) :
    uintRange - 2 ≤ ((ChunkData.number n).store old).toNat / uintRange := by
  simp only [ChunkData.store, BitVec.toNat_ofInt, uintRange] at *
  omega

theorem string_tolerated {data : ChunkData} {it : HeaderChunkIterator} {first last : Nat}
    (hnext : r.it.getNextChunk = (data, it)) (hbetween : data.Between first last)
    (hlast : last < uintRange) (hfirst : data ≠ .none → 2 ≤ first) :
    (∀ s ∈ (r.perform .string).1, s.Inside first last) ↔
      Tolerates first last it.offset (r.stack r.calls.length) data := by
  generalize hdc : r.stack r.calls.length = dc
  have hstring : (r.perform .string).1 =
      [StringChunk.ofUnion (data.store dc)].filter fun s => s.isValid it := by
    rw [perform, ← hdc]
    simp only [validString, getString, fetch_eq hnext]
    rfl
  rw [hstring]
  simp only [List.mem_filter, List.mem_singleton, and_imp, forall_eq, StringChunk.isValid,
    HeaderChunkIterator.isValid, Bool.and_eq_true, bne_iff_ne, StringChunk.ofUnion,
    StringChunk.Inside]
  cases data with
  | none =>
    simp only [Tolerates, ChunkData.store]
    tauto
  | string offset length =>
    obtain ⟨hle, hend⟩ := hbetween
    obtain ⟨hoffset, hlength⟩ :=
      toNat_store_string (by omega : offset < uintRange) (by omega : length < uintRange) dc
    rw [hoffset, hlength]
    exact iff_of_true (fun _ _ => ⟨hle, hend⟩) trivial
  | list count =>
    have hcount : count < uintRange := hbetween
    rw [toNat_store_list hcount, toNat_store_list_div hcount, Tolerates]
    tauto
  | number n =>
    have hrange := getNextChunk_number_range (congrArg Prod.fst hnext)
    have hlow := toNat_store_number n dc
    have hfirst := hfirst (by simp)
    rw [Tolerates]
    by_cases hn : 0 ≤ n
    · have hnat := toNat_store_number_of_nonneg ⟨hn, hrange.2⟩ dc
      generalize ((ChunkData.number n).store dc).toNat = stored at *
      simp only [uintRange, uintMax] at *
      omega
    · have hhigh := toNat_store_number_of_neg ⟨hrange.1, by omega⟩ dc
      generalize ((ChunkData.number n).store dc).toNat = stored at *
      simp only [uintRange, uintMax] at *
      omega

section Step

variable {first last : Nat} (h : r.it.Spans bytes) (hfirst : first ≤ r.it.offset)
  (hlast : r.it.offset + bytes.length = last)

include h hfirst hlast

theorem perform_listString :
    match listStringIn r.it.offset bytes with
    | some (_, taken) => (r.perform .listString).2 = { r with it := r.it.skip taken } ∧
        taken ≤ bytes.length ∧ ∀ s ∈ (r.perform .listString).1, s.Inside first last
    | none => ¬(r.perform .listString).2.it.inBounds := by
  have hfound := getListString_spans h
  generalize listStringIn r.it.offset bytes = found at hfound
  match found with
  | none => exact hfound
  | some (s, taken) =>
    obtain ⟨heq, hle, hge, hend⟩ := hfound
    rw [perform, heq]
    refine ⟨rfl, hle, fun s' hs' => ?_⟩
    obtain rfl : s' = s := by simpa [validString] using (List.mem_filter.mp hs').1
    unfold StringChunk.Inside
    omega

theorem perform_chunk {request : ChunkRequest} (hrequest : request ≠ .listString)
    (hpos : bytes ≠ [] → 2 ≤ first) :
    match chunkIn r.it.offset bytes with
    | some (data, taken) => (r.perform request).2.it = r.it.skip taken ∧ taken ≤ bytes.length ∧
        ((∀ s ∈ (r.perform request).1, s.Inside first last) ↔
          (request = .string →
            Tolerates first last (r.it.offset + taken) (r.stack r.calls.length) data))
    | none => ¬(r.perform request).2.it.inBounds := by
  obtain ⟨hit, -⟩ := r.perform_fetch hrequest
  have hfound := h.getNextChunk
  cases hchunk : chunkIn r.it.offset bytes with
  | none =>
    rw [hchunk] at hfound
    rw [hit]
    exact hfound
  | some found =>
    obtain ⟨data, taken⟩ := found
    rw [hchunk] at hfound
    obtain ⟨heq, hle, hbetween⟩ := hfound
    refine ⟨by rw [hit, heq], hle, ?_⟩
    have hdata : data ≠ .none → 2 ≤ first := by
      intro hdata
      refine hpos fun hnil => hdata ?_
      rw [hnil] at hchunk
      exact (Prod.mk.inj (Option.some.inj hchunk)).1.symm
    have hrange : last < uintRange := by
      rw [← hlast, ← h.remains_eq]
      exact h.range
    cases request with
    | listString => exact absurd rfl hrequest
    | number | list => exact iff_of_true (fun s hs => absurd hs (by simp [perform])) (by simp)
    | string =>
      rw [string_tolerated heq (hbetween.mono hfirst hlast.le) hrange hdata,
        h.before.offset_skip hle]
      exact ⟨fun h _ => h, fun h => h rfl⟩

end Step

theorem performAll_iff (requests : List ChunkRequest) {first last : Nat} (h : r.it.Spans bytes)
    (hin : r.it.inBounds) (hfirst : first ≤ r.it.offset)
    (hlast : r.it.offset + bytes.length = last) (hpos : bytes ≠ [] → 2 ≤ first) :
    ((r.performAll requests).2.it.inBounds = true ∧
      ∀ s ∈ (r.performAll requests).1, s.Inside first last) ↔
      Fits first last r.stack requests r.it.offset bytes r.calls.length := by
  induction requests generalizing r bytes with
  | nil => exact ⟨fun _ => trivial, fun _ => ⟨hin, fun s hs => absurd hs (by simp [performAll])⟩⟩
  | cons request requests ih =>
    have hsplit : (∀ s ∈ (r.performAll (request :: requests)).1, s.Inside first last) ↔
        (∀ s ∈ (r.perform request).1, s.Inside first last) ∧
        ∀ s ∈ ((r.perform request).2.performAll requests).1, s.Inside first last :=
      List.forall_mem_append
    have hsnd : (r.performAll (request :: requests)).2 =
      ((r.perform request).2.performAll requests).2 := rfl
    rw [hsplit, hsnd]
    -- What the rest of the calls finds if this one has taken `taken` bytes.
    have hrest {taken : Nat} (hle : taken ≤ bytes.length)
        (hit : (r.perform request).2.it = r.it.skip taken) := by
      have hspans := h.skip hle
      have hoffset := h.before.offset_skip hle
      have hinBounds : (r.it.skip taken).inBounds :=
        HeaderChunkIterator.inBounds_skip.mpr ⟨hin, h.remains_eq ▸ hle⟩
      rw [← hit] at hspans hoffset hinBounds
      have hih := ih hspans hinBounds (by omega) (by rw [List.length_drop]; omega) fun hne =>
        hpos (by rintro rfl; simp at hne)
      rwa [hoffset] at hih
    have hoverrun (hout : ¬(r.perform request).2.it.inBounds) :
        ¬((r.perform request).2.performAll requests).2.it.inBounds :=
      fun hin => hout (inBounds_performAll hin)
    by_cases hrequest : request = .listString
    · subst hrequest
      have hstep := perform_listString h hfirst hlast
      rw [Fits]
      generalize listStringIn r.it.offset bytes = found at hstep
      match found with
      | none => exact iff_of_false (fun hall => hoverrun hstep hall.1) fun hfalse => hfalse
      | some (s, taken) =>
        obtain ⟨hsnd, hle, hinside⟩ := hstep
        have hiff := hrest hle (by rw [hsnd])
        rw [hsnd] at hiff ⊢
        refine Iff.trans ?_ hiff
        exact ⟨fun ⟨hin, _, hall⟩ => ⟨hin, hall⟩, fun ⟨hin, hall⟩ => ⟨hin, hinside, hall⟩⟩
    · obtain ⟨-, hstack, hcalls⟩ := r.perform_fetch hrequest
      have hstep := perform_chunk h hfirst hlast hrequest hpos
      rw [fits_cons hrequest]
      generalize chunkIn r.it.offset bytes = found at hstep
      match found with
      | none => exact iff_of_false (fun hall => hoverrun hstep hall.1) fun hfalse => hfalse
      | some (data, taken) =>
        obtain ⟨hit, hle, hinside⟩ := hstep
        have hiff := hrest hle hit
        rw [hstack, hcalls] at hiff
        dsimp only
        rw [hinside, ← hiff]
        exact ⟨fun ⟨hin, hs, hall⟩ => ⟨hs, hin, hall⟩, fun ⟨hs, hin, hall⟩ => ⟨hin, hs, hall⟩⟩

end ChunkReader

namespace HeaderChunkIterator

theorem create_within (f : MessageFormat) (sb : SharedBuffers) :
    (create f sb).offset + (create f sb).remains < uintRange ∧
      ((create f sb).remains ≠ 0 → 2 ≤ (create f sb).offset) := by
  unfold create ofHeader
  cases hinfo : f.getHeaderInfo sb.header with
  | none => exact ⟨(by decide : 0 + 0 < uintRange), fun h => absurd rfl h⟩
  | some info =>
    obtain ⟨offset, size⟩ := info
    unfold MessageFormat.getHeaderInfo at hinfo
    split_ifs at hinfo with hbits
    dsimp only at hinfo
    split_ifs at hinfo with hoffset
    cases hinfo
    have hsize : f.headerSize sb.header < uintRange := by
      rw [MessageFormat.headerSize, if_neg hbits]
      exact Nat.mod_lt _ (by decide)
    have hlength : 1 ≤ headerDataSizeLength (sb.header 0) := by
      unfold headerDataSizeLength
      rw [if_neg hbits]
      split_ifs <;> decide
    dsimp only [MessageFormat.payloadInfoOffset] at hoffset ⊢
    omega

theorem create_spans (f : MessageFormat) (sb : SharedBuffers) :
    (create f sb).Spans (sb.header.slice (create f sb).offset (create f sb).remains) ∧
      (create f sb).inBounds = true := by
  obtain ⟨hrange, -⟩ := create_within f sb
  unfold create ofHeader at *
  split at hrange <;> exact ⟨⟨rfl, hrange⟩, rfl⟩

end HeaderChunkIterator

open CheckedDecoding

/-- For every header, every contents of the stack and every sequence of calls, decoding stays inside
the header if and only if the size field covers the parts in front of the chunks and all that the
calls take is there. -/
theorem staysInside_iff (f : MessageFormat) (sb : SharedBuffers) (stack : Nat → BitVec 64)
    (requests : List ChunkRequest) :
    let it := HeaderChunkIterator.create f sb
    StaysInside f sb stack requests ↔ SizeFits f sb.header ∧
      Fits it.offset (it.offset + it.remains) stack requests it.offset
        (sb.header.slice it.offset it.remains) 0 := by
  intro it
  obtain ⟨-, hpos⟩ := HeaderChunkIterator.create_within f sb
  obtain ⟨hspans, hin⟩ := HeaderChunkIterator.create_spans f sb
  have hall := ChunkReader.performAll_iff (r := ⟨it, stack, []⟩) requests hspans hin le_rfl
    (by rw [← hspans.remains_eq]) fun hne => hpos fun hzero => hne (by rw [hzero]; rfl)
  constructor
  · intro h
    exact ⟨(sizeFits_iff f sb.header).mpr h.checked, hall.mp ⟨h.inBounds, h.inside⟩⟩
  · rintro ⟨hsize, hfits⟩
    obtain ⟨hinBounds, hinside⟩ := hall.mpr hfits
    exact ⟨(sizeFits_iff f sb.header).mp hsize, hinBounds, hinside⟩

/-- A READ command whose only chunk is the first byte of a string of 71 bytes. -/
theorem read_leaves_header :
    let call := CommandReader.read (.create (.create (fun _ => 0) fun _ => 0))
      ⟨[0x04, 2, 0x21, 0x7F], List.replicate 3 (.transfer 3)⟩
    call.outcome = .returns .ok ∧
      ¬StaysInside commandFormat call.reader.sb (fun _ => 0) [.string] := by
  refine ⟨by decide, fun h => ?_⟩
  exact absurd h.inBounds (by decide)

end CyberCache
