import CyberCache.Server.WorkerThreads
import CyberCache.Wire.ChunkBounds

/-!
# Fetching the chunks of a command

Handlers take the chunks of a command with `get_number()`, `get_string()` and `get_list()`. Each of
them has the next chunk stored in a union and reads the member that it needs. Only a debug build
compares the type of the chunk with that member: elsewhere a chunk of another type is taken for what
the handler expects, and if there is no chunk, then for whatever the stack holds. What is left are
the tests of values, `is_valid()` and its relatives.

A decoder is the part of a handler that fetches chunks and tests them. It stops at the first test
that fails.
-/

namespace CyberCache

/-! ## Types of chunks -/

inductive ChunkType where
  | none
  | number
  | string
  | list
deriving DecidableEq, Repr

def ChunkData.type : ChunkData → ChunkType
  | .none => .none
  | .number _ => .number
  | .string _ _ => .string
  | .list _ => .list

def Chunk.type : Chunk → ChunkType
  | .number _ => .number
  | .string _ => .string
  | .list _ => .list

namespace HeaderChunkIterator

def getNextChunkType (it : HeaderChunkIterator) : ChunkType :=
  if 0 < it.remains then
    let c := it.m it.offset
    if c &&& chnkTypeBits = chnkInteger then .number
    else if c &&& chnkTypeBits = chnkString then .string
    else if c &&& chnkTypeBits = chnkList then .list
    else if c &&& chnkSubtypeBits = chnkShortString ∨ c &&& chnkSubtypeBits = chnkLongString then
      .string
    else if c &&& chnkSubtypeBits = chnkShortList ∨ c &&& chnkSubtypeBits = chnkLongList then .list
    else .number
  else .none

/-- Iterators are invalidated by setting their offset to the greatest number. -/
def isValid (it : HeaderChunkIterator) : Bool := it.offset != uintMax

theorem getNextChunkType_eq (it : HeaderChunkIterator) :
    it.getNextChunkType = it.getNextChunk.1.type := by
  by_cases hpos : 0 < it.remains
  · have hc : UInt8.ofNat (it.m it.offset).toNat = it.m it.offset := UInt8.ofNat_toNat
    obtain ⟨t, n, h⟩ | ⟨s, n, h⟩ := first_byte_cases ⟨(it.m it.offset).toNat, UInt8.toNat_lt _⟩
    · rw [hc] at h
      obtain ⟨htype, -⟩ := medium_byte t n
      rw [← h] at htype
      simp only [getNextChunkType, getNextChunk, hpos, if_true, htype]
      fin_cases t <;> simp (disch := decide) only [if_neg, if_pos, ChunkData.type]
    · rw [hc] at h
      obtain ⟨htype, hsubtype, -⟩ := subtype_byte s n
      rw [← h] at htype hsubtype
      simp only [getNextChunkType, getNextChunk, hpos, if_true, htype, hsubtype]
      fin_cases s <;> simp (disch := decide) only [if_neg, if_pos, ChunkData.type]
  · simp only [getNextChunkType, getNextChunk, hpos, if_false, ChunkData.type]

end HeaderChunkIterator

/-! ## The union -/

/-- `LONG_MAX_VAL`, which stands for an invalid number. -/
def longMax : Int := 2 ^ 63 - 1

def ushortMax : Nat := 2 ^ 16 - 1

/-- What the 64 bits of `chunk_data_t` are after a chunk has been stored there. The offset of a
string and the number of strings of a list are the low half, the length of a string is the high
half; the number of strings leaves the other half as it was. -/
def ChunkData.store (data : ChunkData) (old : BitVec 64) : BitVec 64 :=
  match data with
  | .none => old
  | .number n => BitVec.ofInt 64 n
  | .string offset length => BitVec.ofNat 64 (offset + length * uintRange)
  | .list count => BitVec.ofNat 64 (count + old.toNat / uintRange * uintRange)

structure StringChunk where
  offset : Nat
  length : Nat
deriving DecidableEq, Repr

namespace StringChunk

def ofUnion (dc : BitVec 64) : StringChunk := ⟨dc.toNat % uintRange, dc.toNat / uintRange⟩

def isValid (it : HeaderChunkIterator) (s : StringChunk) : Bool :=
  it.isValid && s.offset != uintMax

def isValidName (it : HeaderChunkIterator) (s : StringChunk) : Bool :=
  s.isValid it && 0 < s.length && s.length ≤ ushortMax

end StringChunk

namespace NumberChunk

def isValid (n : Int) : Bool := n != longMax

def isInRange (first last n : Int) : Bool := first ≤ n && n ≤ last

def isValidUint (n : Int) : Bool := isInRange 0 uintMax n

end NumberChunk

/-! ## Decoders -/

structure ChunkCall where
  wanted : ChunkType
  found : ChunkType
  isValid : Bool
deriving DecidableEq, Repr

/-- `stack` is what the union of each call holds before anything is stored there, `calls` are the
calls so far. -/
structure ChunkReader where
  it : HeaderChunkIterator
  stack : Nat → BitVec 64
  calls : List ChunkCall

namespace ChunkReader

/-- A chunk is valid only if there was one of the type that was asked for. -/
def WellTyped (r : ChunkReader) : Prop :=
  ∀ call ∈ r.calls, call.isValid = true → call.found = call.wanted

def fetch (r : ChunkReader) (wanted : ChunkType)
    (isValid : HeaderChunkIterator → BitVec 64 → Bool) : BitVec 64 × ChunkReader :=
  let (data, it) := r.it.getNextChunk
  let dc := data.store (r.stack r.calls.length)
  (dc, { r with it := it, calls := r.calls ++ [⟨wanted, data.type, isValid it dc⟩] })

end ChunkReader

/-- The result is `none` as soon as a test has failed. -/
def Decoder (α : Type) := ChunkReader → Option α × ChunkReader

namespace Decoder

variable {α β : Type}

instance : Monad Decoder where
  pure a r := (some a, r)
  bind d f r :=
    match d r with
    | (some a, r) => f a r
    | (none, r) => (none, r)

def check (p : Bool) : Decoder Unit := fun r => (if p then some () else none, r)

def ofOption (o : Option α) : Decoder α := fun r => (o, r)

def ask (f : HeaderChunkIterator → α) : Decoder α := fun r => (some (f r.it), r)

def getNumber : Decoder Int := fun r =>
  let (dc, r) := r.fetch .number fun _ dc => NumberChunk.isValid dc.toInt
  (some dc.toInt, r)

def getString : Decoder StringChunk := fun r =>
  let (dc, r) := r.fetch .string fun it dc => (StringChunk.ofUnion dc).isValid it
  (some (.ofUnion dc), r)

/-- The number of strings. A list is valid if its iterator is. -/
def getList : Decoder Nat := fun r =>
  let (dc, r) := r.fetch .list fun it _ => it.isValid
  (some (dc.toNat % uintRange), r)

def getListString : Decoder StringChunk := fun r =>
  let (length, it) := r.it.getLength uintRange 0
  (some ⟨it.offset, length⟩, { r with it := it.skip length })

def checkName (s : StringChunk) : Decoder (List UInt8) := do
  check (← ask fun it => s.isValidName it)
  ask fun it => it.m.slice s.offset s.length

def takeName : Decoder (List UInt8) := do
  let s ← getString
  checkName s

def takeNumber (isValid : Int → Bool) : Decoder Int := do
  let n ← getNumber
  check (isValid n)
  return n

def takeListNames : Nat → Decoder (List (List UInt8))
  | 0 => return []
  | count + 1 => do
    let s ← getListString
    let name ← checkName s
    let names ← takeListNames count
    return name :: names

def takeNames : Decoder (List (List UInt8)) := do
  let count ← getList
  check (← ask fun it => it.isValid)
  takeListNames count

def noMoreChunks : Decoder Unit := do
  check (← ask fun it => !it.hasMoreChunks)

end Decoder

end CyberCache
