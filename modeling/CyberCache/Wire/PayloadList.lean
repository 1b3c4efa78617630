import CyberCache.Wire.Chunks

/-!
# Lists of strings in a payload

`PayloadListChunkBuilder` stores strings one behind the other in a buffer that grows by a guess: the
average length of the strings so far, times a number of strings that depends on how many there are.
Sizes and the number of strings are 32-bit numbers; near the limit of 4 GB the buffer is extended to
the limit exactly, and a string that does not fit then is refused. `ListChunk::get_string()` reads
the strings back.
-/

namespace CyberCache

open ByteMemory ChunkBuilder

/-- `heap` is the contents of memory as the allocator hands it out. -/
structure PayloadListChunkBuilder where
  buffer : ByteMemory
  heap : ByteMemory
  allocatedSize : Nat
  usedSize : Nat
  count : Nat

namespace PayloadListChunkBuilder

variable {s : List UInt8}

/-- The initial size of the buffer, guessed from bounds for the number of strings and from their
average length, each of them zero if unknown. -/
def initialSize (minGuess maxGuess averageLength : Nat) : Nat :=
  let minGuess := if minGuess = 0 then 1 else minGuess
  let maxGuess := if maxGuess = 0 then (if minGuess = 1 then 64 else minGuess) else maxGuess
  let averageLength := uintAdd (if averageLength = 0 then 16 else averageLength) 1
  let num :=
    if minGuess < maxGuess then uintAdd minGuess ((maxGuess - minGuess) * 3 % uintRange / 4)
    else maxGuess
  if uintMax < num * averageLength then uintMax else num * averageLength

def create (heap : ByteMemory) (minGuess maxGuess averageLength : Nat) : PayloadListChunkBuilder :=
  ⟨heap, heap, initialSize minGuess maxGuess averageLength, 0, 0⟩

def extraStrings (count : Nat) : Nat :=
  if count < 4 then 2 else if count < 32 then 8 else count / 4

/-- Space to add for a string of which `fullLength` bytes have to be stored; the average length is
that of all strings including the new one. There is none for `2 ^ 32` strings, for their number is
computed as zero and something is divided by it. -/
def extraSpace (b : PayloadListChunkBuilder) (fullLength : Nat) : Option Nat :=
  if uintAdd b.count 1 = 0 then none
  else
    let averageLength := (b.usedSize + fullLength) / uintAdd b.count 1 % uintRange
    let space := extraStrings b.count * averageLength % uintRange
    some (if space < fullLength then fullLength else space)

def realloc (b : PayloadListChunkBuilder) (newSize : Nat) : PayloadListChunkBuilder :=
  { b with
    buffer := fun i => if i < b.allocatedSize then b.buffer i else b.heap i
    allocatedSize := newSize }

/-- `put_string()`; there is no result if a byte is stored outside of the buffer. -/
def put (b : PayloadListChunkBuilder) (s : List UInt8) : Option PayloadListChunkBuilder :=
  if b.usedSize + (putString s).length ≤ b.allocatedSize then
    some { b with
      buffer := b.buffer.write b.usedSize (putString s)
      usedSize := uintAdd b.usedSize (putString s).length }
  else none

/-- Make room for `fullLength` more bytes, `none` if they would not fit into 4 GB. -/
def reserve (b : PayloadListChunkBuilder) (fullLength : Nat) :
    Option (Option PayloadListChunkBuilder) :=
  if b.allocatedSize < b.usedSize + fullLength then do
    let space ← b.extraSpace fullLength
    if uintMax < b.allocatedSize + space then
      let space := uintSub uintMax b.allocatedSize
      if uintAdd space (uintSub b.allocatedSize b.usedSize) < fullLength then return none
      return some (b.realloc (uintAdd b.allocatedSize space))
    return some (b.realloc (uintAdd b.allocatedSize space))
  else some (some b)

def add (b : PayloadListChunkBuilder) (s : List UInt8) : Option (Bool × PayloadListChunkBuilder) :=
    do
  match ← b.reserve (measureString s.length % uintRange) with
  | none => return (false, b)
  | some reserved =>
    let stored ← reserved.put s
    return (true, { stored with count := uintAdd stored.count 1 })

/-- A sequence of calls, and the strings for which `add()` returned `true`. -/
def addAll (b : PayloadListChunkBuilder) : List (List UInt8) →
    Option (PayloadListChunkBuilder × List (List UInt8))
  | [] => some (b, [])
  | s :: strings => do
    let (added, b) ← b.add s
    let (b, rest) ← addAll b strings
    return (b, if added then s :: rest else rest)

def iterator (b : PayloadListChunkBuilder) : HeaderChunkIterator :=
  ⟨b.buffer, 0, b.usedSize, true⟩

def contents (b : PayloadListChunkBuilder) : List UInt8 :=
  b.buffer.slice 0 b.usedSize

/-! ## What a builder holds -/

structure Holds (b : PayloadListChunkBuilder) (strings : List (List UInt8)) : Prop where
  contents : b.contents = strings.flatMap putString
  used : b.usedSize = (strings.flatMap putString).length
  count : b.count = strings.length
  fits : b.usedSize ≤ b.allocatedSize
  range : b.allocatedSize ≤ uintMax

theorem initialSize_le (minGuess maxGuess averageLength : Nat) :
    initialSize minGuess maxGuess averageLength ≤ uintMax := by
  unfold initialSize
  dsimp only
  split_ifs <;> omega

theorem create_holds (heap : ByteMemory) (minGuess maxGuess averageLength : Nat) :
    (create heap minGuess maxGuess averageLength).Holds [] :=
  ⟨rfl, rfl, rfl, Nat.zero_le _, initialSize_le _ _ _⟩

namespace Holds

variable {b : PayloadListChunkBuilder} {strings : List (List UInt8)}

variable {s : List UInt8}

theorem count_le (h : b.Holds strings) : b.count ≤ b.usedSize := by
  rw [h.count, h.used]
  exact length_le_flatMap_putString strings

theorem realloc (h : b.Holds strings) {newSize : Nat} (hsize : b.allocatedSize ≤ newSize)
    (hmax : newSize ≤ uintMax) : (b.realloc newSize).Holds strings where
  contents := by
    have hfits := h.fits
    rw [← h.contents]
    refine slice_congr fun i _ hi => if_pos ?_
    exact Nat.lt_of_lt_of_le hi (by simpa [PayloadListChunkBuilder.realloc] using hfits)
  used := h.used
  count := h.count
  fits := Nat.le_trans h.fits hsize
  range := hmax

theorem put (h : b.Holds strings) (hroom : b.usedSize + measureString s.length ≤ b.allocatedSize) :
    ∃ b', b.put s = some b' ∧ b'.count = b.count ∧ b'.allocatedSize = b.allocatedSize ∧
      b'.usedSize = b.usedSize + measureString s.length ∧
      b'.contents = b.contents ++ putString s := by
  have hrange := h.range
  have hmax : uintMax < uintRange := by decide
  rw [PayloadListChunkBuilder.put, if_pos (by rwa [length_putString])]
  refine ⟨_, rfl, rfl, rfl, ?_, ?_⟩
  · simp only [length_putString]
    exact uintAdd_eq (by omega)
  · simp only [PayloadListChunkBuilder.contents, length_putString]
    rw [uintAdd_eq (by omega), slice_add, slice_write_of_lt _ _ (by omega), Nat.zero_add,
      ← length_putString, slice_write_self]

variable {n : Nat}

theorem extraSpace_defined (hcount : b.count < uintMax) (n : Nat) :
    ∃ space, b.extraSpace n = some space ∧ n ≤ space := by
  have hadd : uintAdd b.count 1 = b.count + 1 :=
    uintAdd_eq (by simp only [uintMax] at hcount; omega)
  rw [PayloadListChunkBuilder.extraSpace, if_neg (by omega)]
  refine ⟨_, rfl, ?_⟩
  split_ifs <;> omega

/-- As long as fewer than `2 ^ 32 - 1` strings were added, there is room for everything that fits
into 4 GB. -/
theorem reserve (h : b.Holds strings) (hcount : b.count < uintMax)
    (hroom : b.usedSize + n ≤ uintMax) :
    ∃ b', b.reserve n = some (some b') ∧ b'.Holds strings ∧ b.usedSize + n ≤ b'.allocatedSize := by
  have hrange := h.range
  have hfits := h.fits
  have hlt : uintMax < uintRange := by decide
  rw [PayloadListChunkBuilder.reserve]
  split_ifs with hfull
  · obtain ⟨space, hspace, hle⟩ := extraSpace_defined hcount n
    simp only [hspace, Option.bind_eq_bind, Option.bind_some]
    split_ifs with hclip hrefuse
    · rw [uintSub_eq hlt (by omega), uintSub_eq (by omega) hfits, uintAdd_eq (by omega)] at hrefuse
      omega
    · have hsize : uintAdd b.allocatedSize (uintSub uintMax b.allocatedSize) = uintMax := by
        rw [uintSub_eq hlt hrange, uintAdd_eq (by omega)]
        omega
      rw [hsize]
      exact ⟨_, rfl, h.realloc hrange (Nat.le_refl _), hroom⟩
    · have hsize : uintAdd b.allocatedSize space = b.allocatedSize + space := uintAdd_eq (by omega)
      rw [hsize]
      refine ⟨_, rfl, h.realloc (by omega) (by omega), ?_⟩
      simp only [PayloadListChunkBuilder.realloc]
      omega
  · exact ⟨b, rfl, h, by omega⟩

theorem reserve_refused (h : b.Holds strings) (hcount : b.count < uintMax)
    (hroom : uintMax < b.usedSize + n) : b.reserve n = some none := by
  have hrange := h.range
  have hfits := h.fits
  have hlt : uintMax < uintRange := by decide
  obtain ⟨space, hspace, hle⟩ := extraSpace_defined hcount n
  have hclipped : uintAdd (uintSub uintMax b.allocatedSize) (uintSub b.allocatedSize b.usedSize) <
      n := by
    rw [uintSub_eq hlt (by omega), uintSub_eq (by omega) hfits, uintAdd_eq (by omega)]
    omega
  rw [PayloadListChunkBuilder.reserve, if_pos (by omega)]
  simp only [hspace, Option.bind_eq_bind, Option.bind_some]
  rw [if_pos (by omega), if_pos hclipped]
  rfl

/-- With `2 ^ 32 - 1` strings the buffer is full, and their number plus one is zero. -/
theorem reserve_undefined (h : b.Holds strings) (hcount : b.count = uintMax) (hn : 0 < n) :
    b.reserve n = none := by
  have hrange := h.range
  have hfits := h.fits
  have hle := h.count_le
  have hwrap : uintAdd b.count 1 = 0 := by rw [hcount]; decide
  rw [PayloadListChunkBuilder.reserve, if_pos (by omega), PayloadListChunkBuilder.extraSpace,
    if_pos hwrap]
  rfl

theorem measureString_mod (hs : s.length < 2 ^ 31) :
    measureString s.length % uintRange = measureString s.length := by
  apply Nat.mod_eq_of_lt
  simp only [measureString, uintRange]
  omega

theorem add (h : b.Holds strings) (hcount : b.count < uintMax)
    (hs : s.length < 2 ^ 31) (hroom : b.usedSize + measureString s.length ≤ uintMax) :
    ∃ b', b.add s = some (true, b') ∧ b'.Holds (strings ++ [s]) := by
  obtain ⟨reserved, hreserve, hholds, hsize⟩ := h.reserve hcount hroom
  have hused : reserved.usedSize = b.usedSize := by rw [hholds.used, h.used]
  obtain ⟨stored, hput, hcount', hallocated, hused', hcontents⟩ := hholds.put (by rwa [hused])
  refine ⟨{ stored with count := uintAdd stored.count 1 }, ?_, ?_, ?_, ?_, ?_, ?_⟩
  · rw [PayloadListChunkBuilder.add, measureString_mod hs]
    simp only [hreserve, hput, Option.bind_eq_bind, Option.bind_some]
    rfl
  · rw [List.flatMap_append, ← hholds.contents, List.flatMap_singleton, ← hcontents]
    rfl
  · simp [hused', hholds.used]
  · rw [List.length_append, List.length_singleton, ← h.count, hcount', hholds.count, ← h.count]
    exact uintAdd_eq (by simp only [uintMax] at hcount; omega)
  · simp only [hused', hallocated, hused]
    exact hsize
  · simp only [hallocated]
    exact hholds.range

theorem add_refused (h : b.Holds strings) (hcount : b.count < uintMax)
    (hs : s.length < 2 ^ 31) (hroom : uintMax < b.usedSize + measureString s.length) :
    b.add s = some (false, b) := by
  rw [PayloadListChunkBuilder.add, measureString_mod hs, h.reserve_refused hcount hroom]
  rfl

theorem add_undefined (h : b.Holds strings) (hcount : b.count = uintMax)
    (hs : s.length < 2 ^ 31) : b.add s = none := by
  have hpos : 0 < measureString s.length := by simp only [measureString]; omega
  rw [PayloadListChunkBuilder.add, measureString_mod hs, h.reserve_undefined hcount hpos]
  rfl

theorem getListStrings (h : b.Holds strings) :
    ∃ it, b.iterator.getListStrings b.count = (strings, it) ∧ it.inBounds = true ∧
      it.hasMoreChunks = false := by
  have hbefore : b.iterator.Before (strings.flatMap putString) := by
    have hfits := h.fits
    have hrange := h.range
    have hlt : uintMax < uintRange := by decide
    refine ⟨?_, Nat.le_of_eq h.used.symm, by simp only [iterator]; omega⟩
    rw [← h.used, ← h.contents]
    rfl
  refine ⟨_, by rw [h.count]; exact HeaderChunkIterator.getListStrings_eq hbefore, ?_, ?_⟩
  · rw [hbefore.skip_eq (Nat.le_refl _)]
    rfl
  · rw [hbefore.skip_eq (Nat.le_refl _)]
    simp [HeaderChunkIterator.hasMoreChunks, iterator, h.used]

end Holds

/-! ## Sequences of calls -/

/-- A list that has room for 4 GB takes a string if it fits. -/
def takeString (held : List (List UInt8)) (s : List UInt8) : List (List UInt8) :=
  if (held.flatMap putString).length + measureString s.length ≤ uintMax then held ++ [s] else held

/-- The strings that such a list holds after all of the given ones were offered to it. -/
def fitting (held strings : List (List UInt8)) : List (List UInt8) :=
  strings.foldl takeString held

variable {b : PayloadListChunkBuilder} {held strings : List (List UInt8)}

theorem Holds.add_cases (h : b.Holds held) (hs : s.length < 2 ^ 31) :
    b.count = uintMax ∧ b.add s = none ∨
    b.count < uintMax ∧ b.add s = some (false, b) ∧ takeString held s = held ∨
    b.count < uintMax ∧ ∃ b', b.add s = some (true, b') ∧ b'.Holds (held ++ [s]) ∧
      takeString held s = held ++ [s] := by
  have hle : b.count ≤ uintMax := Nat.le_trans h.count_le (Nat.le_trans h.fits h.range)
  obtain hlt | hfull := Nat.lt_or_eq_of_le hle
  · by_cases hroom : b.usedSize + measureString s.length ≤ uintMax
    · obtain ⟨b', hadd, hholds⟩ := h.add hlt hs hroom
      rw [h.used] at hroom
      exact .inr (.inr ⟨hlt, b', hadd, hholds, if_pos hroom⟩)
    · have hadd := h.add_refused hlt hs (Nat.not_le.mp hroom)
      rw [h.used] at hroom
      exact .inr (.inl ⟨hlt, hadd, if_neg hroom⟩)
  · exact .inl ⟨hfull, h.add_undefined hfull hs⟩

/-- Whatever was called, the builder holds the strings for which `true` was returned, and those are
the strings that fit. -/
theorem Holds.addAll (h : b.Holds held) (hs : ∀ s ∈ strings, s.length < 2 ^ 31)
    {b' : PayloadListChunkBuilder} {added : List (List UInt8)}
    (hadd : b.addAll strings = some (b', added)) :
    b'.Holds (held ++ added) ∧ held ++ added = fitting held strings := by
  induction strings generalizing b held added with
  | nil =>
    simp only [PayloadListChunkBuilder.addAll, Option.some.injEq, Prod.mk.injEq] at hadd
    obtain ⟨rfl, rfl⟩ := hadd
    rw [List.append_nil]
    exact ⟨h, rfl⟩
  | cons s strings ih =>
    rw [List.forall_mem_cons] at hs
    simp only [PayloadListChunkBuilder.addAll, Option.bind_eq_bind, Option.bind_eq_some_iff,
      Option.pure_def, Option.some.injEq, Prod.mk.injEq, Prod.exists] at hadd
    obtain ⟨ok, b₁, hone, b₂, rest, hrest, rfl, rfl⟩ := hadd
    obtain ⟨-, hnone⟩ | ⟨-, hsome, htake⟩ | ⟨-, b'', hsome, hholds, htake⟩ := h.add_cases hs.1
    · rw [hnone] at hone
      cases hone
    · obtain ⟨rfl, rfl⟩ := Prod.mk.inj (Option.some.inj (hsome.symm.trans hone))
      obtain ⟨hholds, hfit⟩ := ih h hs.2 hrest
      exact ⟨hholds, by rw [fitting, List.foldl_cons, htake]; exact hfit⟩
    · obtain ⟨rfl, rfl⟩ := Prod.mk.inj (Option.some.inj (hsome.symm.trans hone))
      obtain ⟨hholds, hfit⟩ := ih hholds hs.2 hrest
      rw [if_pos rfl, List.append_cons]
      exact ⟨hholds, by rw [fitting, List.foldl_cons, htake]; exact hfit⟩

/-- No call is made on a list with `2 ^ 32 - 1` strings. -/
def NeverFull (held strings : List (List UInt8)) : Prop :=
  ∀ calls s rest, strings = calls ++ s :: rest → (fitting held calls).length < uintMax

theorem NeverFull.tail (h : NeverFull held (s :: strings)) :
    NeverFull (takeString held s) strings := by
  intro calls s' rest hcalls
  have hlt := h (s :: calls) s' rest (by rw [hcalls, List.cons_append])
  rwa [fitting, List.foldl_cons] at hlt

theorem Holds.addAll_defined (h : b.Holds held) (hs : ∀ s ∈ strings, s.length < 2 ^ 31)
    (hfull : NeverFull held strings) : ∃ b' added, b.addAll strings = some (b', added) := by
  induction strings generalizing b held with
  | nil => exact ⟨b, [], rfl⟩
  | cons s strings ih =>
    rw [List.forall_mem_cons] at hs
    have hlt : b.count < uintMax := by
      rw [h.count]
      exact hfull [] s strings rfl
    have hrest := hfull.tail
    obtain ⟨hfull, -⟩ | ⟨-, hadd, htake⟩ | ⟨-, b'', hadd, hholds, htake⟩ := h.add_cases hs.1
    · omega
    · rw [htake] at hrest
      obtain ⟨b', added, haddAll⟩ := ih h hs.2 hrest
      exact ⟨b', added, by simp [PayloadListChunkBuilder.addAll, hadd, haddAll]⟩
    · rw [htake] at hrest
      obtain ⟨b', added, haddAll⟩ := ih hholds hs.2 hrest
      exact ⟨b', s :: added, by simp [PayloadListChunkBuilder.addAll, hadd, haddAll]⟩

/-- What a call has to do: `false` means that nothing changed, `true` that the string was
appended. -/
def AddConforms (b : PayloadListChunkBuilder) (s : List UInt8) : Prop :=
  ∃ added b', b.add s = some (added, b') ∧ b'.usedSize ≤ b'.allocatedSize ∧
    (added = false → b' = b) ∧
    (added = true → b'.contents = b.contents ++ putString s ∧ b'.count = b.count + 1)

/-- The codec works for a sequence of calls: all of them do what they have to do, the used size
stays within the allocated size, and what was added is read back from the buffer, to its end. -/
def Codec (heap : ByteMemory) (minGuess maxGuess averageLength : Nat)
    (strings : List (List UInt8)) : Prop :=
  ∀ calls rest, strings = calls ++ rest →
    ∃ b added, (create heap minGuess maxGuess averageLength).addAll calls = some (b, added) ∧
      b.usedSize ≤ b.allocatedSize ∧
      (∃ it, b.iterator.getListStrings b.count = (added, it) ∧ it.inBounds = true ∧
        it.hasMoreChunks = false) ∧
      ∀ s ∈ rest.head?, b.AddConforms s

theorem Holds.addConforms (h : b.Holds held) (hs : s.length < 2 ^ 31)
    (hcount : b.count < uintMax) : b.AddConforms s := by
  obtain ⟨hfull, -⟩ | ⟨-, hadd, -⟩ | ⟨-, b', hadd, hholds, -⟩ := h.add_cases hs
  · omega
  · exact ⟨false, b, hadd, h.fits, fun _ => rfl, fun hfalse => absurd hfalse (by decide)⟩
  · refine ⟨true, b', hadd, hholds.fits, fun hfalse => absurd hfalse (by decide), fun _ => ⟨?_, ?_⟩⟩
    · rw [hholds.contents, h.contents, List.flatMap_append, List.flatMap_singleton]
    · rw [hholds.count, h.count, List.length_append, List.length_singleton]

theorem codec_of_neverFull (heap : ByteMemory) (minGuess maxGuess averageLength : Nat)
    (hs : ∀ s ∈ strings, s.length < 2 ^ 31) (hfull : NeverFull [] strings) :
    Codec heap minGuess maxGuess averageLength strings := by
  rintro calls rest rfl
  have hcalls : ∀ s ∈ calls, s.length < 2 ^ 31 := fun s hmem => hs s (List.mem_append_left _ hmem)
  have hcreate := create_holds heap minGuess maxGuess averageLength
  obtain ⟨b, added, hadd⟩ := hcreate.addAll_defined hcalls
    fun calls' s rest' heq => hfull calls' s (rest' ++ rest) (by simp [heq])
  obtain ⟨hholds, hfit⟩ := hcreate.addAll hcalls hadd
  rw [List.nil_append] at hholds hfit
  refine ⟨b, added, hadd, hholds.fits, hholds.getListStrings, fun s hmem => ?_⟩
  obtain ⟨rest', rfl⟩ : ∃ rest', rest = s :: rest' := by
    cases rest with
    | nil => cases hmem
    | cons s' rest' =>
      cases hmem
      exact ⟨rest', rfl⟩
  refine hholds.addConforms (hs s (by simp)) ?_
  rw [hholds.count, hfit]
  exact hfull calls s rest' rfl

theorem not_codec_of_full (heap : ByteMemory) (minGuess maxGuess averageLength : Nat)
    (hs : ∀ s ∈ strings, s.length < 2 ^ 31) {calls rest : List (List UInt8)}
    (hstrings : strings = calls ++ s :: rest) (hfull : uintMax ≤ (fitting [] calls).length) :
    ¬Codec heap minGuess maxGuess averageLength strings := by
  intro h
  obtain ⟨b, added, hadd, -, -, hconforms⟩ := h calls (s :: rest) hstrings
  have hcalls : ∀ s ∈ calls, s.length < 2 ^ 31 := fun s hmem => hs s (by simp [hstrings, hmem])
  obtain ⟨hholds, hfit⟩ := (create_holds heap minGuess maxGuess averageLength).addAll hcalls hadd
  rw [List.nil_append] at hholds hfit
  obtain ⟨ok, b', hone, -⟩ := hconforms s rfl
  obtain ⟨-, hnone⟩ | ⟨hlt, -⟩ | ⟨hlt, -⟩ := hholds.add_cases (hs s (by simp [hstrings]))
  · rw [hnone] at hone
    cases hone
  · rw [hholds.count, hfit] at hlt
    omega
  · rw [hholds.count, hfit] at hlt
    omega

/-- The codec works, whatever the guesses, if and only if no call is made on a list that already has
`2 ^ 32 - 1` strings. -/
theorem codec_iff (heap : ByteMemory) (minGuess maxGuess averageLength : Nat)
    {strings : List (List UInt8)} (hs : ∀ s ∈ strings, s.length < 2 ^ 31) :
    Codec heap minGuess maxGuess averageLength strings ↔ NeverFull [] strings := by
  constructor
  · intro h calls s rest hstrings
    by_contra hfull
    exact not_codec_of_full heap minGuess maxGuess averageLength hs hstrings (Nat.not_lt.mp hfull) h
  · exact codec_of_neverFull heap minGuess maxGuess averageLength hs

theorem length_fitting_le (held strings : List (List UInt8)) :
    (fitting held strings).length ≤ held.length + strings.length := by
  induction strings generalizing held with
  | nil => exact Nat.le_refl _
  | cons s strings ih =>
    have hle := ih (takeString held s)
    have htake : (takeString held s).length ≤ held.length + 1 := by
      unfold takeString
      split_ifs <;> simp
    rw [fitting] at hle ⊢
    rw [List.foldl_cons, List.length_cons]
    omega

/-- In particular it works for fewer than `2 ^ 32` calls. -/
theorem neverFull_of_length (h : strings.length < uintRange) : NeverFull [] strings := by
  intro calls s rest hcalls
  have hle := length_fitting_le [] calls
  rw [hcalls, List.length_append, List.length_cons] at h
  simp only [List.length_nil] at hle
  simp only [uintMax]
  omega

/-- Two strings, the second of which does not fit into the initial buffer. -/
theorem codec_of_two_strings :
    (∀ s ∈ ([[1, 2], [3, 4, 5]] : List (List UInt8)), s.length < 2 ^ 31) ∧
      Codec (fun _ => 0) 1 1 2 [[1, 2], [3, 4, 5]] := by
  have hs : ∀ s ∈ ([[1, 2], [3, 4, 5]] : List (List UInt8)), s.length < 2 ^ 31 := by decide
  exact ⟨hs, (codec_iff _ _ _ _ hs).mpr (neverFull_of_length (by decide))⟩

theorem fitting_replicate_nil {n : Nat} (hn : n ≤ uintMax) :
    fitting [] (List.replicate n []) = List.replicate n [] := by
  induction n with
  | zero => rfl
  | succ n ih =>
    have hlength : ((List.replicate n []).flatMap putString).length = n := by
      simp [putString, putLength]
    have hroom : ((List.replicate n []).flatMap putString).length +
        measureString ([] : List UInt8).length ≤ uintMax := by
      rw [hlength]
      exact hn
    have hfit := ih (by omega)
    rw [fitting] at hfit
    rw [List.replicate_succ', fitting, List.foldl_append, hfit, List.foldl_cons, List.foldl_nil,
      takeString, if_pos hroom]

/-- `2 ^ 32` empty strings: the last of them meets a list whose length plus one is zero. -/
theorem divides_by_zero :
    ¬Codec (fun _ => 0) 0 0 0 (List.replicate (2 ^ 32) []) := by
  have hcalls : List.replicate (2 ^ 32) ([] : List UInt8) = List.replicate uintMax [] ++ [[]] := by
    rw [← List.replicate_succ']
    rfl
  refine not_codec_of_full _ _ _ _ ?_ hcalls ?_
  · intro s hs
    rw [List.eq_of_mem_replicate hs]
    decide
  · rw [fitting_replicate_nil (Nat.le_refl _), List.length_replicate]

end PayloadListChunkBuilder

end CyberCache
