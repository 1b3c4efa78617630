import CyberCache.Commands.Fetching

/-!
# What the tests of a decoder notice

A decoder is written for chunks of certain types: its slots. As long as the chunks have these types,
it sees their values. A chunk of another type, or none, is noticed only if the value that the
handler takes it for happens to be one that stands for an invalid chunk.
-/

namespace CyberCache

open ByteMemory

namespace HeaderChunkIterator
variable {it it' : HeaderChunkIterator} {limit : Nat} {c : Chunk} {rest chunks : List Chunk}

/-- The iterator stands before the given chunks, the last ones, and they lie within the header. -/
def Decodes : HeaderChunkIterator → List Chunk → Prop
  | it, [] => it.remains = 0
  | it, c :: rest => ∃ it', it.takeChunk = (some c, it') ∧ it'.inBounds = true ∧ it'.Decodes rest

/-- The next chunk, and the iterator behind it; `get_next_chunk()` leaves it before the strings of a
list. -/
def Yields (it : HeaderChunkIterator) (c : Chunk) (it' : HeaderChunkIterator) : Prop :=
  match c with
  | .number n => it.getNextChunk = (.number n, it')
  | .string s => ∃ offset length, it.getNextChunk = (.string offset length, it') ∧
      it'.m.slice offset length = s
  | .list strings => ∃ it₁, it.getNextChunk = (.list strings.length, it₁) ∧
      it₁.getListStrings strings.length = (strings, it')

theorem yields_of_takeChunk (h : it.takeChunk = (some c, it')) : it.Yields c it' := by
  unfold takeChunk at h
  unfold Yields
  generalize it.getNextChunk = next at h ⊢
  obtain ⟨data, it₁⟩ := next
  cases data with
  | none => exact absurd (congrArg Prod.fst h) (by simp)
  | number n =>
    obtain ⟨hc, rfl⟩ := Prod.mk.inj h
    cases hc
    rfl
  | string offset length =>
    obtain ⟨hc, rfl⟩ := Prod.mk.inj h
    cases hc
    exact ⟨offset, length, rfl, rfl⟩
  | list count =>
    obtain ⟨hc, rfl⟩ := Prod.mk.inj h
    cases hc
    refine ⟨it₁, ?_, ?_⟩
    · rw [length_getListStrings]
    · rw [length_getListStrings]

theorem getCount_lt (it : HeaderChunkIterator) (c : UInt8) : (it.getCount c).1 < uintRange := by
  unfold getCount
  dsimp only
  split_ifs with hk
  · refine Nat.lt_of_lt_of_le (readLE_lt _ _ _) ?_
    calc 256 ^ ((c &&& chnkShortMask).toNat + 1) ≤ 256 ^ 4 :=
          Nat.pow_le_pow_right (by decide) (by omega)
      _ = uintRange := by decide
  · exact Nat.two_pow_pos 32

theorem getNextChunk_number_range {n : Int} (h : it.getNextChunk.1 = .number n) :
    -(2 * uintRange : Int) ≤ n ∧ n ≤ uintMax := by
  have hcount := it.getCount_lt (it.m it.offset)
  have hrange : (uintRange : Int) = 2 ^ 32 ∧ (uintMax : Int) = 2 ^ 32 - 1 := by decide
  have hadd (k : Nat) : uintAdd k chnkLargeBias < uintRange := Nat.mod_lt _ (Nat.two_pow_pos 32)
  have hbias : chnkSmallNegativeBias = -1 ∧ chnkBigNegativeBias = -9 := ⟨rfl, rfl⟩
  have hlarge : chnkLargeBias = 72 := rfl
  by_cases hpos : 0 < it.remains
  · obtain ⟨t, k, hk, hshape⟩ | ⟨s, k, hk, hshape⟩ := getNextChunk_shape (it.m it.offset)
    · rw [hshape it hpos rfl] at h
      fin_cases t
      · obtain rfl := ChunkData.number.inj h
        omega
      all_goals exact absurd h (by simp [mediumChunk])
    · rw [hshape it hpos rfl] at h
      have := hadd (it.getCount (it.m it.offset)).1
      fin_cases s <;> simp only [subtypeChunk, ChunkData.number.injEq, reduceCtorEq] at h <;> omega
  · simp [getNextChunk, hpos] at h

/-! ## The end of the header -/

theorem same_self (h : it.offset + it.remains = limit) : Same limit it.m it.m it it :=
  ⟨rfl, rfl, .refl _ _, rfl, rfl, rfl, fun _ => h⟩

theorem remains_pos_of_takeChunk (h : it.takeChunk = (some c, it')) : 0 < it.remains := by
  by_contra hnot
  have hnone : it.getNextChunk = (.none, it) := by simp only [getNextChunk, hnot, if_false]
  simp [takeChunk, hnone] at h

/-- Only the end of a header of maximal length looks like an invalid iterator. -/
theorem Decodes.isValid_iff (h : it.Decodes rest) (hend : it.offset + it.remains = limit)
    (hlimit : limit ≤ uintMax) : it.isValid = false ↔ rest = [] ∧ limit = uintMax := by
  simp only [isValid, bne_eq_false_iff_eq]
  cases rest with
  | nil =>
    have hzero : it.remains = 0 := h
    simp only [true_and]
    omega
  | cons c rest =>
    obtain ⟨it', htake, -, -⟩ := h
    have hpos := remains_pos_of_takeChunk htake
    simp only [reduceCtorEq, false_and, iff_false]
    omega

theorem skip_remains_lt {n : Nat} (hn : 0 < n) (hrange : it.remains < uintRange)
    (hin : (it.skip n).inBounds) : (it.skip n).remains < it.remains := by
  obtain ⟨-, hle⟩ := inBounds_skip.mp hin
  simp only [skip]
  rw [uintSub_eq hrange hle]
  omega

theorem skip_remains_le (it : HeaderChunkIterator) {n : Nat} (hrange : it.remains < uintRange)
    (hin : (it.skip n).inBounds) : (it.skip n).remains ≤ it.remains := by
  obtain ⟨-, hle⟩ := inBounds_skip.mp hin
  simp only [skip]
  rw [uintSub_eq hrange hle]
  omega

theorem getLength_remains_lt {fuel length : Nat} (hfuel : 0 < fuel)
    (hrange : it.remains < uintRange) (hin : (it.getLength fuel length).2.inBounds) :
    (it.getLength fuel length).2.remains < it.remains := by
  induction fuel generalizing it length with
  | zero => exact absurd hfuel (Nat.lt_irrefl 0)
  | succ fuel ih =>
    simp only [getLength] at hin ⊢
    split_ifs at hin ⊢ with hlast
    · cases fuel with
      | zero => exact skip_remains_lt Nat.one_pos hrange hin
      | succ fuel =>
        have hskip := skip_remains_lt Nat.one_pos hrange (inBounds_getLength hin)
        exact Nat.lt_trans (ih (Nat.succ_pos _) (by omega) hin) hskip
    · exact skip_remains_lt Nat.one_pos hrange hin

theorem getNextChunk_list_remains {count : Nat} (h : it.getNextChunk = (.list count, it'))
    (hrange : it.remains < uintRange) (hin : it'.inBounds) :
    count ≤ chnkLargeBias ∨ it'.remains < it.remains := by
  have hlarge : chnkLargeBias = 72 := rfl
  by_cases hpos : 0 < it.remains
  · obtain ⟨t, k, hk, hshape⟩ | ⟨s, k, hk, hshape⟩ := getNextChunk_shape (it.m it.offset)
    · rw [hshape it hpos rfl] at h
      fin_cases t
      iterate 2 exact absurd (congrArg Prod.fst h) (by simp [mediumChunk])
      obtain ⟨hcount, -⟩ := Prod.mk.inj h
      have := ChunkData.list.inj hcount
      omega
    · rw [hshape it hpos rfl] at h
      fin_cases s
      iterate 4 exact absurd (congrArg Prod.fst h) (by simp [subtypeChunk])
      · obtain ⟨hcount, -⟩ := Prod.mk.inj h
        have := ChunkData.list.inj hcount
        omega
      iterate 2 exact absurd (congrArg Prod.fst h) (by simp [subtypeChunk])
      · simp only [subtypeChunk, getCount] at h
        split_ifs at h with hk
        · obtain ⟨-, rfl⟩ := Prod.mk.inj h
          exact .inr (skip_remains_lt (by omega) hrange hin)
        · obtain ⟨hcount, -⟩ := Prod.mk.inj h
          have := ChunkData.list.inj hcount
          simp only [uintAdd, uintRange] at this
          omega
  · simp [getNextChunk, hpos] at h

theorem getListStrings_remains {count : Nat} (hrange : it.remains < uintRange)
    (hin : (it.getListStrings count).2.inBounds) :
    (it.getListStrings count).2.remains + count ≤ it.remains := by
  induction count generalizing it with
  | zero => exact Nat.le_refl _
  | succ count ih =>
    simp only [getListStrings] at hin ⊢
    have hin' := inBounds_getListStrings hin
    have hlength := getLength_remains_lt (by decide) hrange (inBounds_getListString hin')
    have hstring : it.getListString.2.remains ≤ (it.getLength uintRange 0).2.remains := by
      rw [getListString_snd] at hin' ⊢
      exact skip_remains_le _ (by omega) hin'
    have hrest := ih (by omega) hin
    omega

end HeaderChunkIterator

namespace Chunk

def toNumber : Chunk → Int
  | .number n => n
  | _ => 0

def toBytes : Chunk → List UInt8
  | .string s => s
  | _ => []

def toStrings : Chunk → List (List UInt8)
  | .list strings => strings
  | _ => []

variable {c : Chunk}

theorem eq_number (h : c.type = .number) : c = .number c.toNumber := by
  cases c <;> first | rfl | cases h

theorem eq_string (h : c.type = .string) : c = .string c.toBytes := by
  cases c <;> first | rfl | cases h

theorem eq_list (h : c.type = .list) : c = .list c.toStrings := by
  cases c <;> first | rfl | cases h

end Chunk

/-- The reader stands before the given chunks, the last ones of a header of `limit` bytes. -/
structure ChunkReader.At (r : ChunkReader) (limit : Nat) (chunks : List Chunk) : Prop where
  decodes : r.it.Decodes chunks
  ends : r.it.offset + r.it.remains = limit
  limit_le : limit ≤ uintMax

namespace ChunkReader

variable {r : ChunkReader} {limit : Nat} {rest : List Chunk} {it : HeaderChunkIterator}

theorem At.range (h : r.At limit rest) : limit < uintRange := by
  have := h.limit_le
  have : uintMax < uintRange := by decide
  omega

theorem fetch_eq {data : ChunkData} (h : r.it.getNextChunk = (data, it)) (wanted : ChunkType)
    (isValid : HeaderChunkIterator → BitVec 64 → Bool) :
    r.fetch wanted isValid = (data.store (r.stack r.calls.length),
      { r with
        it := it
        calls := r.calls ++
          [⟨wanted, data.type, isValid it (data.store (r.stack r.calls.length))⟩] }) := by
  simp only [fetch, h]

theorem wellTyped_append {stack : Nat → BitVec 64} {call : ChunkCall} :
    (ChunkReader.mk it stack (r.calls ++ [call])).WellTyped ↔
      r.WellTyped ∧ (call.isValid = true → call.found = call.wanted) := by
  simp only [WellTyped, List.mem_append, List.mem_singleton, or_imp, forall_and, forall_eq]

theorem WellTyped.append (h : r.WellTyped) (stack : Nat → BitVec 64) (type : ChunkType)
    (isValid : Bool) : (ChunkReader.mk it stack (r.calls ++ [⟨type, type, isValid⟩])).WellTyped :=
  wellTyped_append.mpr ⟨h, fun _ => rfl⟩

theorem At.getNextChunk_nil (h : r.At limit []) : r.it.getNextChunk = (.none, r.it) := by
  have hzero : r.it.remains = 0 := h.decodes
  simp only [HeaderChunkIterator.getNextChunk, hzero, Nat.lt_irrefl, if_false]

theorem At.inBounds_next {c : Chunk} (h : r.At limit (c :: rest)) :
    r.it.getNextChunk.2.inBounds = true := by
  obtain ⟨it', htake, hin, -⟩ := h.decodes
  refine HeaderChunkIterator.inBounds_takeChunk ?_
  rw [htake]
  exact hin

theorem At.ends_next {c : Chunk} (h : r.At limit (c :: rest)) :
    r.it.getNextChunk.2.offset + r.it.getNextChunk.2.remains = limit ∧
      HeaderChunkIterator.ChunkData.Within limit r.it.getNextChunk.1 := by
  obtain ⟨-, hsame, hwithin⟩ :=
    (HeaderChunkIterator.same_self h.ends).getNextChunk h.range h.inBounds_next
  exact ⟨hsame.within h.inBounds_next, hwithin⟩

theorem At.getNextChunk_number {n : Int} (h : r.At limit (.number n :: rest)) :
    ∃ it, r.it.getNextChunk = (.number n, it) ∧ it.Decodes rest ∧
      it.offset + it.remains = limit ∧ (BitVec.ofInt 64 n).toInt = n := by
  obtain ⟨it, htake, hin, hrest⟩ := h.decodes
  have hnext : r.it.getNextChunk = (.number n, it) := HeaderChunkIterator.yields_of_takeChunk htake
  have hends := h.ends_next.1
  have hrange := HeaderChunkIterator.getNextChunk_number_range (congrArg Prod.fst hnext)
  rw [hnext] at hends
  refine ⟨it, hnext, hrest, hends, BitVec.toInt_ofInt_eq_self (by decide) ?_ ?_⟩
  · have : (uintRange : Int) = 2 ^ 32 := by decide
    omega
  · have : (uintMax : Int) = 2 ^ 32 - 1 := by decide
    omega

theorem At.getNextChunk_string {s : List UInt8} (h : r.At limit (.string s :: rest)) :
    ∃ it offset length, r.it.getNextChunk = (.string offset length, it) ∧ it.Decodes rest ∧
      it.offset + it.remains = limit ∧ it.m.slice offset length = s ∧ offset + length ≤ limit := by
  obtain ⟨it, htake, hin, hrest⟩ := h.decodes
  obtain ⟨offset, length, hnext, hslice⟩ := HeaderChunkIterator.yields_of_takeChunk htake
  obtain ⟨hends, hwithin⟩ := h.ends_next
  rw [hnext] at hends hwithin
  exact ⟨it, offset, length, hnext, hrest, hends, hslice, hwithin⟩

theorem At.getNextChunk_list {strings : List (List UInt8)}
    (h : r.At limit (.list strings :: rest)) :
    ∃ it it', r.it.getNextChunk = (.list strings.length, it) ∧
      it.offset + it.remains = limit ∧ it.getListStrings strings.length = (strings, it') ∧
      it'.inBounds = true ∧ it'.Decodes rest ∧ strings.length ≤ it.remains ∧
      strings.length < uintMax := by
  obtain ⟨it', htake, hin, hrest⟩ := h.decodes
  obtain ⟨it, hnext, hstrings⟩ := HeaderChunkIterator.yields_of_takeChunk htake
  have hends := h.ends_next.1
  have hrange := h.range
  rw [hnext] at hends
  dsimp only at hends
  have hcount : (it.getListStrings strings.length).2.remains + strings.length ≤ it.remains := by
    refine HeaderChunkIterator.getListStrings_remains (by omega) ?_
    rw [hstrings]
    exact hin
  have hlarge : chnkLargeBias < uintMax := by decide
  have hlimit := h.limit_le
  have hbefore := h.ends
  have hnextIn := h.inBounds_next
  rw [hnext] at hnextIn
  refine ⟨it, it', hnext, hends, hstrings, hin, hrest, by omega, ?_⟩
  obtain hle | hlt := HeaderChunkIterator.getNextChunk_list_remains hnext (by omega) hnextIn
  · omega
  · omega

end ChunkReader

/-! ## Slots -/

/-- A chunk that a decoder expects, and the values that it goes on with. -/
structure Slot where
  type : ChunkType
  accepts : Chunk → Bool

section Slots

variable (limit : Nat)

/-- Nothing follows, and the offset at the end of the header stands for an invalid iterator. -/
def EndsInvalid (rest : List Chunk) : Prop := rest = [] ∧ limit = uintMax

instance (rest : List Chunk) : Decidable (EndsInvalid limit rest) :=
  inferInstanceAs (Decidable (rest = [] ∧ limit = uintMax))

def Slot.Accepts (slot : Slot) (c : Chunk) (rest : List Chunk) : Prop :=
  slot.accepts c = true ∧ (slot.type ≠ .number → ¬EndsInvalid limit rest)

/-- No chunk of the wanted type comes next, and what is taken for one is invalid; `dc` is what the
stack holds. -/
def Notices (dc : BitVec 64) : (wanted : ChunkType) → (chunks : List Chunk) → Prop
  | .string, [] => limit = uintMax ∨ dc.toNat % uintRange = uintMax
  | .string, .number n :: rest => EndsInvalid limit rest ∨ n % uintRange = uintMax
  | .string, .list strings :: rest => strings = [] ∧ EndsInvalid limit rest
  | .number, [] => dc.toInt = longMax
  | .list, [] => limit = uintMax
  | .list, _ :: rest => EndsInvalid limit rest
  | _, _ => False

/-- Every slot finds a chunk of its type, until a value is not accepted or a chunk that is not there
is noticed. `k` is the number of chunks taken so far. -/
def Noticed (stack : Nat → BitVec 64) : List Slot → List Chunk → (k : Nat) → Prop
  | [], _, _ => True
  | slot :: _, [], k => Notices limit (stack k) slot.type []
  | slot :: slots, c :: rest, k =>
    if c.type = slot.type then slot.Accepts limit c rest → Noticed stack slots rest (k + 1)
    else Notices limit (stack k) slot.type (c :: rest)

end Slots

namespace Decoder

variable {α β : Type}

variable {d : Decoder α} {f : α → Decoder β} {r : ChunkReader}

/-- Calls are not forgotten. -/
def Keeps (d : Decoder α) : Prop := ∀ r, (d r).2.WellTyped → r.WellTyped

/-- A decoder for one slot. -/
structure Takes (d : Decoder α) (slot : Slot) (value : Chunk → α) : Prop where
  keeps : d.Keeps
  accepted : ∀ {r : ChunkReader} {limit : Nat} {c : Chunk} {rest : List Chunk},
    r.At limit (c :: rest) → c.type = slot.type → slot.Accepts limit c rest →
    ∃ it isValid,
      d r = (some (value c), ⟨it, r.stack, r.calls ++ [⟨slot.type, slot.type, isValid⟩]⟩) ∧
      it.Decodes rest ∧ it.offset + it.remains = limit
  refused : ∀ {r : ChunkReader} {limit : Nat} {c : Chunk} {rest : List Chunk},
    r.At limit (c :: rest) → c.type = slot.type → ¬slot.Accepts limit c rest →
    ∃ it isValid, d r = (none, ⟨it, r.stack, r.calls ++ [⟨slot.type, slot.type, isValid⟩]⟩)
  other : ∀ {r : ChunkReader} {limit : Nat} {chunks : List Chunk},
    r.At limit chunks → (∀ c ∈ chunks.head?, c.type ≠ slot.type) →
    ((d r).2.WellTyped ↔ r.WellTyped ∧ Notices limit (r.stack r.calls.length) slot.type chunks) ∧
      (Notices limit (r.stack r.calls.length) slot.type chunks → (d r).1 = none)

/-- A decoder for some slots and what is checked behind them: it notices what it should, and then
its chunks have the given types. -/
structure Follows (d : Decoder α) (slots : List Slot) (shape : List ChunkType → Prop) : Prop where
  keeps : d.Keeps
  notices : ∀ {r : ChunkReader} {limit : Nat} {chunks : List Chunk},
    r.At limit chunks → r.WellTyped →
    ((d r).2.WellTyped ↔ Noticed limit r.stack slots chunks r.calls.length)
  shaped : ∀ {r : ChunkReader} {limit : Nat} {chunks : List Chunk},
    r.At limit chunks → r.WellTyped →
    (d r).2.WellTyped → (d r).1.isSome = true → shape (chunks.map Chunk.type)

theorem bind_run (d : Decoder α) (f : α → Decoder β) (r : ChunkReader) :
    (d >>= f) r = match d r with
      | (some a, r) => f a r
      | (none, r) => (none, r) := rfl

theorem bind_some {r' : ChunkReader} {a : α} (h : d r = (some a, r')) : (d >>= f) r = f a r' := by
  rw [bind_run, h]

theorem bind_none {r' : ChunkReader} (h : d r = (none, r')) : (d >>= f) r = (none, r') := by
  rw [bind_run, h]

theorem Keeps.bind (h : d.Keeps) (hf : ∀ a, (f a).Keeps) :
    (d >>= f).Keeps := by
  intro r hr
  apply h r
  rw [bind_run] at hr
  generalize d r = result at hr ⊢
  obtain ⟨_ | a, r'⟩ := result
  · exact hr
  · exact hf a r' hr

theorem keeps_pure (a : α) : (pure a : Decoder α).Keeps := fun _ h => h

theorem keeps_check (p : Bool) : (check p).Keeps := fun _ h => h

theorem keeps_ask (f : HeaderChunkIterator → α) : (ask f).Keeps := fun _ h => h

theorem keeps_fetch (r : ChunkReader) (wanted : ChunkType)
    (isValid : HeaderChunkIterator → BitVec 64 → Bool) (h : (r.fetch wanted isValid).2.WellTyped) :
    r.WellTyped := by
  rw [ChunkReader.fetch_eq rfl] at h
  exact (ChunkReader.wellTyped_append.mp h).1

theorem keeps_getNumber : getNumber.Keeps := fun r h =>
  keeps_fetch r .number (fun _ dc => NumberChunk.isValid dc.toInt) h

theorem keeps_getString : getString.Keeps := fun r h =>
  keeps_fetch r .string (fun it dc => (StringChunk.ofUnion dc).isValid it) h

theorem keeps_getList : getList.Keeps := fun r h =>
  keeps_fetch r .list (fun it _ => it.isValid) h

theorem keeps_getListString : getListString.Keeps := fun _ h => h

theorem keeps_checkName (s : StringChunk) : (checkName s).Keeps :=
  (keeps_ask _).bind fun _ => (keeps_check _).bind fun _ => keeps_ask _

theorem keeps_takeName : takeName.Keeps := keeps_getString.bind keeps_checkName

theorem keeps_takeNumber (isValid : Int → Bool) : (takeNumber isValid).Keeps :=
  keeps_getNumber.bind fun _ => (keeps_check _).bind fun _ => keeps_pure _

theorem keeps_takeListNames (count : Nat) : (takeListNames count).Keeps := by
  induction count with
  | zero => exact keeps_pure _
  | succ count ih =>
    exact keeps_getListString.bind fun s => (keeps_checkName s).bind fun _ =>
      ih.bind fun _ => keeps_pure _

theorem keeps_takeNames : takeNames.Keeps :=
  keeps_getList.bind fun count => (keeps_ask _).bind fun _ => (keeps_check _).bind fun _ =>
    keeps_takeListNames count

theorem keeps_noMoreChunks : noMoreChunks.Keeps :=
  (keeps_ask _).bind fun _ => keeps_check _

/-- What taking a slot leads to: a chunk was taken, something was noticed, or nothing was although
it should have been. -/
theorem Takes.cases {slot : Slot} {value : Chunk → α} (h : Takes d slot value) {limit : Nat}
    {chunks : List Chunk} (hat : r.At limit chunks) (htyped : r.WellTyped) :
    (∃ c rest r', chunks = c :: rest ∧ c.type = slot.type ∧ slot.Accepts limit c rest ∧
      d r = (some (value c), r') ∧ r'.At limit rest ∧ r'.WellTyped ∧ r'.stack = r.stack ∧
      r'.calls.length = r.calls.length + 1) ∨
    (∃ r', d r = (none, r') ∧ r'.WellTyped ∧
      ∀ slots, Noticed limit r.stack (slot :: slots) chunks r.calls.length) ∨
    (¬(d r).2.WellTyped ∧
      ∀ slots, ¬Noticed limit r.stack (slot :: slots) chunks r.calls.length) := by
  by_cases hhead : ∀ c ∈ chunks.head?, c.type ≠ slot.type
  · have hnoticed (slots : List Slot) :
        Noticed limit r.stack (slot :: slots) chunks r.calls.length ↔
        Notices limit (r.stack r.calls.length) slot.type chunks := by
      cases chunks with
      | nil => rfl
      | cons c rest => rw [Noticed, if_neg (hhead c rfl)]
    obtain ⟨hd, hnone⟩ := h.other hat hhead
    right
    by_cases hn : Notices limit (r.stack r.calls.length) slot.type chunks
    · exact .inl ⟨(d r).2, Prod.ext (hnone hn) rfl, hd.mpr ⟨htyped, hn⟩,
        fun slots => (hnoticed slots).mpr hn⟩
    · exact .inr ⟨fun hr => hn (hd.mp hr).2, fun slots hr => hn ((hnoticed slots).mp hr)⟩
  · push Not at hhead
    obtain ⟨c, hc, htype⟩ := hhead
    obtain ⟨rest, rfl⟩ : ∃ rest, chunks = c :: rest := by
      cases chunks with
      | nil => simp at hc
      | cons c' rest => exact ⟨rest, by simp_all⟩
    by_cases haccepts : slot.Accepts limit c rest
    · obtain ⟨it, isValid, hrun, hrest, hends⟩ := h.accepted hat htype haccepts
      exact .inl ⟨c, rest, _, rfl, htype, haccepts, hrun, ⟨hrest, hends, hat.limit_le⟩,
        htyped.append _ _ _, rfl, by simp⟩
    · obtain ⟨it, isValid, hrun⟩ := h.refused hat htype haccepts
      refine .inr (.inl ⟨_, hrun, htyped.append _ _ _, fun slots => ?_⟩)
      rw [Noticed, if_pos htype]
      exact fun h => absurd h haccepts

theorem not_wellTyped_bind
    (h : ¬(d r).2.WellTyped) (hf : ∀ a, (f a).Keeps) : ¬((d >>= f) r).2.WellTyped := by
  rw [bind_run]
  generalize d r = result at h
  obtain ⟨_ | a, r'⟩ := result
  · exact h
  · exact fun hr => h (hf a r' hr)

theorem Takes.bind {slot : Slot} {value : Chunk → α} {slots : List Slot}
    {shape : List ChunkType → Prop} (h : Takes d slot value) (hf : ∀ a, (f a).Follows slots shape) :
    (d >>= f).Follows (slot :: slots) fun types =>
      ∃ rest, types = slot.type :: rest ∧ shape rest where
  keeps := h.keeps.bind fun a => (hf a).keeps
  notices {r limit chunks} hat htyped := by
    obtain ⟨c, rest, r', rfl, htype, haccepts, hrun, hat', htyped', hstack, hcalls⟩ |
      ⟨r', hrun, htyped', hnoticed⟩ | ⟨hill, hnot⟩ := h.cases hat htyped
    · have hiff := (hf (value c)).notices hat' htyped'
      rw [hstack, hcalls] at hiff
      rw [bind_some hrun, Noticed, if_pos htype]
      exact hiff.trans (by simp [haccepts])
    · rw [bind_none hrun]
      exact iff_of_true htyped' (hnoticed slots)
    · exact iff_of_false (not_wellTyped_bind hill fun a => (hf a).keeps) (hnot slots)
  shaped {r limit chunks} hat htyped hr hsome := by
    obtain ⟨c, rest, r', rfl, htype, haccepts, hrun, hat', htyped', -⟩ |
      ⟨r', hrun, -⟩ | ⟨hill, -⟩ := h.cases hat htyped
    · rw [bind_some hrun] at hr hsome
      exact ⟨_, by rw [List.map_cons, htype], (hf (value c)).shaped hat' htyped' hr hsome⟩
    · rw [bind_none hrun] at hsome
      exact absurd hsome (by simp)
    · exact absurd hr (not_wellTyped_bind hill fun a => (hf a).keeps)

/-! ## Decoders for one slot -/

section Values

variable {r : ChunkReader} {limit : Nat} {rest : List Chunk} {it : HeaderChunkIterator}
  {data : ChunkData}

theorem takeNumber_eq (isValid : Int → Bool) (h : r.it.getNextChunk = (data, it)) :
    let n := (data.store (r.stack r.calls.length)).toInt
    takeNumber isValid r = (if isValid n then some n else none,
      ⟨it, r.stack, r.calls ++ [⟨.number, data.type, NumberChunk.isValid n⟩]⟩) := by
  intro n
  have hrun : getNumber r = (some n,
      ⟨it, r.stack, r.calls ++ [⟨.number, data.type, NumberChunk.isValid n⟩]⟩) := by
    simp only [getNumber, ChunkReader.fetch_eq h]
    rfl
  rw [takeNumber, bind_some hrun, bind_run, check]
  cases isValid n <;> rfl

theorem checkName_eq (s : StringChunk) (r : ChunkReader) : checkName s r =
    (if s.isValidName r.it then some (r.it.m.slice s.offset s.length) else none, r) := by
  simp only [checkName, bind_run, ask, check]
  cases s.isValidName r.it <;> rfl

theorem takeName_eq (h : r.it.getNextChunk = (data, it)) :
    let s := StringChunk.ofUnion (data.store (r.stack r.calls.length))
    takeName r = (if s.isValidName it then some (it.m.slice s.offset s.length) else none,
      ⟨it, r.stack, r.calls ++ [⟨.string, data.type, s.isValid it⟩]⟩) := by
  intro s
  have hrun : getString r = (some s,
      ⟨it, r.stack, r.calls ++ [⟨.string, data.type, s.isValid it⟩]⟩) := by
    simp only [getString, ChunkReader.fetch_eq h]
    rfl
  rw [takeName, bind_some hrun, checkName_eq]

theorem toNat_of_toInt_eq_longMax {dc : BitVec 64} (h : dc.toInt = longMax) :
    dc.toNat % uintRange = uintMax ∧ 0 < dc.toNat / uintRange := by
  have hlt := dc.isLt
  simp only [BitVec.toInt_eq_toNat_cond, longMax, uintRange, uintMax] at h ⊢
  split_ifs at h <;> omega

theorem toNat_store_string {offset length : Nat} (hoffset : offset < uintRange)
    (hlength : length < uintRange) (old : BitVec 64) :
    ((ChunkData.string offset length).store old).toNat % uintRange = offset ∧
      ((ChunkData.string offset length).store old).toNat / uintRange = length := by
  simp only [ChunkData.store, BitVec.toNat_ofNat, uintRange] at *
  omega

theorem toNat_store_list {count : Nat} (hcount : count < uintRange) (old : BitVec 64) :
    ((ChunkData.list count).store old).toNat % uintRange = count := by
  have hlt := old.isLt
  simp only [ChunkData.store, BitVec.toNat_ofNat, uintRange] at *
  omega

theorem toNat_store_number (n : Int) (old : BitVec 64) :
    (((ChunkData.number n).store old).toNat % uintRange : Nat) = n % uintRange := by
  simp only [ChunkData.store, BitVec.toNat_ofInt, uintRange]
  omega

theorem takes_takeNumber {isValid : Int → Bool} (hmax : isValid longMax = false) :
    Takes (takeNumber isValid) ⟨.number, fun c => isValid c.toNumber⟩ Chunk.toNumber where
  keeps := keeps_takeNumber isValid
  accepted {r limit c rest} hat htype haccepts := by
    rw [Chunk.eq_number htype] at hat
    obtain ⟨it, hnext, hrest, hends, hint⟩ := hat.getNextChunk_number
    have haccepts' : isValid c.toNumber = true := haccepts.1
    have hrun := takeNumber_eq isValid hnext
    simp only [ChunkData.store, hint, haccepts', if_true] at hrun
    exact ⟨it, _, hrun, hrest, hends⟩
  refused {r limit c rest} hat htype haccepts := by
    rw [Chunk.eq_number htype] at hat
    obtain ⟨it, hnext, hrest, hends, hint⟩ := hat.getNextChunk_number
    have haccepts' : ¬isValid c.toNumber = true := fun h => haccepts ⟨h, fun hne => absurd rfl hne⟩
    have hrun := takeNumber_eq isValid hnext
    simp only [ChunkData.store, hint, haccepts'] at hrun
    exact ⟨it, _, hrun⟩
  other {r limit chunks} hat hhead := by
    have hother {data : ChunkData} {it : HeaderChunkIterator}
        (hnext : r.it.getNextChunk = (data, it)) (htype : data.type ≠ .number) :
        ((takeNumber isValid r).2.WellTyped ↔
          r.WellTyped ∧ (data.store (r.stack r.calls.length)).toInt = longMax) ∧
        ((data.store (r.stack r.calls.length)).toInt = longMax →
          (takeNumber isValid r).1 = none) := by
      rw [takeNumber_eq isValid hnext, ChunkReader.wellTyped_append]
      simp only [NumberChunk.isValid, bne_iff_ne, htype, imp_false, not_not, true_and]
      intro heq
      rw [heq, hmax]
      rfl
    match chunks with
    | [] => exact hother hat.getNextChunk_nil (by simp [ChunkData.type])
    | .number n :: rest => exact absurd rfl (hhead _ rfl)
    | .string s :: rest =>
      obtain ⟨it, offset, length, hnext, -, -, -, hwithin⟩ := hat.getNextChunk_string
      have hlimit := hat.limit_le
      have hrange := hat.range
      have hfalse :
          ((ChunkData.string offset length).store (r.stack r.calls.length)).toInt = longMax ↔
            False := by
        refine iff_false_intro fun hmax => ?_
        obtain ⟨hlow, hhigh⟩ := toNat_of_toInt_eq_longMax hmax
        have hlt : offset < uintRange ∧ length < uintRange := by omega
        obtain ⟨hoffset, hlength⟩ := toNat_store_string hlt.1 hlt.2 (r.stack r.calls.length)
        omega
      simpa only [hfalse, Notices] using hother hnext (by simp [ChunkData.type])
    | .list strings :: rest =>
      obtain ⟨it, it', hnext, -, -, -, -, -, hcount⟩ := hat.getNextChunk_list
      have hfalse :
          ((ChunkData.list strings.length).store (r.stack r.calls.length)).toInt = longMax ↔
            False := by
        refine iff_false_intro fun hmax => ?_
        have hmaxlt : uintMax < uintRange := by decide
        have hlow := (toNat_of_toInt_eq_longMax hmax).1
        rw [toNat_store_list (by omega)] at hlow
        omega
      simpa only [hfalse, Notices] using hother hnext (by simp [ChunkData.type])

theorem isValid_eq_true_iff (h : it.Decodes rest) (hends : it.offset + it.remains = limit)
    (hlimit : limit ≤ uintMax) : it.isValid = true ↔ ¬EndsInvalid limit rest := by
  rw [EndsInvalid, ← h.isValid_iff hends hlimit, Bool.not_eq_false]

def isName (s : List UInt8) : Bool := 0 < s.length && s.length ≤ ushortMax

theorem isValidName_iff {offset : Nat} {s : List UInt8} (hle : offset + s.length ≤ uintMax) :
    (⟨offset, s.length⟩ : StringChunk).isValidName it = true ↔
      isName s = true ∧ it.isValid = true := by
  simp only [StringChunk.isValidName, StringChunk.isValid, isName, Bool.and_eq_true, bne_iff_ne,
    decide_eq_true_eq]
  refine ⟨fun h => ⟨⟨h.1.2, h.2⟩, h.1.1.1⟩, fun h => ⟨⟨⟨h.2, ?_⟩, h.1.1⟩, h.1.2⟩⟩
  omega

theorem takeName_string {s : List UInt8} (hat : r.At limit (.string s :: rest)) :
    ∃ it isValid, takeName r = (if isName s ∧ ¬EndsInvalid limit rest then some s else none,
        ⟨it, r.stack, r.calls ++ [⟨.string, .string, isValid⟩]⟩) ∧
      it.Decodes rest ∧ it.offset + it.remains = limit := by
  obtain ⟨it, offset, length, hnext, hrest, hends, hslice, hwithin⟩ := hat.getNextChunk_string
  have hlimit := hat.limit_le
  have hrange := hat.range
  have hlt : offset < uintRange ∧ length < uintRange := by omega
  obtain ⟨hoffset, hlength⟩ := toNat_store_string hlt.1 hlt.2 (r.stack r.calls.length)
  have hrun := takeName_eq hnext
  simp only [StringChunk.ofUnion, hoffset, hlength, hslice] at hrun
  obtain rfl : s.length = length := by rw [← hslice, length_slice]
  simp only [isValidName_iff (Nat.le_trans hwithin hlimit),
    isValid_eq_true_iff hrest hends hlimit] at hrun
  exact ⟨it, _, hrun, hrest, hends⟩

theorem takes_takeName : Takes takeName ⟨.string, fun c => isName c.toBytes⟩ Chunk.toBytes where
  keeps := keeps_takeName
  accepted {r limit c rest} hat htype haccepts := by
    rw [Chunk.eq_string htype] at hat
    obtain ⟨it, isValid, hrun, hrest, hends⟩ := takeName_string hat
    rw [if_pos ⟨haccepts.1, haccepts.2 (by simp)⟩] at hrun
    exact ⟨it, isValid, hrun, hrest, hends⟩
  refused {r limit c rest} hat htype haccepts := by
    rw [Chunk.eq_string htype] at hat
    obtain ⟨it, isValid, hrun, hrest, hends⟩ := takeName_string hat
    rw [if_neg fun h => haccepts ⟨h.1, fun _ => h.2⟩] at hrun
    exact ⟨it, isValid, hrun⟩
  other {r limit chunks} hat hhead := by
    have hlimit := hat.limit_le
    have hother {data : ChunkData} {it : HeaderChunkIterator}
        (hnext : r.it.getNextChunk = (data, it)) (htype : data.type ≠ .string) {P : Prop}
        (hP : it.isValid = false ∨
          (data.store (r.stack r.calls.length)).toNat % uintRange = uintMax ↔ P) :
        ((takeName r).2.WellTyped ↔ r.WellTyped ∧ P) ∧ (P → (takeName r).1 = none) := by
      have hvalid : (StringChunk.ofUnion (data.store (r.stack r.calls.length))).isValid it = false ↔
          P := by
        rw [← hP, StringChunk.isValid, Bool.and_eq_false_iff, bne_eq_false_iff_eq]
        rfl
      rw [takeName_eq hnext, ChunkReader.wellTyped_append]
      simp only [htype, imp_false, Bool.not_eq_true, hvalid, true_and]
      intro hp
      rw [StringChunk.isValidName, hvalid.mpr hp]
      rfl
    match chunks with
    | [] =>
      refine hother hat.getNextChunk_nil (by simp [ChunkData.type]) ?_
      rw [hat.decodes.isValid_iff hat.ends hlimit]
      simp only [Notices, ChunkData.store, true_and]
    | .number n :: rest =>
      obtain ⟨it, hnext, hrest, hends, -⟩ := hat.getNextChunk_number
      refine hother hnext (by simp [ChunkData.type]) ?_
      rw [hrest.isValid_iff hends hlimit, Notices, ← toNat_store_number n (r.stack r.calls.length)]
      exact or_congr Iff.rfl Int.natCast_inj.symm
    | .string s :: rest => exact absurd rfl (hhead _ rfl)
    | .list strings :: rest =>
      obtain ⟨it, it', hnext, hends, hstrings, -, hrest, hcount, hmax⟩ := hat.getNextChunk_list
      refine hother hnext (by simp [ChunkData.type]) ?_
      rw [toNat_store_list (Nat.lt_trans hmax (by decide)), Notices]
      cases strings with
      | nil =>
        obtain rfl : it = it' := congrArg Prod.snd hstrings
        rw [hrest.isValid_iff hends hlimit]
        have : (0 : Nat) ≠ uintMax := by decide
        simp only [List.length_nil, this, or_false, true_and, EndsInvalid]
      | cons s strings =>
        simp only [HeaderChunkIterator.isValid, bne_eq_false_iff_eq, reduceCtorEq, false_and,
          iff_false]
        rw [List.length_cons] at hcount hmax ⊢
        omega

/-- Before a string of a list the iterator is valid; after the last one it depends on the rest. -/
theorem isValid_iff_of_getListStrings {strings : List (List UInt8)} {it' : HeaderChunkIterator}
    (hstrings : it.getListStrings strings.length = (strings, it')) (hin : it'.inBounds = true)
    (hrest : it'.Decodes rest) (hends : it.offset + it.remains = limit) (hlimit : limit ≤ uintMax) :
    it.isValid = true ↔ (strings = [] → ¬EndsInvalid limit rest) := by
  have hsize : limit < uintRange := Nat.lt_of_le_of_lt hlimit (by decide)
  have hremains : (it.getListStrings strings.length).2.remains + strings.length ≤ it.remains :=
    HeaderChunkIterator.getListStrings_remains (by omega) (by rw [hstrings]; exact hin)
  cases strings with
  | nil =>
    obtain rfl : it = it' := congrArg Prod.snd hstrings
    simpa using isValid_eq_true_iff hrest hends hlimit
  | cons s strings =>
    rw [List.length_cons] at hremains
    simp only [HeaderChunkIterator.isValid, bne_iff_ne, reduceCtorEq, false_imp_iff, iff_true]
    omega

/-- One turn of the loop over the strings of a list. -/
theorem takeListNames_succ (stack : Nat → BitVec 64) (calls : List ChunkCall) (count : Nat)
    (hin : it.getListString.2.inBounds = true) (hends : it.offset + it.remains = limit)
    (hlimit : limit ≤ uintMax) :
    takeListNames (count + 1) ⟨it, stack, calls⟩ =
      if isName it.getListString.1 ∧ it.getListString.2.isValid then
        (takeListNames count >>= fun names => pure (it.getListString.1 :: names))
          ⟨it.getListString.2, stack, calls⟩
      else (none, ⟨it.getListString.2, stack, calls⟩) := by
  have hin' := HeaderChunkIterator.inBounds_getListString hin
  have hle : (it.getLength uintRange 0).1 ≤ (it.getLength uintRange 0).2.remains := by
    rw [HeaderChunkIterator.getListString_snd] at hin
    exact (HeaderChunkIterator.inBounds_skip.mp hin).2
  have hname : (⟨(it.getLength uintRange 0).2.offset, (it.getLength uintRange 0).1⟩ :
      StringChunk).isValidName it.getListString.2 = true ↔
      isName it.getListString.1 = true ∧ it.getListString.2.isValid = true := by
    have hlength : it.getListString.1.length = (it.getLength uintRange 0).1 := length_slice _ _ _
    have hends' := ((HeaderChunkIterator.same_self hends).getLength
      (Nat.lt_of_le_of_lt hlimit (by decide)) hin').2.within hin'
    rw [← hlength] at hle ⊢
    exact isValidName_iff (by omega)
  have hrun : getListString ⟨it, stack, calls⟩ =
      (some ⟨(it.getLength uintRange 0).2.offset, (it.getLength uintRange 0).1⟩,
        ⟨it.getListString.2, stack, calls⟩) := rfl
  have hcheck := checkName_eq
    ⟨(it.getLength uintRange 0).2.offset, (it.getLength uintRange 0).1⟩
    ⟨it.getListString.2, stack, calls⟩
  rw [takeListNames, bind_some hrun]
  simp only [hname] at hcheck
  split_ifs at hcheck ⊢
  · exact bind_some hcheck
  · exact bind_none hcheck

theorem takeListNames_eq (stack : Nat → BitVec 64) (calls : List ChunkCall)
    {strings : List (List UInt8)} {it' : HeaderChunkIterator}
    (hstrings : it.getListStrings strings.length = (strings, it')) (hin : it'.inBounds = true)
    (hrest : it'.Decodes rest) (hends : it.offset + it.remains = limit) (hlimit : limit ≤ uintMax) :
    if (∀ s ∈ strings, isName s) ∧ (strings ≠ [] → ¬EndsInvalid limit rest) then
      takeListNames strings.length ⟨it, stack, calls⟩ = (some strings, ⟨it', stack, calls⟩)
    else
      ∃ it'', takeListNames strings.length ⟨it, stack, calls⟩ = (none, ⟨it'', stack, calls⟩) := by
  induction strings generalizing it with
  | nil =>
    obtain rfl : it = it' := congrArg Prod.snd hstrings
    rw [if_pos (by simp)]
    rfl
  | cons s strings ih =>
    have hsize : limit < uintRange := Nat.lt_of_le_of_lt hlimit (by decide)
    simp only [List.length_cons, HeaderChunkIterator.getListStrings, Prod.mk.injEq,
      List.cons.injEq] at hstrings
    obtain ⟨⟨rfl, hstrings⟩, hit'⟩ := hstrings
    have hnext : it.getListString.2.getListStrings strings.length = (strings, it') :=
      Prod.ext hstrings hit'
    have hin' : it.getListString.2.inBounds = true :=
      HeaderChunkIterator.inBounds_getListStrings (by rw [hnext]; exact hin)
    have hends' := ((HeaderChunkIterator.same_self hends).getListString hsize hin').2.within hin'
    have hsplit : ((∀ x ∈ it.getListString.1 :: strings, isName x = true) ∧
          (it.getListString.1 :: strings ≠ [] → ¬EndsInvalid limit rest)) ↔
        (isName it.getListString.1 = true ∧ (strings = [] → ¬EndsInvalid limit rest)) ∧
          (∀ x ∈ strings, isName x = true) ∧ (strings ≠ [] → ¬EndsInvalid limit rest) := by
      simp only [List.forall_mem_cons, ne_eq, reduceCtorEq, not_false_eq_true, true_imp_iff]
      tauto
    have hih := ih hnext hends'
    rw [List.length_cons, takeListNames_succ stack calls strings.length hin' hends hlimit]
    simp only [isValid_iff_of_getListStrings hnext hin hrest hends' hlimit, hsplit]
    by_cases hfirst : isName it.getListString.1 = true ∧ (strings = [] → ¬EndsInvalid limit rest)
    · rw [if_pos hfirst]
      split_ifs at hih with hothers
      · rw [if_pos ⟨hfirst, hothers⟩]
        exact bind_some hih
      · rw [if_neg fun h => hothers h.2]
        obtain ⟨it'', hnone⟩ := hih
        exact ⟨it'', bind_none hnone⟩
    · rw [if_neg hfirst, if_neg fun h => hfirst h.1]
      exact ⟨_, rfl⟩

theorem takeNames_eq (h : r.it.getNextChunk = (data, it)) :
    takeNames r = (if it.isValid then
        takeListNames ((data.store (r.stack r.calls.length)).toNat % uintRange)
          ⟨it, r.stack, r.calls ++ [⟨.list, data.type, it.isValid⟩]⟩
      else (none, ⟨it, r.stack, r.calls ++ [⟨.list, data.type, it.isValid⟩]⟩)) := by
  have hrun : getList r = (some ((data.store (r.stack r.calls.length)).toNat % uintRange),
      ⟨it, r.stack, r.calls ++ [⟨.list, data.type, it.isValid⟩]⟩) := by
    simp only [getList, ChunkReader.fetch_eq h]
  rw [takeNames, bind_some hrun]
  simp only [bind_run, ask, check]
  cases it.isValid <;> rfl

theorem takeNames_list {strings : List (List UInt8)} (hat : r.At limit (.list strings :: rest)) :
    ∃ isValid, if (∀ s ∈ strings, isName s) ∧ ¬EndsInvalid limit rest then
      ∃ it, takeNames r = (some strings, ⟨it, r.stack, r.calls ++ [⟨.list, .list, isValid⟩]⟩) ∧
        it.Decodes rest ∧ it.offset + it.remains = limit
    else ∃ it, takeNames r = (none, ⟨it, r.stack, r.calls ++ [⟨.list, .list, isValid⟩]⟩) := by
  obtain ⟨it, it', hnext, hends, hstrings, hin, hrest, hcount, hmax⟩ := hat.getNextChunk_list
  have hlimit := hat.limit_le
  have hrun := takeNames_eq hnext
  rw [toNat_store_list (Nat.lt_trans hmax (by decide))] at hrun
  have hloop := takeListNames_eq r.stack (r.calls ++ [⟨.list, .list, it.isValid⟩])
    hstrings hin hrest hends hlimit
  have hends' : it'.offset + it'.remains = limit := by
    have hin' : (it.getListStrings strings.length).2.inBounds = true := by rwa [hstrings]
    have hsame :=
      ((HeaderChunkIterator.same_self hends).getListStrings hat.range hin').2.within hin'
    rwa [hstrings] at hsame
  refine ⟨it.isValid, ?_⟩
  cases strings with
  | nil =>
    obtain rfl : it = it' := congrArg Prod.snd hstrings
    have hvalid := isValid_eq_true_iff hrest hends hlimit
    simp only [List.not_mem_nil, false_imp_iff, implies_true, true_and]
    split_ifs with hinvalid
    · rw [if_neg fun h => hvalid.mp h hinvalid] at hrun
      exact ⟨it, hrun⟩
    · rw [if_pos (hvalid.mpr hinvalid)] at hrun
      exact ⟨it, hrun, hrest, hends⟩
  | cons s strings =>
    have hvalid : it.isValid = true := by
      rw [List.length_cons] at hcount
      rw [HeaderChunkIterator.isValid, bne_iff_ne]
      omega
    rw [if_pos hvalid] at hrun
    simp only [ne_eq, reduceCtorEq, not_false_eq_true, true_imp_iff] at hloop
    split_ifs at hloop ⊢ with hnames
    · exact ⟨it', hrun.trans hloop, hrest, hends'⟩
    · obtain ⟨it'', hnone⟩ := hloop
      exact ⟨it'', hrun.trans hnone⟩

theorem takes_takeNames :
    Takes takeNames ⟨.list, fun c => c.toStrings.all isName⟩ Chunk.toStrings where
  keeps := keeps_takeNames
  accepted {r limit c rest} hat htype haccepts := by
    rw [Chunk.eq_list htype] at hat
    obtain ⟨isValid, hrun⟩ := takeNames_list hat
    rw [if_pos ⟨List.all_eq_true.mp haccepts.1, haccepts.2 (by simp)⟩] at hrun
    obtain ⟨it, hrun, hrest, hends⟩ := hrun
    exact ⟨it, isValid, hrun, hrest, hends⟩
  refused {r limit c rest} hat htype haccepts := by
    rw [Chunk.eq_list htype] at hat
    obtain ⟨isValid, hrun⟩ := takeNames_list hat
    rw [if_neg fun h => haccepts ⟨List.all_eq_true.mpr h.1, fun _ => h.2⟩] at hrun
    obtain ⟨it, hrun⟩ := hrun
    exact ⟨it, isValid, hrun⟩
  other {r limit chunks} hat hhead := by
    have hlimit := hat.limit_le
    have hother {data : ChunkData} {it : HeaderChunkIterator}
        (hnext : r.it.getNextChunk = (data, it)) (htype : data.type ≠ .list) {P : Prop}
        (hP : it.isValid = false ↔ P) :
        ((takeNames r).2.WellTyped ↔ r.WellTyped ∧ P) ∧ (P → (takeNames r).1 = none) := by
      rw [takeNames_eq hnext, ← hP]
      split_ifs with hvalid
      · have hill : ¬(takeListNames ((data.store (r.stack r.calls.length)).toNat % uintRange)
            ⟨it, r.stack, r.calls ++ [⟨.list, data.type, it.isValid⟩]⟩).2.WellTyped := fun h =>
          htype ((ChunkReader.wellTyped_append.mp (keeps_takeListNames _ _ h)).2 hvalid)
        exact ⟨iff_of_false hill (by simp [hvalid]), by simp [hvalid]⟩
      · rw [ChunkReader.wellTyped_append]
        simp [hvalid]
    match chunks with
    | [] =>
      refine hother hat.getNextChunk_nil (by simp [ChunkData.type]) ?_
      rw [hat.decodes.isValid_iff hat.ends hlimit]
      simp only [Notices, true_and]
    | .number n :: rest =>
      obtain ⟨it, hnext, hrest, hends, -⟩ := hat.getNextChunk_number
      exact hother hnext (by simp [ChunkData.type]) (hrest.isValid_iff hends hlimit)
    | .string s :: rest =>
      obtain ⟨it, offset, length, hnext, hrest, hends, -⟩ := hat.getNextChunk_string
      exact hother hnext (by simp [ChunkData.type]) (hrest.isValid_iff hends hlimit)
    | .list strings :: rest => exact absurd rfl (hhead _ rfl)

theorem Takes.check {α β : Type} {d : Decoder α} {slot : Slot} {value : Chunk → α}
    (h : Takes d slot value) (p : α → Bool) (f : α → β) :
    Takes (do let a ← d; Decoder.check (p a); return f a)
      ⟨slot.type, fun c => slot.accepts c && p (value c)⟩ (fun c => f (value c)) where
  keeps := h.keeps.bind fun _ => (keeps_check _).bind fun _ => keeps_pure _
  accepted {r limit c rest} hat htype haccepts := by
    obtain ⟨hslot, hp⟩ := (Bool.and_eq_true _ _).mp haccepts.1
    obtain ⟨it, isValid, hrun, hrest⟩ := h.accepted hat htype ⟨hslot, haccepts.2⟩
    refine ⟨it, isValid, ?_, hrest⟩
    rw [bind_some hrun, bind_run, Decoder.check, if_pos hp]
    rfl
  refused {r limit c rest} hat htype haccepts := by
    by_cases hslot : slot.Accepts limit c rest
    · obtain ⟨it, isValid, hrun, -⟩ := h.accepted hat htype hslot
      refine ⟨it, isValid, ?_⟩
      have hp : ¬p (value c) = true := fun hp =>
        haccepts ⟨(Bool.and_eq_true _ _).mpr ⟨hslot.1, hp⟩, hslot.2⟩
      rw [bind_some hrun, bind_run, Decoder.check, if_neg hp]
    · obtain ⟨it, isValid, hrun⟩ := h.refused hat htype hslot
      exact ⟨it, isValid, bind_none hrun⟩
  other {r limit chunks} hat hhead := by
    obtain ⟨htyped, hnone⟩ := h.other hat hhead
    have hsnd : ((do let a ← d; Decoder.check (p a); return f a : Decoder β) r).2 = (d r).2 := by
      rw [bind_run]
      obtain ⟨_ | a, r'⟩ := d r
      · rfl
      · simp only [bind_run, Decoder.check]
        cases p a <;> rfl
    rw [hsnd]
    refine ⟨htyped, fun hn => ?_⟩
    have : d r = (none, (d r).2) := Prod.ext (hnone hn) rfl
    rw [bind_none this]

end Values

end Decoder

end CyberCache
