import CyberCache.Commands.StoreCommands

/-!
# Formats of the commands for the stores

What the protocol says about the chunks of a command, and what its handler fetches. As the type of a
chunk is not tested, a handler notices a chunk of another type only if what it takes for the chunk
is invalid. If it takes no chunk for one of another type, what passes its tests has the documented
format; but CLEAN does not look at what follows the names of the tags.
-/

namespace CyberCache

open Decoder
open NumberChunk (isValidUint)

namespace StoreCommand

/-- What `io_protocol.h` says about the chunks of a command. -/
def Documented (cmd : StoreCommand) (types : List ChunkType) : Prop :=
  match cmd with
  | read => types = [.string, .number] ∨ types = [.string, .number, .number]
  | write => types = [.string, .number, .number] ∨ types = [.string, .number, .number, .number]
  | destroy | remove | getmetadatas => types = [.string]
  | gc => types = [.number]
  | load | test | touch => types = [.string, .number]
  | save => types = [.string, .number, .number, .list]
  | clean => types = [.number] ∨ types = [.number, .list]

instance (types : List ChunkType) : (cmd : StoreCommand) → Decidable (cmd.Documented types)
  | read | write | clean => inferInstanceAs (Decidable (_ ∨ _))
  | destroy | remove | getmetadatas | gc | load | test | touch | save =>
    inferInstanceAs (Decidable (_ = _))

/-- The calls that the handler of a command makes. -/
def fetched (cmd : StoreCommand) (cr : CommandReader) (r : ChunkReader) : ChunkReader :=
  match cmd with
  | read => (readArguments r).2
  | write => (writeArguments cr r).2
  | destroy | remove | getmetadatas => (nameArguments cr r).2
  | gc => (gcArguments cr r).2
  | load | test => (loadArguments r).2
  | save => (saveArguments cr r).2
  | touch => (touchArguments r).2
  | clean => (cleanArguments cr r).2

/-- The handler goes on after fetching and testing the chunks. -/
def passes (cmd : StoreCommand) (cr : CommandReader) (r : ChunkReader) : Bool :=
  match cmd with
  | read => (readArguments r).1.isSome
  | write => (writeArguments cr r).1.isSome
  | destroy | remove | getmetadatas => (nameArguments cr r).1.isSome
  | gc => (gcArguments cr r).1.isSome
  | load | test => (loadArguments r).1.isSome
  | save => (saveArguments cr r).1.isSome
  | touch => (touchArguments r).1.isSome
  | clean => (cleanArguments cr r).1.isSome

end StoreCommand

namespace ChunkReader

variable {r : ChunkReader} {limit : Nat} {chunks : List Chunk}

theorem At.eq_nil (h : r.At limit chunks) (hmore : r.it.hasMoreChunks = false) : chunks = [] := by
  have hzero : r.it.remains = 0 := by simpa [HeaderChunkIterator.hasMoreChunks] using hmore
  cases chunks with
  | nil => rfl
  | cons c rest =>
    obtain ⟨it', htake, -, -⟩ := h.decodes
    exact absurd (HeaderChunkIterator.remains_pos_of_takeChunk htake) (by omega)

theorem At.getNextChunkType (h : r.At limit chunks) :
    r.it.getNextChunkType = (chunks.head?.map Chunk.type).getD .none := by
  rw [HeaderChunkIterator.getNextChunkType_eq]
  match chunks with
  | [] => rw [h.getNextChunk_nil]; rfl
  | .number n :: rest =>
    obtain ⟨it, hnext, -⟩ := h.getNextChunk_number
    rw [hnext]
    rfl
  | .string s :: rest =>
    obtain ⟨it, offset, length, hnext, -⟩ := h.getNextChunk_string
    rw [hnext]
    rfl
  | .list strings :: rest =>
    obtain ⟨it, it', hnext, -⟩ := h.getNextChunk_list
    rw [hnext]
    rfl

end ChunkReader

namespace Decoder
variable {α : Type}

theorem Follows.mono {d : Decoder α} {slots : List Slot} {shape shape' : List ChunkType → Prop}
    (h : d.Follows slots shape) (himp : ∀ types, shape types → shape' types) :
    d.Follows slots shape' where
  keeps := h.keeps
  notices := h.notices
  shaped hat htyped hr hsome := himp _ (h.shaped hat htyped hr hsome)

theorem follows_noMoreChunks {d : Decoder α} (hd : ∀ r, (d r).2 = r) :
    (do noMoreChunks; d).Follows [] fun types => types = [] := by
  have hrun (r : ChunkReader) : (do noMoreChunks; d : Decoder α) r =
      if r.it.hasMoreChunks then (none, r) else d r := by
    simp only [noMoreChunks, bind_run, ask, check]
    cases r.it.hasMoreChunks <;> rfl
  have hsnd (r : ChunkReader) : ((do noMoreChunks; d : Decoder α) r).2 = r := by
    rw [hrun]
    split_ifs
    · rfl
    · exact hd r
  refine ⟨fun r hr => ?_, fun {r limit chunks} hat htyped => ?_,
    fun {r limit chunks} hat htyped _ hsome => ?_⟩
  · rwa [hsnd] at hr
  · rw [hsnd]
    exact iff_of_true htyped trivial
  · rw [hrun] at hsome
    split_ifs at hsome with hmore
    · exact absurd hsome (by simp)
    · rw [hat.eq_nil (by simpa using hmore), List.map_nil]

theorem follows_takeRequestId {d : Nat → Decoder α} (hd : ∀ a r, (d a r).2 = r) :
    (do let a ← takeRequestId; noMoreChunks; d a : Decoder α).Follows [] fun types =>
      types = [] ∨ types = [.number] := by
  have hsome {r : ChunkReader} (hnumber : r.it.getNextChunkType = .number) :
      (do let a ← takeRequestId; noMoreChunks; d a : Decoder α) r =
        (do let n ← takeNumber isValidUint; noMoreChunks; d (uintOfInt n) :
          Decoder α) r := by
    simp only [takeRequestId, bind_run, ask, hnumber, if_true]
    generalize takeNumber isValidUint r = result
    obtain ⟨_ | n, r'⟩ := result <;> rfl
  have hnone {r : ChunkReader} (hnumber : r.it.getNextChunkType ≠ .number) :
      (do let a ← takeRequestId; noMoreChunks; d a : Decoder α) r =
        (do noMoreChunks; d 0 : Decoder α) r := by
    simp only [takeRequestId, bind_run, ask, hnumber, if_false]
    rfl
  have hnumber : (do let n ← takeNumber isValidUint; noMoreChunks; d (uintOfInt n) :
      Decoder α).Follows _ _ :=
    (takes_takeNumber (by decide)).bind fun n => follows_noMoreChunks (hd (uintOfInt n))
  have hother : (do noMoreChunks; d 0 : Decoder α).Follows _ _ := follows_noMoreChunks (hd 0)
  refine ⟨fun r => ?_, fun {r limit chunks} hat htyped => ?_, fun {r limit chunks} hat htyped => ?_⟩
  all_goals by_cases htype : r.it.getNextChunkType = .number
  · rw [hsome htype]
    exact hnumber.keeps r
  · rw [hnone htype]
    exact hother.keeps r
  · rw [hsome htype, hnumber.notices hat htyped]
    refine iff_of_true ?_ trivial
    rw [hat.getNextChunkType] at htype
    rcases chunks with _ | ⟨_ | _ | _, rest⟩
    · exact absurd htype (by simp)
    · exact fun _ => trivial
    all_goals exact absurd htype (by simp [Chunk.type])
  · rw [hnone htype]
    exact hother.notices hat htyped
  · rw [hsome htype]
    intro hr hsome'
    obtain ⟨rest, htypes, rfl⟩ := hnumber.shaped hat htyped hr hsome'
    exact .inr htypes
  · rw [hnone htype]
    exact fun hr hsome' => .inl (hother.shaped hat htyped hr hsome')

end Decoder

/-! ## Slots of the commands -/

def nameSlot : Slot := ⟨.string, fun c => isName c.toBytes⟩

def numberSlot (isValid : Int → Bool) : Slot := ⟨.number, fun c => isValid c.toNumber⟩

def namesSlot : Slot := ⟨.list, fun c => c.toStrings.all isName⟩

def isAgent (n : Int) : Bool := n % 256 < 4

/-- The chunks that the handler of a command fetches before the optional request ID, and the values
that it goes on with. -/
def StoreCommand.slots (cmd : StoreCommand) (hasPayload : Bool) : List Slot :=
  match cmd with
  | read | load | test => [nameSlot, numberSlot isAgent]
  | write =>
    [nameSlot, numberSlot fun n => isValidUint n && isAgent n,
      numberSlot NumberChunk.isValid]
  | save =>
    [nameSlot, numberSlot fun n => isValidUint n && isAgent n,
      numberSlot (NumberChunk.isInRange (-1) uintMax), namesSlot]
  | destroy | remove | getmetadatas => [nameSlot]
  | gc => [numberSlot isValidUint]
  | touch => [nameSlot, numberSlot isValidUint]
  | clean =>
    [numberSlot fun n => isValidUint n && (!hasPayload && n != 1 && n != 2), namesSlot]

namespace Decoder

variable {α : Type} {r r' : ChunkReader} {n : Int}

theorem toUserAgent_lt_iff (n : Int) : toUserAgent n < numUserAgents ↔ n % 256 < 4 := by
  simp only [toUserAgent, uintOfInt, uintRange, numUserAgents]
  omega

theorem takes_takeUserAgent {isValid accepts : Int → Bool} (hmax : isValid longMax = false)
    (haccepts : ∀ n, accepts n = (isValid n && isAgent n)) :
    Takes (takeUserAgent isValid) (numberSlot accepts) (fun c => toUserAgent c.toNumber) := by
  have hslot : numberSlot accepts = ⟨.number, fun c =>
      isValid c.toNumber && decide (toUserAgent c.toNumber < numUserAgents)⟩ := by
    simp only [numberSlot, haccepts, isAgent, toUserAgent_lt_iff]
  rw [hslot]
  exact (takes_takeNumber hmax).check (fun n => decide (toUserAgent n < numUserAgents)) toUserAgent

theorem isAgent_eq (n : Int) : isAgent n = (NumberChunk.isValid n && isAgent n) := by
  by_cases hn : n = longMax
  · subst hn
    decide
  · simp [NumberChunk.isValid, hn]

theorem snd_check_pure (p : Bool) (a : α) (r : ChunkReader) :
    ((do check p; return a : Decoder α) r).2 = r := by
  cases p <;> rfl

theorem snd_ofOption_pure {β : Type} (o : Option α) (f : α → β) (r : ChunkReader) :
    ((do let a ← ofOption o; return f a : Decoder β) r).2 = r := by
  cases o <;> rfl

theorem snd_noMoreChunks_pure (a : α) (r : ChunkReader) :
    ((do noMoreChunks; return a : Decoder α) r).2 = r := by
  simp only [noMoreChunks, bind_run, ask, check]
  cases r.it.hasMoreChunks <;> rfl

variable (cr : CommandReader)

open StoreCommand (Documented)

theorem follows_readArguments :
    readArguments.Follows (StoreCommand.slots .read cr.hasPayloadData) (Documented .read) := by
  refine (takes_takeName.bind fun id => (takes_takeUserAgent (by decide) isAgent_eq).bind fun ua =>
    follows_takeRequestId fun _ _ => rfl).mono ?_
  rintro _ ⟨_, rfl, _, rfl, rfl | rfl⟩
  · exact .inl rfl
  · exact .inr rfl

theorem follows_writeArguments :
    (writeArguments cr).Follows (StoreCommand.slots .write cr.hasPayloadData)
      (Documented .write) := by
  refine (takes_takeName.bind fun id =>
    (takes_takeUserAgent (by decide) fun _ => rfl).bind fun ua =>
      (takes_takeNumber (by decide)).bind fun lifetime =>
        follows_takeRequestId fun _ => snd_ofOption_pure _ _).mono ?_
  rintro _ ⟨_, rfl, _, rfl, _, rfl, rfl | rfl⟩
  · exact .inl rfl
  · exact .inr rfl

theorem follows_nameArguments :
    (nameArguments cr).Follows [nameSlot] fun types => types = [.string] := by
  refine (takes_takeName.bind fun id => follows_noMoreChunks (snd_check_pure _ id)).mono ?_
  rintro _ ⟨_, rfl, rfl⟩
  rfl

theorem follows_gcArguments :
    (gcArguments cr).Follows (StoreCommand.slots .gc cr.hasPayloadData) (Documented .gc) := by
  refine ((takes_takeNumber (by decide)).bind fun seconds =>
    follows_noMoreChunks (snd_check_pure _ _)).mono ?_
  rintro _ ⟨_, rfl, rfl⟩
  rfl

theorem follows_loadArguments :
    loadArguments.Follows (StoreCommand.slots .load cr.hasPayloadData) (Documented .load) := by
  refine (takes_takeName.bind fun id => (takes_takeUserAgent (by decide) isAgent_eq).bind fun ua =>
    follows_noMoreChunks fun _ => rfl).mono ?_
  rintro _ ⟨_, rfl, _, rfl, rfl⟩
  rfl

theorem follows_saveArguments :
    (saveArguments cr).Follows (StoreCommand.slots .save cr.hasPayloadData) (Documented .save) := by
  refine (takes_takeName.bind fun id =>
    (takes_takeUserAgent (by decide) fun _ => rfl).bind fun ua =>
      (takes_takeNumber (by decide)).bind fun lifetime => takes_takeNames.bind fun tags =>
        follows_noMoreChunks (snd_ofOption_pure _ _)).mono ?_
  rintro _ ⟨_, rfl, _, rfl, _, rfl, _, rfl, rfl⟩
  rfl

theorem follows_touchArguments :
    touchArguments.Follows (StoreCommand.slots .touch cr.hasPayloadData) (Documented .touch) := by
  refine (takes_takeName.bind fun id => (takes_takeNumber (by decide)).bind fun lifetime =>
    follows_noMoreChunks fun _ => rfl).mono ?_
  rintro _ ⟨_, rfl, _, rfl, rfl⟩
  rfl

theorem isValid_of_takeNumber {isValid : Int → Bool}
    (h : takeNumber isValid r = (some n, r')) : isValid n = true := by
  obtain ⟨data, it, hnext⟩ : ∃ data it, r.it.getNextChunk = (data, it) := ⟨_, _, Prod.mk.eta.symm⟩
  rw [takeNumber_eq isValid hnext] at h
  obtain ⟨hn, -⟩ := Prod.mk.inj h
  split_ifs at hn with hvalid
  rwa [← Option.some.inj hn]

theorem cleanModeOf_eq_all_iff (k : Nat) : cleanModeOf k = some .all ↔ k = 1 := by
  unfold cleanModeOf
  split <;> simp_all

theorem cleanModeOf_eq_old_iff (k : Nat) : cleanModeOf k = some .old ↔ k = 2 := by
  unfold cleanModeOf
  split <;> simp_all

theorem Takes.follows {d : Decoder α} {slot : Slot} {value : Chunk → α}
    (h : Takes d slot value) : d.Follows [slot] fun _ => True where
  keeps := h.keeps
  notices hat htyped := by
    obtain ⟨c, rest, r', rfl, htype, -, hrun, -, htyped', -⟩ | ⟨r', hrun, htyped', hnoticed⟩ |
      ⟨hill, hnot⟩ := h.cases hat htyped
    · rw [hrun, Noticed, if_pos htype]
      exact iff_of_true htyped' fun _ => trivial
    · rw [hrun]
      exact iff_of_true htyped' (hnoticed [])
    · exact iff_of_false hill (hnot [])
  shaped _ _ _ _ := trivial

def cleanFetches : Decoder (List (List UInt8)) := do
  let _ ← (do
    let n ← takeNumber isValidUint
    check (!cr.hasPayloadData && n != 1 && n != 2)
    return n)
  takeNames

theorem notices_cleanFetches {limit : Nat} {chunks : List Chunk}
    (hat : r.At limit chunks) (htyped : r.WellTyped) :
    (cleanFetches cr r).2.WellTyped ↔
      Noticed limit r.stack (StoreCommand.slots .clean cr.hasPayloadData) chunks r.calls.length :=
  (((takes_takeNumber (by decide)).check
    (fun n => !cr.hasPayloadData && n != 1 && n != 2) fun n => n).bind fun _ =>
      takes_takeNames.follows).notices hat htyped

theorem uintOfInt_eq_iff (h : isValidUint n = true) (k : Nat) :
    uintOfInt n = k ↔ n = k := by
  simp only [isValidUint, NumberChunk.isInRange, Bool.and_eq_true,
    decide_eq_true_eq] at h
  have hmax : (uintMax : Int) < uintRange := by decide
  rw [uintOfInt_eq h.1 (by omega)]
  omega

variable {cr}

theorem cleanArguments_some
    (h : takeNumber isValidUint r = (some n, r')) : cleanArguments cr r =
      if cr.hasPayloadData then (none, r') else cleanSelection (cleanModeOf (uintOfInt n)) r' := by
  rw [cleanArguments, bind_some h]
  cases cr.hasPayloadData <;> rfl

theorem cleanFetches_some
    (h : takeNumber isValidUint r = (some n, r')) : cleanFetches cr r =
      if !cr.hasPayloadData && n != 1 && n != 2 then takeNames r' else (none, r') := by
  have hinner : (do
      let n ← takeNumber isValidUint
      check (!cr.hasPayloadData && n != 1 && n != 2)
      return n : Decoder Int) r =
      if !cr.hasPayloadData && n != 1 && n != 2 then (some n, r') else (none, r') := by
    rw [bind_some h, bind_run, check]
    cases !cr.hasPayloadData && n != 1 && n != 2 <;> rfl
  rw [cleanFetches, bind_run, hinner]
  cases !cr.hasPayloadData && n != 1 && n != 2 <;> rfl

theorem cleanSelection_of_list {mode? : Option TagIndex.CleanMode} (hall : mode? ≠ some .all)
    (hold : mode? ≠ some .old) : cleanSelection mode? = (do
      let names ← takeNames
      let mode ← ofOption mode?
      return (mode, names)) := by
  match mode? with
  | none | some .matchingAllTags | some .notMatchingAnyTag | some .matchingAnyTag => rfl
  | some .all => exact absurd rfl hall
  | some .old => exact absurd rfl hold

theorem cleanArguments_snd (cr : CommandReader) (r : ChunkReader) :
    (cleanArguments cr r).2 = (cleanFetches cr r).2 := by
  generalize hnumber : takeNumber isValidUint r = result
  obtain ⟨_ | n, r'⟩ := result
  · rw [cleanArguments, cleanFetches, bind_none hnumber, bind_none (bind_none hnumber)]
  have hvalid := isValid_of_takeNumber hnumber
  have hone := uintOfInt_eq_iff hvalid 1
  have htwo := uintOfInt_eq_iff hvalid 2
  rw [cleanArguments_some hnumber, cleanFetches_some hnumber]
  cases cr.hasPayloadData with
  | true => rfl
  | false =>
    by_cases hall : n = 1
    · rw [(cleanModeOf_eq_all_iff _).mpr (hone.mpr hall), hall]
      exact snd_noMoreChunks_pure _ _
    by_cases hold : n = 2
    · rw [(cleanModeOf_eq_old_iff _).mpr (htwo.mpr hold), hold]
      exact snd_noMoreChunks_pure _ _
    rw [cleanSelection_of_list (fun h => hall (hone.mp ((cleanModeOf_eq_all_iff _).mp h)))
      (fun h => hold (htwo.mp ((cleanModeOf_eq_old_iff _).mp h)))]
    simp only [Bool.false_eq_true, if_false, Bool.not_false, Bool.true_and, Bool.and_eq_true,
      bne_iff_ne, ne_eq, hall, hold, not_false_eq_true, and_self, if_true]
    rw [bind_run]
    generalize takeNames r' = result
    obtain ⟨_ | names, r''⟩ := result
    · rfl
    · exact snd_ofOption_pure _ _ _

/-- A mode that needs tags, the names of tags, and chunks behind them. -/
def TagsFollowedBy (hasPayload : Bool) (chunks extra : List Chunk) : Prop :=
  ∃ (mode : Int) (names : List (List UInt8)), chunks = .number mode :: .list names :: extra ∧
    (3 ≤ mode ∧ mode ≤ 5) ∧ (∀ name ∈ names, isName name = true) ∧ hasPayload = false

theorem cleanModeOf_isSome_iff (k : Nat) : (cleanModeOf k).isSome = true ↔ 1 ≤ k ∧ k ≤ 5 := by
  match k with
  | 0 | 1 | 2 | 3 | 4 | 5 => simp [cleanModeOf]
  | k + 6 =>
    simp only [cleanModeOf, Option.isSome_none, Bool.false_eq_true, false_iff]
    omega

theorem keeps_ofOption (o : Option α) : (ofOption o).Keeps := fun _ h => h

theorem keeps_cleanSelection (mode? : Option TagIndex.CleanMode) :
    (cleanSelection mode?).Keeps := by
  match mode? with
  | some .all | some .old => exact keeps_noMoreChunks.bind fun _ => keeps_pure _
  | none | some .matchingAllTags | some .notMatchingAnyTag | some .matchingAnyTag =>
    exact keeps_takeNames.bind fun _ => (keeps_ofOption _).bind fun _ => keeps_pure _

section Clean

variable {r : ChunkReader} {limit : Nat} {chunks extra : List Chunk}

theorem eq_nil_of_noMoreChunks {α : Type} {a : α} (hat : r.At limit chunks) (htyped : r.WellTyped)
    (hsome : ((do noMoreChunks; return a : Decoder α) r).1.isSome = true) : chunks = [] := by
  have hfollows := follows_noMoreChunks (d := (pure a : Decoder α)) fun _ => rfl
  refine List.map_eq_nil_iff.mp (hfollows.shaped hat htyped ?_ hsome)
  rwa [snd_noMoreChunks_pure]

theorem shape_of_cleanSelection {mode? : Option TagIndex.CleanMode} (hat : r.At limit chunks)
    (htyped : r.WellTyped) (hr : (cleanSelection mode? r).2.WellTyped)
    (hsome : (cleanSelection mode? r).1.isSome = true) :
    chunks = [] ∨ mode?.isSome = true ∧ mode? ≠ some .all ∧ mode? ≠ some .old ∧
      ∃ names extra, chunks = .list names :: extra ∧ ∀ name ∈ names, isName name = true := by
  by_cases hall : mode? = some .all
  · rw [hall] at hsome
    exact .inl (eq_nil_of_noMoreChunks hat htyped hsome)
  by_cases hold : mode? = some .old
  · rw [hold] at hsome
    exact .inl (eq_nil_of_noMoreChunks hat htyped hsome)
  rw [cleanSelection_of_list hall hold] at hr hsome
  obtain ⟨c, extra, r', rfl, htype, haccepts, hrun, -⟩ | ⟨r', hrun, -⟩ | ⟨hill, -⟩ :=
    takes_takeNames.cases hat htyped
  · rw [bind_some hrun] at hsome
    have hmode : mode?.isSome = true := by
      cases mode? with
      | none => exact absurd hsome (by simp [bind_run, ofOption])
      | some mode => rfl
    cases c with
    | number n => exact absurd htype (by simp [Chunk.type])
    | string s => exact absurd htype (by simp [Chunk.type])
    | list names =>
      exact .inr ⟨hmode, hall, hold, names, extra, rfl, List.all_eq_true.mp haccepts.1⟩
  · rw [bind_none hrun] at hsome
    exact absurd hsome (by simp)
  · exact absurd hr (not_wellTyped_bind hill fun _ =>
      (keeps_ofOption _).bind fun _ => keeps_pure _)

theorem shape_of_cleanArguments (hat : r.At limit chunks) (htyped : r.WellTyped)
    (hr : (cleanArguments cr r).2.WellTyped) (hsome : (cleanArguments cr r).1.isSome = true) :
    chunks.map Chunk.type = [.number] ∨
      ∃ extra, TagsFollowedBy cr.hasPayloadData chunks extra := by
  have htakes : Takes (takeNumber isValidUint) _ _ := takes_takeNumber (by decide)
  obtain ⟨c, rest, r', rfl, htype, haccepts, hrun, hat', htyped', -⟩ | ⟨r', hrun, -⟩ | ⟨hill, -⟩ :=
    htakes.cases hat htyped
  · rw [cleanArguments_some hrun] at hr hsome
    split_ifs at hr hsome with hpayload
    · exact absurd hsome (by simp)
    have hvalid : isValidUint c.toNumber = true := haccepts.1
    obtain rfl | ⟨hmode, hall, hold, names, extra, rfl, hnames⟩ :=
      shape_of_cleanSelection hat' htyped' hr hsome
    · exact .inl (by rw [List.map_cons, htype, List.map_nil])
    cases c with
    | string s => exact absurd htype (by simp [Chunk.type])
    | list strings => exact absurd htype (by simp [Chunk.type])
    | number n =>
      refine .inr ⟨extra, n, names, rfl, ?_, hnames, by simpa using hpayload⟩
      simp only [Chunk.toNumber] at hvalid hmode hall hold
      have hn := (uintOfInt_eq_iff hvalid (uintOfInt n)).mp rfl
      rw [cleanModeOf_isSome_iff] at hmode
      rw [Ne, cleanModeOf_eq_all_iff] at hall
      rw [Ne, cleanModeOf_eq_old_iff] at hold
      omega
  · rw [cleanArguments, bind_none hrun] at hsome
    exact absurd hsome (by simp)
  · exact absurd hr (not_wellTyped_bind hill fun _ =>
      (keeps_check _).bind fun _ => keeps_cleanSelection _)

/-- Chunks behind the tags do not keep CLEAN from being executed. -/
theorem cleanArguments_of_tags (hat : r.At limit chunks) (hextra : extra ≠ [])
    (h : TagsFollowedBy cr.hasPayloadData chunks extra) :
    ∃ mode names, (cleanArguments cr r).1 = some (mode, names) ∧ mode ≠ .old := by
  obtain ⟨n, names, rfl, hn, hnames, hpayload⟩ := h
  have hends (rest : List Chunk) (hrest : rest ≠ []) : ¬EndsInvalid limit rest :=
    fun h => hrest h.1
  have hvalid : isValidUint n = true := by
    have hmax : (uintMax : Int) = 2 ^ 32 - 1 := by decide
    simp only [isValidUint, NumberChunk.isInRange, Bool.and_eq_true, decide_eq_true_eq]
    omega
  have hnat := (uintOfInt_eq_iff hvalid (uintOfInt n)).mp rfl
  have htakes : Takes (takeNumber isValidUint) _ _ := takes_takeNumber (by decide)
  obtain ⟨it, isValid, hrun, hdecodes, hlimit⟩ :=
    htakes.accepted hat rfl ⟨hvalid, fun _ => hends _ (by simp)⟩
  obtain ⟨it', isValid', hrun', -⟩ := takes_takeNames.accepted
    (r := ⟨it, r.stack, r.calls ++ [⟨.number, .number, isValid⟩]⟩)
    ⟨hdecodes, hlimit, hat.limit_le⟩ rfl ⟨List.all_eq_true.mpr hnames, fun _ => hends _ hextra⟩
  obtain ⟨mode, hmode⟩ : ∃ mode, cleanModeOf (uintOfInt n) = some mode :=
    Option.isSome_iff_exists.mp ((cleanModeOf_isSome_iff _).mpr (by omega))
  have hall : mode ≠ .all := by
    rintro rfl
    have := (cleanModeOf_eq_all_iff _).mp hmode
    omega
  have hold : mode ≠ .old := by
    rintro rfl
    have := (cleanModeOf_eq_old_iff _).mp hmode
    omega
  refine ⟨mode, names, ?_, hold⟩
  rw [cleanArguments_some hrun, hpayload]
  simp only [Bool.false_eq_true, if_false, Chunk.toNumber]
  rw [hmode, cleanSelection_of_list (by simpa using hall) (by simpa using hold), bind_some hrun']
  rfl

end Clean

end Decoder

end CyberCache
