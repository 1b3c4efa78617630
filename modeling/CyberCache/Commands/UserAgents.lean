import CyberCache.Commands.Events
import CyberCache.Commands.FormatChecks

/-!
# User agents

The user agent of a command is a number in its header that is converted to a byte before it is
compared with the number of user agents. READ, LOAD and TEST accept negative numbers on the way.
-/

namespace CyberCache

open Decoder
open NumberChunk (isValidUint)

namespace Decoder

variable {α β : Type} {d : Decoder α} {slot : Slot} {value : Chunk → α} {r : ChunkReader}
  {limit : Nat} {c : Chunk} {rest : List Chunk}

theorem Takes.bind_accepted (h : Takes d slot value) (hat : r.At limit (c :: rest))
    (htype : c.type = slot.type) (haccepts : slot.Accepts limit c rest) (f : α → Decoder β) :
    ∃ r', (d >>= f) r = f (value c) r' ∧ r'.At limit rest := by
  obtain ⟨it, isValid, hrun, hrest, hends⟩ := h.accepted hat htype haccepts
  exact ⟨_, bind_some hrun, hrest, hends, hat.limit_le⟩

theorem Takes.bind_refused (h : Takes d slot value) (hat : r.At limit (c :: rest))
    (htype : c.type = slot.type) (haccepts : ¬slot.Accepts limit c rest) (f : α → Decoder β) :
    ((d >>= f) r).1 = none := by
  obtain ⟨it, isValid, hrun⟩ := h.refused hat htype haccepts
  rw [bind_none hrun]

theorem noMoreChunks_bind (hat : r.At limit []) (f : Unit → Decoder β) :
    (noMoreChunks >>= f) r = f () r := by
  have hmore : r.it.hasMoreChunks = false := by
    have hzero : r.it.remains = 0 := hat.decodes
    simp [HeaderChunkIterator.hasMoreChunks, hzero]
  refine bind_some ?_
  simp only [noMoreChunks, bind_run, ask, check, hmore]
  rfl

theorem takeRequestId_bind (requestId : Option Int)
    (hvalid : ∀ n ∈ requestId, isValidUint n = true)
    (hat : r.At limit (requestId.toList.map .number)) (f : Nat → Decoder β) :
    ∃ r', (takeRequestId >>= f) r = f ((requestId.map uintOfInt).getD 0) r' ∧ r'.At limit [] := by
  have htype := hat.getNextChunkType
  cases requestId with
  | none =>
    refine ⟨r, bind_some ?_, hat⟩
    simp only [takeRequestId, bind_run, ask, htype]
    rfl
  | some n =>
    have htakes : Takes (takeNumber isValidUint) _ _ := takes_takeNumber (by decide)
    obtain ⟨r', hrun, hat'⟩ := htakes.bind_accepted hat rfl
      ⟨hvalid n rfl, fun h => absurd rfl h⟩ fun n => (pure (uintOfInt n) : Decoder Nat)
    refine ⟨r', bind_some ?_, hat'⟩
    rw [takeRequestId, bind_run]
    simp only [ask, htype]
    exact hrun

theorem getString_bind {s : List UInt8} (hat : r.At limit (.string s :: rest))
    (f : StringChunk → Decoder β) :
    ∃ chunk r', (getString >>= f) r = f chunk r' ∧ r'.At limit rest := by
  obtain ⟨it, offset, length, hnext, hrest, hends, -⟩ := hat.getNextChunk_string
  let chunk := StringChunk.ofUnion ((ChunkData.string offset length).store (r.stack r.calls.length))
  have hrun : getString r = (some chunk,
      ⟨it, r.stack, r.calls ++ [⟨.string, .string, chunk.isValid it⟩]⟩) := by
    simp only [getString, ChunkReader.fetch_eq hnext]
    rfl
  exact ⟨chunk, _, bind_some hrun, hrest, hends, hat.limit_le⟩

theorem getNumber_bind {n : Int} (hat : r.At limit (.number n :: rest)) (f : Int → Decoder β) :
    ∃ r', (getNumber >>= f) r = f n r' ∧ r'.At limit rest := by
  obtain ⟨it, hnext, hrest, hends, hint⟩ := hat.getNextChunk_number
  have hrun : getNumber r = (some n,
      ⟨it, r.stack, r.calls ++ [⟨.number, .number, NumberChunk.isValid n⟩]⟩) := by
    simp only [getNumber, ChunkReader.fetch_eq hnext, ChunkData.store, hint]
    rfl
  exact ⟨_, bind_some hrun, hrest, hends, hat.limit_le⟩

end Decoder

namespace StoreCommand

open Processing

/-- A command that is well-formed but for its user agent, which is `n`. -/
inductive GivesAgent (cr : CommandReader) (n : Int) : StoreCommand → List Chunk → Prop
  | read {id : List UInt8} {requestId : Option Int} (hid : isName id = true)
      (hrequest : ∀ k ∈ requestId, isValidUint k = true) :
      GivesAgent cr n read (.string id :: .number n :: requestId.toList.map .number)
  | write {id : List UInt8} {lifetime : Int} {requestId : Option Int} {payload : StoredPayload}
      (hid : isName id = true) (hlifetime : NumberChunk.isValid lifetime = true)
      (hrequest : ∀ k ∈ requestId, isValidUint k = true)
      (hpayload : cr.payload = some payload) :
      GivesAgent cr n write
        (.string id :: .number n :: .number lifetime :: requestId.toList.map .number)
  | load {id : List UInt8} (hid : isName id = true) :
      GivesAgent cr n load [.string id, .number n]
  | test {id : List UInt8} (hid : isName id = true) :
      GivesAgent cr n test [.string id, .number n]
  | save {id : List UInt8} {lifetime : Int} {names : List (List UInt8)} {payload : StoredPayload}
      (hid : isName id = true) (hlifetime : NumberChunk.isInRange (-1) uintMax lifetime = true)
      (hnames : ∀ name ∈ names, isName name = true) (hpayload : cr.payload = some payload) :
      GivesAgent cr n save [.string id, .number n, .number lifetime, .list names]

variable {cr : CommandReader} {n : Int} {r : ChunkReader} {limit : Nat} {chunks : List Chunk}

theorem takeName_bind {β : Type} {id : List UInt8} {c : Chunk} {rest : List Chunk}
    (hat : r.At limit (.string id :: c :: rest)) (hid : isName id = true)
    (f : List UInt8 → Decoder β) :
    ∃ r', (takeName >>= f) r = f id r' ∧ r'.At limit (c :: rest) :=
  takes_takeName.bind_accepted hat rfl ⟨hid, fun _ h => absurd h.1 (List.cons_ne_nil c rest)⟩ f

theorem takeNumber_bind {β : Type} {isValid : Int → Bool} {k : Int} {rest : List Chunk}
    (hmax : isValid longMax = false) (hat : r.At limit (.number k :: rest))
    (hk : isValid k = true) (f : Int → Decoder β) :
    ∃ r', (takeNumber isValid >>= f) r = f k r' ∧ r'.At limit rest :=
  (takes_takeNumber hmax).bind_accepted hat rfl ⟨hk, fun h => absurd rfl h⟩ f

theorem takeUserAgent_bind {β : Type} (isValid : Int → Bool) {rest : List Chunk}
    (hmax : isValid longMax = false) (hat : r.At limit (.number n :: rest)) (f : Nat → Decoder β) :
    ∃ r', (isValid n = true ∧ isAgent n = true →
        (takeUserAgent isValid >>= f) r = f (toUserAgent n) r' ∧ r'.At limit rest) ∧
      (¬(isValid n = true ∧ isAgent n = true) → ((takeUserAgent isValid >>= f) r).1 = none) := by
  have htakes := takes_takeUserAgent hmax fun k => (rfl : (isValid k && isAgent k) = _)
  by_cases hn : isValid n = true ∧ isAgent n = true
  · obtain ⟨r', hrun, hat'⟩ := htakes.bind_accepted hat rfl
      ⟨Bool.and_eq_true_iff.mpr hn, fun h => absurd rfl h⟩ f
    exact ⟨r', fun _ => ⟨hrun, hat'⟩, fun h => absurd hn h⟩
  · refine ⟨r, fun h => absurd h hn, fun _ => htakes.bind_refused hat rfl ?_ f⟩
    exact fun h => hn (Bool.and_eq_true_iff.mp h.1)

section Arguments

variable {id : List UInt8} {lifetime : Int} {requestId : Option Int} {names : List (List UInt8)}
  {payload : StoredPayload}

theorem readArguments_eq (hid : isName id = true)
    (hrequest : ∀ k ∈ requestId, isValidUint k = true)
    (hat : r.At limit (.string id :: .number n :: requestId.toList.map .number)) :
    (readArguments r).1 =
      if NumberChunk.isValid n = true ∧ isAgent n = true then
        some (id, toUserAgent n, (requestId.map uintOfInt).getD 0)
      else none := by
  obtain ⟨r₁, hrun₁, hat₁⟩ := takeName_bind hat hid _
  obtain ⟨r₂, haccepted, hrefused⟩ := takeUserAgent_bind NumberChunk.isValid (by decide) hat₁ _
  rw [readArguments, hrun₁]
  split_ifs with hn
  · obtain ⟨hrun₂, hat₂⟩ := haccepted hn
    obtain ⟨r₃, hrun₃, hat₃⟩ := takeRequestId_bind requestId hrequest hat₂ _
    rw [hrun₂, hrun₃, noMoreChunks_bind hat₃]
    rfl
  · exact hrefused hn

theorem writeArguments_eq (hid : isName id = true) (hlifetime : NumberChunk.isValid lifetime = true)
    (hrequest : ∀ k ∈ requestId, isValidUint k = true)
    (hpayload : cr.payload = some payload)
    (hat : r.At limit
      (.string id :: .number n :: .number lifetime :: requestId.toList.map .number)) :
    (writeArguments cr r).1 =
      if isValidUint n = true ∧ isAgent n = true then
        some (id, toUserAgent n, lifetimeOf lifetime, payload)
      else none := by
  obtain ⟨r₁, hrun₁, hat₁⟩ := takeName_bind hat hid _
  obtain ⟨r₂, haccepted, hrefused⟩ := takeUserAgent_bind isValidUint (by decide) hat₁ _
  rw [writeArguments, hrun₁]
  split_ifs with hn
  · obtain ⟨hrun₂, hat₂⟩ := haccepted hn
    obtain ⟨r₃, hrun₃, hat₃⟩ := takeNumber_bind (by decide) hat₂ hlifetime _
    obtain ⟨r₄, hrun₄, hat₄⟩ := takeRequestId_bind requestId hrequest hat₃ _
    rw [hrun₂, hrun₃, hrun₄, noMoreChunks_bind hat₄, hpayload]
    rfl
  · exact hrefused hn

theorem loadArguments_eq (hid : isName id = true) (hat : r.At limit [.string id, .number n]) :
    (loadArguments r).1 =
      if NumberChunk.isValid n = true ∧ isAgent n = true then some (id, toUserAgent n)
      else none := by
  obtain ⟨r₁, hrun₁, hat₁⟩ := takeName_bind hat hid _
  obtain ⟨r₂, haccepted, hrefused⟩ := takeUserAgent_bind NumberChunk.isValid (by decide) hat₁ _
  rw [loadArguments, hrun₁]
  split_ifs with hn
  · obtain ⟨hrun₂, hat₂⟩ := haccepted hn
    rw [hrun₂, noMoreChunks_bind hat₂]
    rfl
  · exact hrefused hn

theorem saveArguments_eq (hid : isName id = true)
    (hlifetime : NumberChunk.isInRange (-1) uintMax lifetime = true)
    (hnames : ∀ name ∈ names, isName name = true) (hpayload : cr.payload = some payload)
    (hat : r.At limit [.string id, .number n, .number lifetime, .list names]) :
    (saveArguments cr r).1 =
      if (isValidUint n = true ∧ isAgent n = true) ∧ limit ≠ uintMax then
        some (id, payload)
      else none := by
  obtain ⟨r₁, hrun₁, hat₁⟩ := takeName_bind hat hid _
  obtain ⟨r₂, haccepted, hrefused⟩ := takeUserAgent_bind isValidUint (by decide) hat₁ _
  rw [saveArguments, hrun₁]
  by_cases hn : isValidUint n = true ∧ isAgent n = true
  · obtain ⟨hrun₂, hat₂⟩ := haccepted hn
    obtain ⟨r₃, hrun₃, hat₃⟩ := takeNumber_bind (by decide) hat₂ hlifetime _
    rw [hrun₂, hrun₃]
    by_cases hlimit : limit = uintMax
    · rw [if_neg fun h => h.2 hlimit]
      refine takes_takeNames.bind_refused hat₃ rfl ?_ _
      exact fun h => h.2 (by decide) ⟨rfl, hlimit⟩
    · obtain ⟨r₄, hrun₄, hat₄⟩ := takes_takeNames.bind_accepted hat₃ rfl
        ⟨List.all_eq_true.mpr hnames, fun _ h => hlimit h.2⟩ _
      rw [hrun₄, noMoreChunks_bind hat₄, hpayload, if_pos ⟨hn, hlimit⟩]
      rfl
  · rw [if_neg fun h => hn h.1]
    exact hrefused hn

end Arguments

/-- What is accepted as user agent of a command, at the end of a header of `limit` bytes. -/
def Admits (cmd : StoreCommand) (limit : Nat) (n : Int) : Prop :=
  match cmd with
  | write => isValidUint n = true ∧ isAgent n = true
  | save => (isValidUint n = true ∧ isAgent n = true) ∧ limit ≠ uintMax
  | _ => NumberChunk.isValid n = true ∧ isAgent n = true

theorem passes_iff {cmd : StoreCommand} (h : GivesAgent cr n cmd chunks) (hat : r.At limit chunks) :
    cmd.passes cr r = true ↔ cmd.Admits limit n := by
  cases h with
  | read hid hrequest =>
    rw [passes, readArguments_eq hid hrequest hat]
    split_ifs with hn <;> simpa [Admits] using hn
  | write hid hlifetime hrequest hpayload =>
    rw [passes, writeArguments_eq hid hlifetime hrequest hpayload hat]
    split_ifs with hn <;> simpa [Admits] using hn
  | load hid | test hid =>
    rw [passes, loadArguments_eq hid hat]
    split_ifs with hn <;> simpa [Admits] using hn
  | save hid hlifetime hnames hpayload =>
    rw [passes, saveArguments_eq hid hlifetime hnames hpayload hat]
    split_ifs with hn <;> simpa [Admits] using hn

def Names (n : Int) : ServerEvent → Prop
  | .respond (.error _) | .logError _ => False
  | .notify _ (.read _ userAgent) | .notify _ (.write _ userAgent _) => (userAgent : Int) = n
  | _ => True

/-- The user agents are the numbers from 0 to 3: a command with one of them is accepted, and the
optimizer is notified of that user agent, by the tag manager if a page is saved. Other commands are
refused. -/
structure KeepsAgent (cmd : StoreCommand) (cr : CommandReader) (n : Int) (stack : Nat → BitVec 64)
    (other : Interference) (s : CacheServer) : Prop where
  accepted : 0 ≤ n ∧ n ≤ 3 → ∃ new, ((process cr stack other).run s).2.events = s.events ++ new ∧
    ∀ e ∈ new, Names n e
  saved : 0 ≤ n ∧ n ≤ 3 → cmd = save →
    ∀ stack ref, (TagStore.processSaveCommand cr stack ref).Emits fun _ new => ∀ e ∈ new, Names n e
  refused : ¬(0 ≤ n ∧ n ≤ 3) → Refused cr s ((process cr stack other).run s).2

theorem not_names_errorEvent (cr : CommandReader) (text : String) :
    ¬Names n (errorEvent cr text) := by
  unfold errorEvent
  split_ifs <;> exact fun h => h

section Accepted

variable {stack : Nat → BitVec 64} (other : Interference) {ua : Nat} {id : List UInt8}

theorem only_read {requestId : Nat} (hua : (ua : Int) = n)
    (h : (readArguments (cr.chunks stack)).1 = some (id, ua, requestId)) :
    (SessionObjectStore.processReadCommand cr stack other).Only (Names n) (· = true) := by
  rw [SessionObjectStore.processReadCommand, CommandReader.ifValid_some _ _ h]
  refine (silent_findAlive _ _ _).only.bind fun found _ => ?_
  cases found with
  | none => exact only_postOkResponse cr trivial
  | some so =>
    refine silent_get.only.bind fun s _ => ?_
    split_ifs
    · cases other.lockSession requestId with
      | deleted => exact only_postOkResponse cr trivial
      | success | brokeLock =>
        exact (only_record trivial).bind fun _ _ => (only_notify hua).bind fun _ _ => only_pure rfl
    · exact (silent_change _ _ _).only.bind fun _ _ => (only_notify trivial).bind fun _ _ =>
        only_postOkResponse cr trivial

theorem only_write {lifetime : Nat} {payload : StoredPayload} (hua : (ua : Int) = n)
    (h : (writeArguments cr (cr.chunks stack)).1 = some (id, ua, lifetime, payload)) :
    (SessionObjectStore.processWriteCommand cr stack other).Only (Names n) (· = true) := by
  rw [SessionObjectStore.processWriteCommand, CommandReader.ifValid_some _ _ h]
  exact (silent_storePayload _ _ _ _).only.bind fun _ _ =>
    (only_postOkResponse cr trivial).bind fun _ _ => (only_notify hua).bind fun _ _ => only_pure rfl

theorem only_load_test (hua : (ua : Int) = n)
    (h : (loadArguments (cr.chunks stack)).1 = some (id, ua)) :
    (PageObjectStore.processLoadCommand cr stack other).Only (Names n) (· = true) ∧
      (PageObjectStore.processTestCommand cr stack other).Only (Names n) (· = true) := by
  rw [PageObjectStore.processLoadCommand, PageObjectStore.processTestCommand,
    CommandReader.ifValid_some _ _ h, CommandReader.ifValid_some _ _ h]
  constructor
  all_goals
    refine (silent_findAlive _ _ _).only.bind fun found _ => ?_
    cases found with
    | none => exact only_postOkResponse cr trivial
    | some so =>
      exact (only_record trivial).bind fun _ _ => (only_notify hua).bind fun _ _ => only_pure rfl

theorem only_save {payload : StoredPayload}
    (h : (saveArguments cr (cr.chunks stack)).1 = some (id, payload)) :
    (PageObjectStore.processSaveCommand cr stack other).Only (Names n) (· = true) := by
  rw [PageObjectStore.processSaveCommand, CommandReader.ifValid_some _ _ h]
  exact (silent_storePayload _ _ _ _).only.bind fun _ _ =>
    (only_postOkResponse cr trivial).bind fun _ _ => (only_record trivial).bind fun _ _ =>
      only_pure rfl

theorem only_of_handler {cmd : StoreCommand} (hid : cr.getCommandId = cmd.id)
    (h : (cmd.handler cr stack other).Only (Names n) (· = (true, true))) :
    (process cr stack other).Only (Names n) fun _ => True := by
  rw [process_eq other hid]
  refine h.bind ?_
  rintro _ rfl
  exact (only_record trivial).bind fun _ _ => only_pure trivial

theorem toUserAgent_eq (h : 0 ≤ n ∧ n ≤ 3) : (toUserAgent n : Int) = n := by
  simp only [toUserAgent, uintOfInt, uintRange]
  omega

theorem only_process {cmd : StoreCommand} (hid : cr.getCommandId = cmd.id)
    (h : GivesAgent cr n cmd chunks) (hat : (cr.chunks stack).At limit chunks)
    (hadmits : cmd.Admits limit n) :
    (process cr stack other).Only (Names (toUserAgent n)) fun _ => True := by
  refine only_of_handler other hid ?_
  cases h with
  | read hid' hrequest =>
    have hargs := (readArguments_eq hid' hrequest hat).trans (if_pos hadmits)
    exact Only.map ((only_read other rfl hargs).imp fun _ h => congrArg (·, true) h)
  | write hid' hlifetime hrequest hpayload =>
    have hargs := (writeArguments_eq hid' hlifetime hrequest hpayload hat).trans (if_pos hadmits)
    exact Only.map ((only_write other rfl hargs).imp fun _ h => congrArg (·, true) h)
  | load hid' =>
    have hargs := (loadArguments_eq hid' hat).trans (if_pos hadmits)
    exact Only.map ((only_load_test other rfl hargs).1.imp fun _ h => congrArg (·, true) h)
  | test hid' =>
    have hargs := (loadArguments_eq hid' hat).trans (if_pos hadmits)
    exact Only.map ((only_load_test other rfl hargs).2.imp fun _ h => congrArg (·, true) h)
  | save hid' hlifetime hnames hpayload =>
    have hargs := (saveArguments_eq hid' hlifetime hnames hpayload hat).trans (if_pos hadmits)
    exact Only.map ((only_save other hargs).imp fun _ h => congrArg (true, ·) h)

theorem savedTags_eq {lifetime : Int} {names : List (List UInt8)}
    (hat : r.At limit [.string id, .number n, .number lifetime, .list names]) :
    (savedTags r).1 = some (toUserAgent n, lifetimeOf lifetime, names) := by
  obtain ⟨s, r₁, hrun₁, hat₁⟩ := getString_bind hat _
  obtain ⟨r₂, hrun₂, hat₂⟩ := getNumber_bind hat₁ _
  obtain ⟨r₃, hrun₃, hat₃⟩ := getNumber_bind hat₂ _
  obtain ⟨it, it', hnext, -, hstrings, -, -, -, hmax⟩ := hat₃.getNextChunk_list
  have hlist : getList r₃ = (some names.length,
      ⟨it, r₃.stack, r₃.calls ++ [⟨.list, .list, it.isValid⟩]⟩) := by
    simp only [getList, ChunkReader.fetch_eq hnext]
    rw [toNat_store_list (Nat.lt_trans hmax (by decide))]
    rfl
  rw [savedTags, hrun₁, hrun₂, hrun₃, bind_some hlist]
  simp only [bind_run, ask, hstrings]
  rfl

theorem only_saved (h : GivesAgent cr n save chunks) (hat : (cr.chunks stack).At limit chunks)
    (ref : Nat) :
    (TagStore.processSaveCommand cr stack ref).Only (Names (toUserAgent n)) fun _ => True := by
  cases h with
  | save hid hlifetime hnames hpayload =>
    have hargs := savedTags_eq hat
    refine silent_get.only.bind fun s _ => ?_
    split
    · split_ifs
      · rw [hargs]
        exact (silent_change _ _ _).only.bind fun _ _ => only_notify rfl
      · exact only_pure trivial
    · exact only_pure trivial

end Accepted

/-! ## Numbers that are user agents -/

theorem keepsAgent_iff_admits {cmd : StoreCommand} (hid : cr.getCommandId = cmd.id)
    (h : GivesAgent cr n cmd chunks)
    (hchunks : (HeaderChunkIterator.create commandFormat cr.sb).Decodes chunks)
    (stack : Nat → BitVec 64) (other : Interference) (s : CacheServer) :
    KeepsAgent cmd cr n stack other s ↔ (cmd.Admits (chunksEnd cr) n ↔ 0 ≤ n ∧ n ≤ 3) := by
  have hat (stack : Nat → BitVec 64) : (cr.chunks stack).At (chunksEnd cr) chunks :=
    chunks_at hchunks
  have hrefused (hadmits : ¬cmd.Admits (chunksEnd cr) n) :
      Refused cr s ((process cr stack other).run s).2 :=
    refused_of_not_passes other s hid
      (Bool.eq_false_iff.mpr (mt (passes_iff h (hat stack)).mp hadmits))
  constructor
  · intro hkeeps
    constructor
    · intro hadmits
      by_contra hrange
      obtain ⟨tail, htail, -⟩ := (hkeeps.refused hrange).events
      obtain ⟨new, hnew, -, hnames⟩ := only_process other hid h (hat stack) hadmits s
      rw [hnew] at htail
      rw [List.append_cancel_left htail] at hnames
      exact not_names_errorEvent _ _ (hnames _ List.mem_cons_self)
    · intro hrange
      by_contra hadmits
      obtain ⟨tail, htail, -⟩ := (hrefused hadmits).events
      obtain ⟨new, hnew, hnames⟩ := hkeeps.accepted hrange
      rw [hnew] at htail
      rw [List.append_cancel_left htail] at hnames
      exact not_names_errorEvent _ _ (hnames _ List.mem_cons_self)
  · intro hiff
    refine ⟨fun hrange => ?_, ?_, fun hrange => ?_⟩
    · obtain ⟨new, hnew, -, hnames⟩ := only_process other hid h (hat stack) (hiff.mpr hrange) s
      rw [toUserAgent_eq hrange] at hnames
      exact ⟨new, hnew, hnames⟩
    · rintro hrange rfl stack' ref
      have hsaved := only_saved h (hat stack') ref
      rw [toUserAgent_eq hrange] at hsaved
      exact hsaved.mono fun _ _ hnew => hnew.2
    · exact hrefused (mt hiff.mp hrange)

/-- The numbers for which a command behaves as if it compared them with the user agents: those whose
low byte is no user agent, the user agents themselves, and the negative numbers if the command tests
for them. A page is not saved if the header has the largest size that there is. -/
def TellsApart (cmd : StoreCommand) (limit : Nat) (n : Int) : Prop :=
  if cmd = save ∧ limit = uintMax then ¬(0 ≤ n ∧ n ≤ 3)
  else n % 256 ≤ 3 → n ≤ 3 ∧ (0 ≤ n ∨ cmd = write ∨ cmd = save)

/-- For every number that a header can hold, and in every state, a command that is well-formed but
for its user agent treats the number as a user agent exactly if it tells it apart. -/
theorem keepsAgent_iff (cmd : StoreCommand) (cr : CommandReader) (n : Int) (chunks : List Chunk)
    (hid : cr.getCommandId = cmd.id)
    (hchunks : (HeaderChunkIterator.create commandFormat cr.sb).Decodes chunks)
    (hagent : GivesAgent cr n cmd chunks) (hmax : n ≤ uintMax)
    (stack : Nat → BitVec 64) (other : Interference) (s : CacheServer) :
    KeepsAgent cmd cr n stack other s ↔ cmd.TellsApart (chunksEnd cr) n := by
  rw [keepsAgent_iff_admits hid hagent hchunks stack other s]
  have hvalid : NumberChunk.isValid n = true := by
    have hlong : (uintMax : Int) < longMax := by decide
    simp only [NumberChunk.isValid, bne_iff_ne]
    omega
  have hmax' : (uintMax : Int) = 2 ^ 32 - 1 := by decide
  cases hagent <;>
    simp only [Admits, TellsApart, hvalid, isAgent, isValidUint, NumberChunk.isInRange,
      decide_eq_true_eq, Bool.and_eq_true, true_and, reduceCtorEq, false_and, if_false, or_false,
      or_true, and_true]
  case save =>
    split_ifs with hlimit
    · omega
    · omega
  all_goals omega

def testCommand : CommandReader :=
  clientCommand test
    [chnkSubtype ||| chnkShortString ||| 1, 0x61, chnkSubtype ||| chnkSmallInteger ||| 2]

theorem agent_kept :
    test.TellsApart (chunksEnd testCommand) 2 ∧
      KeepsAgent test testCommand 2 (fun _ => 0) undisturbed emptyServer := by
  have hdecodes : (HeaderChunkIterator.create commandFormat testCommand.sb).Decodes
      [.string [0x61], .number 2] := ⟨_, rfl, rfl, _, rfl, rfl, rfl⟩
  have htells : test.TellsApart (chunksEnd testCommand) 2 := by
    rw [TellsApart, if_neg (by decide)]
    decide
  exact ⟨htells, (keepsAgent_iff test testCommand 2 _ rfl hdecodes (.test (by decide)) (by decide)
    _ _ _).mpr htells⟩

def onePage : CacheServer :=
  { emptyServer with
    objects := fun
      | .page => [⟨0, [0x61], ⟨[], 0, 0⟩, 0, maxTimestamp, false, true, []⟩]
      | .session => [] }

/-- LOAD with user agent 256 is executed for user agent 0. -/
theorem agent_256_accepted :
    let cr := clientCommand load
      [chnkSubtype ||| chnkShortString ||| 1, 0x61, chnkSubtype ||| chnkBigInteger, 184]
    (HeaderChunkIterator.create commandFormat cr.sb).Decodes [.string [0x61], .number 256] ∧
      ((process cr (fun _ => 0) undisturbed).run onePage).2.events =
        [.respond (.data [] (some ⟨[], 0, 0⟩)), .notify .page (.read 0 0), .dispose] ∧
      ¬KeepsAgent load cr 256 (fun _ => 0) undisturbed onePage := by
  have hevents : ((process (clientCommand load
      [chnkSubtype ||| chnkShortString ||| 1, 0x61, chnkSubtype ||| chnkBigInteger, 184])
        (fun _ => 0) undisturbed).run onePage).2.events =
        [.respond (.data [] (some ⟨[], 0, 0⟩)), .notify .page (.read 0 0), .dispose] := by decide
  refine ⟨⟨_, rfl, rfl, _, rfl, rfl, rfl⟩, hevents, fun h => ?_⟩
  obtain ⟨tail, htail, -⟩ := (h.refused (by decide)).events
  rw [hevents] at htail
  exact absurd (List.cons.inj htail).1 (by decide)

end StoreCommand

end CyberCache
