import CyberCache.Commands.Formats

/-!
# Format errors

A command whose chunks do not pass the tests of its handler is answered by a format error and has no
other effect. A command whose chunks have not the documented types is answered so only if each chunk
of another type is noticed.
-/

namespace CyberCache

open Decoder

namespace StoreCommand

open Processing

/-- The command is answered by a format error, or the error is logged, and nothing else happens. -/
structure Refused (cr : CommandReader) (s s' : CacheServer) : Prop where
  objects : s'.objects = s.objects
  events : ∃ tail, s'.events = s.events ++ errorEvent cr (formatErrorText cr) :: tail ∧
    ∀ e ∈ tail, e = errorEvent cr (internalErrorText cr) ∨ e = .dispose

structure ChecksFormat (cmd : StoreCommand) (cr : CommandReader) (chunks : List Chunk)
    (stack : Nat → BitVec 64) (other : Interference) (s : CacheServer) : Prop where
  refused : ¬cmd.Documented (chunks.map Chunk.type) →
    Refused cr s ((process cr stack other).run s).2
  wellTyped : (cmd.fetched cr (cr.chunks stack)).WellTyped

variable {cr : CommandReader} {stack : Nat → BitVec 64} (other : Interference) (s : CacheServer)

theorem handlerOf_id (cmd : StoreCommand) :
    ConnectionThread.handlerOf (ConnectionThread.getCommandFlags cmd.id) =
      match cmd with
      | read | write | destroy | gc => .sessionStore
      | clean => .tagManager
      | _ => .fpcStore := by
  cases cmd <;> decide

/-- The handler of a command, with its result and whether the command can be disposed then. -/
def handler (cmd : StoreCommand) (cr : CommandReader) (stack : Nat → BitVec 64)
    (other : Interference) : Processing (Bool × Bool) :=
  match cmd with
  | read => (·, true) <$> SessionObjectStore.processReadCommand cr stack other
  | write => (·, true) <$> SessionObjectStore.processWriteCommand cr stack other
  | destroy => (·, true) <$> SessionObjectStore.processDestroyCommand cr stack other
  | gc => (·, true) <$> SessionObjectStore.processGcCommand cr stack
  | load => (·, true) <$> PageObjectStore.processLoadCommand cr stack other
  | test => (·, true) <$> PageObjectStore.processTestCommand cr stack other
  | save => (true, ·) <$> PageObjectStore.processSaveCommand cr stack other
  | remove => (true, ·) <$> PageObjectStore.processRemoveCommand cr stack other
  | touch => (·, true) <$> PageObjectStore.processTouchCommand cr stack other
  | getmetadatas => (true, ·) <$> PageObjectStore.processGetmetadatasCommand cr stack other
  | clean => (fun _ => (true, true)) <$> TagStore.processCleanCommand cr stack

theorem process_eq {cmd : StoreCommand} (hid : cr.getCommandId = cmd.id) :
    process cr stack other = (do
      let (result, doDispose) ← cmd.handler cr stack other
      if result && doDispose then record .dispose
      finishCommand cr result) := by
  have hsession (x : Processing Bool) :
      (do
        let result ← x
        if result then record .dispose
        return result) >>= finishCommand cr = (do
        let (result, doDispose) ← (·, true) <$> x
        if result && doDispose then record .dispose
        finishCommand cr result) := by
    funext s
    change StateT.run _ s = StateT.run _ s
    rcases hx : StateT.run x s with ⟨_ | _, _⟩ <;> simp only [run_bind, run_map, hx] <;> rfl
  have hpage (x : Processing (Bool × Bool)) :
      (do
        let (result, doDispose) ← x
        if result && doDispose then record .dispose
        return result) >>= finishCommand cr = (do
        let (result, doDispose) ← x
        if result && doDispose then record .dispose
        finishCommand cr result) := by
    funext s
    change StateT.run _ s = StateT.run _ s
    rcases hx : StateT.run x s with ⟨⟨_ | _, _ | _⟩, _⟩ <;> simp only [run_bind, hx] <;> rfl
  have hhandler := handlerOf_id cmd
  rw [← hid] at hhandler
  rw [process, hhandler]
  cases cmd
  case read | write | destroy | gc =>
    rw [SessionObjectStore.processCommand, hid]
    exact hsession _
  case clean =>
    rw [hid]
    rfl
  all_goals
    rw [PageObjectStore.processCommand, hid]
    exact hpage _

def reported (cr : CommandReader) (s : CacheServer) : CacheServer :=
  { s with events := s.events ++ [errorEvent cr (formatErrorText cr)] }

theorem refused_of_handler {cmd : StoreCommand} {result : Bool} (hid : cr.getCommandId = cmd.id)
    (hrun : (cmd.handler cr stack other).run s = ((result, true), reported cr s)) :
    Refused cr s ((process cr stack other).run s).2 := by
  rw [process_eq other hid, run_bind, hrun]
  cases result with
  | true => exact ⟨rfl, [.dispose], List.append_assoc .., by simp⟩
  | false =>
    refine ⟨rfl, [errorEvent cr (internalErrorText cr), .dispose], ?_, by simp⟩
    change s.events ++ [_] ++ [_] ++ [_] = _
    simp

theorem refused_of_not_passes {cmd : StoreCommand} (hid : cr.getCommandId = cmd.id)
    (h : cmd.passes cr (cr.chunks stack) = false) :
    Refused cr s ((process cr stack other).run s).2 := by
  suffices hrun : ∃ result, (cmd.handler cr stack other).run s = ((result, true), reported cr s) by
    obtain ⟨result, hrun⟩ := hrun
    exact refused_of_handler other s hid hrun
  cases cmd <;> rw [passes, Option.isSome_eq_false_iff, Option.isNone_iff_eq_none] at h <;>
    rw [handler]
  case read =>
    rw [SessionObjectStore.processReadCommand, CommandReader.ifValid_none _ _ h]
    exact ⟨_, rfl⟩
  case write =>
    rw [SessionObjectStore.processWriteCommand, CommandReader.ifValid_none _ _ h]
    exact ⟨_, rfl⟩
  case destroy =>
    rw [SessionObjectStore.processDestroyCommand, CommandReader.ifValid_none _ _ h]
    exact ⟨_, rfl⟩
  case gc =>
    rw [SessionObjectStore.processGcCommand, CommandReader.ifValid_none _ _ h]
    exact ⟨_, rfl⟩
  case load =>
    rw [PageObjectStore.processLoadCommand, CommandReader.ifValid_none _ _ h]
    exact ⟨_, rfl⟩
  case test =>
    rw [PageObjectStore.processTestCommand, CommandReader.ifValid_none _ _ h]
    exact ⟨_, rfl⟩
  case save =>
    rw [PageObjectStore.processSaveCommand, CommandReader.ifValid_none _ _ h]
    exact ⟨_, rfl⟩
  case remove =>
    rw [PageObjectStore.processRemoveCommand, CommandReader.ifValid_none _ _ h]
    exact ⟨_, rfl⟩
  case touch =>
    rw [PageObjectStore.processTouchCommand, CommandReader.ifValid_none _ _ h]
    exact ⟨_, rfl⟩
  case getmetadatas =>
    rw [PageObjectStore.processGetmetadatasCommand, CommandReader.ifValid_none _ _ h]
    exact ⟨_, rfl⟩
  case clean =>
    rw [TagStore.processCleanCommand, CommandReader.ifValid_none _ _ h]
    exact ⟨_, rfl⟩

theorem not_refused_clean {mode : TagIndex.CleanMode} {names : List (List UInt8)}
    (hid : cr.getCommandId = cmdClean)
    (hargs : (cleanArguments cr (cr.chunks stack)).1 = some (mode, names)) (hmode : mode ≠ .old) :
    ¬Refused cr s ((process cr stack other).run s).2 := by
  intro hrefused
  have hhandler := handlerOf_id clean
  rw [id, ← hid] at hhandler
  obtain ⟨tail, htail, -⟩ := hrefused.events
  have hevents : ∃ deleted : List CacheObject, ((process cr stack other).run s).2.events =
      s.events ++ ((deleted.map fun o => .notify .page (.delete o.ref)) ++
        (if cr.network then [.respond .ok] else []) ++ [.dispose]) := by
    rw [process, hhandler]
    simp only [hid, if_true, TagStore.processCleanCommand, CommandReader.ifValid_some _ _ hargs,
      if_neg hmode, run_bind, postOkResponse]
    refine ⟨(s.objects .page).filter (TagStore.isCleaned mode names), ?_⟩
    cases cr.network with
    | true =>
      change s.events ++ _ ++ [_] ++ [_] = _
      simp
    | false =>
      change s.events ++ _ ++ [_] = _
      simp
  obtain ⟨deleted, hevents⟩ := hevents
  rw [hevents] at htail
  have hhead := congrArg List.head? (List.append_cancel_left htail)
  unfold errorEvent at hhead
  cases deleted <;> cases hnetwork : cr.network <;> simp [hnetwork] at hhead

def chunksEnd (cr : CommandReader) : Nat :=
  (HeaderChunkIterator.create commandFormat cr.sb).offset +
    (HeaderChunkIterator.create commandFormat cr.sb).remains

theorem chunksEnd_le (cr : CommandReader) : chunksEnd cr ≤ uintMax := by
  have hrange : uintMax + 1 = uintRange := by decide
  unfold chunksEnd HeaderChunkIterator.create HeaderChunkIterator.ofHeader
  cases hinfo : commandFormat.getHeaderInfo cr.sb.header with
  | none => simp
  | some info =>
    obtain ⟨offset, size⟩ := info
    unfold MessageFormat.getHeaderInfo at hinfo
    split_ifs at hinfo with hbits
    dsimp only at hinfo
    split_ifs at hinfo with hoffset
    cases hinfo
    have hsize : commandFormat.headerSize cr.sb.header < uintRange := by
      rw [MessageFormat.headerSize, if_neg hbits]
      exact Nat.mod_lt _ (by decide)
    dsimp only
    omega

theorem chunks_at {chunks : List Chunk}
    (hchunks : (HeaderChunkIterator.create commandFormat cr.sb).Decodes chunks) :
    (cr.chunks stack).At (chunksEnd cr) chunks :=
  ⟨hchunks, rfl, chunksEnd_le cr⟩

theorem wellTyped_chunks : (cr.chunks stack).WellTyped := by
  simp [ChunkReader.WellTyped, CommandReader.chunks]

theorem wellTyped_fetched_iff (cmd : StoreCommand) {limit : Nat} {chunks : List Chunk}
    (hat : (cr.chunks stack).At limit chunks) :
    (cmd.fetched cr (cr.chunks stack)).WellTyped ↔
      Noticed limit stack (cmd.slots cr.hasPayloadData) chunks 0 := by
  cases cmd with
  | read => exact (follows_readArguments cr).notices hat wellTyped_chunks
  | write => exact (follows_writeArguments cr).notices hat wellTyped_chunks
  | destroy | remove | getmetadatas => exact (follows_nameArguments cr).notices hat wellTyped_chunks
  | gc => exact (follows_gcArguments cr).notices hat wellTyped_chunks
  | load | test => exact (follows_loadArguments cr).notices hat wellTyped_chunks
  | save => exact (follows_saveArguments cr).notices hat wellTyped_chunks
  | touch => exact (follows_touchArguments cr).notices hat wellTyped_chunks
  | clean =>
    rw [fetched, cleanArguments_snd]
    exact notices_cleanFetches cr hat wellTyped_chunks

/-- What passes has the documented format, but for chunks behind the tags of CLEAN. -/
theorem documented_of_passes (cmd : StoreCommand) {limit : Nat} {chunks : List Chunk}
    (hat : (cr.chunks stack).At limit chunks)
    (htyped : (cmd.fetched cr (cr.chunks stack)).WellTyped)
    (hpasses : cmd.passes cr (cr.chunks stack) = true) :
    cmd.Documented (chunks.map Chunk.type) ∨
      cmd = clean ∧ ∃ extra, TagsFollowedBy cr.hasPayloadData chunks extra ∧ extra ≠ [] := by
  cases cmd with
  | read => exact .inl ((follows_readArguments cr).shaped hat wellTyped_chunks htyped hpasses)
  | write => exact .inl ((follows_writeArguments cr).shaped hat wellTyped_chunks htyped hpasses)
  | destroy | remove | getmetadatas =>
    exact .inl ((follows_nameArguments cr).shaped hat wellTyped_chunks htyped hpasses)
  | gc => exact .inl ((follows_gcArguments cr).shaped hat wellTyped_chunks htyped hpasses)
  | load | test =>
    exact .inl ((follows_loadArguments cr).shaped hat wellTyped_chunks htyped hpasses)
  | save => exact .inl ((follows_saveArguments cr).shaped hat wellTyped_chunks htyped hpasses)
  | touch => exact .inl ((follows_touchArguments cr).shaped hat wellTyped_chunks htyped hpasses)
  | clean =>
    obtain htypes | ⟨extra, hextra⟩ :=
      shape_of_cleanArguments hat wellTyped_chunks htyped hpasses
    · exact .inl (.inl htypes)
    · by_cases hnil : extra = []
      · obtain ⟨mode, names, rfl, -⟩ := hextra
        exact .inl (.inr (by simp [hnil, Chunk.type]))
      · exact .inr ⟨rfl, extra, hextra, hnil⟩

/-- For every header that is a sequence of chunks, a command that does not have the documented
format is refused and its handler takes no chunk for one of another type, exactly if it notices
every chunk that has not the type it fetches, and if nothing follows the tags of CLEAN. -/
theorem checksFormat_iff (cmd : StoreCommand) (cr : CommandReader) (chunks : List Chunk)
    (hid : cr.getCommandId = cmd.id)
    (hchunks : (HeaderChunkIterator.create commandFormat cr.sb).Decodes chunks)
    (stack : Nat → BitVec 64) (other : Interference) (s : CacheServer) :
    ChecksFormat cmd cr chunks stack other s ↔
      Noticed (chunksEnd cr) stack (cmd.slots cr.hasPayloadData) chunks 0 ∧
        (cmd = clean → ∀ extra, TagsFollowedBy cr.hasPayloadData chunks extra → extra = []) := by
  have hat : (cr.chunks stack).At (chunksEnd cr) chunks := chunks_at hchunks
  have htyped := wellTyped_fetched_iff cmd hat
  constructor
  · intro h
    refine ⟨htyped.mp h.wellTyped, ?_⟩
    rintro rfl extra hextra
    by_contra hne
    obtain ⟨mode, names, hargs, hmode⟩ := cleanArguments_of_tags hat hne hextra
    refine not_refused_clean other s hid hargs hmode (h.refused ?_)
    obtain ⟨n, tags, rfl, -⟩ := hextra
    cases extra with
    | nil => exact absurd rfl hne
    | cons c rest => simp [Documented]
  · rintro ⟨hnoticed, hextra⟩
    refine ⟨fun hdoc => refused_of_not_passes other s hid ?_, htyped.mpr hnoticed⟩
    by_contra hpasses
    obtain hdoc' | ⟨rfl, extra, htags, hne⟩ :=
      documented_of_passes cmd hat (htyped.mpr hnoticed) (by simpa using hpasses)
    · exact hdoc hdoc'
    · exact hne (hextra rfl extra htags)

/-- A command without password and payload that came from a client, with less than 255 bytes of
chunks. -/
def clientCommand (cmd : StoreCommand) (chunks : List UInt8) : CommandReader :=
  ⟨.create (.ofList ([descByteHeader, UInt8.ofNat (chunks.length + 1), cmd.id] ++ chunks))
    fun _ => 0, true⟩

def emptyServer : CacheServer := ⟨fun _ => [], 0, 0, 0, none, true, []⟩

def undisturbed : Interference := ⟨false, fun _ => .success⟩

theorem gc_with_two_numbers_refused :
    let cr := clientCommand gc
      [chnkSubtype ||| chnkSmallInteger ||| 5, chnkSubtype ||| chnkSmallInteger ||| 6]
    ¬gc.Documented [.number, .number] ∧
      ChecksFormat gc cr [.number 5, .number 6] (fun _ => 0) undisturbed emptyServer := by
  refine ⟨by decide, (checksFormat_iff gc _ _ rfl ?_ _ _ _).mpr ⟨?_, ?_⟩⟩
  · exact ⟨_, rfl, rfl, _, rfl, rfl, rfl⟩
  · exact fun _ => trivial
  · exact fun h => absurd h (by decide)

/-- GC with an empty string is executed: the offset of the string is taken for a number of
seconds. -/
theorem gc_with_string_executed :
    let cr := clientCommand gc [chnkSubtype ||| chnkShortString]
    (HeaderChunkIterator.create commandFormat cr.sb).Decodes [.string []] ∧
      ((process cr (fun _ => 0) undisturbed).run emptyServer).2.events =
        [.notify .session (.gc 4), .respond .ok, .dispose] ∧
      ¬ChecksFormat gc cr [.string []] (fun _ => 0) undisturbed emptyServer := by
  have hevents : ((process (clientCommand gc [chnkSubtype ||| chnkShortString]) (fun _ => 0)
      undisturbed).run emptyServer).2.events =
        [.notify .session (.gc 4), .respond .ok, .dispose] := by decide
  refine ⟨⟨_, rfl, rfl, rfl⟩, hevents, fun h => ?_⟩
  obtain ⟨tail, htail, -⟩ := (h.refused (by decide)).events
  rw [hevents] at htail
  exact absurd (List.cons.inj htail).1 (by decide)

end StoreCommand

end CyberCache
