import CyberCache.Wire.RoundTrip

/-!
# Error responses

`post_error_response()` formats its message into a buffer of 1024 bytes on the stack and passes the
value that the formatter returns on as the length of the message. That value is the length of the
complete text, whether it fits or not. A command that came over the network gets the message as the
string of an `ERROR` response; for a command that was loaded from a binlog it is logged instead.
-/

namespace CyberCache

open ByteMemory HeaderChunkBuilder

def errorBufferSize : Nat := 1024

def logStringMaxSize : Nat := 2048

def intMax : Nat := 2 ^ 31 - 1

/-- `vsnprintf()` into `size` bytes at the start of `m`: the length of the complete text, if there
is an `int` for it, and the bytes that fit with a closing zero byte. What was in memory behind them
is still there. -/
def vsnprintf (m : ByteMemory) (size : Nat) (text : List UInt8) : Option Nat × ByteMemory :=
  (if text.length ≤ intMax then some text.length else none, m.write 0 (text.take (size - 1) ++ [0]))

def cString (buffer : ByteMemory) : List UInt8 :=
  (buffer.slice 0 errorBufferSize).takeWhile (· ≠ 0)

/-! ## Logging -/

inductive ServerStage where
  | invalid
  | init
  | config
  | start
  | run
  | shutdown
deriving DecidableEq, Repr

/-- What `vsyslog()` makes of a format without arguments; a directive other than `%%` would take an
argument that is not there. -/
def expandFormat : List UInt8 → Option (List UInt8)
  | [] => some []
  | [c] => if c = 37 then none else some [c]
  | c :: d :: format =>
    if c = 37 then
      if d = 37 then (expandFormat format).map (37 :: ·) else none
    else (expandFormat (d :: format)).map (c :: ·)

def LogString.create (msg : ByteMemory) (length : Nat) : List UInt8 :=
  msg.slice 0 (if logStringMaxSize < length then logStringMaxSize else length)

/-- `SystemLogger::log_message()` for an error, if the log level lets errors through: the texts that
the system log and the standard error stream get, or the text in the log file of a running server. A
text that has no defined contents is `none`. -/
def SystemLogger.logMessage (stage : ServerStage) (enabled : Bool) (message : ByteMemory)
    (length : Nat) : List (Option (List UInt8)) :=
  if enabled then
    if stage ≠ .run then [expandFormat (cString message), some (cString message)]
    else [some (LogString.create message length)]
  else []

/-! ## Posting -/

namespace ResponseObjectConsumer

/-- The `ERROR` response for a message, `none` if there is none. `stack` is the memory from the
start of the buffer on, before anything was stored in it. -/
def postErrorResponseImpl (config : NetworkConfiguration) (heap stack : ByteMemory)
    (srw : SharedBuffers) (text : List UInt8) : Option HeaderChunkBuilder :=
  match vsnprintf stack errorBufferSize text with
  | (some result, buffer) =>
    if 0 < result ∧ 0 < uintAdd (ChunkBuilder.measureEntity result) result then
      HeaderChunkBuilder.build heap srw (ResponseHeaderChunkBuilder.source config .error) none
        [.string (buffer.slice 0 result)]
    else none
  | (none, _) => none

/-- What is logged about a command that did not come over the network. -/
def logErrorResponse (stage : ServerStage) (enabled : Bool) (stack : ByteMemory)
    (text : List UInt8) : List (Option (List UInt8)) :=
  match vsnprintf stack errorBufferSize text with
  | (some length, buffer) =>
    if 0 < length then SystemLogger.logMessage stage enabled buffer length else []
  | (none, _) => []

end ResponseObjectConsumer

/-- Where an error is reported: to the client, or to the log of a server in the given stage. -/
inductive ErrorReport where
  | network (config : NetworkConfiguration)
  | binlog (stage : ServerStage) (enabled : Bool)

/-- The part of a text that an error report may have. -/
def reportable (text : List UInt8) : List UInt8 :=
  text.take (errorBufferSize - 1)

/-- The report of an error with the given text has this text, as much of it as is reportable, and
nothing else. -/
def ErrorReport.CarriesMessage (report : ErrorReport) (aux heap stack : ByteMemory)
    (text : List UInt8) : Prop :=
  match report with
  | network config =>
    ∃ b it, ResponseObjectConsumer.postErrorResponseImpl config heap stack (.create aux heap) text =
        some b ∧
      (HeaderChunkIterator.create responseFormat b.sb).takeChunks 1 =
        ([.string (reportable text)], it) ∧
      it.hasMoreChunks = false
  | binlog stage enabled =>
    (enabled → ResponseObjectConsumer.logErrorResponse stage enabled stack text ≠ []) ∧
    ∀ message ∈ ResponseObjectConsumer.logErrorResponse stage enabled stack text,
      message = some (reportable text)

/-! ## What the buffer holds -/

section Buffer

variable {text : List UInt8} (stack : ByteMemory)

theorem slice_vsnprintf (hlength : text.length < errorBufferSize) :
    (vsnprintf stack errorBufferSize text).2.slice 0 text.length = text := by
  have htake : text.take (errorBufferSize - 1) = text := List.take_of_length_le (by omega)
  have hwrite := slice_write_append stack 0 [] text [0]
  simpa [vsnprintf, htake] using hwrite

theorem cString_vsnprintf :
    cString (vsnprintf stack errorBufferSize text).2 = (reportable text).takeWhile (· ≠ 0) := by
  have hlength : (reportable text ++ [0]).length ≤ errorBufferSize := by
    simp [reportable, errorBufferSize]
  obtain ⟨k, hk⟩ := Nat.exists_eq_add_of_le hlength
  have hends (xs ys : List UInt8) : (xs ++ 0 :: ys).takeWhile (· ≠ 0) = xs.takeWhile (· ≠ 0) := by
    induction xs with
    | nil => simp
    | cons x xs ih => simp only [List.cons_append, List.takeWhile_cons, ih]
  have hwritten : (vsnprintf stack errorBufferSize text).2.slice 0 (reportable text ++ [0]).length =
      reportable text ++ [0] := slice_write_self stack 0 _
  have hslice := (vsnprintf stack errorBufferSize text).2.slice_add 0
    (reportable text ++ [0]).length k
  rw [← hk, hwritten, List.append_assoc] at hslice
  rw [cString, hslice]
  exact hends _ _

theorem cString_eq_iff :
    cString (vsnprintf stack errorBufferSize text).2 = reportable text ↔ 0 ∉ reportable text := by
  rw [cString_vsnprintf, List.takeWhile_eq_self_iff]
  constructor
  · intro h hmem
    simpa using h 0 hmem
  · intro h c hc
    have hne : c ≠ 0 := fun hzero => h (hzero ▸ hc)
    simpa using hne

end Buffer

theorem length_expandFormat_le {format text : List UInt8} (h : expandFormat format = some text) :
    text.length ≤ format.length := by
  induction format using expandFormat.induct generalizing text with
  | case1 => simp_all [expandFormat]
  | case2 => simp_all [expandFormat]
  | case3 c hc => simp_all [expandFormat]
  | case4 format ih =>
    simp only [expandFormat, if_true, Option.map_eq_some_iff] at h
    obtain ⟨rest, hrest, rfl⟩ := h
    have hle := ih hrest
    simp only [List.length_cons]
    omega
  | case5 d format hd => simp [expandFormat, hd] at h
  | case6 c d format hc ih =>
    simp only [expandFormat, hc, if_false, Option.map_eq_some_iff] at h
    obtain ⟨rest, hrest, rfl⟩ := h
    have hle := ih hrest
    simp only [List.length_cons] at hle ⊢
    omega

theorem expandFormat_eq_self_iff {text : List UInt8} : expandFormat text = some text ↔
    37 ∉ text := by
  induction text using expandFormat.induct with
  | case1 => simp [expandFormat]
  | case2 => simp [expandFormat]
  | case3 c hc => simp [expandFormat, hc, Ne.symm hc]
  | case4 format ih =>
    simp only [expandFormat, if_true, Option.map_eq_some_iff, List.cons.injEq, true_and,
      exists_eq_right, List.mem_cons, true_or, not_true_eq_false, iff_false]
    -- the two signs become one, so that the result is too short
    intro h
    have hle := length_expandFormat_le h
    simp at hle
  | case5 d format hd => simp [expandFormat, hd]
  | case6 c d format hc ih =>
    simp only [expandFormat, hc, if_false, Option.map_eq_some_iff, List.cons.injEq, true_and,
      exists_eq_right, ih, List.mem_cons (b := c), Ne.symm hc, false_or]

/-! ## Reports -/

namespace ErrorReport

variable (aux heap stack : ByteMemory) {text : List UInt8}

theorem reportable_eq_self (h : text.length < errorBufferSize) : reportable text = text :=
  List.take_of_length_le (by omega)

theorem length_reportable_le (text : List UInt8) : (reportable text).length < errorBufferSize := by
  simp [reportable, errorBufferSize]

theorem slice_eq_reportable_iff :
    (vsnprintf stack errorBufferSize text).2.slice 0 text.length = reportable text ↔
      text.length < errorBufferSize := by
  constructor
  · intro h
    have hlength := congrArg List.length h
    rw [length_slice] at hlength
    have := length_reportable_le text
    omega
  · intro h
    rw [slice_vsnprintf stack h, reportable_eq_self h]

theorem vsnprintf_eq (h : text.length ≤ intMax) : vsnprintf stack errorBufferSize text =
    (some text.length, (vsnprintf stack errorBufferSize text).2) := by
  simp only [vsnprintf, if_pos h]

theorem vsnprintf_too_long (h : intMax < text.length) : vsnprintf stack errorBufferSize text =
    (none, (vsnprintf stack errorBufferSize text).2) := by
  simp only [vsnprintf, if_neg (Nat.not_le.mpr h)]

theorem measureEntity_le (n : Nat) : ChunkBuilder.measureEntity n ≤ 5 := by
  have := ChunkBuilder.extraBytes_cases (n - chnkLargeBias)
  unfold ChunkBuilder.measureEntity
  split_ifs <;> omega

theorem length_header_error (config : NetworkConfiguration) {s : List UInt8}
    (hs : s.length ≤ intMax) :
    (header (ResponseHeaderChunkBuilder.source config .error) none [.string s]).length <
      uintRange := by
  have hentity := measureEntity_le s.length
  have hsize : (sizePart (dataSize (ResponseHeaderChunkBuilder.source config .error) none
      [.string s])).length ≤ 4 := by
    unfold sizePart
    split_ifs
    · rw [length_sizeBytes, estimateSizeBytes]
      split_ifs <;> omega
    · exact Nat.zero_le _
  have hfixed : fixedSize (ResponseHeaderChunkBuilder.source config .error) = 0 := rfl
  have hchunk : ([Chunk.string s].flatMap Chunk.encode).length =
      ChunkBuilder.measureEntity s.length + s.length := by
    simp [Chunk.encode]
  rw [length_header_eq, hfixed, hchunk, payloadInfoSize]
  simp only [intMax] at hs
  simp only [uintRange]
  omega

theorem postErrorResponseImpl_eq (config : NetworkConfiguration) (hpos : 0 < text.length)
    (hmax : text.length ≤ intMax) :
    ∃ b it, ResponseObjectConsumer.postErrorResponseImpl config heap stack (.create aux heap) text =
        some b ∧
      (HeaderChunkIterator.create responseFormat b.sb).takeChunks 1 =
        ([.string ((vsnprintf stack errorBufferSize text).2.slice 0 text.length)], it) ∧
      it.hasMoreChunks = false := by
  have hsize := length_header_error config
    (s := (vsnprintf stack errorBufferSize text).2.slice 0 text.length) (by rwa [length_slice])
  have hsuits := ResponseHeaderChunkBuilder.source_suits config .error
  have hfresh : (SharedBuffers.create aux heap).Fresh := ⟨rfl, rfl⟩
  obtain ⟨b, hbuild, -, -, hholds⟩ := build_holds heap hfresh hsize
  obtain ⟨it, htake, hmore⟩ := takeChunks_built hsize (hsuits.descriptorSays none _)
    (by simp [Chunk.Valid]) hholds.header
  refine ⟨b, it, ?_, htake, hmore⟩
  have hestimate : 0 < uintAdd (ChunkBuilder.measureEntity text.length) text.length := by
    have hentity := measureEntity_le text.length
    simp only [intMax] at hmax
    rw [uintAdd_eq (by simp only [uintRange]; omega)]
    omega
  rw [ResponseObjectConsumer.postErrorResponseImpl, vsnprintf_eq stack hmax]
  simp only [hpos, hestimate, and_self, if_true]
  exact hbuild

theorem carriesMessage_network_iff (config : NetworkConfiguration) (hpos : 0 < text.length) :
    (network config).CarriesMessage aux heap stack text ↔ text.length < errorBufferSize := by
  rw [← slice_eq_reportable_iff stack]
  by_cases hmax : text.length ≤ intMax
  · obtain ⟨b, it, hpost, htake, hmore⟩ :=
      postErrorResponseImpl_eq aux heap stack config hpos hmax
    constructor
    · rintro ⟨b', it', hpost', htake', -⟩
      obtain rfl := Option.some.inj (hpost.symm.trans hpost')
      have hchunk := congrArg Prod.fst (htake.symm.trans htake')
      simpa using hchunk
    · intro heq
      exact ⟨b, it, hpost, by rw [htake, heq], hmore⟩
  · have hlong := vsnprintf_too_long stack (Nat.not_le.mp hmax)
    constructor
    · rintro ⟨b, it, hpost, -⟩
      rw [ResponseObjectConsumer.postErrorResponseImpl, hlong] at hpost
      cases hpost
    · rw [slice_eq_reportable_iff]
      intro hlength
      simp only [intMax, errorBufferSize] at hmax hlength
      omega

theorem logErrorResponse_eq (stage : ServerStage) (enabled : Bool) (hpos : 0 < text.length) :
    ResponseObjectConsumer.logErrorResponse stage enabled stack text =
      if text.length ≤ intMax then
        SystemLogger.logMessage stage enabled (vsnprintf stack errorBufferSize text).2 text.length
      else [] := by
  rw [ResponseObjectConsumer.logErrorResponse]
  split_ifs with hmax
  · rw [vsnprintf_eq stack hmax]
    simp only [hpos, if_true]
  · rw [vsnprintf_too_long stack (Nat.not_le.mp hmax)]

theorem carriesMessage_run_iff (hpos : 0 < text.length) :
    (binlog .run true).CarriesMessage aux heap stack text ↔ text.length < errorBufferSize := by
  rw [CarriesMessage, logErrorResponse_eq stack _ _ hpos, ← slice_eq_reportable_iff stack]
  split_ifs with hmax
  · simp only [SystemLogger.logMessage, LogString.create, if_true, ne_eq, not_true_eq_false,
      if_false, List.mem_singleton, forall_eq, Option.some.injEq, not_false_eq_true,
      implies_true, true_and, List.cons_ne_nil]
    split_ifs with hclipped
    · -- a clipped message is longer than the buffer all the same
      have hlength := length_reportable_le text
      constructor <;> intro h <;> have h' := congrArg List.length h <;> rw [length_slice] at h' <;>
        simp only [logStringMaxSize, errorBufferSize] at hclipped hlength h' <;> omega
    · exact Iff.rfl
  · simp only [ne_eq, not_true_eq_false, imp_false, false_and, slice_eq_reportable_iff, false_iff]
    simp only [intMax, errorBufferSize] at hmax ⊢
    omega

theorem carriesMessage_syslog_iff {stage : ServerStage} (hstage : stage ≠ .run)
    (hpos : 0 < text.length) :
    (binlog stage true).CarriesMessage aux heap stack text ↔
      text.length ≤ intMax ∧ 0 ∉ reportable text ∧ 37 ∉ reportable text := by
  rw [CarriesMessage, logErrorResponse_eq stack _ _ hpos]
  split_ifs with hmax
  · simp only [SystemLogger.logMessage, if_true, hstage, ne_eq, not_false_eq_true, List.mem_cons,
      List.not_mem_nil, or_false, forall_eq_or_imp, forall_eq, Option.some.injEq, cString_eq_iff,
      implies_true, true_and, hmax, List.cons_ne_nil]
    constructor
    · rintro ⟨hexpand, hzero⟩
      rw [(cString_eq_iff stack).mpr hzero, expandFormat_eq_self_iff] at hexpand
      exact ⟨hzero, hexpand⟩
    · rintro ⟨hzero, hpercent⟩
      rw [(cString_eq_iff stack).mpr hzero, expandFormat_eq_self_iff]
      exact ⟨hpercent, hzero⟩
  · simp [hmax]

theorem carriesMessage_disabled (stage : ServerStage) (hpos : 0 < text.length) :
    (binlog stage false).CarriesMessage aux heap stack text := by
  rw [CarriesMessage, logErrorResponse_eq stack _ _ hpos]
  simp [SystemLogger.logMessage]

/-- The texts whose report is as it should be. A client and the log of a running server must not be
told of more than the buffer holds. The other logs take the buffer for a zero-terminated string and,
one of them, for a format. -/
def Suits (text : List UInt8) : ErrorReport → Prop
  | network _ => text.length < errorBufferSize
  | binlog .run enabled => enabled → text.length < errorBufferSize
  | binlog _ enabled => enabled → text.length ≤ intMax ∧ 0 ∉ reportable text ∧ 37 ∉ reportable text

/-- An error report carries the message and nothing else if and only if the text suits it. -/
theorem carriesMessage_iff (report : ErrorReport) (aux heap stack : ByteMemory) {text : List UInt8}
    (hpos : 0 < text.length) :
    report.CarriesMessage aux heap stack text ↔ report.Suits text := by
  cases report with
  | network config => exact carriesMessage_network_iff aux heap stack config hpos
  | binlog stage enabled =>
    cases enabled with
    | false =>
      have hdisabled := carriesMessage_disabled aux heap stack stage hpos
      cases stage <;> exact ⟨fun _ h => absurd h (by decide), fun _ => hdisabled⟩
    | true =>
      by_cases hstage : stage = .run
      · subst hstage
        rw [carriesMessage_run_iff aux heap stack hpos]
        simp [Suits]
      · rw [carriesMessage_syslog_iff aux heap stack hstage hpos]
        cases stage <;> first | exact absurd rfl hstage | simp [Suits]

theorem carriesMessage_of_longest :
    let text : List UInt8 := List.replicate 1023 65
    (network ⟨0, 0, 0, false, false, false⟩).Suits text ∧
      (network ⟨0, 0, 0, false, false, false⟩).CarriesMessage (fun _ => 0) (fun _ => 0)
        (fun _ => 0) text := by
  have hlength : (List.replicate 1023 (65 : UInt8)).length = 1023 := List.length_replicate
  have hsuits : (network ⟨0, 0, 0, false, false, false⟩).Suits
      (List.replicate 1023 (65 : UInt8)) := by
    rw [Suits, hlength]
    decide
  exact ⟨hsuits, (carriesMessage_iff _ _ _ _ (by rw [hlength]; decide)).mpr hsuits⟩

/-- A text with one byte more is sent with the zero byte that ends it. -/
theorem zero_byte_sent :
    ¬(network ⟨0, 0, 0, false, false, false⟩).CarriesMessage (fun _ => 0) (fun _ => 0)
      (fun _ => 0) (List.replicate 1024 65) := by
  have hlength : (List.replicate 1024 (65 : UInt8)).length = 1024 := List.length_replicate
  rw [carriesMessage_network_iff _ _ _ _ (by rw [hlength]; decide), hlength]
  decide

end ErrorReport

end CyberCache
