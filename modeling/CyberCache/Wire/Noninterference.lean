import CyberCache.Wire.PairedRuns

/-!
# Bytes that nobody sent

The memory in which a header is stored holds something before the first byte arrives. Two readers
that are given the same bytes and differ only in this memory should not be told apart by what they
return. They are not, unless the header ends before the payload information that its descriptor
promises, or before the end of a chunk: payload information is checked against the size of the block
and not against the number of bytes received, and chunks are not checked at all.
-/

namespace CyberCache

open ByteMemory

variable {f : MessageFormat} {stream : List UInt8}

/-! ## What a caller sees -/

def ReaderWriter.hasHeader (r : ReaderWriter) : Bool :=
  match r.state with
  | .readPayloadBytes | .readMarkerByte | .readDone => true
  | _ => false

/-- Result and number of bytes of a call, size of the payload and, once there is a header, what it
says about the payload and its first chunks, however many. -/
structure Observation where
  outcome : Outcome
  ntotal : Nat
  payloadSize : Nat
  content : Option (PayloadInfo × (Nat → List Chunk))

namespace MessageFormat

def content (f : MessageFormat) (r : ReaderWriter) : Option (PayloadInfo × (Nat → List Chunk)) :=
  if r.hasHeader then
    some (f.getPayloadInfo r.sb, fun n => ((HeaderChunkIterator.create f r.sb).takeChunks n).1)
  else none

def observe (f : MessageFormat) (call : ReadCall) : Observation :=
  ⟨call.outcome, call.ntotal, call.reader.sb.payload.size, f.content call.reader⟩

end MessageFormat

/-! ## What a stored header says -/

/-- The reader has stored the header at the start of the stream and goes on. -/
structure HeaderStored (f : MessageFormat) (stream : List UInt8) (r : ReaderWriter) : Prop where
  arrives : f.HeaderArrives stream
  available : r.sb.getAvailableHeaderSize = max auxDataSize (f.streamHeaderSize stream)
  positive : 0 < f.streamHeaderSize stream
  sizeField : 1 + sizeFieldLength stream ≤ f.streamHeaderSize stream
  header : AgreeBelow (f.streamHeaderSize stream) r.sb.header (ofList stream)
  info : sizeFieldLength stream = 0 ∧ f.sizelessHeader (ofList stream 0) = .expectMarker ∨
    f.payloadInfo r.sb.header (max auxDataSize (f.streamHeaderSize stream)) 0 ≠ .invalid

namespace HeaderStored

variable {f : MessageFormat} {received stream : List UInt8} {r s : ReaderWriter}

theorem mono (h : HeaderStored f received r) (hstream : received <+: stream) :
    HeaderStored f stream r := by
  obtain ⟨rest, rfl⟩ := hstream
  obtain ⟨⟨hfield, hfits, hlength, haccepted⟩, havailable, hpos, hsizeField, hheader, hinfo⟩ := h
  have hsize := f.streamHeaderSize_append received rest hfield
  have hlen := sizeFieldLength_append received rest (by omega)
  have hdesc := ofList_append_zero received rest (by omega)
  constructor
  · refine ⟨?_, hfits.append rest hfield, ?_, ?_⟩
    · rw [hlen, List.length_append]
      omega
    · rw [hsize, List.length_append]
      omega
    · rwa [hlen, hdesc]
  · rw [hsize, havailable]
  · rwa [hsize]
  · rwa [hlen, hsize]
  · rw [hsize]
    exact hheader.trans ((agreeBelow_ofList_append received rest).mono hlength)
  · rwa [hlen, hdesc, hsize]

theorem of_body (h : BodyReceived f received r.sb) (hfits : SizeFieldFits received)
    (haccepted : f.DescriptorAccepted received) : HeaderStored f received r where
  arrives := by
    have hlength := h.length
    have hfield := h.sizeField
    refine ⟨by omega, hfits, by omega, fun hsizeless => ?_⟩
    obtain rfl | hsized | hok := haccepted
    · simp at hlength
      omega
    · exact absurd hsizeless hsized
    · exact hok
  available := h.available
  positive := by have := h.sizeField; omega
  sizeField := h.sizeField
  header := h.header
  info := by
    obtain ⟨hsizeless, -, hmarker⟩ | hinfo := h.info
    · exact .inl ⟨hsizeless, hmarker⟩
    · right
      rw [← h.available]
      intro hinvalid
      simp [hinvalid, PayloadInfo.announces] at hinfo

end HeaderStored

theorem Tracked.headerStored {received : List UInt8} {r : ReaderWriter}
    (h : Tracked f received r) (hheader : r.hasHeader) : HeaderStored f received r := by
  cases h with
  | stuck h _ => simp [ReaderWriter.hasHeader, h.state] at hheader
  | progress h hfits =>
    cases h with
    | descriptor hstate => obtain hs | hs := hstate <;> simp [ReaderWriter.hasHeader, hs] at hheader
    | sizeField hstate | header hstate | failed hstate =>
      simp [ReaderWriter.hasHeader, hstate] at hheader
    | payload hstate havailable hpos hreceived _ _ _ hinfo hagree _ =>
      obtain ⟨hfits, haccepted⟩ := hfits.resolve_right (by simp [hstate])
      refine ⟨⟨by omega, hfits, by omega, fun hsizeless => ?_⟩, havailable, by omega, hreceived,
        hagree, .inr ?_⟩
      · obtain rfl | hsized | hok := haccepted
        · simp at hpos
          omega
        · exact absurd hsizeless hsized
        · exact hok
      · rw [← havailable]
        intro hinvalid
        simp [hinvalid, PayloadInfo.announces] at hinfo
    | marker hstate hbody =>
      obtain ⟨hfits, haccepted⟩ := hfits.resolve_right (by simp [hstate])
      exact .of_body hbody hfits haccepted
    | done body hstate hbody hreceived =>
      obtain ⟨hfits, haccepted⟩ := hfits.resolve_right (by simp [hstate])
      have hlength := hbody.length
      have hfield := hbody.sizeField
      subst hreceived
      refine (HeaderStored.of_body hbody hfits.of_append ?_).mono ⟨_, rfl⟩
      right
      have hsome : ¬body ++ closing (ofList body 0) = [] := by
        intro hempty
        have hzero : body.length = 0 := by rw [(List.append_eq_nil_iff.mp hempty).1,
          List.length_nil]
        omega
      have hrest := haccepted.resolve_left hsome
      rwa [sizeFieldLength_append body _ (by omega), ofList_append_zero body _ (by omega)] at hrest

namespace HeaderChunkIterator

theorem takeChunks_of_empty {it : HeaderChunkIterator} (h : it.remains = 0) (n : Nat) :
    it.takeChunks n = ([], it) := by
  cases n with
  | zero => rfl
  | succ n => simp [takeChunks, takeChunk, getNextChunk, h]

theorem ofHeader_same {f : MessageFormat} {m m' : ByteMemory} (h : AgreeBelow (f.headerSize m) m m')
    (hsize : 1 + headerDataSizeLength (m 0) ≤ f.headerSize m) (hsome : f.getHeaderInfo m ≠ none) :
    Same (f.headerSize m) m m' (ofHeader f m) (ofHeader f m') := by
  have hdesc : m 0 = m' 0 := h 0 (by omega)
  have hfull : f.headerSize m = f.headerSize m' := f.headerSize_congr (h.mono hsize)
  have hinfo : f.getHeaderInfo m' = f.getHeaderInfo m := by
    simp only [MessageFormat.getHeaderInfo, hdesc, hfull]
  obtain ⟨⟨offset, length⟩, hat⟩ := Option.ne_none_iff_exists'.mp hsome
  have hend : offset + length = f.headerSize m := by
    simp only [MessageFormat.getHeaderInfo] at hat
    split_ifs at hat with hnone hlt
    cases hat
    omega
  simp only [ofHeader, hinfo, hat]
  exact ⟨rfl, rfl, h, rfl, rfl, rfl, fun _ => hend⟩

end HeaderChunkIterator

/-- Nothing that is read from the header at the start of the stream, if there is one, lies behind
its end. -/
def MessageFormat.Determined (f : MessageFormat) (stream : List UInt8) : Prop :=
  f.HeaderArrives stream → f.InfoKnown stream ∧
    (f.payloadInfo (ofList stream) (max auxDataSize (f.streamHeaderSize stream)) 0 ≠ .invalid →
      f.ChunksInside stream)

namespace HeaderStored

open HeaderChunkIterator

variable {f : MessageFormat} {stream : List UInt8} {r s : ReaderWriter}

theorem takeChunks_eq (h : HeaderStored f stream r) (hdetermined : f.Determined stream) (n : Nat) :
    ((create f r.sb).takeChunks n).1 = ((ofHeader f (ofList stream)).takeChunks n).1 := by
  obtain ⟨hknown, hinside⟩ := hdetermined h.arrives
  have hheader := h.header.symm
  by_cases hinfo : f.getHeaderInfo (ofList stream) = none
  · -- no chunks: the descriptor and the size field say so
    have hdesc : ofList stream 0 = r.sb.header 0 := hheader 0 h.positive
    have hfull : f.headerSize (ofList stream) = f.headerSize r.sb.header :=
      f.headerSize_congr (hheader.mono h.sizeField)
    have hinfo' : f.getHeaderInfo r.sb.header = none := by
      simpa only [MessageFormat.getHeaderInfo, hdesc, hfull] using hinfo
    rw [takeChunks_of_empty (by simp [create, ofHeader, hinfo']),
      takeChunks_of_empty (by simp [ofHeader, hinfo])]
  · have hsame := ofHeader_same hheader h.sizeField hinfo
    refine hsame.takeChunks (f.streamHeaderSize_lt stream) (hinside ?_ n)
    obtain ⟨hsizeless, -⟩ | hvalid := h.info
    · exfalso
      apply hinfo
      have hnone := f.streamHeaderSize_of_sizeless hsizeless
      unfold sizeFieldLength headerDataSizeLength at hsizeless
      split_ifs at hsizeless with hbits
      simp [MessageFormat.getHeaderInfo, hbits]
    · rwa [← hknown.payloadInfo_eq h.positive h.header (.refl _ _)]

theorem content_eq (hr : HeaderStored f stream r) (hs : HeaderStored f stream s)
    (hdetermined : f.Determined stream) (hsize : r.sb.payload.size = s.sb.payload.size) :
    f.getPayloadInfo r.sb = f.getPayloadInfo s.sb ∧
      ∀ n, ((create f r.sb).takeChunks n).1 = ((create f s.sb).takeChunks n).1 := by
  have hknown := (hdetermined hr.arrives).1
  refine ⟨?_, fun n => ?_⟩
  · simp only [MessageFormat.getPayloadInfo, hr.available, hs.available, hsize]
    exact hknown.payloadInfo_eq hr.positive hr.header hs.header _
  · rw [hr.takeChunks_eq hdetermined, hs.takeChunks_eq hdetermined]

end HeaderStored

theorem SameCall.observe_eq {call call' : ReadCall}
    (h : SameCall f stream call call') (hdetermined : f.Determined stream) :
    f.observe call = f.observe call' := by
  obtain ⟨houtcome, hntotal, -, received, hstream, hpaired, -⟩ := h
  have hsame : call.reader.hasHeader = call'.reader.hasHeader := by
    simp only [ReaderWriter.hasHeader, hpaired.alike.state]
  have hcontent : f.content call.reader = f.content call'.reader := by
    by_cases hheader : call.reader.hasHeader
    · have hheader' := hsame.symm.trans hheader
      obtain ⟨hinfo, hchunks⟩ := ((hpaired.left.headerStored hheader).mono hstream).content_eq
        ((hpaired.right.headerStored hheader').mono hstream) hdetermined hpaired.alike.payloadSize
      simp only [MessageFormat.content, hheader, hheader', hinfo, hchunks]
    · simp [MessageFormat.content, hheader, ← hsame]
  simp only [MessageFormat.observe, houtcome, hntotal, hpaired.alike.payloadSize, hcontent]

theorem readCalls_observe_eq (hdetermined : f.Determined stream) {sb sb' : SharedBuffers}
    (h : sb.Fresh) (h' : sb'.Fresh) (schedule : List Delivery) (n : Nat) :
    (f.readCalls n (.create sb) ⟨stream, schedule⟩).map f.observe =
      (f.readCalls n (.create sb') ⟨stream, schedule⟩).map f.observe := by
  have hstart {sb : SharedBuffers} (h : sb.Fresh) : Tracked f [] (.create sb) := by
    refine .progress (.create h) (.inl ⟨?_, .inl rfl⟩)
    intro hlength hcomplete
    simp at hcomplete
  have hpaired : Paired f [] (.create sb) (.create sb') :=
    ⟨⟨rfl, rfl, rfl, h.2.trans h'.2.symm⟩, hstart h, hstart h'⟩
  have hruns : List.Forall₂ (SameCall f stream) (f.readCalls n (.create sb) ⟨stream, schedule⟩)
      (f.readCalls n (.create sb') ⟨stream, schedule⟩) :=
    hpaired.readCalls (fun harrives => (hdetermined harrives).1) (List.nil_append stream)
  generalize f.readCalls n (.create sb) ⟨stream, schedule⟩ = calls at *
  generalize f.readCalls n (.create sb') ⟨stream, schedule⟩ = calls' at *
  induction hruns with
  | nil => rfl
  | cons hcall _ ih => rw [List.map_cons, List.map_cons, hcall.observe_eq hdetermined, ih]

/-! ## What was there before -/

namespace SharedBuffers

theorem writeHeader_create (aux heap : ByteMemory) (pos : Nat) (bytes : List UInt8) :
    (create aux heap).writeHeader pos bytes = create (aux.write pos bytes) heap := rfl

theorem header_create (aux heap : ByteMemory) : (create aux heap).header = aux := rfl

/-- All memory of the object was `m` before the bytes `received` were stored in it: the same is true
of the block that a long header is moved to. -/
theorem header_configureHeader_create (m : ByteMemory) (received : List UInt8) (full : Nat) :
    ((create (m.write 0 received) m).configureHeader received.length full).header =
      m.write 0 received := by
  unfold configureHeader
  split_ifs with hfull
  · have hpos : 0 < full := by omega
    simp [header, create, DataBuffer.setSize, hpos, slice_write_self]
  · rfl

end SharedBuffers

theorem MessageFormat.payloadInfo_of_announces {m : ByteMemory}
    {available size : Nat} (h : (f.payloadInfo m available 0).announces = some size) :
    f.payloadInfo m available size = f.payloadInfo m available 0 := by
  unfold payloadInfo at h ⊢
  dsimp only at h ⊢
  split_ifs at h ⊢ <;> simp_all [PayloadInfo.announces]

/-- What a caller finds in the header in `m`. -/
def Says (f : MessageFormat) (m : ByteMemory) (available : Nat)
    (content : Option (PayloadInfo × (Nat → List Chunk))) : Prop :=
  content = some (f.payloadInfo m available 0,
      fun n => ((HeaderChunkIterator.ofHeader f m).takeChunks n).1) ∨
    content = none ∧ f.payloadInfo m available 0 = .invalid

section Residue

open MessageFormat

variable {f : MessageFormat} {m : ByteMemory} {r r' r'' : ReaderWriter} {request : Request}
  {schedule : List Delivery} {received bytes incoming : List UInt8} {ntotal : Nat}
  {asked : List (ReaderWriter × Request)}

variable {b : UInt8}

theorem recv_transfer (hne : bytes ≠ []) (incoming : List UInt8) :
    (Delivery.transfer bytes.length).recv (bytes ++ incoming) bytes.length = (.ok, bytes) := by
  simp [Delivery.recv, hne]

theorem readLoop_transfer (h : r.pass = .ask r' request) (hcount : request.count = bytes.length)
    (hne : bytes ≠ []) (hroom : request.offset + bytes.length ≤ r'.areaSize request.area)
    (haccept : f.accept r' bytes = .goOn r'') :
    f.readLoop (.transfer bytes.length :: schedule) (bytes ++ incoming) r ntotal asked =
      f.readLoop schedule incoming r'' (ntotal + bytes.length) (asked ++ [(r', request)]) := by
  rw [readLoop_goOn h (hcount ▸ recv_transfer hne incoming) hroom haccept, List.drop_left]

theorem content_readLoop_nil (hstate : r.state = .readMarkerByte ∨ r.state = .readPayloadBytes) :
    f.content (f.readLoop [] incoming r ntotal asked).reader =
      some (f.getPayloadInfo r.sb,
        fun n => ((HeaderChunkIterator.create f r.sb).takeChunks n).1) := by
  cases hpass : r.pass with
  | ask r' request =>
    rw [readLoop_nil hpass]
    obtain ⟨hs | hs, -⟩ | ⟨hs | hs, -⟩ | ⟨-, rfl, -⟩ | ⟨-, -, rfl, -⟩ :=
      ReaderWriter.pass_eq_ask hpass
    any_goals simp [hs] at hstate
    all_goals
      obtain hs | hs := hstate <;> simp [content, ReaderWriter.hasHeader, hs]
  | leave r' result =>
    rw [readLoop_leave hpass]
    obtain ⟨-, -, rfl, -⟩ | ⟨hs, -⟩ := ReaderWriter.pass_eq_leave hpass
    · simp [content, ReaderWriter.hasHeader, ReaderWriter.readCompleted]
    · have hpayload := hstate.resolve_left hs
      simp [ReaderWriter.pass, hpayload] at hpass

theorem headerReceived_cases (hpayload : r.sb.payload.size = 0) :
    (∃ r', f.headerReceived r = .leave r' .error ∧ f.content r' = none ∧
      f.payloadInfo r.sb.header r.sb.getAvailableHeaderSize 0 = .invalid) ∨
    ∃ r', f.headerReceived r = .goOn r' ∧
      (r'.state = .readMarkerByte ∨ r'.state = .readPayloadBytes) ∧ r'.sb.header = r.sb.header ∧
      f.getPayloadInfo r'.sb = f.payloadInfo r.sb.header r.sb.getAvailableHeaderSize 0 := by
  have hinfo : f.getPayloadInfo r.sb =
      f.payloadInfo r.sb.header r.sb.getAvailableHeaderSize 0 := by
    rw [getPayloadInfo, hpayload]
  rw [headerReceived, hinfo]
  cases hcase : f.payloadInfo r.sb.header r.sb.getAvailableHeaderSize 0 with
  | absent => exact .inr ⟨_, rfl, .inl rfl, rfl, hinfo.trans hcase⟩
  | invalid => exact .inl ⟨_, rfl, by simp [content, ReaderWriter.hasHeader], rfl⟩
  | present size usize compressor =>
    right
    simp only
    split_ifs
    · refine ⟨_, rfl, .inr rfl, rfl, ?_⟩
      rw [getPayloadInfo, SharedBuffers.payload_size_setPayloadSize,
        SharedBuffers.header_setPayloadSize, SharedBuffers.getAvailableHeaderSize_setPayloadSize,
        payloadInfo_of_announces (by rw [hcase]; rfl), hcase]
    · exact ⟨_, rfl, .inl rfl, rfl, hinfo.trans hcase⟩

theorem says_readLoop_header {full : Nat} (hlt : received.length < full)
    (hend : received.length + bytes.length = full) :
    Says f (m.write 0 (received ++ bytes)) (max auxDataSize full)
      (f.content (f.readLoop [.transfer bytes.length] (bytes ++ incoming)
        ⟨(SharedBuffers.create (m.write 0 received) m).configureHeader received.length full,
          .readHeaderBytes, received.length, bytes.length⟩ ntotal asked).reader) := by
  have hne : bytes ≠ [] := List.length_pos_iff.mp (by omega)
  have havailable := SharedBuffers.getAvailableHeaderSize_configureHeader
    (SharedBuffers.create_data_size (m.write 0 received) m) received.length full
  have hheader := SharedBuffers.header_configureHeader_create m received full
  have hpayload := congrArg DataBuffer.size (SharedBuffers.payload_configureHeader
    (SharedBuffers.create (m.write 0 received) m) received.length full)
  rw [SharedBuffers.create_payload_size] at hpayload
  generalize (SharedBuffers.create (m.write 0 received) m).configureHeader received.length full =
    sb at *
  have hstored : (sb.writeHeader received.length bytes).header = m.write 0 (received ++ bytes) := by
    rw [SharedBuffers.header_writeHeader, hheader, ← write_append, Nat.zero_add]
  have hpass : (ReaderWriter.mk sb .readHeaderBytes received.length bytes.length).pass =
      .ask ⟨sb, .readHeaderBytes, received.length, bytes.length⟩
        ⟨.header, received.length, bytes.length⟩ := rfl
  have hroom : received.length + bytes.length ≤
      (ReaderWriter.mk sb .readHeaderBytes received.length bytes.length).areaSize .header := by
    simp only [ReaderWriter.areaSize, havailable]
    omega
  have haccept : f.accept ⟨sb, .readHeaderBytes, received.length, bytes.length⟩ bytes =
      f.headerReceived ⟨sb.writeHeader received.length bytes, .readHeaderBytes, received.length,
        bytes.length⟩ := by
    simp [accept, acceptHeaderBytes]
  have hcases := headerReceived_cases (f := f) (r := ⟨sb.writeHeader received.length bytes,
    .readHeaderBytes, received.length, bytes.length⟩) (by simpa using hpayload)
  simp only [hstored, SharedBuffers.getAvailableHeaderSize_writeHeader, havailable] at hcases
  obtain ⟨r', hverdict, hnone, hinvalid⟩ | ⟨r', hverdict, hstate, hsame, hinfo⟩ := hcases
  · rw [readLoop_return hpass (recv_transfer hne incoming) hroom (haccept.trans hverdict)]
    exact .inr ⟨hnone, hinvalid⟩
  · rw [readLoop_transfer hpass rfl hne hroom (haccept.trans hverdict),
      content_readLoop_nil hstate, hinfo, HeaderChunkIterator.create, hsame]
    exact .inl rfl

theorem readLoop_descriptor (m : ByteMemory) (b : UInt8) (schedule : List Delivery)
    (incoming : List UInt8)
    (haccept : f.acceptDescriptor ⟨.create m m, .readDescriptor, 0, 0⟩ [b] = .goOn r) :
    ∃ asked, f.readLoop (.transfer 1 :: schedule) (b :: incoming) (.create (.create m m)) 0 [] =
      f.readLoop schedule incoming r 1 asked :=
  have hpass : (ReaderWriter.create (.create m m)).pass =
    .ask ⟨.create m m, .readDescriptor, 0, 0⟩ ⟨.header, 0, 1⟩ := rfl
  have hne : [b] ≠ [] := List.cons_ne_nil b []
  ⟨_, readLoop_transfer hpass rfl hne (Nat.le_of_ble_eq_true rfl) haccept⟩

theorem write_singleton (m : ByteMemory) (b : UInt8) : m.write 0 [b] 0 = b := by
  simp [ByteMemory.write]

theorem says_expectMarker (hsizeless : headerDataSizeLength b = 0)
    (hformat : f.sizelessHeader b = .expectMarker) (m : ByteMemory) (incoming : List UInt8) :
    Says f (m.write 0 [b]) auxDataSize
      (f.content (f.readLoop [.transfer 1] (b :: incoming) (.create (.create m m)) 0
      []).reader) := by
  have haccept : f.acceptDescriptor ⟨.create m m, .readDescriptor, 0, 0⟩ [b] =
      .goOn ⟨.create (m.write 0 [b]) m, .readMarkerByte, 1, 0⟩ := by
    simp only [acceptDescriptor, SharedBuffers.writeHeader_create, SharedBuffers.header_create,
      write_singleton, hsizeless, hformat, if_true]
  obtain ⟨asked, hstep⟩ := readLoop_descriptor m b [] incoming haccept
  rw [hstep, content_readLoop_nil (.inl rfl)]
  exact .inl rfl

theorem says_readRest (hsizeless : headerDataSizeLength b = 0)
    (hformat : f.sizelessHeader b = .readRest) (hbytes : bytes.length = f.fixedLength b)
    (m : ByteMemory) (incoming : List UInt8) :
    Says f (m.write 0 ([b] ++ bytes)) (max auxDataSize (1 + f.fixedLength b))
      (f.content (f.readLoop [.transfer 1, .transfer bytes.length] (b :: (bytes ++ incoming))
        (.create (.create m m)) 0 []).reader) := by
  have hpos := f.fixedLength_pos b hformat
  have hle := f.fixedLength_le b
  have haccept : f.acceptDescriptor ⟨.create m m, .readDescriptor, 0, 0⟩ [b] =
      .goOn ⟨(SharedBuffers.create (m.write 0 [b]) m).configureHeader 1 (1 + f.fixedLength b),
        .readHeaderBytes, 1, bytes.length⟩ := by
    simp only [acceptDescriptor, SharedBuffers.writeHeader_create, SharedBuffers.header_create,
      write_singleton, hsizeless, hformat, if_true]
    rw [uintSub_eq (by simp only [uintRange]; omega) (by omega), Nat.add_sub_cancel_left, hbytes]
  obtain ⟨asked, hstep⟩ :=
    readLoop_descriptor m b [.transfer bytes.length] (bytes ++ incoming) haccept
  rw [hstep]
  apply says_readLoop_header
  · simp only [List.length_singleton]
    omega
  · simp only [List.length_singleton]
    omega

theorem says_sized {sizeBytes : List UInt8} {full : Nat} (hsized : headerDataSizeLength b ≠ 0)
    (hfield : sizeBytes.length = headerDataSizeLength b)
    (hfull : f.streamHeaderSize ([b] ++ sizeBytes) = full) (hlt : ([b] ++ sizeBytes).length < full)
    (hend : ([b] ++ sizeBytes).length + bytes.length = full) (m : ByteMemory)
    (incoming : List UInt8) :
    Says f (m.write 0 ([b] ++ sizeBytes ++ bytes)) (max auxDataSize full)
      (f.content (f.readLoop
        [.transfer 1, .transfer sizeBytes.length, .transfer bytes.length]
        (b :: (sizeBytes ++ (bytes ++ incoming))) (.create (.create m m)) 0 []).reader) := by
  have haccept : f.acceptDescriptor ⟨.create m m, .readDescriptor, 0, 0⟩ [b] =
      .goOn ⟨.create (m.write 0 [b]) m, .readHeaderSizeBytes, 1, sizeBytes.length⟩ := by
    rw [Progress.acceptDescriptor_sized hsized, hfield]
    rfl
  obtain ⟨asked, hstep⟩ := readLoop_descriptor m b
    [.transfer sizeBytes.length, .transfer bytes.length] (sizeBytes ++ (bytes ++ incoming)) haccept
  have hshort := headerDataSizeLength_cases b
  have hlength : ([b] ++ sizeBytes).length = 1 + sizeBytes.length := by
    rw [List.length_append, List.length_singleton]
  have hstored : (m.write 0 [b]).write 1 sizeBytes = m.write 0 ([b] ++ sizeBytes) :=
    (write_append m 0 [b] sizeBytes)
  have hheader : AgreeBelow ([b] ++ sizeBytes).length (m.write 0 ([b] ++ sizeBytes))
      (ofList ([b] ++ sizeBytes)) := by
    have hnothing : AgreeBelow ([] : List UInt8).length m (ofList []) :=
      fun i hi => absurd hi (Nat.not_lt_zero i)
    exact hnothing.write_ofList ([b] ++ sizeBytes)
  have hsize : f.headerSize (m.write 0 ([b] ++ sizeBytes)) = full := by
    rw [← hfull]
    apply f.headerSize_congr
    have hdesc : m.write 0 ([b] ++ sizeBytes) 0 = b := by simp [ByteMemory.write]
    rw [hdesc]
    exact hheader.mono (by omega)
  have hrange := f.streamHeaderSize_lt ([b] ++ sizeBytes)
  have haccept' : f.accept ⟨.create (m.write 0 [b]) m, .readHeaderSizeBytes, 1, sizeBytes.length⟩
      sizeBytes = .goOn ⟨(SharedBuffers.create (m.write 0 ([b] ++ sizeBytes)) m).configureHeader
        ([b] ++ sizeBytes).length full, .readHeaderBytes, ([b] ++ sizeBytes).length,
        bytes.length⟩ := by
    simp only [accept, acceptHeaderSizeBytes, SharedBuffers.writeHeader_create,
      SharedBuffers.header_create, hstored, hsize, if_true]
    rw [uintAdd_eq (by omega), ← hlength, uintSub_eq (by omega) (by omega)]
    congr 2
    omega
  have hpass : (ReaderWriter.mk (.create (m.write 0 [b]) m) .readHeaderSizeBytes 1
      sizeBytes.length).pass = .ask ⟨.create (m.write 0 [b]) m, .readHeaderSizeBytes, 1,
        sizeBytes.length⟩ ⟨.header, 1, sizeBytes.length⟩ := rfl
  rw [hstep, readLoop_transfer hpass rfl (List.length_pos_iff.mp (by omega)) ?_ haccept']
  · exact says_readLoop_header hlt hend
  · have haux : (ReaderWriter.mk (.create (m.write 0 [b]) m) .readHeaderSizeBytes 1
        sizeBytes.length).areaSize .header = 12 := rfl
    rw [haux]
    simp only
    omega

/-- A complete header can be delivered in such a way that nothing behind it arrives, and whatever
memory it was stored in is then read for a part of it. -/
theorem exists_schedule_says {stream : List UInt8} (h : f.HeaderArrives stream) :
    ∃ schedule, ∀ m : ByteMemory,
      Says f (m.write 0 (stream.take (f.streamHeaderSize stream)))
        (max auxDataSize (f.streamHeaderSize stream))
        (f.content (f.read (.create (.create m m)) ⟨stream, schedule⟩).reader) := by
  obtain ⟨hfield, hfits, hlength, haccepted⟩ := h
  obtain ⟨b, rest, rfl⟩ : ∃ b rest, stream = b :: rest :=
    List.exists_cons_of_ne_nil (by rintro rfl; simp at hfield)
  have hdesc : ofList (b :: rest) 0 = b := ofList_of_lt (by simp)
  have hlen := sizeFieldLength_cons b rest
  have hlonger := f.lt_streamHeaderSize hfits
  rw [hlen] at hfield haccepted hlonger
  rw [hdesc] at haccepted
  by_cases hsizeless : headerDataSizeLength b = 0
  · have hsize := f.streamHeaderSize_of_sizeless (hlen.trans hsizeless)
    rw [hdesc] at hsize
    rw [hsize] at hlength ⊢
    cases hformat : f.sizelessHeader b with
    | reject => exact absurd hformat (haccepted hsizeless)
    | expectMarker =>
      rw [f.fixedLength_eq_zero b (by simp [hformat])]
      exact ⟨_, fun m => says_expectMarker hsizeless hformat m rest⟩
    | readRest =>
      have hbytes : (rest.take (f.fixedLength b)).length = f.fixedLength b := by
        rw [List.length_take]
        rw [List.length_cons] at hlength
        omega
      refine ⟨[.transfer 1, .transfer (rest.take (f.fixedLength b)).length], fun m => ?_⟩
      have hsays := says_readRest hsizeless hformat hbytes m (rest.drop (f.fixedLength b))
      rwa [List.take_append_drop, List.singleton_append, ← List.take_succ_cons, Nat.add_comm]
        at hsays
  · generalize hfull : f.streamHeaderSize (b :: rest) = full at *
    have hlt := hlonger (Nat.pos_of_ne_zero hsizeless) hfield
    rw [List.length_cons] at hlength hfield
    have hsize : (rest.take (headerDataSizeLength b)).length = headerDataSizeLength b := by
      rw [List.length_take]
      omega
    have hbytes : ((rest.drop (headerDataSizeLength b)).take
        (full - (1 + headerDataSizeLength b))).length = full - (1 + headerDataSizeLength b) := by
      rw [List.length_take, List.length_drop]
      omega
    have hall : ([b] ++ rest.take (headerDataSizeLength b)).length =
        1 + headerDataSizeLength b := by
      rw [List.length_append, hsize, List.length_singleton]
    have hfull' : f.streamHeaderSize ([b] ++ rest.take (headerDataSizeLength b)) = full := by
      rw [← hfull, ← f.streamHeaderSize_append _ (rest.drop (headerDataSizeLength b)),
        List.append_assoc, List.take_append_drop, List.singleton_append]
      rw [List.singleton_append, sizeFieldLength_cons]
      exact Nat.le_of_eq hall.symm
    refine ⟨[.transfer 1, .transfer (rest.take (headerDataSizeLength b)).length,
      .transfer ((rest.drop (headerDataSizeLength b)).take
        (full - (1 + headerDataSizeLength b))).length], fun m => ?_⟩
    have hend : ([b] ++ rest.take (headerDataSizeLength b)).length +
        ((rest.drop (headerDataSizeLength b)).take (full - (1 + headerDataSizeLength b))).length =
        full := by
      rw [hall, hbytes]
      omega
    have hsays := says_sized hsizeless hsize hfull' (by omega) hend m
      ((rest.drop (headerDataSizeLength b)).drop (full - (1 + headerDataSizeLength b)))
    have htake : [b] ++ rest.take (headerDataSizeLength b) ++
        (rest.drop (headerDataSizeLength b)).take (full - (1 + headerDataSizeLength b)) =
        (b :: rest).take full := by
      rw [List.append_assoc, ← List.take_add, List.singleton_append, ← List.take_succ_cons]
      congr 1
      omega
    rwa [htake, List.take_append_drop, List.take_append_drop] at hsays

end Residue

/-- A run that does not depend on what was in memory reads nothing but what arrived. -/
theorem determined_of_independent
    (h : ∀ (schedule : List Delivery) (m m' : ByteMemory),
      f.content (f.read (.create (.create m m)) ⟨stream, schedule⟩).reader =
        f.content (f.read (.create (.create m' m')) ⟨stream, schedule⟩).reader) :
    f.Determined stream := by
  intro harrives
  obtain ⟨schedule, hsays⟩ := exists_schedule_says harrives
  have hfield : 1 + sizeFieldLength stream ≤ f.streamHeaderSize stream := by
    by_cases hlength : 0 < sizeFieldLength stream
    · exact Nat.le_of_lt (f.lt_streamHeaderSize harrives.fits hlength harrives.sizeField)
    · rw [f.streamHeaderSize_of_sizeless (by omega)]
      omega
  have hpos : 0 < f.streamHeaderSize stream := by omega
  -- the memory may hold the whole header already
  have hsays' {m : ByteMemory} (hm : AgreeBelow (f.streamHeaderSize stream) m (ofList stream)) :
      Says f m (max auxDataSize (f.streamHeaderSize stream))
        (f.content (f.read (.create (.create m m)) ⟨stream, schedule⟩).reader) := by
    have hread := hsays m
    rwa [hm.write_take harrives.length] at hread
  have hknown : f.InfoKnown stream := by
    by_contra hunknown
    obtain ⟨m, m', hm, hm', hsmall, hvalid, hne⟩ :=
      MessageFormat.exists_payloadInfo_ne hpos hunknown
    have hmax : max auxDataSize (f.streamHeaderSize stream) = auxDataSize := by omega
    have hread := hsays' hm
    have hread' := hsays' hm'
    rw [← h schedule m m'] at hread'
    rw [hmax] at hread hread'
    obtain hread | ⟨-, hinvalid⟩ := hread
    · obtain hread' | ⟨hnone, -⟩ := hread'
      · rw [hread] at hread'
        exact hne (congrArg Prod.fst (Option.some.inj hread')).symm
      · simp [hnone] at hread
    · exact hvalid hinvalid
  refine ⟨hknown, fun hvalid n => ?_⟩
  by_contra hout
  have hsome : f.getHeaderInfo (ofList stream) ≠ none := by
    intro hnone
    have hempty : (HeaderChunkIterator.ofHeader f (ofList stream)).remains = 0 := by
      simp [HeaderChunkIterator.ofHeader, hnone]
    rw [HeaderChunkIterator.takeChunks_of_empty hempty] at hout
    simp [HeaderChunkIterator.ofHeader, hnone] at hout
  have hagree (b : UInt8) := agreeBelow_fill (ofList stream) (f.streamHeaderSize stream) b
  have hsplit : HeaderChunkIterator.Split (f.streamHeaderSize stream) (ofList stream)
      (.ofHeader f (ofList stream))
      (.ofHeader f ((ofList stream).fill (f.streamHeaderSize stream) 0))
      (.ofHeader f ((ofList stream).fill (f.streamHeaderSize stream) 1)) := by
    refine ⟨HeaderChunkIterator.ofHeader_same (hagree 0) hfield hsome,
      HeaderChunkIterator.ofHeader_same (hagree 1) hfield hsome, ?_⟩
    unfold HeaderChunkIterator.ofHeader
    split <;> rfl
  have hread (b : UInt8) : f.content (f.read (.create (.create
      ((ofList stream).fill (f.streamHeaderSize stream) b)
      ((ofList stream).fill (f.streamHeaderSize stream) b))) ⟨stream, schedule⟩).reader = _ :=
    (hsays' (hagree b).symm).resolve_right fun ⟨_, hinvalid⟩ => by
      rw [hknown.payloadInfo_eq hpos (hagree b).symm (.refl _ _)] at hinvalid
      exact hvalid hinvalid
  have hsame := (hread 0).symm.trans ((h schedule _ _).trans (hread 1))
  have hchunks := congrFun (congrArg Prod.snd (Option.some.inj hsame)) n
  exact hsplit.takeChunks_ne (f.streamHeaderSize_lt stream) hout hchunks

/-- Reading a stream does not depend on anything that was not received if and only if nothing that
is read from its header lies behind the end of the header. -/
theorem reading_independent_iff (f : MessageFormat) (stream : List UInt8) :
    (∀ (aux heap aux' heap' : ByteMemory) (schedule : List Delivery) (n : Nat),
      (f.readCalls n (.create (.create aux heap)) ⟨stream, schedule⟩).map f.observe =
        (f.readCalls n (.create (.create aux' heap')) ⟨stream, schedule⟩).map f.observe) ↔
      f.Determined stream := by
  constructor
  · intro h
    refine determined_of_independent fun schedule m m' => ?_
    have hcall := h m m m' m' schedule 1
    simp only [MessageFormat.readCalls, ite_self, List.map_cons, List.map_nil, List.cons.injEq,
      and_true] at hcall
    exact congrArg Observation.content hcall
  · intro hdetermined aux heap aux' heap' schedule n
    exact readCalls_observe_eq hdetermined ⟨rfl, rfl⟩ ⟨rfl, rfl⟩ schedule n

/-- A command with a payload whose header ends before the size of the payload: a byte that nobody
sent decides whether the command is complete. -/
theorem reading_takes_stale_payload_size :
    (CommandReader.read (.create (.create (fun _ => 0) (fun _ => 0)))
        ⟨[0x14, 0x01, 0x02], [.transfer 0, .transfer 0, .transfer 0]⟩).outcome = .returns .ok ∧
      (CommandReader.read (.create (.create (fun _ => 1) (fun _ => 0)))
        ⟨[0x14, 0x01, 0x02], [.transfer 0, .transfer 0, .transfer 0]⟩).outcome =
        .returns .retry := by
  decide

end CyberCache
