import CyberCache.Wire.Reader

/-!
# How far a reader has come

After any number of device calls the state of a reader is determined by the bytes it was given so
far: which part of the message it expects next, how much of that part is missing, and that the bytes
of the header and of the payload stand where the accessors look for them. `Progress` says so, and
`Progress.accept` is the step: the reader that was given `received` and now accepts `bytes` has made
the progress that belongs to `received ++ bytes`.

The step needs one thing of the stream: that the size field, once it is complete, announces at least
one more byte and a header whose size is a 32-bit number.
-/

namespace CyberCache

open ByteMemory

def SharedBuffers.Fresh (sb : SharedBuffers) : Prop :=
  sb.data.size = 0 ∧ sb.payload.size = 0

def sizeFieldLength (stream : List UInt8) : Nat :=
  headerDataSizeLength (ofList stream 0)

def sizeField (stream : List UInt8) : Nat :=
  (ofList stream).readLE 1 (sizeFieldLength stream)

/-- The size field of the stream, if it has one and as soon as all of it is there, is neither zero
nor so large that the size of the whole header does not fit in 32 bits. -/
def SizeFieldFits (stream : List UInt8) : Prop :=
  0 < sizeFieldLength stream → 1 + sizeFieldLength stream ≤ stream.length →
    0 < sizeField stream ∧ sizeField stream + (sizeFieldLength stream + 1) < uintRange

instance (stream : List UInt8) : Decidable (SizeFieldFits stream) :=
  inferInstanceAs (Decidable (_ → _ → _))

theorem ofList_append_zero (xs ys : List UInt8) (h : 0 < xs.length) :
    ofList (xs ++ ys) 0 = ofList xs 0 :=
  (agreeBelow_ofList_append xs ys 0 h).symm

theorem sizeFieldLength_cons (b : UInt8) (stream : List UInt8) :
    sizeFieldLength (b :: stream) = headerDataSizeLength b := by
  rw [sizeFieldLength, ofList_of_lt (by simp), List.getElem_cons_zero]

theorem sizeField_lt (stream : List UInt8) : sizeField stream < uintRange := by
  have hlt := (ofList stream).readLE_lt 1 (sizeFieldLength stream)
  have hshort := headerDataSizeLength_cases (ofList stream 0)
  rw [← sizeFieldLength] at hshort
  rw [sizeField]
  obtain h | h | h | h := hshort <;> rw [h] at hlt ⊢ <;> simp only [uintRange] <;> omega

theorem sizeFieldLength_append (xs ys : List UInt8) (h : 0 < xs.length) :
    sizeFieldLength (xs ++ ys) = sizeFieldLength xs := by
  rw [sizeFieldLength, ofList_append_zero xs ys h, sizeFieldLength]

theorem sizeField_append (xs ys : List UInt8)
    (h : 1 + sizeFieldLength xs ≤ xs.length) : sizeField (xs ++ ys) = sizeField xs := by
  rw [sizeField, sizeFieldLength_append xs ys (by omega), sizeField]
  exact ((agreeBelow_ofList_append xs ys).readLE_eq (by omega)).symm

theorem SizeFieldFits.of_append {xs ys : List UInt8} (h : SizeFieldFits (xs ++ ys)) :
    SizeFieldFits xs := by
  intro hlength hcomplete
  have hpos : 0 < xs.length := by omega
  have hfits := h (by rwa [sizeFieldLength_append xs ys hpos])
    (by rw [sizeFieldLength_append xs ys hpos, List.length_append]; omega)
  rwa [sizeField_append xs ys hcomplete, sizeFieldLength_append xs ys hpos] at hfits

namespace MessageFormat

variable (f : MessageFormat)

variable {stream : List UInt8}

def streamHeaderSize (stream : List UInt8) : Nat :=
  f.headerSize (ofList stream)

theorem streamHeaderSize_append (xs ys : List UInt8) (h : 1 + sizeFieldLength xs ≤ xs.length) :
    f.streamHeaderSize (xs ++ ys) = f.streamHeaderSize xs :=
  (f.headerSize_congr ((agreeBelow_ofList_append xs ys).mono h)).symm

theorem streamHeaderSize_of_sizeless (h : sizeFieldLength stream = 0) :
    f.streamHeaderSize stream = 1 + f.fixedLength (ofList stream 0) := by
  have hnone : ofList stream 0 &&& descHeaderBits = descNoHeader := by
    unfold sizeFieldLength headerDataSizeLength at h
    split_ifs at h with h₁
    exact h₁
  simp [streamHeaderSize, headerSize, hnone]

theorem streamHeaderSize_of_sized (h : 0 < sizeFieldLength stream) :
    f.streamHeaderSize stream =
      (sizeField stream + (sizeFieldLength stream + 1)) % uintRange := by
  have hsome : ¬ ofList stream 0 &&& descHeaderBits = descNoHeader := by
    intro hnone
    simp [sizeFieldLength, headerDataSizeLength, hnone] at h
  simp [streamHeaderSize, headerSize, hsome, sizeField, sizeFieldLength]

theorem streamHeaderSize_lt (stream : List UInt8) : f.streamHeaderSize stream < uintRange := by
  have hle := f.fixedLength_le (ofList stream 0)
  simp only [streamHeaderSize, headerSize]
  split_ifs
  · simp only [uintRange]
    omega
  · exact Nat.mod_lt _ (by decide)

theorem lt_streamHeaderSize (hfits : SizeFieldFits stream)
    (h : 0 < sizeFieldLength stream) (hcomplete : 1 + sizeFieldLength stream ≤ stream.length) :
    1 + sizeFieldLength stream < f.streamHeaderSize stream := by
  obtain ⟨hpos, hlt⟩ := hfits h hcomplete
  rw [f.streamHeaderSize_of_sized h, Nat.mod_eq_of_lt hlt]
  omega

end MessageFormat

def PayloadInfo.announces : PayloadInfo → Option Nat
  | .absent => some 0
  | .invalid => none
  | .present size _ _ => some size

/-- Header and payload of a message stand in the buffers, and `received` is nothing but them. -/
structure BodyReceived (f : MessageFormat) (received : List UInt8) (sb : SharedBuffers) : Prop where
  available : sb.getAvailableHeaderSize = max auxDataSize (f.streamHeaderSize received)
  length : f.streamHeaderSize received + sb.payload.size = received.length
  sizeField : 1 + sizeFieldLength received ≤ f.streamHeaderSize received
  info : sizeFieldLength received = 0 ∧ sb.payload.size = 0 ∧
      f.sizelessHeader (ofList received 0) = .expectMarker ∨
    (f.payloadInfo sb.header sb.getAvailableHeaderSize 0).announces = some sb.payload.size
  header : AgreeBelow (f.streamHeaderSize received) sb.header (ofList received)
  payload : AgreeBelow sb.payload.size sb.payload.bytes
    (ofList (received.drop (f.streamHeaderSize received)))

/-- What follows header and payload. -/
def closing (desc : UInt8) : List UInt8 :=
  if markerIsPresent desc then [c3IntegrityMarker] else []

/-- The reader `r`, given the bytes `received` and nothing else, is where it should be. -/
inductive Progress (f : MessageFormat) (received : List UInt8) (r : ReaderWriter) : Prop where
  | descriptor (hstate : r.state = .created ∨ r.state = .readDescriptor)
      (hfresh : r.sb.Fresh) (hreceived : received = [])
  | sizeField (hstate : r.state = .readHeaderSizeBytes) (hfresh : r.sb.Fresh)
      (hpos : r.pos = received.length) (hreceived : 0 < received.length)
      (hremains : 0 < r.remains)
      (hend : received.length + r.remains = 1 + sizeFieldLength received)
      (hheader : AgreeBelow received.length r.sb.header (ofList received))
  | header (hstate : r.state = .readHeaderBytes)
      (havailable : r.sb.getAvailableHeaderSize = max auxDataSize (f.streamHeaderSize received))
      (hpayload : r.sb.payload.size = 0) (hpos : r.pos = received.length)
      (hreceived : 1 + sizeFieldLength received ≤ received.length)
      (hremains : 0 < r.remains)
      (hend : received.length + r.remains = f.streamHeaderSize received)
      (hheader : AgreeBelow received.length r.sb.header (ofList received))
  | payload (hstate : r.state = .readPayloadBytes)
      (havailable : r.sb.getAvailableHeaderSize = max auxDataSize (f.streamHeaderSize received))
      (hpos : f.streamHeaderSize received + r.pos = received.length)
      (hreceived : 1 + sizeFieldLength received ≤ f.streamHeaderSize received)
      (hremains : 0 < r.remains) (hend : r.pos + r.remains = r.sb.payload.size)
      (hsize : r.sb.payload.size < uintRange)
      (hinfo : (f.payloadInfo r.sb.header r.sb.getAvailableHeaderSize 0).announces =
        some r.sb.payload.size)
      (hheader : AgreeBelow (f.streamHeaderSize received) r.sb.header (ofList received))
      (hbytes : AgreeBelow r.pos r.sb.payload.bytes
        (ofList (received.drop (f.streamHeaderSize received))))
  | marker (hstate : r.state = .readMarkerByte) (hbody : BodyReceived f received r.sb)
  | done (body : List UInt8) (hstate : r.state = .readDone) (hbody : BodyReceived f body r.sb)
      (hreceived : received = body ++ closing (ofList body 0))
  | failed (hstate : r.state = .error)

namespace Progress

variable {f : MessageFormat} {received bytes : List UInt8} {r : ReaderWriter}

variable {r' : ReaderWriter} {request : Request}

theorem create {sb : SharedBuffers} (h : sb.Fresh) : Progress f [] (ReaderWriter.create sb) :=
  .descriptor (.inl rfl) h rfl

theorem acceptDescriptor (hfresh : r.sb.Fresh) (hbytes : bytes.length = 1) :
    Progress f bytes (f.acceptDescriptor r bytes).reader := by
  obtain ⟨b, rfl⟩ := List.length_eq_one_iff.mp hbytes
  obtain ⟨hdata, hpayload⟩ := hfresh
  have hdesc : (r.sb.writeHeader 0 [b]).header 0 = b := by simp [ByteMemory.write]
  have hlist : ofList [b] 0 = b := ofList_of_lt (by simp)
  have hheader : AgreeBelow 1 (r.sb.writeHeader 0 [b]).header (ofList [b]) := by
    intro i hi
    obtain rfl : i = 0 := by omega
    rw [hdesc, hlist]
  have hlength : sizeFieldLength [b] = headerDataSizeLength b := by rw [sizeFieldLength, hlist]
  simp only [MessageFormat.acceptDescriptor, hdesc]
  split_ifs with hsizeless
  · have hsize := f.streamHeaderSize_of_sizeless (hlength.trans hsizeless)
    rw [hlist] at hsize
    have hle := f.fixedLength_le b
    cases hformat : f.sizelessHeader b with
    | readRest =>
      have hpos := f.fixedLength_pos b hformat
      have hsub : uintSub (1 + f.fixedLength b) 1 = f.fixedLength b := by
        rw [uintSub_eq (by simp only [uintRange]; omega) (by omega)]
        omega
      simp only [Verdict.reader_goOn]
      refine .header rfl ?_ ?_ rfl ?_ ?_ ?_ ?_
      · rw [hsize]
        exact SharedBuffers.getAvailableHeaderSize_configureHeader (by simpa using hdata) _ _
      · simpa using hpayload
      · simp [hlength, hsizeless]
      · simpa [hsub] using hpos
      · simp [hsub, hsize]
      · intro i hi
        have hi : i < 1 := hi
        rw [SharedBuffers.header_configureHeader (by simpa using hdata) hi, hheader i hi]
    | expectMarker =>
      have hzero := f.fixedLength_eq_zero b (by simp [hformat])
      simp only [Verdict.reader_goOn]
      refine .marker rfl ⟨?_, ?_, ?_, ?_, ?_, ?_⟩
      · simp [SharedBuffers.getAvailableHeaderSize, hdata, hsize, hzero, auxDataSize]
      · simp [hsize, hzero, hpayload]
      · simp [hlength, hsizeless, hsize]
      · left
        simp [hlength, hsizeless, hpayload, hlist, hformat]
      · rw [hsize, hzero]
        exact hheader
      · simp only [SharedBuffers.payload_writeHeader, hpayload]
        intro i hi
        omega
    | reject => exact .failed rfl
  · simp only [Verdict.reader_goOn]
    refine .sizeField rfl ?_ rfl (by simp) ?_ ?_ hheader
    · simpa [SharedBuffers.Fresh] using ⟨hdata, hpayload⟩
    · exact Nat.pos_of_ne_zero hsizeless
    · simp [hlength]

theorem acceptDescriptor_sized {b : UInt8} (h : headerDataSizeLength b ≠ 0) :
    f.acceptDescriptor r [b] =
      .goOn ⟨r.sb.writeHeader 0 [b], .readHeaderSizeBytes, 1, headerDataSizeLength b⟩ := by
  have hdesc : (r.sb.writeHeader 0 [b]).header 0 = b := by simp [ByteMemory.write]
  simp only [MessageFormat.acceptDescriptor, hdesc, h, if_false]

theorem acceptHeaderSizeBytes_complete (hfresh : r.sb.Fresh) (hpos : r.pos = received.length)
    (hreceived : 0 < received.length)
    (hend : received.length + r.remains = 1 + sizeFieldLength received)
    (hheader : AgreeBelow received.length r.sb.header (ofList received))
    (hcomplete : bytes.length = r.remains) :
    ∃ sb : SharedBuffers,
      f.acceptHeaderSizeBytes r bytes = .goOn ⟨sb, .readHeaderBytes, (received ++ bytes).length,
        uintSub (f.streamHeaderSize (received ++ bytes)) (received ++ bytes).length⟩ ∧
      sb.getAvailableHeaderSize = max auxDataSize (f.streamHeaderSize (received ++ bytes)) ∧
      sb.payload.size = 0 ∧
      AgreeBelow (received ++ bytes).length sb.header (ofList (received ++ bytes)) := by
  obtain ⟨hdata, hpayload⟩ := hfresh
  have hshort := headerDataSizeLength_cases (ofList received 0)
  simp only [sizeFieldLength] at hend
  have hadd : uintAdd r.pos bytes.length = (received ++ bytes).length := by
    rw [hpos, List.length_append, uintAdd_eq (by simp only [uintRange]; omega)]
  have hwritten : AgreeBelow (received ++ bytes).length (r.sb.writeHeader r.pos bytes).header
      (ofList (received ++ bytes)) := by
    rw [SharedBuffers.header_writeHeader, hpos]
    exact hheader.write_ofList bytes
  have hfull : f.headerSize (r.sb.writeHeader r.pos bytes).header =
      f.streamHeaderSize (received ++ bytes) := by
    apply f.headerSize_congr
    rw [hwritten 0 (by simp only [List.length_append]; omega), ofList_append_zero _ _ hreceived]
    exact hwritten.mono (by simp only [List.length_append]; omega)
  have hstatic : (r.sb.writeHeader r.pos bytes).data.size = 0 := by simpa using hdata
  refine ⟨(r.sb.writeHeader r.pos bytes).configureHeader (received ++ bytes).length
    (f.streamHeaderSize (received ++ bytes)), ?_,
    SharedBuffers.getAvailableHeaderSize_configureHeader hstatic _ _, by simpa using hpayload,
    fun i hi => ?_⟩
  · simp only [MessageFormat.acceptHeaderSizeBytes, hadd, hfull]
    rw [if_pos hcomplete]
  · rw [SharedBuffers.header_configureHeader hstatic hi, hwritten i hi]

theorem acceptHeaderSizeBytes (hfresh : r.sb.Fresh) (hpos : r.pos = received.length)
    (hreceived : 0 < received.length) (hremains : 0 < r.remains)
    (hend : received.length + r.remains = 1 + sizeFieldLength received)
    (hheader : AgreeBelow received.length r.sb.header (ofList received))
    (hstate : r.state = .readHeaderSizeBytes) (hle : bytes.length ≤ r.remains)
    (hfits : SizeFieldFits (received ++ bytes)) :
    Progress f (received ++ bytes) (f.acceptHeaderSizeBytes r bytes).reader := by
  have hlength := sizeFieldLength_append received bytes hreceived
  by_cases hcomplete : bytes.length = r.remains
  · have hall : (received ++ bytes).length = 1 + sizeFieldLength (received ++ bytes) := by
      rw [hlength, List.length_append]
      omega
    have hlonger : (received ++ bytes).length < f.streamHeaderSize (received ++ bytes) := by
      rw [hall]
      refine f.lt_streamHeaderSize hfits ?_ (Nat.le_of_eq hall.symm)
      omega
    have hsub : uintSub (f.streamHeaderSize (received ++ bytes)) (received ++ bytes).length =
        f.streamHeaderSize (received ++ bytes) - (received ++ bytes).length :=
      uintSub_eq (f.streamHeaderSize_lt _) (Nat.le_of_lt hlonger)
    obtain ⟨sb, haccept, havailable, hpayload, hheader'⟩ :=
      acceptHeaderSizeBytes_complete (f := f) hfresh hpos hreceived hend hheader hcomplete
    rw [haccept, hsub, Verdict.reader_goOn]
    refine .header rfl havailable hpayload rfl (Nat.le_of_eq hall.symm) ?_ ?_ hheader'
    · simp only
      omega
    · simp only
      omega
  · have hshort := headerDataSizeLength_cases (ofList received 0)
    rw [← sizeFieldLength] at hshort
    have hadd : uintAdd r.pos bytes.length = (received ++ bytes).length := by
      rw [hpos, List.length_append, uintAdd_eq (by simp only [uintRange]; omega)]
    have hsub : uintSub r.remains bytes.length = r.remains - bytes.length :=
      uintSub_eq (by simp only [uintRange]; omega) hle
    simp only [MessageFormat.acceptHeaderSizeBytes, hadd, hsub, hcomplete, if_false,
      Verdict.reader_goOn]
    refine .sizeField hstate ?_ rfl ?_ ?_ ?_ ?_
    · simpa [SharedBuffers.Fresh] using hfresh
    · simp only [List.length_append]
      omega
    · simp only
      omega
    · simp only [hlength, List.length_append]
      omega
    · rw [SharedBuffers.header_writeHeader, hpos]
      exact hheader.write_ofList bytes

theorem headerReceived
    (havailable : r.sb.getAvailableHeaderSize = max auxDataSize (f.streamHeaderSize received))
    (hpayload : r.sb.payload.size = 0) (hend : received.length = f.streamHeaderSize received)
    (hreceived : 1 + sizeFieldLength received ≤ received.length)
    (hheader : AgreeBelow received.length r.sb.header (ofList received)) :
    Progress f received (f.headerReceived r).reader := by
  have hnothing (m m' : ByteMemory) : AgreeBelow 0 m m' := fun i hi => absurd hi (by omega)
  -- an absent and an empty payload leave the reader in the same place
  have hmarker : (f.payloadInfo r.sb.header r.sb.getAvailableHeaderSize 0).announces = some 0 →
      Progress f received { r with state := .readMarkerByte } := by
    intro hinfo
    refine .marker rfl ⟨havailable, ?_, by omega, .inr ?_, hend ▸ hheader, ?_⟩
    · simp only [hpayload]
      omega
    · simp only [hpayload, hinfo]
    · simp only [hpayload]
      exact hnothing _ _
  simp only [MessageFormat.headerReceived, MessageFormat.getPayloadInfo, hpayload]
  cases hinfo : f.payloadInfo r.sb.header r.sb.getAvailableHeaderSize 0 with
  | absent => exact hmarker (by rw [hinfo]; rfl)
  | invalid => exact .failed rfl
  | present size usize compressor =>
    have hlt := MessageFormat.payloadInfo_present_lt hinfo
    simp only
    split_ifs with hsize
    · have hnew := SharedBuffers.payload_size_setPayloadSize r.sb size
      simp only [Verdict.reader_goOn]
      refine .payload rfl ?_ ?_ (by omega) hsize ?_ ?_ ?_ (hend ▸ hheader) (hnothing _ _)
      · simpa using havailable
      · simp only
        omega
      · simp only [hnew]
        omega
      · simpa only [hnew] using hlt
      · simp only [hnew, SharedBuffers.header_setPayloadSize,
          SharedBuffers.getAvailableHeaderSize_setPayloadSize, hinfo, PayloadInfo.announces]
    · obtain rfl : size = 0 := by omega
      exact hmarker (by rw [hinfo]; rfl)

theorem acceptHeaderBytes (hstate : r.state = .readHeaderBytes)
    (havailable : r.sb.getAvailableHeaderSize = max auxDataSize (f.streamHeaderSize received))
    (hpayload : r.sb.payload.size = 0) (hpos : r.pos = received.length)
    (hreceived : 1 + sizeFieldLength received ≤ received.length)
    (hend : received.length + r.remains = f.streamHeaderSize received)
    (hheader : AgreeBelow received.length r.sb.header (ofList received))
    (hle : bytes.length ≤ r.remains) :
    Progress f (received ++ bytes) (f.acceptHeaderBytes r bytes).reader := by
  have hsize := f.streamHeaderSize_append received bytes hreceived
  have hlength := sizeFieldLength_append received bytes (by omega)
  have hlt := f.streamHeaderSize_lt received
  have hwritten : AgreeBelow (received ++ bytes).length (r.sb.writeHeader r.pos bytes).header
      (ofList (received ++ bytes)) := by
    rw [SharedBuffers.header_writeHeader, hpos]
    exact hheader.write_ofList bytes
  have havailable' : (r.sb.writeHeader r.pos bytes).getAvailableHeaderSize =
      max auxDataSize (f.streamHeaderSize (received ++ bytes)) := by
    rw [SharedBuffers.getAvailableHeaderSize_writeHeader, havailable, hsize]
  simp only [MessageFormat.acceptHeaderBytes]
  split_ifs with hcomplete
  · apply headerReceived havailable' (by simpa using hpayload)
    · rw [hsize, List.length_append]
      omega
    · rw [hlength, List.length_append]
      omega
    · exact hwritten
  · have hadd : uintAdd r.pos bytes.length = (received ++ bytes).length := by
      rw [hpos, List.length_append, uintAdd_eq (by omega)]
    have hsub : uintSub r.remains bytes.length = r.remains - bytes.length :=
      uintSub_eq (by omega) hle
    simp only [hadd, hsub, Verdict.reader_goOn]
    refine .header hstate havailable' (by simpa using hpayload) rfl ?_ ?_ ?_ hwritten
    · rw [hlength, List.length_append]
      omega
    · simp only
      omega
    · simp only [hsize, List.length_append]
      omega

theorem acceptPayloadBytes (hstate : r.state = .readPayloadBytes)
    (havailable : r.sb.getAvailableHeaderSize = max auxDataSize (f.streamHeaderSize received))
    (hpos : f.streamHeaderSize received + r.pos = received.length)
    (hreceived : 1 + sizeFieldLength received ≤ f.streamHeaderSize received)
    (hend : r.pos + r.remains = r.sb.payload.size) (hlt : r.sb.payload.size < uintRange)
    (hinfo : (f.payloadInfo r.sb.header r.sb.getAvailableHeaderSize 0).announces =
      some r.sb.payload.size)
    (hheader : AgreeBelow (f.streamHeaderSize received) r.sb.header (ofList received))
    (hbytes : AgreeBelow r.pos r.sb.payload.bytes
      (ofList (received.drop (f.streamHeaderSize received))))
    (hle : bytes.length ≤ r.remains) :
    Progress f (received ++ bytes) (f.acceptPayloadBytes r bytes).reader := by
  have hsize := f.streamHeaderSize_append received bytes (by omega)
  have hlength := sizeFieldLength_append received bytes (by omega)
  have hreceived' : 1 + sizeFieldLength (received ++ bytes) ≤
      f.streamHeaderSize (received ++ bytes) := by
    rw [hsize, hlength]
    exact hreceived
  have hheader' : AgreeBelow (f.streamHeaderSize (received ++ bytes)) r.sb.header
      (ofList (received ++ bytes)) := by
    rw [hsize]
    exact hheader.trans ((agreeBelow_ofList_append received bytes).mono (by omega))
  have hdropped : (received.drop (f.streamHeaderSize received)).length = r.pos := by
    rw [List.length_drop]
    omega
  have hwritten : AgreeBelow (r.pos + bytes.length) (r.sb.payload.bytes.write r.pos bytes)
      (ofList ((received ++ bytes).drop (f.streamHeaderSize (received ++ bytes)))) := by
    rw [hsize, List.drop_append_of_le_length (by omega)]
    have h := AgreeBelow.write_ofList (hdropped.symm ▸ hbytes) bytes
    rwa [List.length_append, hdropped] at h
  have hpartial (hmore : bytes.length ≠ r.remains) : Progress f (received ++ bytes)
      { r with
        sb := r.sb.writePayload r.pos bytes
        pos := uintAdd r.pos bytes.length
        remains := uintSub r.remains bytes.length } := by
    have hadd : uintAdd r.pos bytes.length = r.pos + bytes.length := uintAdd_eq (by omega)
    have hsub : uintSub r.remains bytes.length = r.remains - bytes.length :=
      uintSub_eq (by omega) hle
    simp only [hadd, hsub]
    refine .payload hstate ?_ ?_ hreceived' ?_ ?_ hlt hinfo hheader' hwritten
    · simpa only [hsize, SharedBuffers.getAvailableHeaderSize_writePayload] using havailable
    · simp only [hsize, List.length_append]
      omega
    · simp only
      omega
    · simp only [SharedBuffers.writePayload]
      omega
  simp only [MessageFormat.acceptPayloadBytes]
  split_ifs with hcomplete hreturns
  · simp only [Verdict.reader_goOn]
    refine .marker rfl ⟨?_, ?_, hreceived', .inr hinfo, hheader', ?_⟩
    · simpa only [hsize, SharedBuffers.getAvailableHeaderSize_writePayload] using havailable
    · simp only [hsize, List.length_append, SharedBuffers.writePayload]
      omega
    · have hall : r.sb.payload.size = r.pos + bytes.length := by omega
      simpa only [SharedBuffers.writePayload, hall] using hwritten
  · exact hpartial hcomplete
  · exact hpartial hcomplete

theorem acceptMarkerByte (hbody : BodyReceived f received r.sb)
    (hmarker : markerIsPresent r.descriptor) (hbytes : bytes.length = 1) :
    Progress f (received ++ bytes) (MessageFormat.acceptMarkerByte r bytes).reader := by
  obtain ⟨b, rfl⟩ := List.length_eq_one_iff.mp hbytes
  simp only [MessageFormat.acceptMarkerByte, List.head?_cons, Option.some.injEq]
  split_ifs with hb
  · have hdesc : ofList received 0 = r.descriptor :=
      (hbody.header 0 (by have := hbody.sizeField; omega)).symm
    refine .done received rfl hbody ?_
    rw [hb, closing, hdesc, if_pos hmarker]
  · exact .failed rfl

theorem ask (h : Progress f received r)
    (hask : r.pass = .ask r' request) : Progress f received r' := by
  obtain ⟨hstate, rfl, -⟩ | ⟨-, rfl, -⟩ | ⟨-, rfl, -⟩ | ⟨-, -, rfl, -⟩ :=
    ReaderWriter.pass_eq_ask hask
  · cases h with
    | descriptor _ hfresh hreceived => exact .descriptor (.inr rfl) hfresh hreceived
    | _ => simp_all
  all_goals exact h

/-- One step: whatever part of the request the device delivers, the reader makes progress. -/
theorem accept (h : Progress f received r) (hask : r.pass = .ask r' request) (hne : bytes ≠ [])
    (hle : bytes.length ≤ request.count) (hfits : SizeFieldFits (received ++ bytes)) :
    Progress f (received ++ bytes) (f.accept r' bytes).reader := by
  have hpos : 0 < bytes.length := List.length_pos_iff.mpr hne
  have h' := h.ask hask
  obtain ⟨-, rfl, rfl⟩ | ⟨hs, rfl, rfl⟩ | ⟨hs, rfl, rfl⟩ | ⟨hs, hmarker, rfl, rfl⟩ :=
    ReaderWriter.pass_eq_ask hask
  · cases h' with
    | descriptor _ hfresh hreceived =>
      rw [hreceived]
      exact acceptDescriptor hfresh (Nat.le_antisymm hle hpos)
    | _ => grind
  · cases h' with
    | sizeField hstate hfresh hpos hreceived hremains hend hheader =>
      simpa only [MessageFormat.accept, hstate] using acceptHeaderSizeBytes hfresh hpos hreceived
        hremains hend hheader hstate hle hfits
    | header hstate havailable hpayload hpos hreceived hremains hend hheader =>
      simpa only [MessageFormat.accept, hstate] using acceptHeaderBytes hstate havailable hpayload
        hpos hreceived hend hheader hle
    | _ => grind
  · cases h' with
    | payload hstate havailable hpos hreceived hremains hend hsize hinfo hheader hbytes =>
      simpa only [MessageFormat.accept, hstate] using acceptPayloadBytes hstate havailable hpos
        hreceived hend hsize hinfo hheader hbytes hle
    | _ => grind
  · cases h' with
    | marker _ hbody =>
      simpa only [MessageFormat.accept, hs] using acceptMarkerByte hbody hmarker
        (Nat.le_antisymm hle hpos)
    | _ => grind

/-- A message without a marker ends with its body; every other way out of the loop without a device
call is a failure. -/
theorem leave {result : IoResult} (h : Progress f received r)
    (hleave : r.pass = .leave r' result) : Progress f received r' := by
  obtain ⟨hstate, hmarker, rfl, -⟩ | ⟨-, rfl, -⟩ := ReaderWriter.pass_eq_leave hleave
  · cases h with
    | marker _ hbody =>
      have hdesc : ofList received 0 = r.descriptor :=
        (hbody.header 0 (by have := hbody.sizeField; omega)).symm
      refine .done received rfl hbody ?_
      simp [closing, hdesc, hmarker]
    | _ => grind
  · exact .failed rfl

theorem request_lt (h : Progress f received r)
    (hask : r.pass = .ask r' request) : request.offset + request.count < uintRange := by
  have hrange : 10 < uintRange := by decide
  have h' := h.ask hask
  obtain ⟨-, rfl, rfl⟩ | ⟨hs, rfl, rfl⟩ | ⟨hs, rfl, rfl⟩ | ⟨-, -, rfl, rfl⟩ :=
    ReaderWriter.pass_eq_ask hask
  · simp only
    omega
  · cases h' with
    | sizeField _ _ hpos _ _ hend _ =>
      have := headerDataSizeLength_cases (ofList received 0)
      simp only [sizeFieldLength] at hend
      simp only
      omega
    | header _ _ _ hpos _ _ hend _ =>
      have := f.streamHeaderSize_lt received
      simp only
      omega
    | _ => grind
  · cases h' with
    | payload _ _ _ _ _ hend hsize _ _ _ =>
      simp only
      omega
    | _ => grind
  · simp only
    omega

/-- Every device call asks for at least one byte, and for no more than its block has room for. -/
theorem request_fits (h : Progress f received r) (hask : r.pass = .ask r' request) :
    0 < request.count ∧ request.offset + request.count ≤ r'.areaSize request.area := by
  have h' := h.ask hask
  obtain ⟨-, rfl, rfl⟩ | ⟨hs, rfl, rfl⟩ | ⟨hs, rfl, rfl⟩ | ⟨-, -, rfl, rfl⟩ :=
    ReaderWriter.pass_eq_ask hask
  · cases h' with
    | descriptor _ hfresh _ =>
      rw [ReaderWriter.areaSize, SharedBuffers.getAvailableHeaderSize_of_static hfresh.1]
      decide
    | _ => grind
  · cases h' with
    | sizeField _ hfresh hpos _ hremains hend _ =>
      have := headerDataSizeLength_cases (ofList received 0)
      simp only [sizeFieldLength] at hend
      simp only [ReaderWriter.areaSize, SharedBuffers.getAvailableHeaderSize_of_static hfresh.1,
        auxDataSize]
      omega
    | header _ havailable _ hpos _ hremains hend _ =>
      simp only [ReaderWriter.areaSize, havailable, auxDataSize]
      omega
    | _ => grind
  · cases h' with
    | payload _ _ _ _ hremains hend _ _ _ _ =>
      simp only [ReaderWriter.areaSize]
      omega
    | _ => grind
  · simp [ReaderWriter.areaSize]

end Progress

end CyberCache
