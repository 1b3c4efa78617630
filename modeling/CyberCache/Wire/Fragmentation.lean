import CyberCache.Wire.ReadRuns
import CyberCache.Wire.Writer

/-!
# Messages in pieces

A well-formed message is a header that holds everything its descriptor and its size field announce,
the payload that the header announces, and the marker if there is one. However the device cuts such
a message into pieces, and however often it makes `read` return in between, the reader ends in the
state in which a single call would have left it, and it does not touch what follows the message.

The reason is that accepting several bytes at once and accepting them one after the other is the
same (`accept_eq_feed`), so that the state of a reader depends on the bytes it was given and on
nothing else.
-/

namespace CyberCache

open ByteMemory

/-! ## One byte after the other -/

/-- The reader without what no later step looks at: the counters after the last byte of header and
payload and after a failure, and the difference between a new reader and one that is waiting for the
descriptor. -/
def ReaderWriter.normal (r : ReaderWriter) : ReaderWriter :=
  match r.state with
  | .created => { r with state := .readDescriptor }
  | .readMarkerByte | .error => { r with pos := 0, remains := 0 }
  | _ => r

namespace MessageFormat

variable {f : MessageFormat} {r r' : ReaderWriter} {request : Request}

/-- The reader after the given bytes, delivered one by one. -/
def feed (f : MessageFormat) : ReaderWriter → List UInt8 → ReaderWriter
  | r, [] => r.normal
  | r, b :: bytes =>
    match r.pass with
    | .ask r' _ => f.feed (f.accept r' [b]).reader bytes
    | .leave r' _ => r'

theorem feed_cons {b : UInt8} (bytes : List UInt8) (h : r.pass = .ask r' request) :
    f.feed r (b :: bytes) = f.feed (f.accept r' [b]).reader bytes := by
  simp only [feed, h]

theorem pass_normal (f : MessageFormat) (r : ReaderWriter) :
    (∃ r' s request, r.pass = .ask r' request ∧ r.normal.pass = .ask s request ∧
      ∀ bytes, (f.accept r' bytes).reader.normal = (f.accept s bytes).reader.normal) ∨
    ∃ r' result, r.pass = .leave r' result ∧ r.normal.pass = .leave r' result := by
  obtain ⟨sb, state, pos, remains⟩ := r
  cases state with
  | created => exact .inl ⟨_, _, _, rfl, rfl, fun _ => rfl⟩
  | readDescriptor | readHeaderSizeBytes | readHeaderBytes | readPayloadBytes =>
    exact .inl ⟨_, _, _, rfl, rfl, fun _ => rfl⟩
  | readMarkerByte =>
    cases hmarker : markerIsPresent (sb.header 0) with
    | false =>
      refine .inr ⟨⟨sb, .readDone, uintMax, 0⟩, .ok, ?_, ?_⟩ <;>
        simp [ReaderWriter.pass, ReaderWriter.normal, ReaderWriter.descriptor, hmarker,
          ReaderWriter.readCompleted]
    | true =>
      refine .inl ⟨⟨sb, .readMarkerByte, pos, remains⟩, ⟨sb, .readMarkerByte, 0, 0⟩,
        ⟨.marker, 0, 1⟩, ?_, ?_, fun bytes => ?_⟩
      · simp [ReaderWriter.pass, ReaderWriter.descriptor, hmarker]
      · simp [ReaderWriter.pass, ReaderWriter.normal, ReaderWriter.descriptor, hmarker]
      · simp only [accept, acceptMarkerByte]
        split_ifs <;> rfl
  | _ => exact .inr ⟨_, _, rfl, rfl⟩

theorem feed_congr {s : ReaderWriter} (h : r.normal = s.normal)
    (bytes : List UInt8) : f.feed r bytes = f.feed s bytes := by
  induction bytes generalizing r s with
  | nil => exact h
  | cons b bytes ih =>
    obtain ⟨r', t, request, hr, ht, haccept⟩ | ⟨r', result, hr, ht⟩ := f.pass_normal r <;>
    obtain ⟨s', t', request', hs, ht', haccept'⟩ | ⟨s', result', hs, ht'⟩ := f.pass_normal s <;>
    rw [h, ht'] at ht
    · injection ht with htt
      rw [feed_cons bytes hr, feed_cons bytes hs]
      exact ih ((haccept [b]).trans ((htt ▸ haccept' [b]).symm))
    · cases ht
    · cases ht
    · injection ht with htt
      simp only [feed, hr, hs, htt]

theorem uintAdd_assoc (a b c : Nat) : uintAdd (uintAdd a b) c = uintAdd a (b + c) := by
  simp [uintAdd, Nat.add_assoc]

theorem uintSub_sub {a b c : Nat} (ha : a < uintRange) (h : b + c ≤ a) :
    uintSub (uintSub a b) c = uintSub a (b + c) := by
  rw [uintSub_eq ha (by omega), uintSub_eq (by omega) (by omega), uintSub_eq ha h]
  omega

theorem headerReceived_normal (f : MessageFormat) {s : ReaderWriter} (h : r.sb = s.sb) :
    (f.headerReceived r).reader.normal = (f.headerReceived s).reader.normal := by
  simp only [headerReceived, h]
  cases f.getPayloadInfo s.sb with
  | absent | invalid => simp [ReaderWriter.normal]
  | present size usize compressor =>
    simp only
    split_ifs <;> simp [ReaderWriter.normal]

/-- A first byte that does not complete the request leaves the same request, one byte further on,
and the rest of a delivery has the same effect there. -/
theorem accept_cons {b : UInt8} {bytes : List UInt8} (h : r.pass = .ask r' request)
    (hne : bytes ≠ []) (hle : bytes.length + 1 ≤ request.count)
    (hend : request.offset + request.count < uintRange) :
    (f.accept r' [b]).reader.pass = .ask (f.accept r' [b]).reader
        ⟨request.area, request.offset + 1, request.count - 1⟩ ∧
      (f.accept (f.accept r' [b]).reader bytes).reader.normal =
        (f.accept r' (b :: bytes)).reader.normal := by
  have hpos : 0 < bytes.length := List.length_pos_iff.mpr hne
  obtain ⟨-, rfl, rfl⟩ | ⟨hs, rfl, rfl⟩ | ⟨hs, rfl, rfl⟩ | ⟨-, -, rfl, rfl⟩ :=
    ReaderWriter.pass_eq_ask h
  case inl | inr.inr.inr =>
    simp only at hle
    omega
  all_goals
    dsimp only at hle hend
    have hone : ¬ 1 = r'.remains := by omega
    have hadd : uintAdd r'.pos 1 = r'.pos + 1 := uintAdd_eq (by omega)
    have hsub : uintSub r'.remains 1 = r'.remains - 1 := uintSub_eq (by omega) (by omega)
    have hadd' : uintAdd (r'.pos + 1) bytes.length = uintAdd r'.pos (bytes.length + 1) := by
      rw [← hadd, uintAdd_assoc, Nat.add_comm 1]
    have hsub' : uintSub (r'.remains - 1) bytes.length = uintSub r'.remains (bytes.length + 1) := by
      rw [← hsub, uintSub_sub (by omega) (by omega), Nat.add_comm 1]
    have hall : bytes.length = r'.remains - 1 ↔ bytes.length + 1 = r'.remains := by omega
  · have hwrite := r'.sb.writeHeader_append r'.pos [b] bytes
    simp only [List.length_singleton, List.singleton_append] at hwrite
    have hfirst : (f.accept r' [b]).reader = { r' with
        sb := r'.sb.writeHeader r'.pos [b], pos := r'.pos + 1, remains := r'.remains - 1 } := by
      obtain hs | hs := hs
      · simp [accept, hs, acceptHeaderSizeBytes, hone, hadd, hsub]
      · simp [accept, hs, acceptHeaderBytes, hone, hadd, hsub]
    rw [hfirst]
    obtain hs | hs := hs
    · refine ⟨by simp [ReaderWriter.pass, hs], ?_⟩
      simp only [accept, hs, acceptHeaderSizeBytes, hwrite, hadd', hsub', hall, List.length_cons]
    · refine ⟨by simp [ReaderWriter.pass, hs], ?_⟩
      simp only [accept, hs, acceptHeaderBytes, hwrite, hadd', hsub', hall, List.length_cons]
      split_ifs
      · exact f.headerReceived_normal rfl
      · rfl
  · have hwrite := r'.sb.writePayload_append r'.pos [b] bytes
    simp only [List.length_singleton, List.singleton_append] at hwrite
    have hfirst : (f.accept r' [b]).reader = { r' with
        sb := r'.sb.writePayload r'.pos [b], pos := r'.pos + 1, remains := r'.remains - 1 } := by
      cases hreturns : f.returnsOnPartialPayload <;>
        simp [accept, hs, acceptPayloadBytes, hone, hadd, hsub, hreturns]
    rw [hfirst]
    refine ⟨by simp [ReaderWriter.pass, hs], ?_⟩
    simp only [accept, hs, acceptPayloadBytes, hwrite, hadd', hsub', hall, List.length_cons]
    split_ifs <;> rfl

/-- A delivery has the effect of its bytes one after the other. -/
theorem feed_append {bytes : List UInt8} (h : r.pass = .ask r' request) (hne : bytes ≠ [])
    (hle : bytes.length ≤ request.count) (hend : request.offset + request.count < uintRange)
    (rest : List UInt8) : f.feed r (bytes ++ rest) = f.feed (f.accept r' bytes).reader rest := by
  induction bytes generalizing r r' request with
  | nil => exact absurd rfl hne
  | cons b bytes ih =>
    rw [List.cons_append, feed_cons _ h]
    by_cases hlast : bytes = []
    · rw [hlast, List.nil_append]
    · rw [List.length_cons] at hle
      obtain ⟨hpass, hrest⟩ := accept_cons (f := f) (b := b) h hlast hle hend
      rw [ih hpass hlast (by simp only; omega) (by simp only; omega)]
      exact feed_congr hrest rest

end MessageFormat

/-- How many device calls are left at most, if each of them is answered in full. -/
def ReaderWriter.stage (r : ReaderWriter) : Nat :=
  match r.state with
  | .created | .readDescriptor => 5
  | .readHeaderSizeBytes => 4
  | .readHeaderBytes => 3
  | .readPayloadBytes => 2
  | .readMarkerByte => 1
  | _ => 0

theorem MessageFormat.accept_full (f : MessageFormat) {r r' : ReaderWriter} {request : Request}
    {bytes : List UInt8} (h : r.pass = .ask r' request) (hfull : bytes.length = request.count) :
    (∀ r'', f.accept r' bytes ≠ .leave r'' .retry) ∧ (f.accept r' bytes).reader.stage <
    r.stage := by
  obtain ⟨hs, rfl, rfl⟩ | ⟨hs | hs, rfl, rfl⟩ | ⟨hs, rfl, rfl⟩ | ⟨hs, -, rfl, rfl⟩ :=
    ReaderWriter.pass_eq_ask h
  · have hstage : r.stage = 5 := by
      obtain hs | hs := hs <;> simp [ReaderWriter.stage, hs]
    simp only [accept, acceptDescriptor, hstage]
    split_ifs
    · cases f.sizelessHeader ((r.sb.writeHeader 0 bytes).header 0) <;>
        simp [ReaderWriter.stage, ReaderWriter.setErrorState]
    · simp [ReaderWriter.stage]
  · simp only [accept, hs, acceptHeaderSizeBytes]
    rw [if_pos hfull]
    simp [ReaderWriter.stage, hs]
  · simp only [accept, hs, acceptHeaderBytes]
    rw [if_pos hfull, headerReceived]
    cases f.getPayloadInfo (r'.sb.writeHeader r'.pos bytes) with
    | present size usize compressor =>
      simp only
      split_ifs <;> simp [ReaderWriter.stage, hs]
    | _ => simp [ReaderWriter.stage, hs]
  · simp only [accept, hs, acceptPayloadBytes]
    rw [if_pos hfull]
    simp [ReaderWriter.stage, hs]
  · simp only [accept, hs, acceptMarkerByte]
    split_ifs <;> simp [ReaderWriter.stage, ReaderWriter.readCompleted, hs]

/-! ## Well-formed messages -/

/-- A header that holds everything it announces, and the payload that it announces. -/
structure WellFormed (f : MessageFormat) (header payload : List UInt8) : Prop where
  sizeField : 1 + sizeFieldLength header ≤ header.length
  fits : SizeFieldFits header
  length : f.streamHeaderSize header = header.length
  accepted : sizeFieldLength header = 0 → f.sizelessHeader (ofList header 0) ≠ .reject
  info : f.payloadInfoOffset (ofList header 0) + payloadInfoLength (ofList header 0) ≤ header.length
  payload : (f.payloadInfo (ofList header) header.length 0).announces = some payload.length

def message (header payload : List UInt8) : List UInt8 :=
  header ++ payload ++ closing (ofList header 0)

theorem agreeBelow_message {header payload received todo : List UInt8}
    (hsplit : received ++ todo = message header payload) (hle : header.length ≤ received.length) :
    AgreeBelow header.length (ofList received) (ofList header) := by
  refine ((agreeBelow_ofList_append received todo).mono hle).trans ?_
  rw [hsplit, message, List.append_assoc]
  exact (agreeBelow_ofList_append header _).symm

namespace WellFormed

variable {f : MessageFormat} {header payload received todo : List UInt8}

variable {sb : SharedBuffers}

section

variable (h : WellFormed f header payload)
include h

theorem header_pos : 0 < header.length := by
  have := h.sizeField
  omega

section

variable (hsplit : received ++ todo = message header payload)
include hsplit

theorem descriptor_eq (hpos : 0 < received.length) :
    ofList received 0 = ofList header 0 := by
  rw [← ofList_append_zero received todo hpos, hsplit, message, List.append_assoc,
    ofList_append_zero _ _ h.header_pos]

theorem sizeFieldLength_eq (hpos : 0 < received.length) :
    sizeFieldLength received = sizeFieldLength header := by
  rw [sizeFieldLength, h.descriptor_eq hsplit hpos, sizeFieldLength]

theorem streamHeaderSize_eq
    (hreceived : 1 + sizeFieldLength received ≤ received.length) :
    f.streamHeaderSize received = header.length := by
  rw [← f.streamHeaderSize_append received todo hreceived, hsplit, message, List.append_assoc,
    f.streamHeaderSize_append header _ h.sizeField, h.length]

theorem fits_of_append : SizeFieldFits received := by
  refine SizeFieldFits.of_append (?_ : SizeFieldFits (received ++ todo))
  rw [hsplit, message, List.append_assoc]
  intro hlength _
  rw [sizeFieldLength_append header _ h.header_pos] at hlength ⊢
  rw [sizeField_append header _ h.sizeField]
  exact h.fits hlength h.sizeField

end

theorem payloadInfo_eq {m : ByteMemory} {available : Nat}
    (havailable : header.length ≤ available)
    (hheader : AgreeBelow header.length m (ofList header)) :
    f.payloadInfo m available 0 = f.payloadInfo (ofList header) header.length 0 := by
  have hinfo := h.info
  have hdesc : m 0 = ofList header 0 := hheader 0 h.header_pos
  rw [f.payloadInfo_congr available 0 (by rw [hdesc]; exact hheader.mono hinfo),
    f.payloadInfo_available _ 0 (by omega), f.payloadInfo_available _ 0 hinfo]

theorem payload_size_eq {size : Nat}
    (hsplit : received ++ todo = message header payload)
    (hreceived : 1 + sizeFieldLength received ≤ received.length)
    (hle : header.length ≤ received.length)
    (havailable : sb.getAvailableHeaderSize = max auxDataSize (f.streamHeaderSize received))
    (hheader : AgreeBelow (f.streamHeaderSize received) sb.header (ofList received))
    (hinfo : (f.payloadInfo sb.header sb.getAvailableHeaderSize 0).announces = some size) :
    size = payload.length := by
  have hsize := h.streamHeaderSize_eq hsplit hreceived
  rw [hsize] at hheader havailable
  rw [h.payloadInfo_eq (by omega) (hheader.trans (agreeBelow_message hsplit hle)), h.payload]
    at hinfo
  exact (Option.some.inj hinfo).symm

theorem descriptor_eq_header
    (hsplit : received ++ todo = message header payload) (hbody : BodyReceived f received sb) :
    ofList header 0 = sb.header 0 := by
  have hfield := hbody.sizeField
  have hlength := hbody.length
  rw [← h.descriptor_eq hsplit (by omega)]
  exact (hbody.header 0 (by omega)).symm

theorem body_length
    (hsplit : received ++ todo = message header payload) (hbody : BodyReceived f received sb) :
    received = header ++ payload ∧ todo = closing (ofList header 0) := by
  have hlength := hbody.length
  have hfield := hbody.sizeField
  have hreceived : 1 + sizeFieldLength received ≤ received.length := by omega
  have hsize := h.streamHeaderSize_eq hsplit hreceived
  have hle : header.length ≤ received.length := by omega
  have hpayload : sb.payload.size = payload.length := by
    obtain ⟨hsizeless, hzero, hmarker⟩ | hinfo := hbody.info
    · -- a header that is followed by the marker has room for no payload information
      have hdesc := h.descriptor_eq hsplit (by omega)
      have hsizeless' := h.sizeFieldLength_eq hsplit (by omega)
      have hnothing := f.fixedLength_eq_zero _ (by rw [hmarker]; simp)
      have hone := f.streamHeaderSize_of_sizeless hsizeless
      have hinfo := h.info
      rw [MessageFormat.payloadInfoOffset, ← hdesc, hnothing, ← sizeFieldLength] at hinfo
      have hnone : ofList header 0 &&& descPayloadBits = descNoPayload := by
        by_contra hsome
        have := payloadInfoLength_pos hsome
        rw [hdesc] at hinfo
        omega
      have hpayload := h.payload
      simp only [MessageFormat.payloadInfo, hnone, if_true, PayloadInfo.announces,
        Option.some.injEq] at hpayload
      omega
    · exact h.payload_size_eq hsplit hreceived hle hbody.available hbody.header hinfo
  have hcut : received.length = (header ++ payload).length := by
    rw [List.length_append]
    omega
  rw [message] at hsplit
  exact List.append_inj hsplit hcut

end

end WellFormed

/-! ## Reading a well-formed message -/

/-- The reader `r`, which started as `r₀`, was given the part `received` of a well-formed message
and has not come to its end yet. -/
structure Underway (f : MessageFormat) (header payload : List UInt8) (r₀ : ReaderWriter)
    (received todo : List UInt8) (r : ReaderWriter) : Prop where
  split : received ++ todo = message header payload
  progress : Progress f received r
  not_error : r.state ≠ .error
  not_done : r.state ≠ .readDone
  fed : ∀ bytes, f.feed r bytes = f.feed r₀ (received ++ bytes)

namespace Underway

variable {f : MessageFormat} {header payload received todo bytes rest : List UInt8}
  {r₀ r r' : ReaderWriter} {request : Request} {result : IoResult}

theorem create {sb : SharedBuffers} (hfresh : sb.Fresh) :
    Underway f header payload (.create sb) [] (message header payload) (.create sb) :=
  ⟨rfl, .create hfresh, by simp [ReaderWriter.create], by simp [ReaderWriter.create], fun _ => rfl⟩

theorem ask (h : Underway f header payload r₀ received todo r) (hask : r.pass = .ask r' request) :
    Underway f header payload r₀ received todo r' := by
  have hprogress := h.progress.ask hask
  obtain ⟨hs, rfl, -⟩ | ⟨-, rfl, -⟩ | ⟨-, rfl, -⟩ | ⟨-, -, rfl, -⟩ :=
    ReaderWriter.pass_eq_ask hask
  · refine ⟨h.split, hprogress, by simp, by simp, fun bytes => ?_⟩
    rw [← h.fed bytes]
    apply MessageFormat.feed_congr
    obtain hs | hs := hs
    · simp [ReaderWriter.normal, hs]
    · rw [← hs]
  all_goals exact h

section

variable (hm : WellFormed f header payload)
include hm

theorem count_le
    (h : Underway f header payload r₀ received todo r) (hask : r.pass = .ask r' request) :
    0 < request.count ∧ request.count ≤ todo.length := by
  have hlength : received.length + todo.length =
      header.length + payload.length + (closing (ofList header 0)).length := by
    have := congrArg List.length h.split
    simpa only [message, List.length_append] using this
  have hpos := hm.header_pos
  have hfield := hm.sizeField
  refine ⟨(h.progress.request_fits hask).1, ?_⟩
  have h' := h.progress.ask hask
  obtain ⟨-, rfl, rfl⟩ | ⟨hs, rfl, rfl⟩ | ⟨hs, rfl, rfl⟩ | ⟨hs, hmarker, rfl, rfl⟩ :=
    ReaderWriter.pass_eq_ask hask
  · cases h' with
    | descriptor _ _ hreceived =>
      rw [hreceived, List.length_nil] at hlength
      simp only
      omega
    | _ => grind
  · cases h' with
    | sizeField _ _ _ hreceived _ hend _ =>
      rw [hm.sizeFieldLength_eq h.split hreceived] at hend
      simp only
      omega
    | header _ _ _ _ hreceived _ hend _ =>
      rw [hm.streamHeaderSize_eq h.split hreceived] at hend
      simp only
      omega
    | _ => grind
  · cases h' with
    | payload _ havailable hpos hreceived _ hend _ hinfo hheader _ =>
      have hreceived' : 1 + sizeFieldLength received ≤ received.length := by omega
      have hsize := hm.streamHeaderSize_eq h.split hreceived'
      have hpayload := hm.payload_size_eq h.split hreceived' (by omega) havailable hheader hinfo
      simp only
      omega
    | _ => grind
  · cases h' with
    | marker _ hbody =>
      have hdesc := hm.descriptor_eq_header h.split hbody
      obtain ⟨-, rfl⟩ := hm.body_length h.split hbody
      simp_all [closing, ReaderWriter.descriptor]
    | _ => grind

/-- A reader of a well-formed message leaves the loop without a device call only at the end of a
message that has no marker. -/
theorem leave
    (h : Underway f header payload r₀ received todo r) (hleave : r.pass = .leave r' result) :
    todo = [] ∧ result = .ok ∧ r' = (f.feed r₀ (message header payload)).readCompleted := by
  obtain ⟨hs, hmarker, rfl, rfl⟩ | ⟨hs, rfl, -⟩ := ReaderWriter.pass_eq_leave hleave
  · cases h.progress with
    | marker _ hbody =>
      have hdesc := hm.descriptor_eq_header h.split hbody
      obtain ⟨-, htodo⟩ := hm.body_length h.split hbody
      rw [ReaderWriter.descriptor] at hmarker
      simp only [closing, hdesc, hmarker, Bool.false_eq_true, if_false] at htodo
      have hsplit := h.split
      have hfed := h.fed []
      rw [htodo] at hsplit
      rw [hsplit] at hfed
      refine ⟨htodo, rfl, ?_⟩
      rw [← hfed, MessageFormat.feed, ReaderWriter.normal, hs]
      rfl
    | _ => grind
  · have herror := h.not_error
    have hdone := h.not_done
    cases h.progress with
    | descriptor hstate =>
      obtain hstate | hstate := hstate <;> simp [ReaderWriter.pass, hstate] at hleave
    | sizeField hstate | header hstate | payload hstate =>
      simp [ReaderWriter.pass, hstate] at hleave
    | marker hstate => exact absurd hstate hs
    | done _ hstate => exact absurd hstate hdone
    | failed hstate => exact absurd hstate herror

theorem not_rejects
    (h : Underway f header payload r₀ received (bytes ++ todo) r)
    (hask : r.pass = .ask r' request) (hne : bytes ≠ []) : ¬ f.Rejects r' bytes := by
  have hpos : 0 < bytes.length := List.length_pos_iff.mpr hne
  have h' := h.ask hask
  have hsplit : (received ++ bytes) ++ todo = message header payload := by
    rw [List.append_assoc]
    exact h.split
  obtain ⟨-, rfl, rfl⟩ | ⟨hs, rfl, rfl⟩ | ⟨hs, rfl, rfl⟩ | ⟨hs, hmarker, rfl, rfl⟩ :=
    ReaderWriter.pass_eq_ask hask
  · cases h'.progress with
    | descriptor _ _ hreceived =>
      rw [hreceived, List.nil_append] at hsplit
      have hdesc : (r.sb.writeHeader 0 bytes).header 0 = ofList header 0 := by
        rw [← hm.descriptor_eq hsplit hpos, SharedBuffers.header_writeHeader, ofList_of_lt hpos]
        exact write_add r.sb.header 0 bytes hpos
      rintro ⟨hsizeless, hreject⟩
      rw [hdesc] at hsizeless hreject
      exact hm.accepted hsizeless hreject
    | _ => grind
  · cases h'.progress with
    | sizeField hstate => simp [MessageFormat.Rejects, hstate]
    | header hstate havailable hpayload hpos hreceived _ hend hheader =>
      simp only [MessageFormat.Rejects, hstate]
      rintro ⟨hcomplete, hinvalid⟩
      have hsize := hm.streamHeaderSize_eq h.split hreceived
      have hall : (received ++ bytes).length = header.length := by
        rw [List.length_append]
        omega
      have hwritten : AgreeBelow header.length (r'.sb.writeHeader r'.pos bytes).header
          (ofList header) := by
        rw [SharedBuffers.header_writeHeader, hpos, ← hall]
        refine (hheader.write_ofList bytes).trans ?_
        rw [hall]
        exact agreeBelow_message hsplit (Nat.le_of_eq hall.symm)
      have hvalid := hm.payload
      rw [MessageFormat.getPayloadInfo, SharedBuffers.payload_writeHeader, hpayload,
        hm.payloadInfo_eq (by simp only [SharedBuffers.getAvailableHeaderSize_writeHeader]; omega)
          hwritten] at hinvalid
      rw [hinvalid] at hvalid
      cases hvalid
    | _ => grind
  · simp [MessageFormat.Rejects, hs]
  · cases h'.progress with
    | marker _ hbody =>
      have hdesc := hm.descriptor_eq_header h.split hbody
      obtain ⟨-, hclosing⟩ := hm.body_length h.split hbody
      cases bytes with
      | nil => exact absurd rfl hne
      | cons b bytes =>
        rw [ReaderWriter.descriptor] at hmarker
        simp only [closing, hdesc, hmarker, if_true, List.cons_append, List.cons.injEq] at hclosing
        simp [MessageFormat.Rejects, hs, hclosing.1]
    | _ => grind

theorem accept
    (h : Underway f header payload r₀ received (bytes ++ todo) r)
    (hask : r.pass = .ask r' request) (hne : bytes ≠ []) (hle : bytes.length ≤ request.count) :
    (∃ r'', f.accept r' bytes = .goOn r'' ∧
      Underway f header payload r₀ (received ++ bytes) todo r'') ∨
    (∃ r'', f.accept r' bytes = .leave r'' .retry ∧ todo ≠ [] ∧
      Underway f header payload r₀ (received ++ bytes) todo r'') ∨
    f.accept r' bytes = .leave (f.feed r₀ (message header payload)).readCompleted .ok ∧
      todo = [] := by
  have hsplit : (received ++ bytes) ++ todo = message header payload := by
    rw [List.append_assoc]
    exact h.split
  have hprogress := h.progress.accept hask hne hle (hm.fits_of_append hsplit)
  have hfed (rest : List UInt8) :
      f.feed (f.accept r' bytes).reader rest = f.feed r₀ (received ++ bytes ++ rest) := by
    rw [← MessageFormat.feed_append hask hne hle (h.progress.request_lt hask) rest,
      List.append_assoc]
    exact h.fed (bytes ++ rest)
  obtain ⟨r'', haccept, herror, hdone⟩ | ⟨r'', haccept, -, hstate⟩ | ⟨haccept, hstate⟩ |
    ⟨r'', -, -, hreject⟩ := f.accept_cases r' bytes
  · rw [haccept, Verdict.reader_goOn] at hprogress hfed
    exact .inl ⟨r'', haccept, hsplit, hprogress, herror, hdone, hfed⟩
  · rw [haccept, Verdict.reader_leave] at hprogress hfed
    have hnext : Underway f header payload r₀ (received ++ bytes) todo r'' :=
      ⟨hsplit, hprogress, by simp [hstate], by simp [hstate], hfed⟩
    have hmore := hnext.count_le hm (by rw [ReaderWriter.pass, hstate])
    refine .inr (.inl ⟨r'', haccept, ?_, hnext⟩)
    exact List.length_pos_iff.mp (Nat.lt_of_lt_of_le hmore.1 hmore.2)
  · have htodo : todo = [] := by
      cases (h.ask hask).progress with
      | marker _ hbody =>
        obtain ⟨-, hclosing⟩ := hm.body_length h.split hbody
        have hlength : (bytes ++ todo).length ≤ 1 := by
          rw [hclosing, closing]
          split_ifs <;> simp
        have hpos : 0 < bytes.length := List.length_pos_iff.mpr hne
        rw [List.length_append] at hlength
        exact List.eq_nil_of_length_eq_zero (by omega)
      | _ => grind
    subst htodo
    have hfinal := hfed []
    rw [haccept, Verdict.reader_leave, List.append_nil, ← List.append_nil (received ++ bytes),
      hsplit] at hfinal
    have hresult : r'.readCompleted = f.feed r₀ (message header payload) := hfinal
    refine .inr (.inr ⟨?_, rfl⟩)
    rw [haccept, ← hresult]
    rfl
  · exact absurd hreject (h.not_rejects hm hask hne)

end

end Underway

/-- A call that ended with the message; `final` is the state of its reader. -/
structure Completed (final : ReaderWriter) (todo rest : List UInt8) (ntotal : Nat)
    (call : ReadCall) : Prop where
  outcome : call.outcome = .returns .ok
  reader : call.reader = final
  incoming : call.device.incoming = rest
  ntotal : call.ntotal = ntotal + todo.length

theorem Completed.of_append {final : ReaderWriter} {bytes todo rest : List UInt8} {ntotal : Nat}
    {call : ReadCall} (h : Completed final todo rest (ntotal + bytes.length) call) :
    Completed final (bytes ++ todo) rest ntotal call where
  outcome := h.outcome
  reader := h.reader
  incoming := h.incoming
  ntotal := by rw [h.ntotal, List.length_append, Nat.add_assoc]

/-- A call that returned to be called again, in the middle of the message. -/
structure Suspended (f : MessageFormat) (header payload : List UInt8) (r₀ : ReaderWriter)
    (schedule : List Delivery) (todo rest : List UInt8) (ntotal : Nat) (call : ReadCall)
    (received' todo' : List UInt8) : Prop where
  outcome : call.outcome = .returns .retry
  underway : Underway f header payload r₀ received' todo' call.reader
  todo_ne : todo' ≠ []
  incoming : call.device.incoming = todo' ++ rest
  ntotal : call.ntotal + todo'.length = ntotal + todo.length
  suffix : call.device.schedule <:+ schedule
  shorter : schedule ≠ [] → call.device.schedule.length < schedule.length
  transfers : schedule.countP Delivery.isTransfer + todo'.length ≤
    call.device.schedule.countP Delivery.isTransfer + todo.length

namespace Underway

open MessageFormat

variable {f : MessageFormat} {header payload received todo rest : List UInt8}
  {r₀ r : ReaderWriter}

variable {schedule : List Delivery} {n : Nat}

section

variable (hm : WellFormed f header payload)
include hm

section

variable (h : Underway f header payload r₀ received todo r)
include h

theorem readLoop {ntotal : Nat}
    {asked : List (ReaderWriter × Request)} (hschedule : ∀ d ∈ schedule, d.Delivers) :
    Completed (f.feed r₀ (message header payload)).readCompleted todo rest ntotal
      (f.readLoop schedule (todo ++ rest) r ntotal asked) ∨
    ∃ received' todo', Suspended f header payload r₀ schedule todo rest ntotal
      (f.readLoop schedule (todo ++ rest) r ntotal asked) received' todo' := by
  induction schedule generalizing received todo r ntotal asked with
  | nil =>
    cases hpass : r.pass with
    | leave r' result =>
      obtain ⟨rfl, rfl, hreader⟩ := h.leave hm hpass
      rw [readLoop_leave hpass]
      exact .inl ⟨rfl, hreader, rfl, rfl⟩
    | ask r' request =>
      obtain ⟨hcount, hle⟩ := h.count_le hm hpass
      rw [readLoop_nil hpass]
      exact .inr ⟨received, todo, rfl, h.ask hpass, List.length_pos_iff.mp (by omega), rfl, rfl,
        List.suffix_rfl, absurd rfl, by simp⟩
  | cons delivery schedule ih =>
    cases hpass : r.pass with
    | leave r' result =>
      obtain ⟨rfl, rfl, hreader⟩ := h.leave hm hpass
      rw [readLoop_leave hpass]
      exact .inl ⟨rfl, hreader, rfl, rfl⟩
    | ask r' request =>
      obtain ⟨hcount, hle⟩ := h.count_le hm hpass
      have htodo : todo ≠ [] := List.length_pos_iff.mp (by omega)
      cases delivery with
      | eof | error => simp [Delivery.Delivers, Delivery.isTransfer] at hschedule
      | retry =>
        rw [readLoop_retry hpass rfl]
        exact .inr ⟨received, todo, rfl, h.ask hpass, htodo, rfl, rfl,
          List.suffix_cons _ _, by simp, by simp [Delivery.isTransfer]⟩
      | transfer n =>
        obtain ⟨bytes, todo', rfl, hrecv, hne, hcount'⟩ : ∃ bytes todo', todo = bytes ++ todo' ∧
            (Delivery.transfer n).recv (todo ++ rest) request.count = (.ok, bytes) ∧
            bytes ≠ [] ∧ bytes.length ≤ request.count := by
          refine ⟨todo.take (min (n + 1) request.count), todo.drop (min (n + 1) request.count),
            (List.take_append_drop _ _).symm, ?_, ?_, ?_⟩
          · rw [Delivery.recv, if_neg (by omega), if_neg (by simp [htodo]),
              List.take_append_of_le_length (by omega)]
          · exact List.length_pos_iff.mp (by rw [List.length_take]; omega)
          · rw [List.length_take]
            omega
        have hbytes : 0 < bytes.length := List.length_pos_iff.mpr hne
        have hroom := (h.progress.request_fits hpass).2
        have hdrop : (bytes ++ todo' ++ rest).drop bytes.length = todo' ++ rest := by
          rw [List.append_assoc, List.drop_left]
        have hschedule' : ∀ d ∈ schedule, d.Delivers := fun d hd =>
          hschedule d (List.mem_cons_of_mem _ hd)
        obtain ⟨r'', haccept, hnext⟩ | ⟨r'', haccept, hmore, hnext⟩ | ⟨haccept, rfl⟩ :=
          h.accept hm hpass hne hcount'
        · rw [readLoop_goOn hpass hrecv (by omega) haccept, hdrop]
          obtain hend | ⟨received'', todo'', hend⟩ := ih hnext hschedule'
          · exact .inl hend.of_append
          · refine .inr ⟨received'', todo'', hend.outcome, hend.underway, hend.todo_ne,
              hend.incoming, ?_, hend.suffix.trans (List.suffix_cons _ _), fun _ => ?_, ?_⟩
            · rw [hend.ntotal, List.length_append, Nat.add_assoc]
            · have := hend.suffix.length_le
              simp only [List.length_cons]
              omega
            · have := hend.transfers
              simp only [List.countP_cons, Delivery.isTransfer, if_true, List.length_append]
              omega
        · rw [readLoop_return hpass hrecv (by omega) haccept, hdrop]
          refine .inr ⟨_, todo', rfl, hnext, hmore, rfl, ?_, List.suffix_cons _ _, by simp, ?_⟩
          · simp only [List.length_append]
            omega
          · simp only [List.countP_cons, Delivery.isTransfer, if_true, List.length_append]
            omega
        · rw [readLoop_return hpass hrecv (by omega) haccept, hdrop]
          exact .inl ⟨rfl, rfl, rfl, by simp⟩

theorem read (hschedule : ∀ d ∈ schedule, d.Delivers) (rest : List UInt8) :
    Completed (f.feed r₀ (message header payload)).readCompleted todo rest 0
      (f.read r ⟨todo ++ rest, schedule⟩) ∨
    ∃ received' todo', Suspended f header payload r₀ schedule todo rest 0
      (f.read r ⟨todo ++ rest, schedule⟩) received' todo' :=
  h.readLoop hm hschedule

/-- However the device cuts the message into pieces, the calls of `read` stay within the message. -/
theorem rest_suffix (hschedule : ∀ d ∈ schedule, d.Delivers) :
    ∀ call ∈ f.readCalls n r ⟨todo ++ rest, schedule⟩, rest <:+ call.device.incoming := by
  induction n generalizing received todo r schedule with
  | zero => simp [readCalls]
  | succ n ih =>
    simp only [readCalls, List.mem_cons]
    obtain hend | ⟨received', todo', hend⟩ := h.read hm hschedule rest
    · rintro call (rfl | hcall)
      · exact ⟨[], hend.incoming.symm⟩
      · simp [hend.outcome] at hcall
    · rintro call (rfl | hcall)
      · rw [hend.incoming]
        exact List.suffix_append _ _
      · rw [hend.outcome, if_pos rfl] at hcall
        refine ih hend.underway (fun d hd => hschedule d (hend.suffix.subset hd)) call ?_
        rw [← hend.incoming]
        exact hcall

/-- A device that goes on delivering completes the message: the calls before the last one ask to be
called again, the last one finds the end of the message, and their totals add up to its length. -/
theorem readCalls_completed
    (hschedule : ∀ d ∈ schedule, d.Delivers)
    (henough : todo.length ≤ schedule.countP Delivery.isTransfer) (hn : schedule.length < n) :
    ∃ calls last, f.readCalls n r ⟨todo ++ rest, schedule⟩ = calls ++ [last] ∧
      (∀ call ∈ calls, call.outcome = .returns .retry) ∧ last.outcome = .returns .ok ∧
      last.reader = (f.feed r₀ (message header payload)).readCompleted ∧
      last.device.incoming = rest ∧
      ((calls ++ [last]).map ReadCall.ntotal).sum = todo.length := by
  induction n generalizing received todo r schedule with
  | zero => omega
  | succ n ih =>
    simp only [readCalls]
    obtain hend | ⟨received', todo', hend⟩ := h.read hm hschedule rest
    · refine ⟨[], f.read r ⟨todo ++ rest, schedule⟩, ?_, by simp, hend.outcome, hend.reader,
        hend.incoming, ?_⟩
      · rw [hend.outcome, if_neg (by simp), List.nil_append]
      · simp [hend.ntotal]
    · have htransfers := hend.transfers
      have hmore : 0 < todo'.length := List.length_pos_iff.mpr hend.todo_ne
      have hne : schedule ≠ [] := by
        rintro rfl
        have hnil : (f.read r ⟨todo ++ rest, []⟩).device.schedule = [] :=
          List.suffix_nil.mp hend.suffix
        simp only [hnil, List.countP_nil] at htransfers
        simp only [List.countP_nil] at henough
        omega
      have hshorter := hend.shorter hne
      obtain ⟨calls, last, hcalls, hretry, hlast, hreader, hincoming, hsum⟩ :=
        ih hend.underway (fun d hd => hschedule d (hend.suffix.subset hd)) (by omega) (by omega)
      refine ⟨f.read r ⟨todo ++ rest, schedule⟩ :: calls, last, ?_, ?_, hlast, hreader, hincoming,
        ?_⟩
      · rw [hend.outcome, if_pos rfl, List.cons_append, ← hcalls, ← hend.incoming]
      · simp only [List.mem_cons, forall_eq_or_imp]
        exact ⟨hend.outcome, hretry⟩
      · have hntotal := hend.ntotal
        simp only [List.cons_append, List.map_cons, List.sum_cons, hsum]
        omega

/-- A device that hands over all that is asked for completes the message within one call. -/
theorem read_eager {k ntotal : Nat}
    {asked : List (ReaderWriter × Request)}
    (hk : r.stage < k) (hn : todo.length ≤ n) :
    Completed (f.feed r₀ (message header payload)).readCompleted todo rest ntotal
      (f.readLoop (List.replicate k (.transfer n)) (todo ++ rest) r ntotal asked) := by
  induction k generalizing received todo r ntotal asked with
  | zero => omega
  | succ k ih =>
    cases hpass : r.pass with
    | leave r' result =>
      obtain ⟨rfl, rfl, hreader⟩ := h.leave hm hpass
      rw [readLoop_leave hpass]
      exact ⟨rfl, hreader, rfl, rfl⟩
    | ask r' request =>
      obtain ⟨hcount, hle⟩ := h.count_le hm hpass
      obtain ⟨bytes, todo', rfl, hbytes⟩ : ∃ bytes todo', todo = bytes ++ todo' ∧
          bytes.length = request.count :=
        ⟨_, _, (List.take_append_drop request.count todo).symm, by rw [List.length_take]; omega⟩
      have hne : bytes ≠ [] := List.length_pos_iff.mp (by omega)
      have hrecv : (Delivery.transfer n).recv (bytes ++ todo' ++ rest) request.count =
          (.ok, bytes) := by
        rw [List.length_append] at hn
        have hmin : min (n + 1) request.count = bytes.length := by omega
        rw [Delivery.recv, if_neg (by omega), if_neg (by simp [hne]), hmin, List.append_assoc,
          List.take_left]
      have hroom := (h.progress.request_fits hpass).2
      have hdrop : (bytes ++ todo' ++ rest).drop bytes.length = todo' ++ rest := by
        rw [List.append_assoc, List.drop_left]
      rw [List.replicate_succ]
      obtain ⟨r'', haccept, hnext⟩ | ⟨r'', haccept, -, -⟩ | ⟨haccept, rfl⟩ :=
        h.accept hm hpass hne (Nat.le_of_eq hbytes)
      · rw [readLoop_goOn hpass hrecv (by omega) haccept, hdrop]
        have hstage := (f.accept_full hpass hbytes).2
        rw [haccept, Verdict.reader_goOn] at hstage
        rw [List.length_append] at hn
        exact (ih hnext (by omega) (by omega)).of_append
      · exact absurd haccept ((f.accept_full hpass hbytes).1 r'')
      · rw [readLoop_return hpass hrecv (by omega) haccept, hdrop]
        exact ⟨rfl, rfl, rfl, by simp⟩

end

end

end Underway

/-! ## Writing a well-formed message -/

structure SharedBuffers.Holds (sb : SharedBuffers) (header payload : List UInt8) : Prop where
  header : AgreeBelow header.length sb.header (ofList header)
  size : sb.payload.size = payload.length
  payload : AgreeBelow payload.length sb.payload.bytes (ofList payload)

theorem ofList_slice (bytes : List UInt8) : (ofList bytes).slice 0 bytes.length = bytes :=
  slice_write_self _ 0 bytes

namespace WellFormed

variable {f : MessageFormat} {header payload : List UInt8} {w : ReaderWriter}

theorem payload_length_lt (h : WellFormed f header payload) : payload.length < uintRange := by
  have hpayload := h.payload
  cases hinfo : f.payloadInfo (ofList header) header.length 0 with
  | absent =>
    rw [hinfo, PayloadInfo.announces, Option.some.injEq] at hpayload
    rw [← hpayload]
    decide
  | invalid => rw [hinfo, PayloadInfo.announces] at hpayload; cases hpayload
  | present size usize compressor =>
    rw [hinfo, PayloadInfo.announces, Option.some.injEq] at hpayload
    rw [← hpayload]
    exact MessageFormat.payloadInfo_present_lt hinfo

theorem headerSize_eq (h : WellFormed f header payload) {m : ByteMemory}
    (hheader : AgreeBelow header.length m (ofList header)) : f.headerSize m = header.length := by
  rw [← h.length]
  apply f.headerSize_congr
  rw [hheader 0 h.header_pos]
  exact hheader.mono h.sizeField

theorem unsent_eq (h : WellFormed f header payload) (hstate : w.state = .writeReady)
    (hholds : w.sb.Holds header payload) :
    Sending f w ∧ f.unsent w = message header payload := by
  have hsize := h.headerSize_eq hholds.header
  have hlt := f.streamHeaderSize_lt header
  rw [h.length] at hlt
  refine ⟨⟨.inl ⟨hstate, hsize ▸ h.header_pos⟩, by simp [hstate], hsize ▸ hlt,
    hholds.size ▸ h.payload_length_lt⟩, ?_⟩
  have hdesc : w.descriptor = ofList header 0 := hholds.header 0 h.header_pos
  have hheader : w.sb.header.slice 0 header.length = header :=
    (hholds.header.slice_eq (by omega)).trans (ofList_slice header)
  have hpayload : w.sb.payloadBytes = payload := by
    rw [SharedBuffers.payloadBytes, hholds.size]
    exact (hholds.payload.slice_eq (by omega)).trans (ofList_slice payload)
  simp only [MessageFormat.unsent, hstate, hsize, hheader, hpayload, hdesc, message,
    List.append_assoc]

end WellFormed

/-- A well-formed message, followed by anything, read from a device that cuts it into arbitrary
pieces and has nothing to offer in between, leaves the reader in the state in which one call leaves
it that gets all it asks for; the calls never touch what follows the message and their totals add up
to its length. Written to such a device, the message arrives there byte by byte, once and in
order. -/
theorem fragmentation_independent (f : MessageFormat) {header payload : List UInt8}
    (hm : WellFormed f header payload) (rest : List UInt8) (schedule : List Delivery)
    (hschedule : ∀ d ∈ schedule, d.Delivers) :
    (∀ sb : SharedBuffers, sb.Fresh →
      (∀ n, ∀ call ∈ f.readCalls n (.create sb) ⟨message header payload ++ rest, schedule⟩,
        rest <:+ call.device.incoming) ∧
      ((message header payload).length ≤ schedule.countP Delivery.isTransfer →
        ∃ whole calls last,
          f.read (.create sb) ⟨message header payload ++ rest,
            List.replicate 6 (.transfer (message header payload).length)⟩ = whole ∧
          whole.outcome = .returns .ok ∧ whole.device.incoming = rest ∧
          whole.ntotal = (message header payload).length ∧
          f.readCalls (schedule.length + 1) (.create sb)
            ⟨message header payload ++ rest, schedule⟩ = calls ++ [last] ∧
          (∀ call ∈ calls, call.outcome = .returns .retry) ∧ last.outcome = .returns .ok ∧
          last.reader = whole.reader ∧ last.device.incoming = rest ∧
          ((calls ++ [last]).map ReadCall.ntotal).sum = (message header payload).length)) ∧
    ∀ w : ReaderWriter, w.state = .writeReady → w.sb.Holds header payload →
      (∀ n, (f.writeCalls n w schedule).flatMap WriteCall.output <+: message header payload) ∧
      ((message header payload).length ≤ schedule.countP Delivery.isTransfer →
        ∃ calls last, f.writeCalls (schedule.length + 1) w schedule = calls ++ [last] ∧
          (∀ call ∈ calls, call.result = .retry) ∧ last.result = .ok ∧
          last.writer.state = .writeDone ∧
          (calls ++ [last]).flatMap WriteCall.output = message header payload ∧
          ((calls ++ [last]).map WriteCall.ntotal).sum = (message header payload).length) := by
  refine ⟨fun sb hfresh => ⟨fun n => (Underway.create hfresh).rest_suffix hm hschedule, ?_⟩,
    fun w hstate hholds => ?_⟩
  · intro henough
    have hstart : Underway f header payload (.create sb) [] (message header payload) (.create sb) :=
      .create hfresh
    have hwhole : Completed (f.feed (.create sb) (message header payload)).readCompleted
        (message header payload) rest 0 (f.read (.create sb) ⟨message header payload ++ rest,
          List.replicate 6 (.transfer (message header payload).length)⟩) :=
      hstart.read_eager hm (by decide : 5 < 6) (Nat.le_refl _)
    obtain ⟨calls, last, hcalls, hretry, hlast, hreader, hincoming, hsum⟩ :=
      hstart.readCalls_completed hm hschedule henough (Nat.lt_succ_self _)
    exact ⟨_, calls, last, rfl, hwhole.outcome, hwhole.incoming, by simpa using hwhole.ntotal,
      hcalls, hretry, hlast, hreader.trans hwhole.reader.symm, hincoming, hsum⟩
  · obtain ⟨hsending, hunsent⟩ := hm.unsent_eq hstate hholds
    rw [← hunsent]
    exact ⟨fun n => hsending.writeCalls_front hschedule,
      fun henough => hsending.writeCalls_completed hschedule henough (Nat.lt_succ_self _)⟩

/-- A `PING` command with marker, delivered byte by byte with a pause. -/
theorem ping_in_pieces :
    WellFormed commandFormat [0x80, 0x01] [] ∧
    ∃ calls last, commandFormat.readCalls 6 (.create (.create (fun _ => 0) (fun _ => 0)))
        ⟨message [0x80, 0x01] [] ++ [0x00],
          [.transfer 0, .retry, .transfer 0, .retry, .transfer 9]⟩ = calls ++ [last] ∧
      last.outcome = .returns .ok ∧ last.device.incoming = [0x00] ∧
      ((calls ++ [last]).map ReadCall.ntotal).sum = 3 := by
  have hm : WellFormed commandFormat [0x80, 0x01] [] :=
    ⟨by decide, by decide, by decide, by decide, by decide, by decide⟩
  obtain ⟨-, hread⟩ := (fragmentation_independent commandFormat hm [0x00]
    [.transfer 0, .retry, .transfer 0, .retry, .transfer 9]
    (by simp [Delivery.Delivers, Delivery.isTransfer])).1 (.create (fun _ => 0) (fun _ => 0))
    ⟨rfl, rfl⟩
  obtain ⟨-, calls, last, -, -, -, -, hcalls, -, hlast, -, hincoming, hsum⟩ := hread (by decide)
  exact ⟨hm, calls, last, hcalls, hlast, hincoming, hsum⟩

end CyberCache
