import CyberCache.Wire.ChunkBounds
import CyberCache.Wire.ReadRuns

/-!
# Two readers of one stream

Two readers are given the same bytes and differ in what their buffers held before. As long as the
payload information of the header does not depend on bytes that were not received, they stay in the
same state, ask for the same bytes and return the same results.

The stream is arbitrary here. A reader on it makes progress, or it is stuck behind a size field that
does not fit; `Tracked` has both cases.
-/

namespace CyberCache

open ByteMemory

/-! ## Headers that say all that is read from them -/

namespace MessageFormat

/-- A complete header stands at the start of the stream and is not rejected by its descriptor. -/
structure HeaderArrives (f : MessageFormat) (stream : List UInt8) : Prop where
  sizeField : 1 + sizeFieldLength stream ≤ stream.length
  fits : SizeFieldFits stream
  length : f.streamHeaderSize stream ≤ stream.length
  accepted : sizeFieldLength stream = 0 → f.sizelessHeader (ofList stream 0) ≠ .reject

def payloadInfoEnd (f : MessageFormat) (desc : UInt8) : Nat :=
  f.payloadInfoOffset desc + payloadInfoLength desc

/-- The payload information is absent, or within the header, or behind the end of the auxiliary
area, or what is there of it is enough to reject it. -/
def InfoKnown (f : MessageFormat) (stream : List UInt8) : Prop :=
  ofList stream 0 &&& descPayloadBits = descNoPayload ∨
    f.payloadInfoEnd (ofList stream 0) ≤ f.streamHeaderSize stream ∨
    auxDataSize < f.payloadInfoEnd (ofList stream 0) ∨
    ∀ m, AgreeBelow (f.streamHeaderSize stream) m (ofList stream) →
      f.payloadInfo m auxDataSize 0 = .invalid

/-- All chunks of the header end within it. -/
def ChunksInside (f : MessageFormat) (stream : List UInt8) : Prop :=
  ∀ n, ((HeaderChunkIterator.ofHeader f (ofList stream)).takeChunks n).2.inBounds

theorem payloadInfo_eq_invalid (f : MessageFormat) {m : ByteMemory} {available : Nat}
    (h : f.payloadInfo m available 0 = .invalid) (received : Nat) :
    f.payloadInfo m available received = .invalid := by
  unfold payloadInfo at h ⊢
  dsimp only at h ⊢
  split_ifs at h ⊢ <;> simp_all

theorem InfoKnown.payloadInfo_eq {f : MessageFormat} {stream : List UInt8}
    (h : f.InfoKnown stream) (hpos : 0 < f.streamHeaderSize stream) {m m' : ByteMemory}
    (hm : AgreeBelow (f.streamHeaderSize stream) m (ofList stream))
    (hm' : AgreeBelow (f.streamHeaderSize stream) m' (ofList stream)) (received : Nat) :
    f.payloadInfo m (max auxDataSize (f.streamHeaderSize stream)) received =
      f.payloadInfo m' (max auxDataSize (f.streamHeaderSize stream)) received := by
  have hdesc : m 0 = ofList stream 0 := hm 0 hpos
  have hdesc' : m' 0 = ofList stream 0 := hm' 0 hpos
  by_cases hinside : f.payloadInfoEnd (ofList stream 0) ≤ f.streamHeaderSize stream
  · apply f.payloadInfo_congr
    rw [hdesc]
    exact (hm.trans hm'.symm).mono hinside
  by_cases hend : auxDataSize < f.payloadInfoEnd (ofList stream 0)
  · have hout : max auxDataSize (f.streamHeaderSize stream) <
        f.payloadInfoOffset (ofList stream 0) + payloadInfoLength (ofList stream 0) := by
      simp only [payloadInfoEnd] at hend hinside
      omega
    simp [payloadInfo, hdesc, hdesc', hout]
  · obtain hnone | hend' | hend' | hinvalid := h
    · simp [payloadInfo, hdesc, hdesc', hnone]
    · exact absurd hend' hinside
    · exact absurd hend' hend
    · have hmax : max auxDataSize (f.streamHeaderSize stream) = auxDataSize := by omega
      rw [hmax, f.payloadInfo_eq_invalid (hinvalid m hm), f.payloadInfo_eq_invalid
        (hinvalid m' hm')]

theorem exists_payloadInfo_ne {f : MessageFormat} {stream : List UInt8}
    (hpos : 0 < f.streamHeaderSize stream) (h : ¬f.InfoKnown stream) :
    ∃ m m', AgreeBelow (f.streamHeaderSize stream) m (ofList stream) ∧
      AgreeBelow (f.streamHeaderSize stream) m' (ofList stream) ∧
      f.streamHeaderSize stream ≤ auxDataSize ∧
      f.payloadInfo m auxDataSize 0 ≠ .invalid ∧
      f.payloadInfo m' auxDataSize 0 ≠ f.payloadInfo m auxDataSize 0 := by
  simp only [InfoKnown, not_or, not_forall, Nat.not_le, Nat.not_lt] at h
  obtain ⟨hsome, hout, hend, m, hm, hvalid⟩ := h
  have hdesc : m 0 = ofList stream 0 := hm 0 hpos
  have hlength := payloadSizeLength_pos hsome
  simp only [payloadInfoEnd] at hout hend
  -- another last byte of the payload information
  obtain ⟨k, hk⟩ : ∃ k, k + 1 = f.payloadInfoOffset (ofList stream 0) +
      payloadInfoLength (ofList stream 0) := ⟨_, Nat.succ_pred_eq_of_pos (by omega)⟩
  have hdesc' : m.change k 0 = ofList stream 0 := by
    rw [change_of_ne _ (by omega), hdesc]
  refine ⟨m, m.change k, hm, fun i hi => ?_, by omega, hvalid, ?_⟩
  · rw [change_of_ne _ (by omega), hm i hi]
  · have hfits : ¬auxDataSize < f.payloadInfoOffset (ofList stream 0) +
        payloadInfoLength (ofList stream 0) := by omega
    simp only [payloadInfo, hdesc, hdesc', hsome, hfits, if_false] at hvalid ⊢
    by_cases hcompressed : payloadIsCompressed (ofList stream 0)
    · have hinfo : payloadInfoLength (ofList stream 0) =
          2 * payloadSizeLength (ofList stream 0) + 1 := by
        simp [payloadInfoLength, hsome, hcompressed]
      have hne := readLE_change_ne m (show f.payloadInfoOffset (ofList stream 0) + 1 +
          payloadSizeLength (ofList stream 0) ≤ k by omega)
        (show k < _ + payloadSizeLength (ofList stream 0) by omega)
      simp only [hcompressed, if_true, Nat.lt_irrefl, false_and, if_false] at hvalid ⊢
      split_ifs at hvalid with hbad
      · exact absurd rfl hvalid
      · rw [if_neg hbad]
        split_ifs
        · simp
        · intro heq
          injection heq with _ husize _
          exact hne husize
    · have hinfo : payloadInfoLength (ofList stream 0) = payloadSizeLength (ofList stream 0) := by
        simp [payloadInfoLength, hsome, hcompressed]
      have hne := readLE_change_ne m (show f.payloadInfoOffset (ofList stream 0) ≤ k by omega)
        (show k < _ + payloadSizeLength (ofList stream 0) by omega)
      simp only [hcompressed, Bool.false_eq_true, if_false, Nat.lt_irrefl, false_and, ne_eq,
        PayloadInfo.present.injEq, not_and]
      exact fun heq => absurd heq hne

end MessageFormat

/-! ## A reader on an arbitrary stream -/

/-- A reader whose size field does not fit: it waits for more bytes than there is room for, or for
none at all. -/
structure Stuck (r : ReaderWriter) : Prop where
  state : r.state = .readHeaderBytes
  available : r.sb.getAvailableHeaderSize = auxDataSize
  payload : r.sb.payload.size = 0
  remains_lt : r.remains < uintRange
  beyond : r.remains = 0 ∨ auxDataSize < r.pos + r.remains

/-- The descriptor does not stop the reader. -/
def MessageFormat.DescriptorAccepted (f : MessageFormat) (received : List UInt8) : Prop :=
  received = [] ∨ sizeFieldLength received ≠ 0 ∨ f.sizelessHeader (ofList received 0) ≠ .reject

/-- The reader `r`, given the bytes `received`, makes progress or is stuck. -/
inductive Tracked (f : MessageFormat) (received : List UInt8) (r : ReaderWriter) : Prop where
  | progress (h : Progress f received r)
      (hfits : SizeFieldFits received ∧ f.DescriptorAccepted received ∨ r.state = .error)
  | stuck (h : Stuck r) (hfits : ¬SizeFieldFits received)

theorem SizeFieldFits.append {xs : List UInt8} (h : SizeFieldFits xs) (ys : List UInt8)
    (hcomplete : 1 + sizeFieldLength xs ≤ xs.length) : SizeFieldFits (xs ++ ys) := by
  intro hlength _
  rw [sizeFieldLength_append xs ys (by omega)] at hlength ⊢
  rw [sizeField_append xs ys hcomplete]
  exact h hlength hcomplete

namespace Tracked

variable {f : MessageFormat} {received bytes : List UInt8} {r r' : ReaderWriter}
  {request : Request} {result : IoResult}

theorem ask (h : Tracked f received r) (hask : r.pass = .ask r' request) :
    Tracked f received r' := by
  cases h with
  | progress h hfits =>
    refine .progress (h.ask hask) (hfits.imp_right fun herror => ?_)
    simp [ReaderWriter.pass, herror] at hask
  | stuck h hfits =>
    obtain ⟨hs, -⟩ | ⟨-, rfl, -⟩ | ⟨hs, -⟩ | ⟨hs, -⟩ := ReaderWriter.pass_eq_ask hask
    · simp [h.state] at hs
    · exact .stuck h hfits
    · simp [h.state] at hs
    · simp [h.state] at hs

theorem leave (h : Tracked f received r) (hleave : r.pass = .leave r' result) :
    Tracked f received r' := by
  cases h with
  | progress h hfits =>
    obtain ⟨hs, -, rfl, -⟩ | ⟨-, rfl, -⟩ := ReaderWriter.pass_eq_leave hleave
    · exact .progress (h.leave hleave) (hfits.imp_right fun herror => by simp [hs] at herror)
    · exact .progress (h.leave hleave) (.inr rfl)
  | stuck h hfits => simp [ReaderWriter.pass, h.state] at hleave

theorem fail (r : ReaderWriter) : Tracked f received { r with state := .error } :=
  .progress (.failed rfl) (.inr rfl)

theorem stuck_of_not_fits (hfresh : r.sb.Fresh) (hpos : r.pos = received.length)
    (hreceived : 0 < received.length)
    (hend : received.length + r.remains = 1 + sizeFieldLength received)
    (hheader : AgreeBelow received.length r.sb.header (ofList received))
    (hcomplete : bytes.length = r.remains) (hfits : ¬SizeFieldFits (received ++ bytes)) :
    Stuck (f.acceptHeaderSizeBytes r bytes).reader := by
  obtain ⟨sb, haccept, havailable, hpayload, -⟩ :=
    Progress.acceptHeaderSizeBytes_complete (f := f) hfresh hpos hreceived hend hheader hcomplete
  have hlength := sizeFieldLength_append received bytes hreceived
  have hshort := headerDataSizeLength_cases (ofList (received ++ bytes) 0)
  rw [← sizeFieldLength] at hshort
  have hall : (received ++ bytes).length = 1 + sizeFieldLength (received ++ bytes) := by
    rw [List.length_append, hlength]
    omega
  simp only [SizeFieldFits, not_forall, exists_prop] at hfits
  obtain ⟨hsized, -, hbad⟩ := hfits
  have hfield := sizeField_lt (received ++ bytes)
  have hsize := f.streamHeaderSize_of_sized hsized
  have hrange : uintRange = 2 ^ 32 := rfl
  have haux : auxDataSize = 12 := rfl
  have hcases : f.streamHeaderSize (received ++ bytes) = (received ++ bytes).length ∨
      f.streamHeaderSize (received ++ bytes) < (received ++ bytes).length := by
    rw [hsize, hall, hrange]
    rw [hrange] at hfield hbad
    omega
  rw [haccept, Verdict.reader_goOn]
  refine ⟨rfl, by simp only; omega, hpayload, Nat.mod_lt _ (by decide), ?_⟩
  obtain heq | hlt := hcases
  · left
    simp only
    rw [uintSub_eq (by omega) (by omega)]
    omega
  · right
    simp only
    rw [uintSub_of_lt (by omega) hlt]
    omega

theorem descriptorAccepted (h : Progress f received r) (haccepted : f.DescriptorAccepted received)
    (hask : r.pass = .ask r' request) (hle : bytes.length ≤ request.count)
    (hpos : 0 < bytes.length) :
    f.DescriptorAccepted (received ++ bytes) ∨ (f.accept r' bytes).reader.state = .error := by
  by_cases hempty : received = []
  · obtain ⟨-, rfl, rfl⟩ | hlater := ReaderWriter.pass_eq_ask hask
    · obtain ⟨b, rfl⟩ := List.length_eq_one_iff.mp (Nat.le_antisymm hle hpos)
      have hdesc : (r.sb.writeHeader 0 [b]).header 0 = b := by simp [ByteMemory.write]
      have hlist : ofList [b] 0 = b := ofList_of_lt (by simp)
      rw [hempty, List.nil_append, MessageFormat.DescriptorAccepted, sizeFieldLength_cons, hlist]
      by_cases hreject : headerDataSizeLength b = 0 ∧ f.sizelessHeader b = .reject
      · right
        simp only [MessageFormat.accept, MessageFormat.acceptDescriptor, hdesc, hreject, if_true]
        rfl
      · left
        grind
    · -- every later device call has a descriptor
      exfalso
      have hzero : received.length = 0 := List.length_eq_zero_iff.mpr hempty
      cases h with
      | descriptor hstate => grind
      | sizeField => omega
      | header => omega
      | payload => omega
      | marker _ hbody =>
        have hlength := hbody.length
        have := hbody.sizeField
        omega
      | done _ hstate => grind
      | failed hstate => grind
  · left
    have hsome := List.length_pos_iff.mpr hempty
    rw [MessageFormat.DescriptorAccepted, sizeFieldLength_append received bytes hsome,
      ofList_append_zero received bytes hsome]
    exact .inr (haccepted.resolve_left hempty)

theorem accept (h : Tracked f received r) (hask : r.pass = .ask r' request) (hne : bytes ≠ [])
    (hle : bytes.length ≤ request.count)
    (hroom : request.offset + bytes.length ≤ r'.areaSize request.area) :
    Tracked f (received ++ bytes) (f.accept r' bytes).reader := by
  have hpos : 0 < bytes.length := List.length_pos_iff.mpr hne
  cases h with
  | progress h hfits =>
    obtain ⟨hfits, haccepted⟩ := hfits.resolve_right fun herror => by
      simp [ReaderWriter.pass, herror] at hask
    by_cases hfits' : SizeFieldFits (received ++ bytes)
    · refine .progress (h.accept hask hne hle hfits') ?_
      obtain haccepted' | herror := descriptorAccepted h haccepted hask hle hpos
      · exact .inl ⟨hfits', haccepted'⟩
      · exact .inr herror
    · refine .stuck ?_ hfits'
      -- the size field became complete just now
      have hincomplete : ¬1 + sizeFieldLength received ≤ received.length :=
        fun hcomplete => hfits' (hfits.append bytes hcomplete)
      have h' := h.ask hask
      cases h' with
      | descriptor hstate hfresh hreceived =>
        obtain ⟨-, rfl, rfl⟩ | ⟨hs, rfl, -⟩ | ⟨hs, rfl, -⟩ | ⟨hs, -, rfl, -⟩ :=
          ReaderWriter.pass_eq_ask hask
        · simp only [SizeFieldFits, not_forall, exists_prop] at hfits'
          rw [hreceived, List.nil_append] at hfits'
          simp only at hle
          omega
        all_goals grind
      | sizeField hstate hfresh hp hreceived hremains hend hheader =>
        obtain ⟨hs, rfl, rfl⟩ | ⟨hs, rfl, rfl⟩ | ⟨hs, rfl, -⟩ | ⟨hs, -, rfl, -⟩ :=
          ReaderWriter.pass_eq_ask hask
        · simp at hstate
        · simp only [MessageFormat.accept, hstate]
          refine stuck_of_not_fits hfresh hp hreceived hend hheader ?_ hfits'
          by_contra hmore
          simp only [SizeFieldFits, not_forall, exists_prop] at hfits'
          rw [sizeFieldLength_append received bytes hreceived, List.length_append] at hfits'
          simp only at hle
          omega
        all_goals grind
      | header => omega
      | payload => omega
      | marker _ hbody =>
        have := hbody.sizeField
        have := hbody.length
        omega
      | done _ hstate => grind [ReaderWriter.pass_eq_ask hask]
      | failed hstate => grind [ReaderWriter.pass_eq_ask hask]
  | stuck h hfits =>
    refine .stuck ?_ fun hfits' => hfits hfits'.of_append
    obtain ⟨hs, -⟩ | ⟨-, rfl, rfl⟩ | ⟨hs, -⟩ | ⟨hs, -⟩ := ReaderWriter.pass_eq_ask hask
    · simp [h.state] at hs
    · have havailable := h.available
      have hlt := h.remains_lt
      have hbeyond := h.beyond
      have haux : auxDataSize = 12 := rfl
      have hrange : uintRange = 2 ^ 32 := rfl
      simp only [ReaderWriter.areaSize] at hroom hle
      have hmore : ¬bytes.length = r'.remains := by omega
      simp only [MessageFormat.accept, h.state, MessageFormat.acceptHeaderBytes, hmore, if_false,
        Verdict.reader_goOn]
      rw [uintAdd_eq (by omega), uintSub_eq hlt hle]
      refine ⟨rfl, by simpa using havailable, by simpa using h.payload, ?_, ?_⟩
      · simp only
        omega
      · simp only
        omega
    · simp [h.state] at hs
    · simp [h.state] at hs

end Tracked

/-! ## Two readers -/

/-- Two readers that differ in nothing but the contents of their buffers. -/
structure Alike (r s : ReaderWriter) : Prop where
  state : r.state = s.state
  pos : r.pos = s.pos
  remains : r.remains = s.remains
  payloadSize : r.sb.payload.size = s.sb.payload.size

inductive Verdict.Alike : Verdict → Verdict → Prop where
  | goOn {r s : ReaderWriter} (h : CyberCache.Alike r s) : Alike (.goOn r) (.goOn s)
  | leave {r s : ReaderWriter} (result : IoResult) (h : CyberCache.Alike r s) :
      Alike (.leave r result) (.leave s result)

structure Paired (f : MessageFormat) (received : List UInt8) (r s : ReaderWriter) : Prop where
  alike : Alike r s
  left : Tracked f received r
  right : Tracked f received s

namespace Paired

variable {f : MessageFormat} {received bytes stream : List UInt8} {r r' s s' : ReaderWriter}
  {request : Request}

theorem descriptor_eq (h : Tracked f received r) (hstate : r.state = .readMarkerByte) :
    r.descriptor = ofList received 0 := by
  cases h with
  | progress h hfits =>
    cases h with
    | marker _ hbody =>
      have := hbody.sizeField
      exact hbody.header 0 (by omega)
    | _ => grind
  | stuck h _ => simp [h.state] at hstate

theorem pass (h : Paired f received r s) :
    (∃ r' s' request, r.pass = .ask r' request ∧ s.pass = .ask s' request ∧
      Paired f received r' s') ∨
    ∃ r' s' result, r.pass = .leave r' result ∧ s.pass = .leave s' result ∧
      Paired f received r' s' := by
  obtain ⟨hstate, hpos, hremains, hsize⟩ := h.alike
  -- both passes have the same shape, and whatever they lead to is tracked
  have hask {r' s' request} (hr : r.pass = .ask r' request) (hs : s.pass = .ask s' request)
      (hsame : Alike r' s') : Paired f received r' s' :=
    ⟨hsame, h.left.ask hr, h.right.ask hs⟩
  have hleave {r' s' result} (hr : r.pass = .leave r' result) (hs : s.pass = .leave s' result)
      (hsame : Alike r' s') : Paired f received r' s' :=
    ⟨hsame, h.left.leave hr, h.right.leave hs⟩
  cases hr : r.state with
  | readMarkerByte =>
    have hdesc : r.descriptor = s.descriptor := by
      rw [descriptor_eq h.left hr, descriptor_eq h.right (hstate.symm.trans hr)]
    by_cases hmarker : markerIsPresent s.descriptor
    · have h₁ : r.pass = .ask r ⟨.marker, 0, 1⟩ := by
        simp [ReaderWriter.pass, hr, hdesc, hmarker]
      have h₂ : s.pass = .ask s ⟨.marker, 0, 1⟩ := by
        simp [ReaderWriter.pass, ← hstate, hr, hmarker]
      exact .inl ⟨_, _, _, h₁, h₂, hask h₁ h₂ h.alike⟩
    · have h₁ : r.pass = .leave r.readCompleted .ok := by
        simp [ReaderWriter.pass, hr, hdesc, hmarker]
      have h₂ : s.pass = .leave s.readCompleted .ok := by
        simp [ReaderWriter.pass, ← hstate, hr, hmarker]
      exact .inr ⟨_, _, _, h₁, h₂, hleave h₁ h₂ ⟨rfl, rfl, rfl, hsize⟩⟩
  | created | readDescriptor =>
    have h₁ : r.pass = .ask { r with state := .readDescriptor } ⟨.header, 0, 1⟩ := by
      simp [ReaderWriter.pass, hr]
    have h₂ : s.pass = .ask { s with state := .readDescriptor } ⟨.header, 0, 1⟩ := by
      simp [ReaderWriter.pass, ← hstate, hr]
    exact .inl ⟨_, _, _, h₁, h₂, hask h₁ h₂ ⟨rfl, hpos, hremains, hsize⟩⟩
  | readHeaderSizeBytes | readHeaderBytes =>
    have h₁ : r.pass = .ask r ⟨.header, r.pos, r.remains⟩ := by
      simp [ReaderWriter.pass, hr]
    have h₂ : s.pass = .ask s ⟨.header, r.pos, r.remains⟩ := by
      simp [ReaderWriter.pass, ← hstate, hr, hpos, hremains]
    exact .inl ⟨_, _, _, h₁, h₂, hask h₁ h₂ h.alike⟩
  | readPayloadBytes =>
    have h₁ : r.pass = .ask r ⟨.payload, r.pos, r.remains⟩ := by
      simp [ReaderWriter.pass, hr]
    have h₂ : s.pass = .ask s ⟨.payload, r.pos, r.remains⟩ := by
      simp [ReaderWriter.pass, ← hstate, hr, hpos, hremains]
    exact .inl ⟨_, _, _, h₁, h₂, hask h₁ h₂ h.alike⟩
  | _ =>
    have h₁ : r.pass = .leave r.setErrorState .error := by
      simp [ReaderWriter.pass, hr]
    have h₂ : s.pass = .leave s.setErrorState .error := by
      simp [ReaderWriter.pass, ← hstate, hr]
    exact .inr ⟨_, _, _, h₁, h₂, hleave h₁ h₂ ⟨rfl, rfl, rfl, hsize⟩⟩

theorem available_eq (h : Paired f received r s)
    (hstate : r.state = .readDescriptor ∨ r.state = .readHeaderSizeBytes ∨
      r.state = .readHeaderBytes) :
    r.sb.getAvailableHeaderSize = s.sb.getAvailableHeaderSize := by
  have hsame := h.alike.state
  obtain ⟨-, hleft, hright⟩ := h
  cases hleft with
  | stuck hr hfits =>
    cases hright with
    | stuck hs _ => rw [hr.available, hs.available]
    | progress _ hfits' => grind
  | progress hr hfits =>
    cases hright with
    | stuck hs hfits' => grind [hs.state]
    | progress hs _ =>
      cases hr with
      | descriptor _ hfresh _ | sizeField _ hfresh =>
        cases hs with
        | descriptor _ hfresh' _ | sizeField _ hfresh' =>
          rw [SharedBuffers.getAvailableHeaderSize_of_static hfresh.1,
            SharedBuffers.getAvailableHeaderSize_of_static hfresh'.1]
        | _ => grind
      | header _ havailable =>
        cases hs with
        | header _ havailable' => rw [havailable, havailable']
        | _ => grind
      | _ => grind

theorem areaSize_eq (h : Paired f received r s) (hask : r.pass = .ask r' request)
    (hsame : Paired f received r' s') :
    r'.areaSize request.area = s'.areaSize request.area := by
  obtain ⟨-, rfl, rfl⟩ | ⟨hs, rfl, rfl⟩ | ⟨-, rfl, rfl⟩ | ⟨-, -, rfl, rfl⟩ :=
    ReaderWriter.pass_eq_ask hask
  · exact hsame.available_eq (.inl rfl)
  · exact hsame.available_eq (.inr hs)
  · exact hsame.alike.payloadSize
  · rfl

theorem acceptDescriptor (h : Paired f received r s) (b : UInt8) :
    (f.acceptDescriptor r [b]).Alike (f.acceptDescriptor s [b]) := by
  have hsize := h.alike.payloadSize
  have hdesc (sb : SharedBuffers) : (sb.writeHeader 0 [b]).header 0 = b := by
    simp [ByteMemory.write]
  simp only [MessageFormat.acceptDescriptor, hdesc]
  split_ifs
  · cases f.sizelessHeader b with
    | readRest | expectMarker => exact .goOn ⟨rfl, rfl, rfl, by simpa using hsize⟩
    | reject =>
      exact .leave _ ⟨rfl, rfl, rfl, by simpa [ReaderWriter.setErrorState] using hsize⟩
  · exact .goOn ⟨rfl, rfl, rfl, by simpa using hsize⟩

theorem acceptHeaderSizeBytes (h : Paired f received r s) (hstate : r.state = .readHeaderSizeBytes)
    (bytes : List UInt8) :
    (f.acceptHeaderSizeBytes r bytes).Alike (f.acceptHeaderSizeBytes s bytes) := by
  obtain ⟨⟨hsame, hp, hrem, hsize⟩, hleft, hright⟩ := h
  by_cases hcomplete : bytes.length = r.remains
  · cases hleft with
    | stuck hr _ => simp [hr.state] at hstate
    | progress hr _ =>
      cases hright with
      | stuck hs _ => grind [hs.state]
      | progress hs _ =>
        cases hr with
        | sizeField _ hfresh hpos hreceived _ hend hheader =>
          cases hs with
          | sizeField _ hfresh' hpos' _ _ hend' hheader' =>
            obtain ⟨sb, haccept, -, hpayload, -⟩ := Progress.acceptHeaderSizeBytes_complete
              (f := f) hfresh hpos hreceived hend hheader hcomplete
            obtain ⟨sb', haccept', -, hpayload', -⟩ := Progress.acceptHeaderSizeBytes_complete
              (f := f) hfresh' hpos' hreceived hend' hheader' (hcomplete.trans hrem)
            rw [haccept, haccept']
            exact .goOn ⟨rfl, rfl, rfl, hpayload.trans hpayload'.symm⟩
          | _ => grind
        | _ => grind
  · simp only [MessageFormat.acceptHeaderSizeBytes, hcomplete, ← hrem, if_false]
    exact .goOn ⟨hsame, by simp only [hp], rfl, by simpa using hsize⟩

theorem headerReceived (hinfo : f.getPayloadInfo r.sb = f.getPayloadInfo s.sb) (h : Alike r s) :
    (f.headerReceived r).Alike (f.headerReceived s) := by
  obtain ⟨-, hpos, hremains, hsize⟩ := h
  simp only [MessageFormat.headerReceived, ← hinfo]
  cases f.getPayloadInfo r.sb with
  | absent => exact .goOn ⟨rfl, hpos, hremains, hsize⟩
  | invalid => exact .leave _ ⟨rfl, hpos, hremains, hsize⟩
  | present size usize compressor =>
    simp only
    split_ifs
    · refine .goOn ⟨rfl, rfl, rfl, ?_⟩
      simp only [SharedBuffers.payload_size_setPayloadSize]
    · exact .goOn ⟨rfl, hpos, hremains, hsize⟩

theorem payloadInfo_eq (hstream : received <+: stream)
    (hinfo : f.HeaderArrives stream → f.InfoKnown stream) (hfits : SizeFieldFits received)
    (haccepted : f.DescriptorAccepted received)
    (hreceived : 1 + sizeFieldLength received ≤ received.length)
    (hle : f.streamHeaderSize received ≤ received.length) (hpos : 0 < f.streamHeaderSize received)
    {m m' : ByteMemory} (hm : AgreeBelow (f.streamHeaderSize received) m (ofList received))
    (hm' : AgreeBelow (f.streamHeaderSize received) m' (ofList received)) (k : Nat) :
    f.payloadInfo m (max auxDataSize (f.streamHeaderSize received)) k =
      f.payloadInfo m' (max auxDataSize (f.streamHeaderSize received)) k := by
  obtain ⟨rest, rfl⟩ := hstream
  have hsize := f.streamHeaderSize_append received rest hreceived
  have hagree : AgreeBelow (f.streamHeaderSize received) (ofList received)
      (ofList (received ++ rest)) := (agreeBelow_ofList_append received rest).mono hle
  have harrives : f.HeaderArrives (received ++ rest) := by
    refine ⟨?_, hfits.append rest hreceived, ?_, ?_⟩
    · rw [sizeFieldLength_append received rest (by omega), List.length_append]
      omega
    · rw [hsize, List.length_append]
      omega
    · rw [sizeFieldLength_append received rest (by omega),
        ofList_append_zero received rest (by omega)]
      intro hsizeless
      obtain rfl | hsized | hok := haccepted
      · simp at hreceived
      · exact absurd hsizeless hsized
      · exact hok
  have heq := (hinfo harrives).payloadInfo_eq (by rw [hsize]; exact hpos)
    (by rw [hsize]; exact hm.trans hagree) (by rw [hsize]; exact hm'.trans hagree) k
  rwa [hsize] at heq

theorem acceptHeaderBytes (h : Paired f received r s) (hstate : r.state = .readHeaderBytes)
    (hstream : received ++ bytes <+: stream) (hinfo : f.HeaderArrives stream → f.InfoKnown stream)
    (hpos : 0 < bytes.length) (hroom : r.pos + bytes.length ≤ r.sb.getAvailableHeaderSize) :
    (f.acceptHeaderBytes r bytes).Alike (f.acceptHeaderBytes s bytes) := by
  obtain ⟨⟨hsame, hp, hrem, hsize⟩, hleft, hright⟩ := h
  by_cases hcomplete : bytes.length = r.remains
  · cases hleft with
    | stuck hr _ =>
      have havailable := hr.available
      have hbeyond := hr.beyond
      omega
    | progress hr hfits =>
      cases hright with
      | stuck hs _ => grind
      | progress hs _ =>
        cases hr with
        | header _ havailable hpayload hpos hreceived _ hend hheader =>
          cases hs with
          | header _ havailable' hpayload' hpos' _ _ hend' hheader' =>
            obtain ⟨hfits, haccepted⟩ := hfits.resolve_right (by simp [hstate])
            have hlength : (received ++ bytes).length = f.streamHeaderSize (received ++ bytes) := by
              rw [f.streamHeaderSize_append received bytes hreceived, List.length_append]
              omega
            have hfield := sizeFieldLength_append received bytes (by omega)
            have hwritten {q : ReaderWriter} (hpos : q.pos = received.length)
                (hheader : AgreeBelow received.length q.sb.header (ofList received)) :
                AgreeBelow (f.streamHeaderSize (received ++ bytes))
                  (q.sb.writeHeader q.pos bytes).header (ofList (received ++ bytes)) := by
              rw [← hlength, SharedBuffers.header_writeHeader, hpos]
              exact hheader.write_ofList bytes
            have heq := payloadInfo_eq hstream hinfo (hfits.append bytes hreceived)
              (.inr (by
                rw [hfield, ofList_append_zero received bytes (by omega)]
                refine haccepted.resolve_left fun hempty => ?_
                simp [hempty] at hreceived))
              (by rw [hfield, List.length_append]; omega) (Nat.le_of_eq hlength.symm)
              (by rw [← hlength, List.length_append]; omega)
              (hwritten hpos hheader) (hwritten hpos' hheader') 0
            rw [f.streamHeaderSize_append received bytes hreceived] at heq
            simp only [MessageFormat.acceptHeaderBytes, hcomplete, ← hrem, if_true]
            refine headerReceived ?_ ⟨hsame, hp, rfl, by simpa using hsize⟩
            simp only [MessageFormat.getPayloadInfo,
              SharedBuffers.getAvailableHeaderSize_writeHeader, SharedBuffers.payload_writeHeader,
              havailable, havailable', hpayload, hpayload', heq]
          | _ => grind
        | _ => grind
  · simp only [MessageFormat.acceptHeaderBytes, hcomplete, ← hrem, if_false]
    exact .goOn ⟨hsame, by simp only [hp], rfl, by simpa using hsize⟩

theorem acceptPayloadBytes (h : Alike r s) (bytes : List UInt8) :
    (f.acceptPayloadBytes r bytes).Alike (f.acceptPayloadBytes s bytes) := by
  obtain ⟨hsame, hp, hrem, hsize⟩ := h
  simp only [MessageFormat.acceptPayloadBytes, ← hrem]
  split_ifs
  · exact .goOn ⟨rfl, hp, rfl, hsize⟩
  · exact .leave _ ⟨hsame, by simp only [hp], rfl, hsize⟩
  · exact .goOn ⟨hsame, by simp only [hp], rfl, hsize⟩

theorem acceptMarkerByte (h : Alike r s) (bytes : List UInt8) :
    (MessageFormat.acceptMarkerByte r bytes).Alike (MessageFormat.acceptMarkerByte s bytes) := by
  simp only [MessageFormat.acceptMarkerByte]
  split_ifs
  · exact .leave _ ⟨rfl, rfl, rfl, h.payloadSize⟩
  · exact .leave _ ⟨rfl, h.pos, h.remains, h.payloadSize⟩

theorem accept (h : Paired f received r s) (hask : r.pass = .ask r' request)
    (hask' : s.pass = .ask s' request) (hnext : Paired f received r' s')
    (hstream : received ++ bytes <+: stream) (hinfo : f.HeaderArrives stream → f.InfoKnown stream)
    (hne : bytes ≠ []) (hle : bytes.length ≤ request.count)
    (hroom : request.offset + bytes.length ≤ r'.areaSize request.area) :
    (f.accept r' bytes).Alike (f.accept s' bytes) ∧
      Tracked f (received ++ bytes) (f.accept r' bytes).reader ∧
      Tracked f (received ++ bytes) (f.accept s' bytes).reader := by
  have hpos : 0 < bytes.length := List.length_pos_iff.mpr hne
  refine ⟨?_, h.left.accept hask hne hle hroom,
    h.right.accept hask' hne hle (h.areaSize_eq hask hnext ▸ hroom)⟩
  have hsame := hnext.alike.state
  obtain ⟨-, rfl, rfl⟩ | ⟨hs | hs, rfl, rfl⟩ | ⟨hs, rfl, rfl⟩ | ⟨hs, -, rfl, rfl⟩ :=
    ReaderWriter.pass_eq_ask hask
  · obtain ⟨b, rfl⟩ := List.length_eq_one_iff.mp (Nat.le_antisymm hle hpos)
    simp only [MessageFormat.accept, ← hsame]
    exact hnext.acceptDescriptor b
  · simp only [MessageFormat.accept, ← hsame, hs]
    exact hnext.acceptHeaderSizeBytes hs bytes
  · simp only [MessageFormat.accept, ← hsame, hs]
    exact hnext.acceptHeaderBytes hs hstream hinfo hpos hroom
  · simp only [MessageFormat.accept, ← hsame, hs]
    exact acceptPayloadBytes hnext.alike bytes
  · simp only [MessageFormat.accept, ← hsame, hs]
    exact acceptMarkerByte hnext.alike bytes

end Paired

/-! ## Two runs -/

/-- Two calls that ended alike, with readers that were given the same bytes. -/
structure SameCall (f : MessageFormat) (stream : List UInt8) (call call' : ReadCall) : Prop where
  outcome : call.outcome = call'.outcome
  ntotal : call.ntotal = call'.ntotal
  device : call.device = call'.device
  paired : ∃ received, received <+: stream ∧ Paired f received call.reader call'.reader ∧
    (call.outcome ≠ .overrun → received ++ call.device.incoming = stream)

namespace Paired

open MessageFormat

variable {f : MessageFormat} {received stream incoming : List UInt8} {r s : ReaderWriter}

theorem readLoop (hinfo : f.HeaderArrives stream → f.InfoKnown stream) {schedule : List Delivery}
    {ntotal : Nat} {asked asked' : List (ReaderWriter × Request)} (h : Paired f received r s)
    (hstream : received ++ incoming = stream) :
    SameCall f stream (f.readLoop schedule incoming r ntotal asked)
      (f.readLoop schedule incoming s ntotal asked') := by
  have hpart : received <+: stream := ⟨incoming, hstream⟩
  induction schedule generalizing received incoming r s ntotal asked asked' with
  | nil =>
    obtain ⟨r', s', request, hr, hs, hnext⟩ | ⟨r', s', result, hr, hs, hnext⟩ := h.pass
    · rw [readLoop_nil hr, readLoop_nil hs]
      exact ⟨rfl, rfl, rfl, received, hpart, hnext, fun _ => hstream⟩
    · rw [readLoop_leave hr, readLoop_leave hs]
      exact ⟨rfl, rfl, rfl, received, hpart, hnext, fun _ => hstream⟩
  | cons delivery schedule ih =>
    obtain ⟨r', s', request, hr, hs, hnext⟩ | ⟨r', s', result, hr, hs, hnext⟩ := h.pass
    · cases hrecv : delivery.recv incoming request.count with
      | mk result bytes =>
        cases result with
        | retry =>
          rw [readLoop_retry hr hrecv, readLoop_retry hs hrecv]
          exact ⟨rfl, rfl, rfl, received, hpart, hnext, fun _ => hstream⟩
        | eof | error =>
          rw [readLoop_fail hr hrecv (by simp), readLoop_fail hs hrecv (by simp)]
          refine ⟨rfl, rfl, rfl, received, hpart, ⟨?_, .fail r', .fail s'⟩, fun _ => hstream⟩
          exact ⟨rfl, hnext.alike.pos, hnext.alike.remains, hnext.alike.payloadSize⟩
        | ok =>
          obtain ⟨hne, hle, hsplit⟩ := Delivery.recv_ok hrecv
          have hstream' : (received ++ bytes) ++ incoming.drop bytes.length = stream := by
            rw [List.append_assoc, ← hsplit, hstream]
          have harea := h.areaSize_eq hr hnext
          by_cases hroom : request.offset + bytes.length ≤ r'.areaSize request.area
          · obtain ⟨halike, hleft, hright⟩ :=
              h.accept hr hs hnext ⟨_, hstream'⟩ hinfo hne hle hroom
            generalize hv : f.accept r' bytes = v at halike hleft
            generalize hw : f.accept s' bytes = w at halike hright
            cases halike with
            | goOn hsame =>
              rw [readLoop_goOn hr hrecv hroom hv, readLoop_goOn hs hrecv (harea ▸ hroom) hw]
              exact ih ⟨hsame, hleft, hright⟩ hstream' ⟨_, hstream'⟩
            | leave result hsame =>
              rw [readLoop_return hr hrecv hroom hv, readLoop_return hs hrecv (harea ▸ hroom) hw]
              exact ⟨rfl, rfl, rfl, _, ⟨_, hstream'⟩, ⟨hsame, hleft, hright⟩, fun _ => hstream'⟩
          · rw [readLoop_overrun hr hrecv (by omega), readLoop_overrun hs hrecv (by omega)]
            exact ⟨rfl, rfl, rfl, received, hpart, hnext, fun hover => absurd rfl hover⟩
    · rw [readLoop_leave hr, readLoop_leave hs]
      exact ⟨rfl, rfl, rfl, received, hpart, hnext, fun _ => hstream⟩

theorem readCalls (hinfo : f.HeaderArrives stream → f.InfoKnown stream) {n : Nat}
    {schedule : List Delivery} (h : Paired f received r s)
    (hstream : received ++ incoming = stream) :
    List.Forall₂ (SameCall f stream) (f.readCalls n r ⟨incoming, schedule⟩)
      (f.readCalls n s ⟨incoming, schedule⟩) := by
  induction n generalizing received incoming schedule r s with
  | zero => exact .nil
  | succ n ih =>
    have hcall : SameCall f stream (f.read r ⟨incoming, schedule⟩)
        (f.read s ⟨incoming, schedule⟩) := h.readLoop hinfo hstream
    simp only [MessageFormat.readCalls]
    refine .cons hcall ?_
    rw [← hcall.outcome, ← hcall.device]
    split_ifs with hretry
    · obtain ⟨received', -, hnext, hstream'⟩ := hcall.paired
      exact ih hnext (hstream' (by simp [hretry]))
    · exact .nil

end Paired

end CyberCache
