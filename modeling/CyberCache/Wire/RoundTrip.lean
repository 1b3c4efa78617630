import CyberCache.Wire.BuiltHeaders

/-!
# Commands and responses arrive as they were built

A header that was put together by a chunk builder is well-formed, so the writer sends it and the
reader accepts it; what the accessors and the chunk iterator then find in the reader's buffers is
what the builder was given.
-/

namespace CyberCache

open ByteMemory HeaderChunkBuilder

/-! ## Descriptors -/

/-- Which of the three widths `put_size_bytes()` chooses. -/
def sizeClass (size : Nat) : Fin 4 :=
  if size ≤ 0xFF then 1 else if size ≤ 0xFFFF then 2 else 3

/-- Number of bytes of a size field by its two bits in the descriptor. -/
def fieldLength : Fin 4 → Nat
  | 0 => 0
  | 1 => 1
  | 2 => 2
  | 3 => 4

theorem estimateSizeBytes_eq (size : Nat) :
    estimateSizeBytes size = fieldLength (sizeClass size) := by
  unfold estimateSizeBytes sizeClass
  split_ifs <;> rfl

theorem lt_estimateSizeBytes {size reference : Nat} (h : size ≤ reference)
    (hlt : reference < uintRange) : size < 256 ^ estimateSizeBytes reference := by
  simp only [uintRange] at hlt
  unfold estimateSizeBytes
  split_ifs <;> omega

theorem ofBytesLE_sizeBytes {size reference : Nat} (h : size ≤ reference)
    (hlt : reference < uintRange) : ofBytesLE (sizeBytes size reference) = size :=
  ofBytesLE_toBytesLE (lt_estimateSizeBytes h hlt)

/-- Descriptors made of their parts: every question gets the answer of its own part. -/
theorem descriptor_bits : ∀ (t : Fin 4) (marker compressed : Bool) (s p : Fin 4),
    let d := (UInt8.ofNat t ||| bif marker then descMarkerIsPresent else 0) |||
      (bif compressed then descPayloadIsCompressed else 0) ||| UInt8.ofNat (4 * s) |||
      UInt8.ofNat (16 * p)
    d &&& descAuthBits = UInt8.ofNat t ∧ headerDataSizeLength d = fieldLength s ∧
      (d &&& descHeaderBits = descNoHeader ↔ s = 0) ∧ payloadSizeLength d = fieldLength p ∧
      (d &&& descPayloadBits = descNoPayload ↔ p = 0) ∧ payloadIsCompressed d = compressed := by
  decide +kernel

/-- A source of headers for messages of format `f`: the initial descriptor has nothing but the type
of the message and its marker bit, and the type determines what stands before the payload
information. -/
structure HeaderSource.Suits (source : HeaderSource) (f : MessageFormat) : Prop where
  initializer : ∃ (t : Fin 4) (marker : Bool), source.descriptorInitializer =
    UInt8.ofNat t ||| bif marker then descMarkerIsPresent else 0
  fixed : ∀ desc, desc &&& descAuthBits = source.descriptorInitializer &&& descAuthBits →
    f.fixedLength desc = fixedSize source

def builtDescriptor (source : HeaderSource) (payload : Option Payload) (chunks : List Chunk) :
    UInt8 :=
  initialDescriptor source payload ||| headerMask (dataSize source payload chunks) |||
    payloadMask payload

/-- What the parts of a header say about it through its descriptor. -/
structure DescriptorSays (f : MessageFormat) (source : HeaderSource) (payload : Option Payload)
    (chunks : List Chunk) : Prop where
  type : builtDescriptor source payload chunks &&& descAuthBits =
    source.descriptorInitializer &&& descAuthBits
  fixed : f.fixedLength (builtDescriptor source payload chunks) = fixedSize source
  sizeField : headerDataSizeLength (builtDescriptor source payload chunks) =
    (sizePart (dataSize source payload chunks)).length
  sizeless : builtDescriptor source payload chunks &&& descHeaderBits = descNoHeader ↔
    dataSize source payload chunks = 0
  payloadSize : ∀ p ∈ payload,
    payloadSizeLength (builtDescriptor source payload chunks) = estimateSizeBytes p.usize
  noPayload : builtDescriptor source payload chunks &&& descPayloadBits = descNoPayload ↔
    payload = none
  compressed : payloadIsCompressed (builtDescriptor source payload chunks) =
    payload.any (·.compressor ≠ ctNone)

theorem sizeMask_eq (size : Nat) :
    sizeMask size descByteHeader descWordHeader descDwordHeader =
        UInt8.ofNat (4 * (sizeClass size : Nat)) ∧
      sizeMask size descBytePayload descWordPayload descDwordPayload =
        UInt8.ofNat (16 * (sizeClass size : Nat)) ∧ sizeClass size ≠ 0 := by
  unfold sizeMask sizeClass
  split_ifs <;> decide

theorem HeaderSource.Suits.descriptorSays {f : MessageFormat} {source : HeaderSource}
    (h : source.Suits f) (payload : Option Payload) (chunks : List Chunk) :
    DescriptorSays f source payload chunks := by
  obtain ⟨t, marker, hinit⟩ := h.initializer
  obtain ⟨s, hs, hsl, hs0⟩ : ∃ s : Fin 4,
      headerMask (dataSize source payload chunks) = UInt8.ofNat (4 * s) ∧
      (sizePart (dataSize source payload chunks)).length = fieldLength s ∧
      (s = 0 ↔ dataSize source payload chunks = 0) := by
    unfold headerMask sizePart
    split_ifs with hpos
    · obtain ⟨hmask, -, hne⟩ := sizeMask_eq (dataSize source payload chunks)
      exact ⟨_, hmask, by rw [length_sizeBytes, estimateSizeBytes_eq],
        ⟨fun h0 => absurd h0 hne, fun h0 => by omega⟩⟩
    · exact ⟨0, rfl, rfl, ⟨fun _ => by omega, fun _ => rfl⟩⟩
  obtain ⟨p, hp, hpl, hp0⟩ : ∃ p : Fin 4, payloadMask payload = UInt8.ofNat (16 * p) ∧
      (∀ q ∈ payload, estimateSizeBytes q.usize = fieldLength p) ∧ (p = 0 ↔ payload = none) := by
    cases payload with
    | none => exact ⟨0, rfl, by simp, by simp⟩
    | some q =>
      obtain ⟨-, hmask, hne⟩ := sizeMask_eq q.usize
      refine ⟨_, hmask, ?_, ⟨fun h0 => absurd h0 hne, by simp⟩⟩
      rintro _ ⟨⟩
      exact estimateSizeBytes_eq q.usize
  have hinitial : initialDescriptor source payload =
      (UInt8.ofNat t ||| bif marker then descMarkerIsPresent else 0) |||
        (bif payload.any (·.compressor ≠ ctNone) then descPayloadIsCompressed else 0) := by
    unfold initialDescriptor
    rw [hinit]
    cases payload.any (·.compressor ≠ ctNone) <;> simp
  have hbits := descriptor_bits t marker (payload.any (·.compressor ≠ ctNone)) s p
  have htype : source.descriptorInitializer &&& descAuthBits = UInt8.ofNat t := by
    have := (descriptor_bits t marker false 0 0).1
    rw [hinit]
    simpa using this
  have hbuilt : builtDescriptor source payload chunks = initialDescriptor source payload |||
      UInt8.ofNat (4 * s) ||| UInt8.ofNat (16 * p) := by
    rw [builtDescriptor, hs, hp]
  simp only [← hinitial, ← hbuilt] at hbits
  obtain ⟨h₁, h₂, h₃, h₄, h₅, h₆⟩ := hbits
  exact ⟨h₁.trans htype.symm, h.fixed _ (h₁.trans htype.symm), h₂.trans hsl.symm, h₃.trans hs0,
    fun q hq => h₄.trans (hpl q hq).symm, h₅.trans hp0, h₆⟩

/-! ## Built headers are well-formed -/

/-- What `get_payload_info()` should find for a payload. -/
def Payload.info : Option Payload → PayloadInfo
  | none => .absent
  | some p => .present p.bytes.length p.usize p.compressor

theorem slice_part {m : ByteMemory} {bytes : List UInt8}
    (hm : AgreeBelow bytes.length m (ofList bytes)) (xs ys zs : List UInt8)
    (h : bytes = xs ++ ys ++ zs) : m.slice xs.length ys.length = ys := by
  subst h
  rw [hm.slice_eq (by simp)]
  simpa [ofList] using slice_write_append (fun _ => 0) 0 xs ys zs

theorem readLE_part {m : ByteMemory} {bytes : List UInt8}
    (hm : AgreeBelow bytes.length m (ofList bytes)) (xs zs : List UInt8) {size reference : Nat}
    (hsize : size ≤ reference) (hlt : reference < uintRange)
    (h : bytes = xs ++ sizeBytes size reference ++ zs) :
    m.readLE xs.length (estimateSizeBytes reference) = size := by
  have hslice := slice_part hm xs (sizeBytes size reference) zs h
  rw [length_sizeBytes] at hslice
  rw [readLE, hslice, ofBytesLE_sizeBytes hsize hlt]

section Built

variable {f : MessageFormat} {source : HeaderSource} {payload : Option Payload}
  {chunks : List Chunk}

theorem header_eq (source : HeaderSource) (payload : Option Payload) (chunks : List Chunk) :
    header source payload chunks = [builtDescriptor source payload chunks] ++
      sizePart (dataSize source payload chunks) ++ fixedPart source ++ infoPart payload ++
      chunks.flatMap Chunk.encode := by
  simp [header, builtDescriptor]

theorem ofList_header_zero (source : HeaderSource) (payload : Option Payload)
    (chunks : List Chunk) :
    ofList (header source payload chunks) 0 = builtDescriptor source payload chunks := by
  rw [ofList_of_lt (by simp [header])]
  rfl

theorem length_header_eq (source : HeaderSource) (payload : Option Payload) (chunks : List Chunk) :
    (header source payload chunks).length =
      1 + (sizePart (dataSize source payload chunks)).length + fixedSize source +
        payloadInfoSize payload + (chunks.flatMap Chunk.encode).length := by
  simp only [header_eq, List.length_append, List.length_cons, List.length_nil, length_fixedPart,
    length_infoPart, Nat.zero_add]

theorem DescriptorSays.infoLength (h : DescriptorSays f source payload chunks) :
    payloadInfoLength (builtDescriptor source payload chunks) = payloadInfoSize payload := by
  cases payload with
  | none => rw [payloadInfoLength, if_pos (h.noPayload.mpr rfl), payloadInfoSize]
  | some p =>
    rw [payloadInfoLength, if_neg (fun hnone => by simpa using h.noPayload.mp hnone), h.compressed,
      h.payloadSize p rfl, payloadInfoSize]
    by_cases hp : p.compressor = ctNone
    · simp [hp]
    · simp [hp, Nat.mul_comm]

theorem DescriptorSays.infoOffset (h : DescriptorSays f source payload chunks) :
    f.payloadInfoOffset (builtDescriptor source payload chunks) =
      1 + (sizePart (dataSize source payload chunks)).length + fixedSize source := by
  rw [MessageFormat.payloadInfoOffset, h.sizeField, h.fixed, Nat.add_comm _ 1]

def front (source : HeaderSource) (payload : Option Payload) (chunks : List Chunk) : List UInt8 :=
  [builtDescriptor source payload chunks] ++ sizePart (dataSize source payload chunks) ++
    fixedPart source

theorem DescriptorSays.infoOffset_eq (h : DescriptorSays f source payload chunks) :
    f.payloadInfoOffset (builtDescriptor source payload chunks) =
      (front source payload chunks).length := by
  rw [h.infoOffset, front]
  simp only [List.length_append, List.length_cons, List.length_nil, length_fixedPart, Nat.zero_add]

theorem DescriptorSays.payloadInfo (h : DescriptorSays f source payload chunks)
    (hvalid : ∀ p ∈ payload, p.Valid) {m : ByteMemory} {available received : Nat}
    (hm : AgreeBelow (header source payload chunks).length m
      (ofList (header source payload chunks)))
    (havailable : (header source payload chunks).length ≤ available)
    (hreceived : received = 0 ∨ received = ((payload.map Payload.bytes).getD []).length) :
    f.payloadInfo m available received = Payload.info payload := by
  have hlength := length_header_eq source payload chunks
  have hoffset := h.infoOffset
  have hdesc : m 0 = builtDescriptor source payload chunks := by
    rw [hm 0 (by omega), ofList_header_zero]
  have hfits : ¬available < f.payloadInfoOffset (builtDescriptor source payload chunks) +
      payloadInfoLength (builtDescriptor source payload chunks) := by
    rw [h.infoLength]
    omega
  simp only [MessageFormat.payloadInfo, hdesc, hfits, if_false]
  cases payload with
  | none => rw [if_pos (h.noPayload.mpr rfl), Payload.info]
  | some p =>
    rw [if_neg (fun hnone => by simpa using h.noPayload.mp hnone), h.payloadSize p rfl,
      h.compressed, Payload.info]
    have hkept : ¬(0 < received ∧ received ≠ p.bytes.length) := by
      simp only [Option.map_some, Option.getD_some] at hreceived
      omega
    obtain ⟨husize, ⟨hnone, hsize⟩ | ⟨hcomp, hknown, hpos, hsize⟩⟩ := hvalid p rfl
    · have hread := readLE_part hm (front source (some p) chunks) (chunks.flatMap Chunk.encode)
        (Nat.le_of_eq hsize) husize (by simp [header_eq, front, infoPart, hnone])
      simp only [hnone, ne_eq, not_true, decide_false, Option.any_some, Bool.false_eq_true,
        if_false, h.infoOffset_eq, hread, hkept]
      rw [hsize]
    · have hcompressor := slice_part hm (front source (some p) chunks) [p.compressor]
        (sizeBytes p.bytes.length p.usize ++ sizeBytes p.usize p.usize ++
          chunks.flatMap Chunk.encode) (by simp [header_eq, front, infoPart, hcomp])
      have hread := readLE_part hm (front source (some p) chunks ++ [p.compressor])
        (sizeBytes p.usize p.usize ++ chunks.flatMap Chunk.encode) (Nat.le_of_lt hsize) husize
        (by simp [header_eq, front, infoPart, hcomp])
      have hreadu := readLE_part hm (front source (some p) chunks ++ [p.compressor] ++
        sizeBytes p.bytes.length p.usize) (chunks.flatMap Chunk.encode) (Nat.le_refl _) husize
        (by simp [header_eq, front, infoPart, hcomp])
      simp only [List.length_append, List.length_singleton, length_sizeBytes] at hread hreadu
      simp only [List.length_singleton, slice_succ, List.cons.injEq] at hcompressor
      have hok : ¬(p.compressor = ctNone ∨ ctNumberOfElements ≤ p.compressor ∨
          p.bytes.length = 0 ∨ p.usize ≤ p.bytes.length) := by
        rintro (h | h | h | h)
        · exact hcomp h
        · exact absurd hknown (UInt8.not_lt.mpr h)
        · omega
        · omega
      have hflag : (some p).any (·.compressor ≠ ctNone) = true := by simp [hcomp]
      simp only [hflag, if_true, h.infoOffset_eq, hcompressor.1, hread, hreadu, hok, hkept,
        if_false]

theorem sizeFieldLength_header (h : DescriptorSays f source payload chunks) :
    sizeFieldLength (header source payload chunks) =
      (sizePart (dataSize source payload chunks)).length := by
  rw [sizeFieldLength, ofList_header_zero, h.sizeField]

section

variable (hlt : (header source payload chunks).length < uintRange)
include hlt

theorem sizeField_header (h : DescriptorSays f source payload chunks)
    (hpos : 0 < dataSize source payload chunks) :
    sizeField (header source payload chunks) = dataSize source payload chunks := by
  have hpart : sizePart (dataSize source payload chunks) =
      sizeBytes (dataSize source payload chunks) (dataSize source payload chunks) := if_pos hpos
  have hlength := length_header source payload chunks
  rw [if_pos hpos] at hlength
  have hread := readLE_part
    (AgreeBelow.refl (header source payload chunks).length (ofList (header source payload chunks)))
    [builtDescriptor source payload chunks]
    (fixedPart source ++ infoPart payload ++ chunks.flatMap Chunk.encode) (Nat.le_refl _)
    (by omega : dataSize source payload chunks < uintRange)
    (by simp only [header_eq, hpart, List.append_assoc])
  rw [sizeField, sizeFieldLength_header h, hpart, length_sizeBytes]
  exact hread

/-- The size that readers compute from the size field, or from the descriptor if there is none. -/
theorem streamHeaderSize_header (h : DescriptorSays f source payload chunks) :
    f.streamHeaderSize (header source payload chunks) = (header source payload chunks).length := by
  have hfull := length_header source payload chunks
  have hfield := sizeFieldLength_header h
  rw [sizePart] at hfield
  split_ifs at hfull hfield with hpos
  · have hbytes := estimateSizeBytes_pos (dataSize source payload chunks)
    rw [length_sizeBytes] at hfield
    rw [f.streamHeaderSize_of_sized (by omega), sizeField_header hlt h hpos,
      Nat.mod_eq_of_lt (by omega)]
    omega
  · rw [List.length_nil] at hfield
    rw [f.streamHeaderSize_of_sizeless hfield, ofList_header_zero, h.fixed, hfull]

/-- A header that was built is well-formed, unless it is one without a size field that readers of
its format do not accept. -/
theorem built_wellFormed (hsuits : source.Suits f)
    (hvalid : ∀ p ∈ payload, p.Valid)
    (haccepted : dataSize source payload chunks = 0 →
      f.sizelessHeader (builtDescriptor source payload chunks) ≠ .reject) :
    WellFormed f (header source payload chunks) ((payload.map Payload.bytes).getD []) := by
  have h := hsuits.descriptorSays payload chunks
  have hlength := length_header_eq source payload chunks
  have hfield := sizeFieldLength_header h
  refine ⟨by omega, fun hsome _ => ?_, streamHeaderSize_header hlt h, fun hzero => ?_, ?_, ?_⟩
  · have hpos : 0 < dataSize source payload chunks := by
      by_contra hzero
      rw [hfield, sizePart, if_neg hzero] at hsome
      exact absurd hsome (by simp)
    have hfull := length_header source payload chunks
    rw [if_pos hpos] at hfull
    rw [sizeField_header hlt h hpos, hfield, sizePart, if_pos hpos, length_sizeBytes]
    omega
  · rw [ofList_header_zero]
    refine haccepted (Nat.eq_zero_of_not_pos fun hpos => ?_)
    have hbytes := estimateSizeBytes_pos (dataSize source payload chunks)
    rw [hfield, sizePart, if_pos hpos, length_sizeBytes] at hzero
    omega
  · rw [ofList_header_zero, h.infoOffset, h.infoLength]
    omega
  · rw [h.payloadInfo hvalid (AgreeBelow.refl _ _) (Nat.le_refl _) (.inl rfl)]
    cases payload <;> rfl

theorem getHeaderInfo_built (h : DescriptorSays f source payload chunks) {m : ByteMemory}
    (hm : AgreeBelow (header source payload chunks).length m
      (ofList (header source payload chunks))) :
    f.getHeaderInfo m =
      if 0 < (chunks.flatMap Chunk.encode).length then
        some ((front source payload chunks ++ infoPart payload).length,
          (chunks.flatMap Chunk.encode).length)
      else none := by
  have hlength := length_header_eq source payload chunks
  have hfield := sizeFieldLength_header h
  have hdesc : m 0 = builtDescriptor source payload chunks := by
    rw [hm 0 (by omega), ofList_header_zero]
  have hsize : f.headerSize m = (header source payload chunks).length := by
    rw [← streamHeaderSize_header hlt h]
    apply f.headerSize_congr
    rw [hdesc, h.sizeField]
    exact hm.mono (by omega)
  have hoffset : f.payloadInfoOffset (builtDescriptor source payload chunks) +
      payloadInfoLength (builtDescriptor source payload chunks) =
      (front source payload chunks ++ infoPart payload).length := by
    rw [List.length_append, h.infoOffset_eq, h.infoLength, length_infoPart]
  have hend : (header source payload chunks).length =
      (front source payload chunks ++ infoPart payload).length +
        (chunks.flatMap Chunk.encode).length := by
    rw [header_eq, front, List.length_append]
  simp only [MessageFormat.getHeaderInfo, hdesc, hsize, hoffset, h.sizeless]
  by_cases hpos : 0 < (chunks.flatMap Chunk.encode).length
  · have hsized := (dataSize_pos_iff source payload chunks).mpr (.inl hpos)
    rw [if_neg (by omega), if_pos (by omega), if_pos hpos, hend, Nat.add_sub_cancel_left]
  · rw [if_neg hpos]
    split_ifs <;> first | rfl | omega

theorem takeChunks_built (h : DescriptorSays f source payload chunks)
    (hchunks : ∀ c ∈ chunks, c.Valid) {sb : SharedBuffers}
    (hm : AgreeBelow (header source payload chunks).length sb.header
      (ofList (header source payload chunks))) :
    ∃ it, (HeaderChunkIterator.create f sb).takeChunks chunks.length = (chunks, it) ∧
      it.hasMoreChunks = false := by
  have hinfo := getHeaderInfo_built hlt h hm
  have hsplit : header source payload chunks = front source payload chunks ++ infoPart payload ++
      chunks.flatMap Chunk.encode := by
    rw [header_eq, front]
  rw [hsplit, List.length_append] at hlt
  by_cases hpos : 0 < (chunks.flatMap Chunk.encode).length
  · rw [if_pos hpos] at hinfo
    have hslice := slice_part hm (front source payload chunks ++ infoPart payload)
      (chunks.flatMap Chunk.encode) [] (by rw [hsplit, List.append_nil])
    have hbefore : HeaderChunkIterator.Before ⟨sb.header,
        (front source payload chunks ++ infoPart payload).length,
        (chunks.flatMap Chunk.encode).length, true⟩ (chunks.flatMap Chunk.encode) :=
      ⟨hslice, Nat.le_refl _, hlt⟩
    simp only [HeaderChunkIterator.create, HeaderChunkIterator.ofHeader, hinfo]
    refine ⟨_, HeaderChunkIterator.takeChunks_encode hchunks hbefore, ?_⟩
    rw [hbefore.skip_eq (Nat.le_refl _)]
    simp [HeaderChunkIterator.hasMoreChunks]
  · rw [if_neg hpos] at hinfo
    have hnone : chunks = [] := by
      cases chunks with
      | nil => rfl
      | cons c chunks =>
        have := c.length_encode_pos
        simp only [List.flatMap_cons, List.length_append] at hpos
        omega
    refine ⟨HeaderChunkIterator.create f sb, by rw [hnone]; rfl, ?_⟩
    simp [HeaderChunkIterator.create, HeaderChunkIterator.ofHeader, hinfo,
      HeaderChunkIterator.hasMoreChunks]

end

end Built

/-! ## Round trips -/

theorem WellFormed.read_holds {f : MessageFormat} {header payload rest : List UInt8}
    (hm : WellFormed f header payload) {sb : SharedBuffers} (hfresh : sb.Fresh) {n : Nat}
    {schedule : List Delivery} {call : ReadCall}
    (hcall : call ∈ f.readCalls n (.create sb) ⟨message header payload ++ rest, schedule⟩)
    (hok : call.outcome = .returns .ok) (hdone : call.reader.state = .readDone)
    (hrest : call.device.incoming = rest) :
    call.reader.sb.Holds header payload ∧
      header.length ≤ call.reader.sb.getAvailableHeaderSize := by
  have hfits : SizeFieldFits (message header payload ++ rest) := by
    rw [message, List.append_assoc, List.append_assoc]
    intro hpos _
    rw [sizeFieldLength_append header _ hm.header_pos] at hpos ⊢
    rw [sizeField_append header _ hm.sizeField]
    exact hm.fits hpos hm.sizeField
  obtain ⟨received, hreceived, hprogress⟩ :=
    ((f.progress_invariant hfits).readCalls (.create hfresh) (List.nil_append _) call hcall).final
      (by simp [hok])
  rw [hrest] at hreceived
  have hreceived := List.append_cancel_right hreceived
  cases hprogress with
  | done body _ hbody hsplit =>
    have hsplit' := hsplit.symm.trans hreceived
    obtain ⟨rfl, -⟩ := hm.body_length hsplit' hbody
    have hsize : f.streamHeaderSize (header ++ payload) = header.length := by
      rw [f.streamHeaderSize_append header payload hm.sizeField, hm.length]
    have hlength := hbody.length
    have hheader := hbody.header
    have hpayload := hbody.payload
    have havailable := hbody.available
    rw [hsize] at hheader hpayload hlength havailable
    rw [List.length_append] at hlength
    rw [List.drop_left] at hpayload
    have hpsize : call.reader.sb.payload.size = payload.length := by omega
    refine ⟨⟨hheader.trans (agreeBelow_ofList_append header payload).symm, hpsize, ?_⟩, by omega⟩
    rwa [hpsize] at hpayload
  | _ => simp_all

/-- On a device that goes on accepting bytes, the writer sends these bytes and nothing else. -/
def Emits (f : MessageFormat) (w : ReaderWriter) (bytes : List UInt8) : Prop :=
  ∀ schedule : List Delivery, (∀ d ∈ schedule, d.Delivers) →
    bytes.length ≤ schedule.countP Delivery.isTransfer →
    ∃ calls last, f.writeCalls (schedule.length + 1) w schedule = calls ++ [last] ∧
      (∀ call ∈ calls, call.result = .retry) ∧ last.result = .ok ∧
      (calls ++ [last]).flatMap WriteCall.output = bytes

/-- On a device that goes on delivering these bytes and whatever follows them, a new reader takes
the bytes and nothing else, and ends with buffers of which `p` holds. -/
def Accepts (f : MessageFormat) (bytes : List UInt8) (p : SharedBuffers → Prop) : Prop :=
  ∀ sb : SharedBuffers, sb.Fresh → ∀ (rest : List UInt8) (schedule : List Delivery),
    (∀ d ∈ schedule, d.Delivers) → bytes.length ≤ schedule.countP Delivery.isTransfer →
    ∃ calls last, f.readCalls (schedule.length + 1) (.create sb) ⟨bytes ++ rest, schedule⟩ =
        calls ++ [last] ∧
      (∀ call ∈ calls, call.outcome = .returns .retry) ∧ last.outcome = .returns .ok ∧
      last.device.incoming = rest ∧ p last.reader.sb

theorem WellFormed.emits {f : MessageFormat} {header payload : List UInt8}
    (hm : WellFormed f header payload) {w : ReaderWriter} (hstate : w.state = .writeReady)
    (hholds : w.sb.Holds header payload) : Emits f w (message header payload) := by
  intro schedule hschedule henough
  obtain ⟨hsending, hunsent⟩ := hm.unsent_eq hstate hholds
  rw [← hunsent] at henough ⊢
  obtain ⟨calls, last, hcalls, hretry, hok, -, houtput, -⟩ :=
    hsending.writeCalls_completed hschedule henough (Nat.lt_succ_self _)
  exact ⟨calls, last, hcalls, hretry, hok, houtput⟩

theorem WellFormed.accepts {f : MessageFormat} {header payload : List UInt8}
    (hm : WellFormed f header payload) {p : SharedBuffers → Prop}
    (hp : ∀ sb : SharedBuffers, sb.Holds header payload →
      header.length ≤ sb.getAvailableHeaderSize → p sb) :
    Accepts f (message header payload) p := by
  intro sb hfresh rest schedule hschedule henough
  obtain ⟨calls, last, hcalls, hretry, hok, hreader, hincoming, -⟩ :=
    (Underway.create hfresh).readCalls_completed hm hschedule henough (Nat.lt_succ_self _)
  have hlast : last ∈ f.readCalls (schedule.length + 1) (.create sb)
      ⟨message header payload ++ rest, schedule⟩ := by
    rw [hcalls]
    simp
  obtain ⟨hholds, havailable⟩ :=
    hm.read_holds hfresh hlast hok (by rw [hreader]; rfl) hincoming
  exact ⟨calls, last, hcalls, hretry, hok, hincoming, hp _ hholds havailable⟩

/-- What a reader finds in any message that was built, whatever its format. -/
structure Received (f : MessageFormat) (payload : Option Payload) (chunks : List Chunk)
    (sb : SharedBuffers) : Prop where
  payloadBytes : sb.payloadBytes = (payload.map Payload.bytes).getD []
  payloadInfo : f.getPayloadInfo sb = Payload.info payload
  takeChunks : ∃ it, (HeaderChunkIterator.create f sb).takeChunks chunks.length = (chunks, it) ∧
    it.hasMoreChunks = false

theorem built_received {f : MessageFormat} {source : HeaderSource} {payload : Option Payload}
    {chunks : List Chunk} (hsuits : source.Suits f) (hvalid : ∀ p ∈ payload, p.Valid)
    (hchunks : ∀ c ∈ chunks, c.Valid)
    (hlt : (header source payload chunks).length < uintRange) {sb : SharedBuffers}
    (hholds : sb.Holds (header source payload chunks) ((payload.map Payload.bytes).getD []))
    (havailable : (header source payload chunks).length ≤ sb.getAvailableHeaderSize) :
    Received f payload chunks sb where
  payloadBytes := by
    rw [SharedBuffers.payloadBytes, hholds.size]
    exact (hholds.payload.slice_eq (by omega)).trans (ofList_slice _)
  payloadInfo := (hsuits.descriptorSays payload chunks).payloadInfo hvalid hholds.header havailable
    (.inr hholds.size)
  takeChunks := takeChunks_built hlt (hsuits.descriptorSays payload chunks) hchunks hholds.header

/-! ## Commands -/

namespace CommandHeaderChunkBuilder

variable {config : NetworkConfiguration} {cmd : UInt8} {admin network : Bool}

theorem authType_eq (config : NetworkConfiguration) (cmd : UInt8) (admin network : Bool) :
    (source config cmd admin network).descriptorInitializer &&& descAuthBits =
      if (passwordHash config admin).isSome then (if admin then descAdminAuth else descUserAuth)
      else descNoAuth := by
  simp only [source, descriptorInitializer]
  cases admin <;> split_ifs <;> decide

theorem source_suits (config : NetworkConfiguration) (hcmd : cmd ≠ cmdInvalid)
    (admin network : Bool) : (source config cmd admin network).Suits commandFormat where
  initializer := by
    simp only [source, descriptorInitializer]
    refine ⟨if (passwordHash config admin).isSome then (if admin then 2 else 1) else 0,
      decide (network ∧ config.commandIntegrityCheck ∨ ¬network ∧ config.fileIntegrityCheck), ?_⟩
    by_cases hmarker : network ∧ config.commandIntegrityCheck ∨ ¬network ∧ config.fileIntegrityCheck
    all_goals
      simp only [hmarker, if_true, if_false, decide_true, decide_false]
      cases admin <;> split_ifs <;> decide
  fixed desc hdesc := by
    rw [authType_eq] at hdesc
    have hauth : desc &&& descAuthBits ≠ descNoAuth ↔ (passwordHash config admin).isSome := by
      rw [hdesc]
      cases admin <;> split_ifs with hhash <;> simp only [hhash] <;> decide
    simp only [commandFormat, hauth, fixedSize, source, ne_eq, hcmd, not_false_eq_true, if_true]
    by_cases hhash : (passwordHash config admin).isSome <;> simp [hhash]

/-- The kind of password and the hash that a command is built with. -/
def credentials (config : NetworkConfiguration) (admin : Bool) : UInt8 × Option UInt64 :=
  match passwordHash config admin with
  | some hash => (if admin then descAdminAuth else descUserAuth, some hash)
  | none => (descNoAuth, none)

theorem getCommandIdByte_built {payload : Option Payload} {chunks : List Chunk}
    (hcmd : cmd ≠ cmdInvalid) {sb : SharedBuffers}
    (hm : AgreeBelow (header (source config cmd admin network) payload chunks).length sb.header
      (ofList (header (source config cmd admin network) payload chunks))) :
    CommandAccessor.getCommandIdByte sb = cmd := by
  have h := (source_suits config hcmd admin network).descriptorSays payload chunks
  have hdesc : sb.header 0 = builtDescriptor (source config cmd admin network) payload chunks := by
    rw [hm 0 (by simp [header]), ofList_header_zero]
  have hslice := slice_part hm
    ([builtDescriptor (source config cmd admin network) payload chunks] ++
      sizePart (dataSize (source config cmd admin network) payload chunks)) [cmd]
    (hashPart (passwordHash config admin) ++ infoPart payload ++ chunks.flatMap Chunk.encode)
    (by simp [header_eq, fixedPart, source, hcmd])
  simp only [List.length_append, List.length_singleton, slice_succ, List.cons.injEq] at hslice
  rw [CommandAccessor.getCommandIdByte, hdesc, h.sizeField, Nat.add_comm]
  exact hslice.1

theorem getCommandPwdHash_built {payload : Option Payload} {chunks : List Chunk}
    (hcmd : cmd ≠ cmdInvalid) {sb : SharedBuffers}
    (hm : AgreeBelow (header (source config cmd admin network) payload chunks).length sb.header
      (ofList (header (source config cmd admin network) payload chunks))) :
    CommandAccessor.getCommandPwdHash sb = credentials config admin := by
  have h := (source_suits config hcmd admin network).descriptorSays payload chunks
  have hdesc : sb.header 0 = builtDescriptor (source config cmd admin network) payload chunks := by
    rw [hm 0 (by simp [header]), ofList_header_zero]
  have hauth : CommandAccessor.getAuthType sb = if (passwordHash config admin).isSome then
      (if admin then descAdminAuth else descUserAuth) else descNoAuth := by
    rw [CommandAccessor.getAuthType, hdesc, h.type, authType_eq]
  rw [CommandAccessor.getCommandPwdHash, hauth, credentials, hdesc, h.sizeField]
  cases hhash : passwordHash config admin with
  | none => simp
  | some hash =>
    have hslice := slice_part hm
      ([builtDescriptor (source config cmd admin network) payload chunks] ++
        sizePart (dataSize (source config cmd admin network) payload chunks) ++ [cmd])
      (toBytesLE 8 hash.toNat) (infoPart payload ++ chunks.flatMap Chunk.encode)
      (by simp [header_eq, fixedPart, hashPart, source, hcmd, hhash])
    simp only [List.length_append, List.length_singleton, length_toBytesLE] at hslice
    have hne : (if admin then descAdminAuth else descUserAuth) ≠ descNoAuth := by
      cases admin <;> decide
    have hoffset (k : Nat) : k + 2 = 1 + k + 1 := by omega
    rw [Option.isSome_some, if_pos rfl, if_pos hne, readLE, hoffset, hslice,
      ofBytesLE_toBytesLE hash.toNat_lt, UInt64.ofNat_toNat]

end CommandHeaderChunkBuilder

/-- Every command whose complete header is shorter than `2 ^ 32` bytes is built as announced, sent,
and received as it was built. -/
theorem command_roundTrip (config : NetworkConfiguration) {cmd : UInt8} (hcmd : cmd ≠ cmdInvalid)
    (admin network : Bool) {payload : Option Payload} (hpayload : ∀ p ∈ payload, p.Valid)
    {chunks : List Chunk} (hchunks : ∀ c ∈ chunks, c.Valid)
    (hsize : (header (CommandHeaderChunkBuilder.source config cmd admin network) payload
      chunks).length < uintRange)
    (heap : ByteMemory) {sb : SharedBuffers} (hfresh : sb.Fresh) :
    ∃ b bytes, HeaderChunkBuilder.build heap sb
        (CommandHeaderChunkBuilder.source config cmd admin network) payload chunks = some b ∧
      CommandHeaderChunkBuilder.check b = true ∧ Emits commandFormat b.ready bytes ∧
      Accepts commandFormat bytes fun sb =>
        CommandAccessor.getCommandIdByte sb = cmd ∧
        CommandAccessor.getCommandPwdHash sb = CommandHeaderChunkBuilder.credentials config admin ∧
        Received commandFormat payload chunks sb := by
  have hsuits := CommandHeaderChunkBuilder.source_suits config hcmd admin network
  have hwell := built_wellFormed hsize hsuits hpayload (fun _ => by simp [commandFormat])
  obtain ⟨b, hbuild, hused, hestimated, hholds⟩ := build_holds heap hfresh hsize
  refine ⟨b, _, hbuild, ?_, hwell.emits rfl hholds, hwell.accepts fun sb hholds havailable => ?_⟩
  · have hlength := length_header_eq (CommandHeaderChunkBuilder.source config cmd admin network)
      payload chunks
    have hfixed : 1 ≤ fixedSize (CommandHeaderChunkBuilder.source config cmd admin network) := by
      simp [fixedSize, CommandHeaderChunkBuilder.source, hcmd]
    simp only [CommandHeaderChunkBuilder.check, hused, hestimated, beq_self_eq_true,
      Bool.true_and, decide_eq_true_eq]
    omega
  · exact ⟨CommandHeaderChunkBuilder.getCommandIdByte_built hcmd hholds.header,
      CommandHeaderChunkBuilder.getCommandPwdHash_built hcmd hholds.header,
      built_received hsuits hpayload hchunks hsize hholds havailable⟩

/-- A `SAVE` command with chunks of every kind, a user password and a payload. -/
theorem save_roundTrip :
    let config : NetworkConfiguration := ⟨0x0123456789ABCDEF, 0, 0, true, true, false⟩
    let payload : Payload := ⟨[1, 2, 3], 3, ctNone⟩
    let chunks : List Chunk := [.string [0x61], .number (-300), .list [[0x62], []]]
    ∃ b bytes, HeaderChunkBuilder.build (fun _ => 7) (.create (fun _ => 8) (fun _ => 9))
        (CommandHeaderChunkBuilder.source config 0x43 false true) (some payload) chunks = some b ∧
      CommandHeaderChunkBuilder.check b = true ∧ Emits commandFormat b.ready bytes ∧
      Accepts commandFormat bytes fun sb =>
        CommandAccessor.getCommandIdByte sb = 0x43 ∧
        CommandAccessor.getCommandPwdHash sb = (descUserAuth, some 0x0123456789ABCDEF) ∧
        Received commandFormat (some payload) chunks sb := by
  intro config payload chunks
  exact command_roundTrip config (by decide) false true
    (by intro p hp; obtain rfl := Option.some.inj hp; decide) (by decide) (by decide) _ ⟨rfl, rfl⟩

/-! ## Headers whose size wraps around -/

theorem put_available {b b' : HeaderChunkBuilder} {bytes : List UInt8} (h : b.put bytes = some b') :
    b'.sb.getAvailableHeaderSize = b.sb.getAvailableHeaderSize := by
  unfold put at h
  split_ifs at h
  cases h
  simp

theorem add_string_eq_none {b : HeaderChunkBuilder} {s : List UInt8}
    (h : b.sb.getAvailableHeaderSize < s.length) : b.add (.string s) = none := by
  have hpos : 0 < s.length := by omega
  simp only [add, Option.bind_eq_bind, Option.bind_eq_none_iff]
  intro b' hb'
  rw [putIf, if_pos hpos, put, if_neg (by rw [put_available hb']; omega)]

theorem exists_huge_string : ∃ s : List UInt8, s.length = uintRange - 6 ∧
    ChunkBuilder.measureEntity s.length + s.length = uintRange - 1 :=
  ⟨List.replicate (uintRange - 6) 0, List.length_replicate, by rw [List.length_replicate]; decide⟩

/-- A message whose only chunk is a huge string cannot be built if `configure()` leaves the header
in the auxiliary area. -/
theorem build_huge_string_eq_none {s : List UInt8} (hs : s.length = uintRange - 6)
    (hchunk : ChunkBuilder.measureEntity s.length + s.length = uintRange - 1)
    (heap : ByteMemory) (sb : SharedBuffers) (source : HeaderSource)
    (hconfigure : ∀ b, configure ⟨sb, uintRange - 1, 0⟩ source none = some b →
      b.sb.getAvailableHeaderSize = auxDataSize) :
    HeaderChunkBuilder.build heap sb source none [.string s] = none := by
  have hestimate : [HeaderChunk.string s].foldl estimate (create sb) = ⟨sb, uintRange - 1, 0⟩ := by
    have hsum : uintAdd 0 (uintRange - 1) = uintRange - 1 := by decide
    simp only [List.foldl_cons, List.foldl_nil, estimate, create, hchunk, hsum]
  have hadd (b : HeaderChunkBuilder) (hb : configure ⟨sb, uintRange - 1, 0⟩ source none = some b) :
      b.add (.string s) = none :=
    add_string_eq_none (by rw [hconfigure b hb, hs]; decide)
  cases hb : configure ⟨sb, uintRange - 1, 0⟩ source none with
  | none =>
    simp [HeaderChunkBuilder.build, HeaderChunk.prepare, SharedBuffers.attachPayload, hestimate, hb]
  | some b =>
    simp [HeaderChunkBuilder.build, HeaderChunk.prepare, SharedBuffers.attachPayload, hestimate, hb,
      hadd b hb, List.foldlM_cons]

/-- The size of the header of a command with such a chunk is computed as zero: the header is taken
for one of two bytes, and the string is stored behind its end. -/
theorem command_header_wraps :
    ∃ s : List UInt8, (Chunk.string s).encode.length < uintRange ∧
      HeaderChunkBuilder.build (fun _ => 0) (.create (fun _ => 0) (fun _ => 0))
        (CommandHeaderChunkBuilder.source ⟨0, 0, 0, false, false, false⟩ 0x01 false true) none
        [.string s] = none := by
  obtain ⟨s, hs, hchunk⟩ := exists_huge_string
  refine ⟨s, ?_, build_huge_string_eq_none hs hchunk _ _ _ fun b hb => ?_⟩
  · rw [Chunk.encode, List.length_append, ChunkBuilder.length_putEntity, hchunk]
    decide
  · obtain rfl := Option.some.inj (hb.symm.trans rfl)
    rfl

/-! ## Responses -/

theorem ResponseHeaderChunkBuilder.source_suits (config : NetworkConfiguration)
    (type : ResponseType) : (source config type).Suits responseFormat where
  initializer := by
    obtain ⟨t, htype⟩ : ∃ t : Fin 4, type.byte = UInt8.ofNat t := by
      cases type
      exacts [⟨0, rfl⟩, ⟨1, rfl⟩, ⟨2, rfl⟩, ⟨3, rfl⟩]
    refine ⟨t, config.responseIntegrityCheck, ?_⟩
    simp only [source, descriptorInitializer, htype]
    cases config.responseIntegrityCheck <;> simp
  fixed _ _ := by simp [responseFormat, fixedSize, source]

theorem ResponseHeaderChunkBuilder.type_eq (config : NetworkConfiguration) (type : ResponseType) :
    (source config type).descriptorInitializer &&& respTypeBits = type.byte := by
  simp only [source, descriptorInitializer]
  cases type <;> cases config.responseIntegrityCheck <;> decide

/-- Every response whose complete header is shorter than `2 ^ 32` bytes and that is not empty, or is
an `OK` response, is built as announced, sent, and received as it was built. -/
theorem response_roundTrip (config : NetworkConfiguration) (type : ResponseType)
    {payload : Option Payload} (hpayload : ∀ p ∈ payload, p.Valid)
    {chunks : List Chunk} (hchunks : ∀ c ∈ chunks, c.Valid)
    (hsize : (header (ResponseHeaderChunkBuilder.source config type) payload chunks).length <
      uintRange)
    (hcontent : type = .ok ∨ chunks ≠ [] ∨ payload.isSome)
    (heap : ByteMemory) {sb : SharedBuffers} (hfresh : sb.Fresh) :
    ∃ b bytes, HeaderChunkBuilder.build heap sb (ResponseHeaderChunkBuilder.source config type)
        payload chunks = some b ∧
      b.usedSize = b.estimatedSize ∧ Emits responseFormat b.ready bytes ∧
      Accepts responseFormat bytes fun sb =>
        ResponseAccessor.getResponseType sb = type.byte ∧
        Received responseFormat payload chunks sb := by
  have hsuits := ResponseHeaderChunkBuilder.source_suits config type
  have hsays := hsuits.descriptorSays payload chunks
  have htype : builtDescriptor (ResponseHeaderChunkBuilder.source config type) payload chunks &&&
      respTypeBits = type.byte :=
    hsays.type.trans (ResponseHeaderChunkBuilder.type_eq config type)
  have hwell := built_wellFormed hsize hsuits hpayload (fun hzero => by
    obtain rfl | hne | hsome := hcontent
    · simp [responseFormat, htype, ResponseType.byte]
    · obtain ⟨c, cs, rfl⟩ := List.exists_cons_of_ne_nil hne
      have hpos := (dataSize_pos_iff (ResponseHeaderChunkBuilder.source config type) payload
        (c :: cs)).mpr (.inl (by
          have := c.length_encode_pos
          rw [List.flatMap_cons, List.length_append]
          omega))
      omega
    · have hpos := (dataSize_pos_iff (ResponseHeaderChunkBuilder.source config type) payload
        chunks).mpr (.inr hsome)
      omega)
  obtain ⟨b, hbuild, hused, hestimated, hholds⟩ := build_holds heap hfresh hsize
  refine ⟨b, _, hbuild, hused.trans hestimated.symm, hwell.emits rfl hholds,
    hwell.accepts fun sb hholds havailable =>
      ⟨?_, built_received hsuits hpayload hchunks hsize hholds havailable⟩⟩
  rw [ResponseAccessor.getResponseType, hholds.header 0 hwell.header_pos, ofList_header_zero, htype]

/-- A `DATA` response with a number and a compressed payload. -/
theorem data_roundTrip :
    let config : NetworkConfiguration := ⟨0, 0, 0, true, true, false⟩
    let payload : Payload := ⟨[1, 2, 3], 300, 2⟩
    ∃ b bytes, HeaderChunkBuilder.build (fun _ => 7) (.create (fun _ => 8) (fun _ => 9))
        (ResponseHeaderChunkBuilder.source config .data) (some payload) [.number 4294967295] =
          some b ∧
      b.usedSize = b.estimatedSize ∧ Emits responseFormat b.ready bytes ∧
      Accepts responseFormat bytes fun sb =>
        ResponseAccessor.getResponseType sb = respTypeData ∧
        Received responseFormat (some payload) [.number 4294967295] sb := by
  intro config payload
  exact response_roundTrip config .data
    (by intro p hp; obtain rfl := Option.some.inj hp; decide) (by decide) (by decide) (by decide) _
    ⟨rfl, rfl⟩

/-- The size of the header of a response with a chunk that is one byte short of `2 ^ 32` bytes is
computed as four, and the string is stored behind its end. A `DATA` response without chunks and
payload is a single byte, and a reader that is given this byte returns an error. -/
theorem response_header_wraps :
    (∃ s : List UInt8, (Chunk.string s).encode.length < uintRange ∧
      HeaderChunkBuilder.build (fun _ => 0) (.create (fun _ => 0) (fun _ => 0))
        (ResponseHeaderChunkBuilder.source ⟨0, 0, 0, false, false, false⟩ .data) none
        [.string s] = none) ∧
    (∃ b, HeaderChunkBuilder.build (fun _ => 0) (.create (fun _ => 0) (fun _ => 0))
        (ResponseHeaderChunkBuilder.source ⟨0, 0, 0, false, false, false⟩ .data) none [] = some b ∧
      (ResponseWriter.write b.ready [.transfer 0]).output = [0x01] ∧
      (ResponseReader.read (.create (.create (fun _ => 0) (fun _ => 0)))
        ⟨[0x01], [.transfer 0]⟩).outcome = .returns .error) := by
  obtain ⟨s, hs, hchunk⟩ := exists_huge_string
  refine ⟨⟨s, ?_, build_huge_string_eq_none hs hchunk _ _ _ fun b hb => ?_⟩, _, rfl, ?_, ?_⟩
  · rw [Chunk.encode, List.length_append, ChunkBuilder.length_putEntity, hchunk]
    decide
  · obtain rfl := Option.some.inj (hb.symm.trans rfl)
    rfl
  · decide
  · decide

end CyberCache
