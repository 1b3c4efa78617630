import CyberCache.Wire.ChunkBuilders
import CyberCache.Wire.Fragmentation

/-!
# What the chunk builders store

As long as a header is shorter than `2 ^ 32` bytes, the sizes that were announced are those that are
stored, no store leaves the block, and the header is the concatenation of its parts.
-/

namespace CyberCache

open ByteMemory ChunkBuilder

/-! ## Lists of strings -/

namespace HeaderListChunkBuilder

/-- The used part of the buffer holds the given bytes. -/
structure Filled (bytes : List UInt8) (b : HeaderListChunkBuilder) : Prop where
  used : b.usedSize = bytes.length
  buffer : AgreeBelow bytes.length b.buffer (ofList bytes)

theorem Filled.put {xs : List UInt8} {b : HeaderListChunkBuilder} (h : Filled xs b)
    (ys : List UInt8) (hroom : (xs ++ ys).length ≤ b.allocatedSize)
    (hlt : b.allocatedSize < uintRange) :
    ∃ b', b.put ys = some b' ∧ Filled (xs ++ ys) b' ∧ b'.allocatedSize = b.allocatedSize := by
  rw [List.length_append] at hroom
  have hused := h.used
  refine ⟨_, if_pos (by omega), ⟨?_, ?_⟩, rfl⟩
  · rw [List.length_append, uintAdd_eq (by omega), hused]
  · rw [hused]
    exact h.buffer.write_ofList ys

theorem Filled.addAll {xs : List UInt8} {b : HeaderListChunkBuilder} (h : Filled xs b)
    (strings : List (List UInt8))
    (hroom : (xs ++ strings.flatMap putString).length ≤ b.allocatedSize)
    (hlt : b.allocatedSize < uintRange) :
    ∃ b', strings.foldlM add b = some b' ∧ Filled (xs ++ strings.flatMap putString) b' := by
  induction strings generalizing xs b with
  | nil => exact ⟨b, rfl, by simpa using h⟩
  | cons s strings ih =>
    rw [List.flatMap_cons, ← List.append_assoc] at hroom ⊢
    obtain ⟨b', hput, hfilled, hallocated⟩ := h.put (putString s)
      (by rw [List.length_append] at hroom; omega) hlt
    obtain ⟨b'', hadd, hfilled'⟩ := ih hfilled (by omega) (by omega)
    exact ⟨b'', by simp [List.foldlM_cons, add, hput, hadd], hfilled'⟩

theorem foldl_estimate (strings : List (List UInt8)) (b : HeaderListChunkBuilder)
    (hsize : b.estimatedSize + (strings.flatMap putString).length < uintRange)
    (hcount : b.count + strings.length < uintRange) :
    strings.foldl (fun b s => b.estimate s.length) b =
      { b with
        estimatedSize := b.estimatedSize + (strings.flatMap putString).length
        count := b.count + strings.length } := by
  induction strings generalizing b with
  | nil => rfl
  | cons s strings ih =>
    rw [List.flatMap_cons, List.length_append, length_putString] at hsize
    rw [List.length_cons] at hcount
    have hfirst : b.estimate s.length = { b with
        estimatedSize := b.estimatedSize + measureString s.length
        count := b.count + 1 } := by
      rw [estimate, uintAdd_eq (by omega), uintAdd_eq (by omega)]
    rw [List.foldl_cons, hfirst, ih _ (by simp only; omega) (by simp only; omega)]
    simp only [List.flatMap_cons, List.length_append, length_putString, List.length_cons,
      Nat.add_assoc, Nat.add_comm 1]

theorem build_filled (heap : ByteMemory) {strings : List (List UInt8)}
    (hlt : (Chunk.list strings).encode.length < uintRange) :
    ∃ b, build heap strings = some b ∧ Filled (Chunk.list strings).encode b := by
  have hlength : (Chunk.list strings).encode.length =
      measureEntity strings.length + (strings.flatMap putString).length := by
    simp [Chunk.encode]
  have hcount := length_le_flatMap_putString strings
  have hestimate := foldl_estimate strings (create heap) (by simp only [create]; omega)
    (by simp only [create]; omega)
  simp only [create, Nat.zero_add] at hestimate
  have hsize : uintAdd (strings.flatMap putString).length (measureEntity strings.length) =
      (Chunk.list strings).encode.length := by
    rw [uintAdd_eq (by omega), hlength, Nat.add_comm]
  have hempty : Filled [] ⟨heap, (Chunk.list strings).encode.length, 0, strings.length,
      (Chunk.list strings).encode.length⟩ := ⟨rfl, fun _ hi => absurd hi (by simp)⟩
  obtain ⟨b, hput, hfilled, hallocated⟩ := hempty.put
    (putEntity strings.length chnkShortList chnkList chnkLongList)
    (by simp only [List.nil_append, length_putEntity]; omega) hlt
  obtain ⟨b', hadd, hfilled'⟩ := hfilled.addAll strings (by rw [hallocated]; simp [hlength]) (by
    rw [hallocated]; exact hlt)
  refine ⟨b', ?_, hfilled'⟩
  simp only [build, create, hestimate, configure, hsize, hput, Option.bind_eq_bind,
    Option.bind_some, hadd]

end HeaderListChunkBuilder

/-! ## The parts of a header -/

namespace HeaderChunkBuilder

def hashPart : Option UInt64 → List UInt8
  | some hash => toBytesLE 8 hash.toNat
  | none => []

def fixedPart (source : HeaderSource) : List UInt8 :=
  (if source.command ≠ cmdInvalid then [source.command] else []) ++ hashPart source.passwordHash

def infoPart : Option Payload → List UInt8
  | none => []
  | some payload =>
    (if payload.compressor ≠ ctNone then [payload.compressor] else []) ++
      sizeBytes payload.bytes.length payload.usize ++
      (if payload.compressor ≠ ctNone then sizeBytes payload.usize payload.usize else [])

/-- Size of the header behind the size field; a header of a fixed size does not say it. -/
def dataSize (source : HeaderSource) (payload : Option Payload) (chunks : List Chunk) : Nat :=
  if 0 < (chunks.flatMap Chunk.encode).length ∨ payload.isSome then
    (chunks.flatMap Chunk.encode).length + fixedSize source + payloadInfoSize payload
  else 0

def sizePart (size : Nat) : List UInt8 :=
  if 0 < size then sizeBytes size size else []

/-- The initial descriptor of a message that may have a compressed payload. -/
def initialDescriptor (source : HeaderSource) (payload : Option Payload) : UInt8 :=
  if payload.any (·.compressor ≠ ctNone) then
    source.descriptorInitializer ||| descPayloadIsCompressed
  else source.descriptorInitializer

def headerMask (size : Nat) : UInt8 :=
  if 0 < size then sizeMask size descByteHeader descWordHeader descDwordHeader else descNoHeader

def payloadMask : Option Payload → UInt8
  | none => descNoPayload
  | some payload => sizeMask payload.usize descBytePayload descWordPayload descDwordPayload

def header (source : HeaderSource) (payload : Option Payload) (chunks : List Chunk) : List UInt8 :=
  (initialDescriptor source payload ||| headerMask (dataSize source payload chunks) |||
      payloadMask payload) ::
    (sizePart (dataSize source payload chunks) ++ fixedPart source ++ infoPart payload ++
      chunks.flatMap Chunk.encode)

theorem estimateSizeBytes_pos (size : Nat) : 0 < estimateSizeBytes size := by
  unfold estimateSizeBytes
  split_ifs <;> decide

@[simp]
theorem length_sizeBytes (size reference : Nat) :
    (sizeBytes size reference).length = estimateSizeBytes reference := by
  simp [sizeBytes]

@[simp]
theorem length_fixedPart (source : HeaderSource) :
    (fixedPart source).length = fixedSize source := by
  unfold fixedPart fixedSize
  cases source.passwordHash <;> split_ifs <;> simp_all [hashPart]

@[simp]
theorem length_infoPart (payload : Option Payload) :
    (infoPart payload).length = payloadInfoSize payload := by
  cases payload with
  | none => rfl
  | some payload =>
    simp only [infoPart, payloadInfoSize]
    split_ifs
    · simp
      omega
    · simp

theorem payloadInfoSize_pos (payload : Payload) : 0 < payloadInfoSize (some payload) := by
  have := estimateSizeBytes_pos payload.usize
  simp only [payloadInfoSize]
  split_ifs <;> omega

theorem dataSize_pos_iff (source : HeaderSource) (payload : Option Payload) (chunks : List Chunk) :
    0 < dataSize source payload chunks ↔
      0 < (chunks.flatMap Chunk.encode).length ∨ payload.isSome := by
  unfold dataSize
  split_ifs with h
  · refine ⟨fun _ => h, fun _ => ?_⟩
    obtain hchunks | hpayload := h
    · omega
    · obtain ⟨p, rfl⟩ := Option.isSome_iff_exists.mp hpayload
      have := payloadInfoSize_pos p
      omega
  · exact ⟨fun hpos => absurd hpos (Nat.lt_irrefl _), fun h' => absurd h' h⟩

theorem dataSize_of_pos {source : HeaderSource} {payload : Option Payload} {chunks : List Chunk}
    (h : 0 < dataSize source payload chunks) :
    dataSize source payload chunks =
      (chunks.flatMap Chunk.encode).length + fixedSize source + payloadInfoSize payload := by
  rw [dataSize, if_pos ((dataSize_pos_iff source payload chunks).mp h)]

theorem length_header (source : HeaderSource) (payload : Option Payload) (chunks : List Chunk) :
    (header source payload chunks).length =
      if 0 < dataSize source payload chunks then
        1 + estimateSizeBytes (dataSize source payload chunks) + dataSize source payload chunks
      else 1 + fixedSize source := by
  have hpos := dataSize_pos_iff source payload chunks
  simp only [header, sizePart, List.length_cons, List.length_append, length_fixedPart,
    length_infoPart]
  split_ifs with h
  · have := dataSize_of_pos h
    simp only [length_sizeBytes]
    omega
  · rw [hpos, not_or] at h
    obtain ⟨hchunks, hpayload⟩ := h
    obtain rfl : payload = none := by simpa using hpayload
    simp only [payloadInfoSize, List.length_nil]
    omega

/-! ## Storing the parts -/

/-- The used part of the header holds the given bytes; there is room for `capacity` of them. -/
structure Filled (capacity estimated : Nat) (payload : DataBuffer) (bytes : List UInt8)
    (b : HeaderChunkBuilder) : Prop where
  capacity_lt : capacity < uintRange
  available : capacity ≤ b.sb.getAvailableHeaderSize
  estimated : b.estimatedSize = estimated
  payload : b.sb.payload = payload
  used : b.usedSize = bytes.length
  header : AgreeBelow bytes.length b.sb.header (ofList bytes)

namespace Filled

variable {capacity estimated : Nat} {payload : DataBuffer} {xs : List UInt8} {d : UInt8}
  {b : HeaderChunkBuilder}

theorem put (h : Filled capacity estimated payload xs b) (ys : List UInt8)
    (hroom : (xs ++ ys).length ≤ capacity) :
    ∃ b', b.put ys = some b' ∧ Filled capacity estimated payload (xs ++ ys) b' := by
  rw [List.length_append] at hroom
  have hused := h.used
  have havailable := h.available
  have hlt := h.capacity_lt
  refine ⟨_, if_pos (by omega), hlt, by simpa using havailable,
    h.estimated, by simpa using h.payload, ?_, ?_⟩
  · rw [List.length_append, uintAdd_eq (by omega), hused]
  · rw [SharedBuffers.header_writeHeader, hused]
    exact h.header.write_ofList ys

theorem putIf (h : Filled capacity estimated payload xs b) (c : Prop) [Decidable c]
    (ys : List UInt8) (hroom : (xs ++ if c then ys else []).length ≤ capacity) :
    ∃ b', b.putIf c ys = some b' ∧
      Filled capacity estimated payload (xs ++ if c then ys else []) b' := by
  by_cases hc : c
  · simp only [HeaderChunkBuilder.putIf, hc, if_true] at hroom ⊢
    exact h.put ys hroom
  · simp only [HeaderChunkBuilder.putIf, hc, if_false, List.append_nil] at hroom ⊢
    exact ⟨b, rfl, h⟩

theorem orDescriptor (h : Filled capacity estimated payload (d :: xs) b) (mask : UInt8) :
    Filled capacity estimated payload ((d ||| mask) :: xs) (b.orDescriptor mask) := by
  have hdesc : b.sb.header 0 = d := by
    rw [h.header 0 (by simp), ofList_of_lt (by simp), List.getElem_cons_zero]
  refine ⟨h.capacity_lt, by simpa [HeaderChunkBuilder.orDescriptor] using h.available, h.estimated,
    by simpa [HeaderChunkBuilder.orDescriptor] using h.payload, h.used, fun i hi => ?_⟩
  simp only [HeaderChunkBuilder.orDescriptor, SharedBuffers.header_writeHeader, hdesc]
  rw [ofList_of_lt hi]
  cases i with
  | zero => exact write_add _ 0 [d ||| mask] (k := 0) (by simp)
  | succ i =>
    have hi' : i + 1 < (d :: xs).length := hi
    rw [write_of_ge _ _ (by simp), h.header (i + 1) hi', ofList_of_lt hi', List.getElem_cons_succ,
      List.getElem_cons_succ]

theorem putHeaderSize (h : Filled capacity estimated payload (d :: xs) b) (size : Nat)
    (hroom : (d :: xs ++ sizePart size).length ≤ capacity) :
    ∃ b', b.putHeaderSize size = some b' ∧
      Filled capacity estimated payload ((d ||| headerMask size) :: (xs ++ sizePart size)) b' := by
  unfold HeaderChunkBuilder.putHeaderSize headerMask
  unfold sizePart at hroom ⊢
  split_ifs at hroom ⊢ with hpos
  · obtain ⟨b', hput, h'⟩ := h.put (sizeBytes size size) hroom
    exact ⟨_, by simp [hput], h'.orDescriptor _⟩
  · have hnone : d ||| descNoHeader = d := by simp [descNoHeader]
    rw [List.append_nil, hnone]
    exact ⟨b, rfl, h⟩

theorem putPasswordHash (h : Filled capacity estimated payload xs b) (hash : Option UInt64)
    (hroom : (xs ++ hashPart hash).length ≤ capacity) :
    ∃ b', b.putPasswordHash hash = some b' ∧
      Filled capacity estimated payload (xs ++ hashPart hash) b' := by
  cases hash with
  | some hash => exact h.put (toBytesLE 8 hash.toNat) hroom
  | none => exact ⟨b, rfl, by simpa [hashPart] using h⟩

theorem putPayloadInfo (h : Filled capacity estimated payload (d :: xs) b) (p : Option Payload)
    (hsize : ∀ q ∈ p, payload.size = q.bytes.length)
    (hroom : (d :: xs ++ infoPart p).length ≤ capacity) :
    ∃ b', b.putPayloadInfo p = some b' ∧
      Filled capacity estimated payload ((d ||| payloadMask p) :: (xs ++ infoPart p)) b' := by
  cases p with
  | none =>
    have hnone : d ||| descNoPayload = d := by simp [descNoPayload]
    refine ⟨b, rfl, ?_⟩
    simpa [payloadMask, infoPart, hnone] using h
  | some p =>
    simp only [infoPart, List.length_append] at hroom
    obtain ⟨b₁, hput₁, h₁⟩ := h.putIf (p.compressor ≠ ctNone) [p.compressor]
      (by rw [List.length_append]; omega)
    obtain ⟨b₂, hput₂, h₂⟩ := h₁.put (sizeBytes p.bytes.length p.usize)
      (by simp only [List.length_append]; omega)
    rw [List.append_assoc, List.cons_append] at h₂
    obtain ⟨b₃, hput₃, h₃⟩ := (h₂.orDescriptor (payloadMask (some p))).putIf
      (p.compressor ≠ ctNone) (sizeBytes p.usize p.usize)
      (by simp only [List.length_append, List.length_cons] at hroom ⊢; omega)
    simp only [payloadMask] at hput₃
    refine ⟨b₃, ?_, ?_⟩
    · simp only [HeaderChunkBuilder.putPayloadInfo, hput₁, Option.bind_eq_bind, Option.bind_some,
        h₁.payload, hsize p rfl, hput₂, hput₃]
    · simpa only [infoPart, List.cons_append, List.append_assoc] using h₃

end Filled

end HeaderChunkBuilder

/-! ## Chunks -/

/-- A chunk that is ready to be added, and the chunk that it is. -/
inductive HeaderChunk.Represents : HeaderChunk → Chunk → Prop where
  | number (n : Int) : Represents (.number n) (.number n)
  | string (s : List UInt8) : Represents (.string s) (.string s)
  | list (b : HeaderListChunkBuilder) (strings : List (List UInt8))
      (h : b.Filled (Chunk.list strings).encode) : Represents (.list b) (.list strings)

theorem HeaderChunk.prepare_represents (heap : ByteMemory) {c : Chunk}
    (hlt : c.encode.length < uintRange) : ∃ e, prepare heap c = some e ∧ e.Represents c := by
  cases c with
  | number n => exact ⟨_, rfl, .number n⟩
  | string s => exact ⟨_, rfl, .string s⟩
  | list strings =>
    obtain ⟨b, hbuild, hfilled⟩ := HeaderListChunkBuilder.build_filled heap hlt
    exact ⟨.list b, by simp [prepare, hbuild], .list b strings hfilled⟩

theorem HeaderChunk.mapM_prepare (heap : ByteMemory) {chunks : List Chunk}
    (hlt : (chunks.flatMap Chunk.encode).length < uintRange) :
    ∃ es, chunks.mapM (prepare heap) = some es ∧ List.Forall₂ Represents es chunks := by
  induction chunks with
  | nil => exact ⟨[], rfl, .nil⟩
  | cons c chunks ih =>
    rw [List.flatMap_cons, List.length_append] at hlt
    obtain ⟨e, hprepare, he⟩ := prepare_represents heap (c := c) (by omega)
    obtain ⟨es, hmap, hes⟩ := ih (by omega)
    exact ⟨e :: es, by simp [List.mapM_cons, hprepare, hmap], .cons he hes⟩

namespace HeaderChunkBuilder

variable {chunks : List Chunk} {sb : SharedBuffers}

theorem estimate_eq {e : HeaderChunk} {c : Chunk} (h : e.Represents c) (b : HeaderChunkBuilder) :
    b.estimate e = { b with estimatedSize := uintAdd b.estimatedSize c.encode.length } := by
  cases h with
  | number n => simp [estimate, Chunk.encode]
  | string s => simp [estimate, Chunk.encode]
  | list b strings h => simp only [estimate, h.used]

theorem foldl_estimate {es : List HeaderChunk}
    (h : List.Forall₂ HeaderChunk.Represents es chunks) (b : HeaderChunkBuilder)
    (hlt : b.estimatedSize + (chunks.flatMap Chunk.encode).length < uintRange) :
    es.foldl estimate b =
      { b with estimatedSize := b.estimatedSize + (chunks.flatMap Chunk.encode).length } := by
  induction h generalizing b with
  | nil => rfl
  | @cons e c es chunks he _ ih =>
    rw [List.flatMap_cons, List.length_append] at hlt
    rw [List.foldl_cons, estimate_eq he, uintAdd_eq (by omega), ih _ (by simp only; omega)]
    simp only [List.flatMap_cons, List.length_append, Nat.add_assoc]

namespace Filled

variable {capacity estimated : Nat} {payload : DataBuffer} {xs : List UInt8}
  {b : HeaderChunkBuilder}

theorem add {e : HeaderChunk} {c : Chunk} (h : Filled capacity estimated payload xs b)
    (he : e.Represents c) (hroom : (xs ++ c.encode).length ≤ capacity) :
    ∃ b', b.add e = some b' ∧ Filled capacity estimated payload (xs ++ c.encode) b' := by
  cases he with
  | number n => exact h.put (putNumber n) hroom
  | string s =>
    rw [Chunk.encode, ← List.append_assoc] at hroom ⊢
    obtain ⟨b₁, hput₁, h₁⟩ := h.put (putEntity s.length chnkShortString chnkString chnkLongString)
      (by rw [List.length_append] at hroom; omega)
    have hs : (if 0 < s.length then s else []) = s := by
      cases s <;> simp
    obtain ⟨b₂, hput₂, h₂⟩ := h₁.putIf (0 < s.length) s (by rw [hs]; exact hroom)
    rw [hs] at h₂
    exact ⟨b₂, by simp [HeaderChunkBuilder.add, hput₁, hput₂], h₂⟩
  | list list strings hlist =>
    have hbytes : list.buffer.slice 0 list.usedSize = (Chunk.list strings).encode := by
      rw [hlist.used]
      exact (hlist.buffer.slice_eq (by omega)).trans (ofList_slice _)
    simp only [HeaderChunkBuilder.add, hbytes]
    exact h.put _ hroom

theorem addAll {es : List HeaderChunk} {chunks : List Chunk}
    (h : Filled capacity estimated payload xs b)
    (hes : List.Forall₂ HeaderChunk.Represents es chunks)
    (hroom : (xs ++ chunks.flatMap Chunk.encode).length ≤ capacity) :
    ∃ b', es.foldlM HeaderChunkBuilder.add b = some b' ∧
      Filled capacity estimated payload (xs ++ chunks.flatMap Chunk.encode) b' := by
  induction hes generalizing xs b with
  | nil => exact ⟨b, rfl, by simpa using h⟩
  | @cons e c es chunks he _ ih =>
    rw [List.flatMap_cons, ← List.append_assoc] at hroom ⊢
    obtain ⟨b₁, hadd, h₁⟩ := h.add he (by rw [List.length_append] at hroom; omega)
    obtain ⟨b₂, hadd₂, h₂⟩ := ih h₁ hroom
    exact ⟨b₂, by simp [List.foldlM_cons, hadd, hadd₂], h₂⟩

end Filled

/-- `configure()` stores everything that stands before the chunks and leaves room for them. -/
theorem configure_filled {source : HeaderSource} {payload : Option Payload}
    (hlt : (header source payload chunks).length < uintRange)
    (hdata : sb.data.size = 0) (hpayload : ∀ p ∈ payload, sb.payload.size = p.bytes.length) :
    ∃ b, configure ⟨sb, (chunks.flatMap Chunk.encode).length, 0⟩ source payload = some b ∧
      Filled (header source payload chunks).length (header source payload chunks).length sb.payload
        ((initialDescriptor source payload ||| headerMask (dataSize source payload chunks) |||
            payloadMask payload) ::
          (sizePart (dataSize source payload chunks) ++ fixedPart source ++ infoPart payload))
          b := by
  have hlength := length_header source payload chunks
  have hbytes : (header source payload chunks).length =
      1 + ((sizePart (dataSize source payload chunks)).length + (fixedPart source).length +
        (infoPart payload).length + (chunks.flatMap Chunk.encode).length) := by
    simp only [header, List.length_cons, List.length_append]
    omega
  have hdataSize : (if 0 < (chunks.flatMap Chunk.encode).length ∨ payload.isSome then
      ((chunks.flatMap Chunk.encode).length + fixedSize source + payloadInfoSize payload) %
        uintRange
      else 0) = dataSize source payload chunks := by
    rw [length_fixedPart, length_infoPart] at hbytes
    unfold dataSize
    split_ifs
    · exact Nat.mod_eq_of_lt (by omega)
    · rfl
  have hfull : (if 0 < dataSize source payload chunks then
      (1 + estimateSizeBytes (dataSize source payload chunks) + dataSize source payload chunks) %
        uintRange
      else 1 + fixedSize source) = (header source payload chunks).length := by
    rw [hlength] at hlt ⊢
    split_ifs at hlt ⊢ with hpos
    · exact Nat.mod_eq_of_lt hlt
    · rfl
  have hstart : Filled (header source payload chunks).length
      (chunks.flatMap Chunk.encode).length sb.payload []
      ⟨sb.configureHeader 0 (header source payload chunks).length,
        (chunks.flatMap Chunk.encode).length, 0⟩ := by
    refine ⟨hlt, ?_, rfl, by simp, rfl, fun _ hi => absurd hi (by simp)⟩
    rw [SharedBuffers.getAvailableHeaderSize_configureHeader hdata]
    exact Nat.le_max_right _ _
  have hfixed : (fixedPart source).length =
      (if source.command ≠ cmdInvalid then [source.command] else []).length +
        (hashPart source.passwordHash).length := by
    rw [fixedPart, List.length_append]
  obtain ⟨b₁, hput₁, h₁⟩ := hstart.put [initialDescriptor source payload]
    (by simp only [List.nil_append, List.length_cons, List.length_nil]; omega)
  obtain ⟨b₂, hput₂, h₂⟩ := h₁.putHeaderSize (dataSize source payload chunks)
    (by simp only [List.cons_append, List.length_cons, List.nil_append]; omega)
  obtain ⟨b₃, hput₃, h₃⟩ := h₂.putIf (source.command ≠ cmdInvalid) [source.command]
    (by simp only [List.length_append, List.length_cons, List.nil_append]; omega)
  obtain ⟨b₄, hput₄, h₄⟩ := h₃.putPasswordHash source.passwordHash
    (by simp only [List.length_append, List.length_cons, List.nil_append]; omega)
  rw [List.append_assoc, List.cons_append, ← fixedPart, List.nil_append] at h₄
  obtain ⟨b₅, hput₅, h₅⟩ := h₄.putPayloadInfo payload hpayload
    (by simp only [List.length_append, List.length_cons]; omega)
  refine ⟨{ b₅ with estimatedSize := (header source payload chunks).length }, ?_,
    h₅.capacity_lt, h₅.available, rfl, h₅.payload, h₅.used, h₅.header⟩
  simp only [initialDescriptor] at hput₁
  simp only [configure, hdataSize, hfull, hput₁, hput₂, hput₃, hput₄, hput₅, Option.bind_eq_bind,
    Option.bind_some, Option.pure_def]

theorem attachPayload_holds (hfresh : sb.Fresh) (bytes : List UInt8) :
    (sb.attachPayload bytes).data.size = 0 ∧
      (sb.attachPayload bytes).payload.size = bytes.length ∧
      AgreeBelow bytes.length (sb.attachPayload bytes).payload.bytes (ofList bytes) := by
  obtain ⟨hdata, hpayload⟩ := hfresh
  unfold SharedBuffers.attachPayload
  split_ifs with hpos
  · refine ⟨hdata, SharedBuffers.payload_size_setPayloadSize sb bytes.length, fun i hi => ?_⟩
    rw [ofList_of_lt hi]
    simpa [SharedBuffers.writePayload] using
      write_add (sb.setPayloadSize bytes.length).payload.bytes 0 bytes hi
  · refine ⟨hdata, by omega, fun i hi => absurd hi (by omega)⟩

/-- A header that is shorter than `2 ^ 32` bytes is built without a store outside of it, is as long
as was estimated, and consists of its parts. -/
theorem build_holds (heap : ByteMemory) (hfresh : sb.Fresh) {source : HeaderSource}
    {payload : Option Payload} (hlt : (header source payload chunks).length < uintRange) :
    ∃ b, build heap sb source payload chunks = some b ∧
      b.usedSize = (header source payload chunks).length ∧
      b.estimatedSize = (header source payload chunks).length ∧
      b.sb.Holds (header source payload chunks) ((payload.map Payload.bytes).getD []) := by
  have hchunks : (chunks.flatMap Chunk.encode).length < uintRange := by
    simp only [header, List.length_cons, List.length_append] at hlt
    omega
  obtain ⟨es, hprepare, hes⟩ := HeaderChunk.mapM_prepare heap hchunks
  obtain ⟨hdata, hsize, hbytes⟩ :=
    attachPayload_holds hfresh ((payload.map Payload.bytes).getD [])
  have hestimate := foldl_estimate hes
    (create (sb.attachPayload ((payload.map Payload.bytes).getD [])))
    (by simpa only [create, Nat.zero_add] using hchunks)
  simp only [create, Nat.zero_add] at hestimate
  obtain ⟨b, hconfigure, hfilled⟩ := configure_filled hlt hdata (by
    rintro p hp
    rw [Option.mem_def] at hp
    rw [hsize, hp]
    rfl)
  obtain ⟨b', hadd, hfilled'⟩ := hfilled.addAll hes (Nat.le_of_eq rfl)
  refine ⟨b', ?_, hfilled'.used, hfilled'.estimated, hfilled'.header, ?_, ?_⟩
  · simp only [build, create, hprepare, hestimate, hconfigure, hadd, Option.bind_eq_bind,
      Option.bind_some]
  · rw [hfilled'.payload, hsize]
  · rw [hfilled'.payload]
    exact hbytes

end HeaderChunkBuilder

end CyberCache
