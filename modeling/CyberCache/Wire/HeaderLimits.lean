import CyberCache.Wire.RoundTrip

/-!
# Headers that can be built

No store of a builder leaves its block only if all of them together are shorter than `2 ^ 32` bytes:
a block has a 32-bit size, whatever the size is that was announced.
-/

namespace CyberCache

open ByteMemory ChunkBuilder

/-! ## Lists of strings -/

namespace HeaderListChunkBuilder

variable {b b' : HeaderListChunkBuilder} {strings : List (List UInt8)}

theorem put_grows {bytes : List UInt8} (h : b.put bytes = some b')
    (hlt : b.allocatedSize < uintRange) :
    b'.usedSize = b.usedSize + bytes.length ∧ b'.usedSize ≤ b.allocatedSize ∧
      b'.allocatedSize = b.allocatedSize := by
  obtain ⟨hroom, hb'⟩ := Option.ite_none_right_eq_some.mp h
  cases hb'
  have hsum : uintAdd b.usedSize bytes.length = b.usedSize + bytes.length := uintAdd_eq (by omega)
  exact ⟨hsum, hsum.trans_le hroom, rfl⟩

theorem addAll_grows (h : strings.foldlM add b = some b') (hlt : b.allocatedSize < uintRange)
    (hused : b.usedSize ≤ b.allocatedSize) :
    b'.usedSize = b.usedSize + (strings.flatMap putString).length ∧
      b'.usedSize ≤ b.allocatedSize := by
  induction strings generalizing b with
  | nil =>
    cases h
    exact ⟨rfl, hused⟩
  | cons s strings ih =>
    obtain ⟨b₁, hput, hadd⟩ := Option.bind_eq_some_iff.mp h
    obtain ⟨hsize, hle, hallocated⟩ := put_grows hput hlt
    obtain ⟨hsize', hle'⟩ := ih hadd (by omega) (by omega)
    rw [List.flatMap_cons, List.length_append]
    omega

theorem count_foldl_estimate (strings : List (List UInt8)) (b : HeaderListChunkBuilder)
    (hcount : b.count + strings.length < uintRange) :
    (strings.foldl (fun b s => b.estimate s.length) b).count = b.count + strings.length := by
  induction strings generalizing b with
  | nil => rfl
  | cons s strings ih =>
    rw [List.length_cons] at hcount ⊢
    have hfirst : (b.estimate s.length).count = b.count + 1 := uintAdd_eq (by omega)
    rw [List.foldl_cons, ih _ (by omega), hfirst]
    omega

theorem usedSize_of_build {heap : ByteMemory} (h : build heap strings = some b) :
    b.usedSize = (Chunk.list strings).encode.length := by
  obtain ⟨b₁, hconfigure, hadd⟩ := Option.bind_eq_some_iff.mp h
  have hlt : ∀ n m, uintAdd n m < uintRange := fun n m => Nat.mod_lt _ (by decide)
  obtain ⟨hsize, hle, hallocated⟩ := put_grows hconfigure (hlt _ _)
  have hlt₁ : b₁.allocatedSize < uintRange := hallocated ▸ hlt _ _
  obtain ⟨hsize', hle'⟩ := addAll_grows hadd hlt₁ (by rw [hallocated]; exact hle)
  have hcount := length_le_flatMap_putString strings
  rw [count_foldl_estimate strings (create heap) (by simp only [create]; omega)] at hsize
  simp only [create, Nat.zero_add, length_putEntity] at hsize
  rw [hsize', hsize, Chunk.encode, List.length_append, length_putEntity]

end HeaderListChunkBuilder

namespace HeaderChunkBuilder

variable {payload : Option Payload} {heap : ByteMemory} {chunks : List Chunk}

/-- The builder has stored `n` more bytes, and they are within the header. -/
structure Stores (b b' : HeaderChunkBuilder) (n : Nat) : Prop where
  available : b'.sb.getAvailableHeaderSize = b.sb.getAvailableHeaderSize
  used : b'.usedSize = b.usedSize + n
  fits : b'.usedSize ≤ b.sb.getAvailableHeaderSize

variable {b b' b'' : HeaderChunkBuilder} {n k : Nat}

namespace Stores

theorem trans (h : Stores b b' n) (h' : Stores b' b'' k) : Stores b b'' (n + k) where
  available := h'.available.trans h.available
  used := by rw [h'.used, h.used, Nat.add_assoc]
  fits := h.available ▸ h'.fits

theorem zero (h : b.usedSize ≤ b.sb.getAvailableHeaderSize) : Stores b b 0 := ⟨rfl, rfl, h⟩

theorem fits_after (h : Stores b b' n) : b'.usedSize ≤ b'.sb.getAvailableHeaderSize :=
  h.available ▸ h.fits

theorem lt_after (h : Stores b b' n) (hlt : b.sb.getAvailableHeaderSize < uintRange) :
    b'.sb.getAvailableHeaderSize < uintRange :=
  h.available ▸ hlt

end Stores

theorem stores_put {bytes : List UInt8} (h : b.put bytes = some b')
    (hlt : b.sb.getAvailableHeaderSize < uintRange) : Stores b b' bytes.length := by
  have havailable := put_available h
  obtain ⟨hroom, hb'⟩ := Option.ite_none_right_eq_some.mp h
  cases hb'
  have hsum : uintAdd b.usedSize bytes.length = b.usedSize + bytes.length := uintAdd_eq (by omega)
  exact ⟨havailable, hsum, hsum.trans_le hroom⟩

theorem stores_putIf {c : Prop} [Decidable c] {bytes : List UInt8} (h : b.putIf c bytes = some b')
    (hlt : b.sb.getAvailableHeaderSize < uintRange)
    (hfits : b.usedSize ≤ b.sb.getAvailableHeaderSize) :
    Stores b b' (if c then bytes else []).length := by
  unfold putIf at h
  split_ifs at h ⊢ with hc
  · exact stores_put h hlt
  · cases h
    exact .zero hfits

theorem stores_orDescriptor (h : Stores b b' n) (mask : UInt8) :
    Stores b (b'.orDescriptor mask) n where
  available := by simpa [orDescriptor] using h.available
  used := h.used
  fits := h.fits

theorem stores_putHeaderSize {size : Nat} (h : b.putHeaderSize size = some b')
    (hlt : b.sb.getAvailableHeaderSize < uintRange)
    (hfits : b.usedSize ≤ b.sb.getAvailableHeaderSize) : Stores b b' (sizePart size).length := by
  unfold putHeaderSize at h
  unfold sizePart
  split_ifs at h ⊢ with hpos
  · obtain ⟨b₁, hput, hb'⟩ := Option.bind_eq_some_iff.mp h
    cases hb'
    exact stores_orDescriptor (stores_put hput hlt) _
  · cases h
    exact .zero hfits

theorem stores_putPasswordHash {hash : Option UInt64} (h : b.putPasswordHash hash = some b')
    (hlt : b.sb.getAvailableHeaderSize < uintRange)
    (hfits : b.usedSize ≤ b.sb.getAvailableHeaderSize) : Stores b b' (hashPart hash).length := by
  cases hash with
  | some hash => exact stores_put h hlt
  | none =>
    cases h
    exact .zero hfits

theorem stores_putPayloadInfo (h : b.putPayloadInfo payload = some b')
    (hlt : b.sb.getAvailableHeaderSize < uintRange)
    (hfits : b.usedSize ≤ b.sb.getAvailableHeaderSize) : Stores b b' (infoPart payload).length := by
  cases payload with
  | none =>
    cases h
    exact .zero hfits
  | some payload =>
    obtain ⟨b₁, hput₁, h⟩ := Option.bind_eq_some_iff.mp h
    obtain ⟨b₂, hput₂, h⟩ := Option.bind_eq_some_iff.mp h
    have h₁ := stores_putIf hput₁ hlt hfits
    have h₂ := stores_orDescriptor (stores_put hput₂ (h₁.lt_after hlt))
      (sizeMask payload.usize descBytePayload descWordPayload descDwordPayload)
    have h₃ := stores_putIf h (h₂.lt_after (h₁.lt_after hlt)) h₂.fits_after
    have hall := (h₁.trans h₂).trans h₃
    simpa only [infoPart, List.length_append, length_sizeBytes] using hall

theorem stores_add {c : Chunk} {e : HeaderChunk}
    (hprepare : HeaderChunk.prepare heap c = some e) (h : b.add e = some b')
    (hlt : b.sb.getAvailableHeaderSize < uintRange) : Stores b b' c.encode.length := by
  cases c with
  | number n =>
    cases hprepare
    exact stores_put h hlt
  | string s =>
    cases hprepare
    obtain ⟨b₁, hput, hs⟩ := Option.bind_eq_some_iff.mp h
    have h₁ := stores_put hput hlt
    have h₂ := stores_putIf hs (h₁.lt_after hlt) h₁.fits_after
    have hs : (if 0 < s.length then s else []) = s := by
      split_ifs with hpos
      · rfl
      · exact (List.length_eq_zero_iff.mp (by omega)).symm
    rw [hs] at h₂
    simpa only [Chunk.encode, List.length_append] using h₁.trans h₂
  | list strings =>
    obtain ⟨l, hbuild, rfl⟩ := Option.map_eq_some_iff.mp hprepare
    have hstores := stores_put h hlt
    rwa [length_slice, HeaderListChunkBuilder.usedSize_of_build hbuild] at hstores

theorem stores_addAll {es : List HeaderChunk}
    (hprepare : chunks.mapM (HeaderChunk.prepare heap) = some es)
    (h : es.foldlM add b = some b') (hlt : b.sb.getAvailableHeaderSize < uintRange)
    (hfits : b.usedSize ≤ b.sb.getAvailableHeaderSize) :
    Stores b b' (chunks.flatMap Chunk.encode).length := by
  induction chunks generalizing b es with
  | nil =>
    cases hprepare
    cases h
    exact .zero hfits
  | cons c chunks ih =>
    rw [List.mapM_cons] at hprepare
    obtain ⟨e, he, hprepare⟩ := Option.bind_eq_some_iff.mp hprepare
    obtain ⟨es', hes', hes⟩ := Option.bind_eq_some_iff.mp hprepare
    cases hes
    obtain ⟨b₁, hadd, hadds⟩ := Option.bind_eq_some_iff.mp h
    have h₁ := stores_add he hadd hlt
    have h₂ := ih hes' hadds (h₁.lt_after hlt) h₁.fits_after
    simpa only [List.flatMap_cons, List.length_append] using h₁.trans h₂

theorem stores_configure {sb : SharedBuffers} {estimated : Nat} {source : HeaderSource}
    (hdata : sb.data.size = 0) (h : configure ⟨sb, estimated, 0⟩ source payload = some b) :
    b.sb.getAvailableHeaderSize < uintRange ∧ b.usedSize ≤ b.sb.getAvailableHeaderSize ∧
      b.usedSize = 1 + (sizePart (if 0 < estimated ∨ payload.isSome then
        (estimated + fixedSize source + payloadInfoSize payload) % uintRange else 0)).length +
        (fixedPart source).length + (infoPart payload).length := by
  simp only [configure] at h
  generalize (if 0 < estimated ∨ payload.isSome then
    (estimated + fixedSize source + payloadInfoSize payload) % uintRange else 0) = size at h ⊢
  generalize hfull : (if 0 < size then (1 + estimateSizeBytes size + size) % uintRange
    else 1 + fixedSize source) = full at h
  have hlt : full < uintRange := by
    have hfixed : fixedSize source ≤ 9 := by
      unfold fixedSize
      split_ifs <;> decide
    have hrange : 10 < uintRange := by decide
    rw [← hfull]
    split_ifs
    · exact Nat.mod_lt _ (by omega)
    · omega
  have hlt₀ : (sb.configureHeader 0 full).getAvailableHeaderSize < uintRange := by
    rw [SharedBuffers.getAvailableHeaderSize_configureHeader hdata]
    exact Nat.max_lt.mpr ⟨by decide, hlt⟩
  obtain ⟨b₁, hput₁, h⟩ := Option.bind_eq_some_iff.mp h
  obtain ⟨b₂, hput₂, h⟩ := Option.bind_eq_some_iff.mp h
  obtain ⟨b₃, hput₃, h⟩ := Option.bind_eq_some_iff.mp h
  obtain ⟨b₄, hput₄, h⟩ := Option.bind_eq_some_iff.mp h
  obtain ⟨b₅, hput₅, h⟩ := Option.bind_eq_some_iff.mp h
  cases h
  have h₁ := stores_put hput₁ hlt₀
  have h₂ := h₁.trans (stores_putHeaderSize hput₂ (h₁.lt_after hlt₀) h₁.fits_after)
  have h₃ := h₂.trans (stores_putIf hput₃ (h₂.lt_after hlt₀) h₂.fits_after)
  have h₄ := h₃.trans (stores_putPasswordHash hput₄ (h₃.lt_after hlt₀) h₃.fits_after)
  have h₅ := h₄.trans (stores_putPayloadInfo hput₅ (h₄.lt_after hlt₀) h₄.fits_after)
  refine ⟨h₅.lt_after hlt₀, h₅.fits_after, ?_⟩
  have hused := h₅.used
  simp only [List.length_singleton, Nat.zero_add] at hused
  rw [fixedPart, List.length_append]
  change b₅.usedSize = _
  omega

theorem exists_foldl_estimate (es : List HeaderChunk) (sb : SharedBuffers) (estimated : Nat) :
    ∃ n, es.foldl estimate ⟨sb, estimated, 0⟩ = ⟨sb, n, 0⟩ := by
  induction es generalizing estimated with
  | nil => exact ⟨estimated, rfl⟩
  | cons e es ih => cases e <;> exact ih _

theorem estimated_foldl {es : List HeaderChunk}
    (hprepare : chunks.mapM (HeaderChunk.prepare heap) = some es) (b : HeaderChunkBuilder)
    (hlt : b.estimatedSize + (chunks.flatMap Chunk.encode).length < uintRange) :
    es.foldl estimate b =
      { b with estimatedSize := b.estimatedSize + (chunks.flatMap Chunk.encode).length } := by
  have hchunks : (chunks.flatMap Chunk.encode).length < uintRange := by omega
  obtain ⟨es', hprepare', hes'⟩ := HeaderChunk.mapM_prepare heap hchunks
  obtain rfl : es = es' := Option.some.inj (hprepare.symm.trans hprepare')
  exact foldl_estimate hes' b hlt

/-- A header that is built without a store outside of it is shorter than `2 ^ 32` bytes. -/
theorem length_header_lt_of_build {sb : SharedBuffers} (hfresh : sb.Fresh) {source : HeaderSource}
    (h : build heap sb source payload chunks = some b) :
    (header source payload chunks).length < uintRange := by
  obtain ⟨es, hprepare, h⟩ := Option.bind_eq_some_iff.mp h
  obtain ⟨b₁, hconfigure, hadd⟩ := Option.bind_eq_some_iff.mp h
  have hdata := (attachPayload_holds hfresh ((payload.map Payload.bytes).getD [])).1
  have hestimate : (chunks.flatMap Chunk.encode).length < uintRange →
      es.foldl estimate (create (sb.attachPayload ((payload.map Payload.bytes).getD []))) =
        ⟨sb.attachPayload ((payload.map Payload.bytes).getD []),
          (chunks.flatMap Chunk.encode).length, 0⟩ := by
    intro hlt
    rw [estimated_foldl hprepare _ (by simpa only [create, Nat.zero_add] using hlt)]
    simp only [create, Nat.zero_add]
  -- the chunks alone have to fit, so the size that was announced is theirs
  have hfits : (chunks.flatMap Chunk.encode).length < uintRange := by
    obtain ⟨n, hn⟩ := exists_foldl_estimate es
      (sb.attachPayload ((payload.map Payload.bytes).getD [])) 0
    rw [create, hn] at hconfigure
    obtain ⟨hlt, hle, -⟩ := stores_configure hdata hconfigure
    have hstores := stores_addAll hprepare hadd hlt hle
    have hsum := hstores.used
    have hroom := hstores.fits
    omega
  rw [hestimate hfits] at hconfigure
  obtain ⟨hlt, hle, hused⟩ := stores_configure hdata hconfigure
  have hstores := stores_addAll hprepare hadd hlt hle
  have hsum := hstores.used
  have hroom := hstores.fits
  have hsize : (if 0 < (chunks.flatMap Chunk.encode).length ∨ payload.isSome then
      ((chunks.flatMap Chunk.encode).length + fixedSize source + payloadInfoSize payload) %
        uintRange
      else 0) = dataSize source payload chunks := by
    rw [length_fixedPart, length_infoPart] at hused
    unfold dataSize
    split_ifs
    · exact Nat.mod_eq_of_lt (by omega)
    · rfl
  rw [hsize] at hused
  simp only [header, List.length_cons, List.length_append]
  omega

end HeaderChunkBuilder

end CyberCache
