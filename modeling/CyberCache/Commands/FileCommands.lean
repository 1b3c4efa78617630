import CyberCache.Commands.UserAgents
import CyberCache.Wire.HeaderLimits
import CyberCache.Wire.PasswordHash

/-!
# Commands in files

A database file is a sequence of commands, each of which was built from an object in memory. What a
handler sees of such a command when it is read back is what it was built from, also after its
password was replaced on the way.
-/

namespace CyberCache

open ByteMemory HeaderChunkBuilder

/-- The parts of a command that are up to its author. -/
structure FileCommand where
  command : UInt8
  payload : Payload
  chunks : List Chunk

def Payload.stored (p : Payload) : StoredPayload := ⟨p.bytes, p.usize, p.compressor⟩

namespace FileCommand

variable (c : FileCommand) (config : NetworkConfiguration)

/-- Commands in files carry the user password. -/
def source : HeaderSource := CommandHeaderChunkBuilder.source config c.command false false

def header : List UInt8 := HeaderChunkBuilder.header (c.source config) (some c.payload) c.chunks

def build (heap : ByteMemory) (sb : SharedBuffers) : Option HeaderChunkBuilder :=
  HeaderChunkBuilder.build heap sb (c.source config) (some c.payload) c.chunks

structure Valid : Prop where
  command_ne : c.command ≠ cmdInvalid
  payload : c.payload.Valid
  chunks : ∀ chunk ∈ c.chunks, chunk.Valid

theorem Valid.some_payload {c : FileCommand} (h : c.Valid) : ∀ p ∈ some c.payload, p.Valid := by
  rintro _ ⟨⟩
  exact h.payload

/-- The command is built and written, and what reads it ends with buffers of which `p` holds. -/
def ReadsBack (p : SharedBuffers → Prop) : Prop :=
  ∀ (heap : ByteMemory) (sb : SharedBuffers), sb.Fresh →
    ∃ b bytes, c.build config heap sb = some b ∧ CommandHeaderChunkBuilder.check b = true ∧
      Emits commandFormat b.ready bytes ∧ Accepts commandFormat bytes p

/-! ## Writing and reading -/

theorem delivers_replicate (n : Nat) : ∀ d ∈ List.replicate n (Delivery.transfer 0),
    d.Delivers := by
  intro d hd
  rw [List.eq_of_mem_replicate hd]
  exact .inr rfl

theorem countP_replicate (n : Nat) :
    (List.replicate n (Delivery.transfer 0)).countP Delivery.isTransfer = n := by
  simp [List.countP_replicate, Delivery.isTransfer]

theorem emits_unique {f : MessageFormat} {w : ReaderWriter} {xs ys : List UInt8}
    (hxs : Emits f w xs) (hys : Emits f w ys) : xs = ys := by
  obtain ⟨calls, last, hcalls, -, -, hout⟩ := hxs (.replicate (xs.length + ys.length) (.transfer 0))
    (delivers_replicate _) (by rw [countP_replicate]; omega)
  obtain ⟨calls', last', hcalls', -, -, hout'⟩ :=
    hys (.replicate (xs.length + ys.length) (.transfer 0)) (delivers_replicate _)
      (by rw [countP_replicate]; omega)
  rw [← hout, ← hout', ← hcalls, ← hcalls']

theorem exists_of_accepts {f : MessageFormat} {bytes : List UInt8} {p q : SharedBuffers → Prop}
    (hp : Accepts f bytes p) (hq : Accepts f bytes q) : ∃ sb, p sb ∧ q sb := by
  obtain ⟨calls, last, hcalls, -, -, -, hlast⟩ := hp (.create (fun _ => 0) (fun _ => 0)) ⟨rfl, rfl⟩
    [] (.replicate bytes.length (.transfer 0)) (delivers_replicate _) (countP_replicate _).ge
  obtain ⟨calls', last', hcalls', -, -, -, hlast'⟩ :=
    hq (.create (fun _ => 0) (fun _ => 0)) ⟨rfl, rfl⟩ []
      (.replicate bytes.length (.transfer 0)) (delivers_replicate _) (countP_replicate _).ge
  obtain ⟨-, hsame⟩ := List.append_inj' (hcalls.symm.trans hcalls') rfl
  obtain rfl := List.head_eq_of_cons_eq hsame
  exact ⟨last.reader.sb, hlast, hlast'⟩

variable {c config}

/-- A command is read back if its header is shorter than `2 ^ 32` bytes; what is read are its header
and its payload. -/
theorem readsBack_iff (hvalid : c.Valid) {p : SharedBuffers → Prop} {q : Prop}
    (hp : (c.header config).length < uintRange → ∀ sb : SharedBuffers,
      sb.Holds (c.header config) c.payload.bytes →
        (c.header config).length ≤ sb.getAvailableHeaderSize → (p sb ↔ q)) :
    c.ReadsBack config p ↔ (c.header config).length < uintRange ∧ q := by
  have hsuits := CommandHeaderChunkBuilder.source_suits config hvalid.command_ne false false
  have hwell (hlt : (c.header config).length < uintRange) :
      WellFormed commandFormat (c.header config) c.payload.bytes :=
    built_wellFormed hlt hsuits hvalid.some_payload fun _ => by simp [commandFormat]
  constructor
  · intro h
    obtain ⟨b, bytes, hbuild, -, hemits, haccepts⟩ :=
      h (fun _ => 0) (.create (fun _ => 0) (fun _ => 0)) ⟨rfl, rfl⟩
    have hlt : (c.header config).length < uintRange := length_header_lt_of_build ⟨rfl, rfl⟩ hbuild
    have hfresh : (SharedBuffers.create (fun _ => 0) (fun _ => 0)).Fresh := ⟨rfl, rfl⟩
    obtain ⟨b', hbuild', -, -, hholds⟩ := build_holds (fun _ => 0) hfresh hlt
    obtain rfl : b = b' := Option.some.inj (hbuild.symm.trans hbuild')
    obtain rfl : bytes = message (c.header config) c.payload.bytes :=
      emits_unique hemits ((hwell hlt).emits rfl hholds)
    have hread : Accepts commandFormat (message (c.header config) c.payload.bytes) fun sb =>
        sb.Holds (c.header config) c.payload.bytes ∧
          (c.header config).length ≤ sb.getAvailableHeaderSize :=
      (hwell hlt).accepts fun sb hholds havailable => ⟨hholds, havailable⟩
    obtain ⟨sb, hsb, hread, havailable⟩ := exists_of_accepts haccepts hread
    exact ⟨hlt, (hp hlt sb hread havailable).mp hsb⟩
  · rintro ⟨hlt, hq⟩ heap sb hfresh
    obtain ⟨b, hbuild, hused, hestimated, hholds⟩ := build_holds heap hfresh hlt
    refine ⟨b, _, hbuild, ?_, (hwell hlt).emits rfl hholds,
      (hwell hlt).accepts fun sb hholds havailable => (hp hlt sb hholds havailable).mpr hq⟩
    have hlength := length_header_eq (c.source config) (some c.payload) c.chunks
    have hfixed : 1 ≤ fixedSize (c.source config) := by
      simp [fixedSize, source, CommandHeaderChunkBuilder.source, hvalid.command_ne]
    simp only [CommandHeaderChunkBuilder.check, hused, hestimated, beq_self_eq_true,
      Bool.true_and, decide_eq_true_eq]
    omega

end FileCommand

/-! ## What a handler gets -/

namespace HeaderChunkIterator

theorem decodes_of_before {it : HeaderChunkIterator} {chunks : List Chunk}
    (hvalid : ∀ c ∈ chunks, c.Valid) (h : it.Before (chunks.flatMap Chunk.encode))
    (hremains : it.remains = (chunks.flatMap Chunk.encode).length) (hin : it.inBounds = true) :
    it.Decodes chunks := by
  induction chunks generalizing it with
  | nil => exact hremains
  | cons c chunks ih =>
    rw [List.flatMap_cons] at h hremains
    rw [List.forall_mem_cons] at hvalid
    have hskip := h.skip_eq (n := c.encode.length) (by simp)
    refine ⟨_, takeChunk_encode hvalid.1 h.left, ?_, ih hvalid.2 h.right ?_ ?_⟩
    · rw [hskip]
      exact hin
    · rw [hskip, hremains, List.length_append]
      exact Nat.add_sub_cancel_left _ _
    · rw [hskip]
      exact hin

end HeaderChunkIterator

namespace FileCommand

/-- Buffers with a command whose header has `limit` bytes. -/
structure Brings (c : FileCommand) (sb : SharedBuffers) (limit : Nat) : Prop where
  command : CommandAccessor.getCommandIdByte sb = c.command
  located : ∃ offset,
    commandFormat.getHeaderInfo sb.header = some (offset, (c.chunks.flatMap Chunk.encode).length) ∧
      sb.header.slice offset (c.chunks.flatMap Chunk.encode).length = c.chunks.flatMap
      Chunk.encode ∧ offset + (c.chunks.flatMap Chunk.encode).length = limit
  limit_lt : limit < uintRange
  payload : ∀ network, CommandReader.payload ⟨sb, network⟩ = some c.payload.stored

variable {c : FileCommand} {config : NetworkConfiguration} {sb : SharedBuffers} {limit : Nat}

theorem brings_of_holds (hvalid : c.Valid) (hne : c.chunks ≠ [])
    (hlt : (c.header config).length < uintRange)
    (hholds : sb.Holds (c.header config) c.payload.bytes)
    (havailable : (c.header config).length ≤ sb.getAvailableHeaderSize) :
    c.Brings sb (c.header config).length := by
  have hsuits := CommandHeaderChunkBuilder.source_suits config hvalid.command_ne false false
  have hreceived := built_received hsuits hvalid.some_payload hvalid.chunks hlt hholds havailable
  have hpos : 0 < (c.chunks.flatMap Chunk.encode).length := by
    obtain ⟨chunk, chunks, heq⟩ := List.exists_cons_of_ne_nil hne
    have := chunk.length_encode_pos
    rw [heq, List.flatMap_cons, List.length_append]
    omega
  have hinfo := getHeaderInfo_built hlt (hsuits.descriptorSays (some c.payload) c.chunks)
    hholds.header
  rw [if_pos hpos] at hinfo
  have hsplit : c.header config = front (c.source config) (some c.payload) c.chunks ++
      infoPart (some c.payload) ++ c.chunks.flatMap Chunk.encode := by
    rw [header, header_eq, front]
  refine ⟨CommandHeaderChunkBuilder.getCommandIdByte_built hvalid.command_ne hholds.header,
    ⟨_, hinfo, ?_, ?_⟩, hlt, fun network => ?_⟩
  · exact slice_part hholds.header _ _ [] (by rw [hsplit, List.append_nil])
  · exact (congrArg List.length hsplit).trans List.length_append |>.symm
  · have hinfo : CommandAccessor.getPayloadInfo sb = Payload.info (some c.payload) :=
      hreceived.payloadInfo
    have hbytes : sb.payloadBytes = c.payload.bytes := hreceived.payloadBytes
    simp only [CommandReader.payload, hinfo, Payload.info, hbytes]
    rfl

namespace Brings

theorem decodes (h : c.Brings sb limit) (hvalid : c.Valid) :
    (HeaderChunkIterator.create commandFormat sb).Decodes c.chunks := by
  obtain ⟨offset, hinfo, hslice, hend⟩ := h.located
  have hlt := h.limit_lt
  simp only [HeaderChunkIterator.create, HeaderChunkIterator.ofHeader, hinfo]
  exact HeaderChunkIterator.decodes_of_before hvalid.chunks
    ⟨hslice, le_rfl, by simp only; omega⟩ rfl rfl

theorem reader_at (h : c.Brings sb limit) (hvalid : c.Valid) (network : Bool)
    (stack : Nat → BitVec 64) :
    (CommandReader.chunks ⟨sb, network⟩ stack).At limit c.chunks := by
  have hat : (CommandReader.chunks ⟨sb, network⟩ stack).At (StoreCommand.chunksEnd ⟨sb, network⟩)
      c.chunks := StoreCommand.chunks_at (h.decodes hvalid)
  obtain ⟨offset, hinfo, -, hend⟩ := h.located
  have hlimit : StoreCommand.chunksEnd ⟨sb, network⟩ = limit := by
    simp only [StoreCommand.chunksEnd, HeaderChunkIterator.create, HeaderChunkIterator.ofHeader,
      hinfo]
    exact hend
  rwa [hlimit] at hat

/-- The password stands before everything else that a handler looks at. -/
theorem replacePassword (h : c.Brings sb limit) (server : ServerState) (flags : UInt8) :
    c.Brings (ConnectionThread.replacePassword server flags sb) limit := by
  unfold ConnectionThread.replacePassword
  split_ifs with hreplaces
  · have hold : CommandPasswordType.ofDescriptor (sb.header 0) ≠ .noPassword := by
      rw [ne_eq, ← IntegerAccess.auth_eq_noAuth]
      intro hnone
      have hprovided : CommandAccessor.getCommandPwdHash sb = (descNoAuth, none) :=
        if_neg (not_not.mpr hnone)
      rw [hprovided] at hreplaces
      exact absurd hreplaces.2 (by decide)
    have hnew : CommandPasswordType.bulkPassword ≠ .noPassword := by decide
    have hset : IntegerAccess.unaligned.setCommandPwdHash sb .bulkPassword
        server.netConfig.bulkPassword = (true, IntegerAccess.replaced sb .bulkPassword
          server.netConfig.bulkPassword) :=
      IntegerAccess.setCommandPwdHash_of_password hold hnew
    have hsame : SameButPassword sb.header (IntegerAccess.replaced sb .bulkPassword
        server.netConfig.bulkPassword).header := IntegerAccess.replaced_sameButPassword hold hnew
    obtain ⟨hcommand, -, hinfo, -, -, hbytes⟩ :=
      ((IntegerAccess.replacesPassword_of_password hold hnew).mpr rfl).frame
        (congrArg Prod.fst hset) _ rfl
    rw [hset] at hcommand hinfo hbytes
    have hreplaced : (CommandAccessor.setCommandPwdHash sb descBulkAuth
        server.netConfig.bulkPassword).2 = IntegerAccess.replaced sb .bulkPassword
          server.netConfig.bulkPassword :=
      congrArg Prod.snd
        ((IntegerAccess.setCommandPwdHash_eq .unaligned sb .bulkPassword _).symm.trans hset)
    rw [hreplaced]
    obtain ⟨offset, hlocated, hslice, hend⟩ := h.located
    refine ⟨hcommand.trans h.command, ⟨offset, hsame.getHeaderInfo_eq.trans hlocated,
      (hsame.slice_chunks_eq hlocated _).trans hslice, hend⟩, h.limit_lt, fun network => ?_⟩
    have hpayload := h.payload network
    unfold CommandReader.payload SharedBuffers.payloadBytes at hpayload ⊢
    dsimp only at hpayload ⊢
    rwa [hinfo, hbytes]
  · exact h

end Brings

end FileCommand

end CyberCache
