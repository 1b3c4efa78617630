import CyberCache.Wire.Chunks

/-!
# Replacing the password of a command

The integer accessors of a header exist in two builds: with `C3_UNALIGNED_ACCESS` an integer is
loaded and stored as a whole, without it byte by byte. The second build puts a loaded number
together from shifted bytes. A byte is promoted to `int` before it is shifted, and that type has 32
bits, so that nothing is left of the upper half of a 64-bit number. All stores agree.
-/

namespace CyberCache

open ByteMemory

inductive IntegerAccess where
  | unaligned
  | aligned
deriving DecidableEq, Repr

inductive CommandPasswordType where
  | noPassword
  | userPassword
  | adminPassword
  | bulkPassword
deriving DecidableEq, Repr

namespace CommandPasswordType

def byte : CommandPasswordType → UInt8
  | noPassword => descNoAuth
  | userPassword => descUserAuth
  | adminPassword => descAdminAuth
  | bulkPassword => descBulkAuth

def ofDescriptor (desc : UInt8) : CommandPasswordType :=
  if desc &&& descAuthBits = descNoAuth then noPassword
  else if desc &&& descAuthBits = descUserAuth then userPassword
  else if desc &&& descAuthBits = descAdminAuth then adminPassword
  else bulkPassword

theorem byte_ofDescriptor (desc : UInt8) : (ofDescriptor desc).byte = desc &&& descAuthBits := by
  have hbits : ∀ n : Fin 256, (ofDescriptor (UInt8.ofNat n)).byte =
      UInt8.ofNat n &&& descAuthBits := by decide +kernel
  simpa using hbits ⟨desc.toNat, desc.toNat_lt⟩

theorem descriptor_bits (desc : UInt8) :
    (desc &&& ~~~descAuthBits) ||| (desc &&& descAuthBits) = desc := by
  have hbits : ∀ n : Fin 256, (UInt8.ofNat n &&& ~~~descAuthBits) |||
      (UInt8.ofNat n &&& descAuthBits) = UInt8.ofNat n := by decide +kernel
  simpa only [UInt8.ofNat_toNat] using hbits ⟨desc.toNat, desc.toNat_lt⟩

theorem byte_inj {t t' : CommandPasswordType} (h : t.byte = t'.byte) : t = t' := by
  cases t <;> cases t' <;> first | rfl | exact absurd h (by decide)

theorem byte_eq_noAuth {t : CommandPasswordType} : t.byte = descNoAuth ↔ t = noPassword :=
  ⟨fun h => byte_inj h, fun h => h ▸ rfl⟩

theorem replaced_bits (desc : UInt8) (type : CommandPasswordType) :
    let desc' := (desc &&& ~~~descAuthBits) ||| type.byte
    desc' &&& descAuthBits = type.byte ∧ desc' &&& ~~~descAuthBits = desc &&& ~~~descAuthBits := by
  have hbits : ∀ n : Fin 256, ∀ t : Fin 4,
      let desc := UInt8.ofNat n
      let desc' := (desc &&& ~~~descAuthBits) ||| UInt8.ofNat t
      desc' &&& descAuthBits = UInt8.ofNat t ∧
        desc' &&& ~~~descAuthBits = desc &&& ~~~descAuthBits := by
    decide +kernel
  have hdesc := hbits ⟨desc.toNat, desc.toNat_lt⟩
  simp only [UInt8.ofNat_toNat] at hdesc
  cases type
  exacts [hdesc 0, hdesc 1, hdesc 2, hdesc 3]

end CommandPasswordType

/-! ## Integer accessors -/

namespace IntegerAccess

/-- `... + (p[1] << n + 8) + (p[0] << n)` as a number of type `int`. A shift by all bits of the type
or more is undefined; what compilers make of it is zero. -/
def sumShifted : Nat → List UInt8 → BitVec 32
  | _, [] => 0
  | n, b :: bytes => (BitVec.ofNat 32 b.toNat <<< n) + sumShifted (n + 8) bytes

/-- A load, or a sum that is converted from `int`. -/
def getHeaderUlongAt (access : IntegerAccess) (m : ByteMemory) (i : Nat) : UInt64 :=
  match access with
  | unaligned => UInt64.ofNat (m.readLE i 8)
  | aligned => ⟨(sumShifted 0 (m.slice i 8)).signExtend 64⟩

def ulongBytes (access : IntegerAccess) (n : UInt64) : List UInt8 :=
  match access with
  | unaligned => toBytesLE 8 n.toNat
  | aligned => (List.range 8).map fun k => UInt8.ofNat (n.toNat >>> (8 * k))

theorem sumShifted_eq (n : Nat) (bytes : List UInt8) :
    sumShifted n bytes = BitVec.ofNat 32 (ofBytesLE bytes * 2 ^ n) := by
  induction bytes generalizing n with
  | nil => simp [sumShifted, ofBytesLE]
  | cons b bytes ih =>
    have hsum : ofBytesLE (b :: bytes) * 2 ^ n =
        b.toNat * 2 ^ n + ofBytesLE bytes * 2 ^ (n + 8) := by
      rw [ofBytesLE, pow_add]
      ring
    rw [sumShifted, ih, hsum, BitVec.ofNat_add]
    congr 1
    apply BitVec.eq_of_toNat_eq
    simp [Nat.shiftLeft_eq]

/-- What is read where a hash was stored: without unaligned access, its lower half as a signed
number. -/
def reread (access : IntegerAccess) (hash : UInt64) : UInt64 :=
  match access with
  | unaligned => hash
  | aligned => ⟨(BitVec.ofNat 32 hash.toNat).signExtend 64⟩

theorem reread_eq_iff {access : IntegerAccess} {hash : UInt64} : access.reread hash = hash ↔
    access = .unaligned ∨ hash.toNat < 2 ^ 31 ∨ 2 ^ 64 - 2 ^ 31 ≤ hash.toNat := by
  cases access with
  | unaligned => simp [reread]
  | aligned =>
    have hlt := hash.toNat_lt
    rw [reread, ← UInt64.toNat_inj]
    simp only [UInt64.toNat_ofBitVec, BitVec.toNat_signExtend, BitVec.msb_eq_decide]
    simp
    split_ifs <;> omega

theorem getHeaderUlongAt_eq {m : ByteMemory} {i : Nat} {hash : UInt64}
    (h : m.slice i 8 = toBytesLE 8 hash.toNat) (access : IntegerAccess) :
    access.getHeaderUlongAt m i = access.reread hash := by
  have hlt : hash.toNat < 256 ^ 8 := hash.toNat_lt
  cases access with
  | unaligned => simp [getHeaderUlongAt, reread, readLE, h, ofBytesLE_toBytesLE hlt]
  | aligned =>
    simp [getHeaderUlongAt, reread, h, sumShifted_eq, ofBytesLE_toBytesLE hlt]

theorem ulongBytes_eq (access : IntegerAccess) (n : UInt64) :
    access.ulongBytes n = toBytesLE 8 n.toNat := by
  cases access with
  | unaligned => rfl
  | aligned =>
    simp [ulongBytes, toBytesLE, List.range_succ, Nat.shiftRight_eq_div_pow,
      Nat.div_div_eq_div_mul]

/-! ## The password -/

def getCommandPwdHash (access : IntegerAccess) (sb : SharedBuffers) :
    CommandPasswordType × Option UInt64 :=
  let type := CommandPasswordType.ofDescriptor (sb.header 0)
  if type ≠ .noPassword then
    (type, some (access.getHeaderUlongAt sb.header (headerDataSizeLength (sb.header 0) + 2)))
  else (type, none)

def setCommandPwdHash (access : IntegerAccess) (sb : SharedBuffers) (type : CommandPasswordType)
    (hash : UInt64) : Bool × SharedBuffers :=
  let desc := sb.header 0
  let auth := desc &&& descAuthBits
  if auth ≠ type.byte ∧ (auth = descNoAuth ∨ type = .noPassword) then (false, sb)
  else
    let sb :=
      if auth ≠ type.byte then sb.writeHeader 0 [(desc &&& ~~~descAuthBits) ||| type.byte] else sb
    if type ≠ .noPassword then
      (true, sb.writeHeader (headerDataSizeLength (sb.header 0) + 2) (access.ulongBytes hash))
    else (true, sb)

/-- The two variants of the setter are one function. -/
theorem setCommandPwdHash_eq (access : IntegerAccess) (sb : SharedBuffers)
    (type : CommandPasswordType) (hash : UInt64) :
    access.setCommandPwdHash sb type hash =
      CommandAccessor.setCommandPwdHash sb type.byte hash := by
  simp only [setCommandPwdHash, CommandAccessor.setCommandPwdHash, ulongBytes_eq, ne_eq,
    CommandPasswordType.byte_eq_noAuth]

end IntegerAccess

/-! ## What the replacement leaves alone -/

theorem masked_eq {d d' mask : UInt8} (h : d' &&& ~~~descAuthBits = d &&& ~~~descAuthBits)
    (hmask : ~~~descAuthBits &&& mask = mask) : d' &&& mask = d &&& mask := by
  rw [← hmask, ← UInt8.and_assoc, h, UInt8.and_assoc]

/-- Two headers that differ in nothing but the password: its type, unless there is none, and the
eight bytes of the hash. -/
structure SameButPassword (m m' : ByteMemory) : Prop where
  bits : m' 0 &&& ~~~descAuthBits = m 0 &&& ~~~descAuthBits
  present : m' 0 &&& descAuthBits = descNoAuth ↔ m 0 &&& descAuthBits = descNoAuth
  before : ∀ i, 0 < i → i < headerDataSizeLength (m 0) + 2 → m' i = m i
  behind : ∀ i, commandFormat.payloadInfoOffset (m 0) ≤ i → m' i = m i

namespace SameButPassword

variable {m m' : ByteMemory}

theorem refl (m : ByteMemory) : SameButPassword m m :=
  ⟨rfl, Iff.rfl, fun _ _ _ => rfl, fun _ _ => rfl⟩

section

variable (h : SameButPassword m m')
include h

theorem masked (mask : UInt8) (hmask : ~~~descAuthBits &&& mask = mask) :
    m' 0 &&& mask = m 0 &&& mask :=
  masked_eq h.bits hmask

theorem headerDataSizeLength_eq :
    headerDataSizeLength (m' 0) = headerDataSizeLength (m 0) := by
  simp only [headerDataSizeLength, h.masked descHeaderBits (by decide)]

theorem payloadSizeLength_eq :
    payloadSizeLength (m' 0) = payloadSizeLength (m 0) := by
  simp only [payloadSizeLength, h.masked descPayloadBits (by decide)]

theorem payloadIsCompressed_eq :
    payloadIsCompressed (m' 0) = payloadIsCompressed (m 0) := by
  simp only [payloadIsCompressed, h.masked descPayloadIsCompressed (by decide)]

theorem payloadInfoLength_eq :
    payloadInfoLength (m' 0) = payloadInfoLength (m 0) := by
  simp only [payloadInfoLength, h.masked descPayloadBits (by decide),
    h.payloadIsCompressed_eq, h.payloadSizeLength_eq]

theorem fixedLength_eq :
    commandFormat.fixedLength (m' 0) = commandFormat.fixedLength (m 0) := by
  simp only [commandFormat, ne_eq, h.present]

theorem payloadInfoOffset_eq :
    commandFormat.payloadInfoOffset (m' 0) = commandFormat.payloadInfoOffset (m 0) := by
  simp only [MessageFormat.payloadInfoOffset, h.headerDataSizeLength_eq, h.fixedLength_eq]

theorem headerSize_eq :
    commandFormat.headerSize m' = commandFormat.headerSize m := by
  have hfield : m'.readLE 1 (headerDataSizeLength (m 0)) = m.readLE 1
      (headerDataSizeLength (m 0)) :=
    congrArg ofBytesLE (slice_congr fun i hpos hi => h.before i (by omega) (by omega))
  simp only [MessageFormat.headerSize, h.masked descHeaderBits (by decide),
    h.fixedLength_eq, h.headerDataSizeLength_eq, hfield]

theorem getHeaderInfo_eq :
    commandFormat.getHeaderInfo m' = commandFormat.getHeaderInfo m := by
  simp only [MessageFormat.getHeaderInfo, h.masked descHeaderBits (by decide),
    h.payloadInfoOffset_eq, h.payloadInfoLength_eq, h.headerSize_eq]

theorem readLE_eq (pos k : Nat)
    (hpos : commandFormat.payloadInfoOffset (m 0) ≤ pos) : m'.readLE pos k = m.readLE pos k :=
  congrArg ofBytesLE (slice_congr fun i hi _ => h.behind i (by omega))

theorem payloadInfo_eq (available received : Nat) :
    commandFormat.payloadInfo m' available received =
      commandFormat.payloadInfo m available received := by
  have hcompressor := h.behind _ (Nat.le_refl _)
  have hsize := h.readLE_eq (commandFormat.payloadInfoOffset (m 0)) (payloadSizeLength (m 0))
    (Nat.le_refl _)
  have hsize' := h.readLE_eq (commandFormat.payloadInfoOffset (m 0) + 1)
    (payloadSizeLength (m 0)) (by omega)
  have husize := h.readLE_eq
    (commandFormat.payloadInfoOffset (m 0) + 1 + payloadSizeLength (m 0))
    (payloadSizeLength (m 0)) (by omega)
  simp only [MessageFormat.payloadInfo, h.masked descPayloadBits (by decide),
    h.payloadInfoOffset_eq, h.payloadInfoLength_eq, h.payloadSizeLength_eq,
    h.payloadIsCompressed_eq, hcompressor, hsize, hsize', husize]

theorem slice_chunks_eq {offset size : Nat}
    (hinfo : commandFormat.getHeaderInfo m = some (offset, size)) (k : Nat) :
    m'.slice offset k = m.slice offset k := by
  have hoffset : commandFormat.payloadInfoOffset (m 0) ≤ offset := by
    simp only [MessageFormat.getHeaderInfo] at hinfo
    split_ifs at hinfo
    simp only [Option.some.injEq, Prod.mk.injEq] at hinfo
    omega
  exact slice_congr fun i hi _ => h.behind i (by omega)

theorem takeChunks_eq {chunks : List Chunk}
    (hvalid : ∀ c ∈ chunks, c.Valid)
    (hbefore : (HeaderChunkIterator.ofHeader commandFormat m).Before
      (chunks.flatMap Chunk.encode)) :
    ((HeaderChunkIterator.ofHeader commandFormat m').takeChunks chunks.length).1 = chunks := by
  have hbefore' : (HeaderChunkIterator.ofHeader commandFormat m').Before
      (chunks.flatMap Chunk.encode) := by
    unfold HeaderChunkIterator.ofHeader at hbefore ⊢
    rw [h.getHeaderInfo_eq]
    cases hinfo : commandFormat.getHeaderInfo m with
    | none =>
      rw [hinfo] at hbefore
      have hnil : chunks.flatMap Chunk.encode = [] :=
        List.length_eq_zero_iff.mp (Nat.le_zero.mp hbefore.fits)
      rw [hnil]
      exact ⟨rfl, Nat.le_refl _, Nat.two_pow_pos 32⟩
    | some info =>
      rw [hinfo] at hbefore
      exact ⟨(h.slice_chunks_eq hinfo _).trans hbefore.holds, hbefore.fits, hbefore.range⟩
  rw [HeaderChunkIterator.takeChunks_encode hvalid hbefore']

end

end SameButPassword

namespace IntegerAccess

open CommandPasswordType

variable {access : IntegerAccess} {sb : SharedBuffers} {type : CommandPasswordType} {hash : UInt64}

theorem auth_eq_noAuth : sb.header 0 &&& descAuthBits = descNoAuth ↔
    ofDescriptor (sb.header 0) = .noPassword := by
  rw [← byte_ofDescriptor, byte_eq_noAuth]

theorem auth_eq_byte : sb.header 0 &&& descAuthBits = type.byte ↔
    ofDescriptor (sb.header 0) = type := by
  rw [← byte_ofDescriptor]
  exact ⟨fun h => byte_inj h, fun h => h ▸ rfl⟩

theorem setCommandPwdHash_of_mismatch (h : ¬(ofDescriptor (sb.header 0) = .noPassword ↔
    type = .noPassword)) : access.setCommandPwdHash sb type hash = (false, sb) := by
  have hcond : sb.header 0 &&& descAuthBits ≠ type.byte ∧
      (sb.header 0 &&& descAuthBits = descNoAuth ∨ type = .noPassword) := by
    rw [ne_eq, auth_eq_byte, auth_eq_noAuth]
    constructor
    · rintro rfl
      exact h Iff.rfl
    · by_contra hnone
      rw [not_or] at hnone
      exact h ⟨fun hold => absurd hold hnone.1, fun hnew => absurd hnew hnone.2⟩
  rw [setCommandPwdHash, if_pos hcond]

theorem setCommandPwdHash_of_none (hold : ofDescriptor (sb.header 0) = .noPassword) :
    access.setCommandPwdHash sb .noPassword hash = (true, sb) := by
  have hauth : sb.header 0 &&& descAuthBits = CommandPasswordType.noPassword.byte :=
    auth_eq_byte.mpr hold
  simp [setCommandPwdHash, hauth]

/-- The buffers after a type other than "none" was replaced by another one. -/
def replaced (sb : SharedBuffers) (type : CommandPasswordType) (hash : UInt64) : SharedBuffers :=
  (sb.writeHeader 0 [(sb.header 0 &&& ~~~descAuthBits) ||| type.byte]).writeHeader
    (headerDataSizeLength (sb.header 0) + 2) (toBytesLE 8 hash.toNat)

theorem writeHeader_self (sb : SharedBuffers) : sb.writeHeader 0 [sb.header 0] = sb := by
  have hwrite (m : ByteMemory) : m.write 0 [m 0] = m := by
    funext i
    cases i with
    | zero => rfl
    | succ i => exact write_of_ge m [m 0] (by simp)
  by_cases h : 0 < sb.data.size <;> simp [SharedBuffers.writeHeader, SharedBuffers.header, h,
    hwrite]

theorem headerDataSizeLength_replaced (desc : UInt8) (type : CommandPasswordType) :
    headerDataSizeLength ((desc &&& ~~~descAuthBits) ||| type.byte) =
    headerDataSizeLength desc := by
  have hbits := masked_eq (replaced_bits desc type).2 (by decide : _ &&& descHeaderBits = _)
  simp only [headerDataSizeLength, hbits]

theorem setCommandPwdHash_of_password (hold : ofDescriptor (sb.header 0) ≠ .noPassword)
    (hnew : type ≠ .noPassword) :
    access.setCommandPwdHash sb type hash = (true, replaced sb type hash) := by
  have hhead : (sb.header.write 0 [(sb.header 0 &&& ~~~descAuthBits) ||| type.byte]) 0 =
      (sb.header 0 &&& ~~~descAuthBits) ||| type.byte := rfl
  rw [setCommandPwdHash, if_neg (fun hcond => ?_), if_pos hnew, ulongBytes_eq, replaced]
  · split_ifs with hauth
    · rw [SharedBuffers.header_writeHeader, hhead, headerDataSizeLength_replaced]
    · rw [← not_not.mp hauth, descriptor_bits, writeHeader_self]
  · rw [auth_eq_noAuth] at hcond
    exact hcond.2.elim hold hnew

variable (sb type hash) in
theorem header_replaced : (replaced sb type hash).header =
    (sb.header.write 0 [(sb.header 0 &&& ~~~descAuthBits) ||| type.byte]).write
      (headerDataSizeLength (sb.header 0) + 2) (toBytesLE 8 hash.toNat) := by
  simp [replaced]

theorem header_replaced_zero : (replaced sb type hash).header 0 =
    (sb.header 0 &&& ~~~descAuthBits) ||| type.byte := by
  rw [header_replaced, write_of_lt _ _ (by omega)]
  rfl

theorem replaced_sameButPassword (hold : ofDescriptor (sb.header 0) ≠ .noPassword)
    (hnew : type ≠ .noPassword) : SameButPassword sb.header (replaced sb type hash).header where
  bits := by
    rw [header_replaced_zero]
    exact (replaced_bits _ _).2
  present := by
    rw [header_replaced_zero, (replaced_bits _ _).1, byte_eq_noAuth, auth_eq_noAuth]
    exact ⟨fun h => absurd h hnew, fun h => absurd h hold⟩
  before i hpos hi := by
    rw [header_replaced, write_of_lt _ _ hi, write_of_ge _ _ (by rwa [List.length_singleton])]
  behind i hi := by
    have hfixed : commandFormat.fixedLength (sb.header 0) = 9 := by
      simp [commandFormat, auth_eq_noAuth, hold]
    rw [MessageFormat.payloadInfoOffset, hfixed] at hi
    rw [header_replaced, write_of_ge _ _ (by rw [length_toBytesLE]; omega),
      write_of_ge _ _ (by rw [List.length_singleton]; omega)]

theorem ofDescriptor_replaced : ofDescriptor ((replaced sb type hash).header 0) = type :=
  byte_inj (by rw [byte_ofDescriptor, header_replaced_zero, (replaced_bits _ _).1])

theorem getCommandPwdHash_replaced (hnew : type ≠ .noPassword) :
    access.getCommandPwdHash (replaced sb type hash) = (type, some (access.reread hash)) := by
  have hlength : headerDataSizeLength ((replaced sb type hash).header 0) =
      headerDataSizeLength (sb.header 0) := by
    rw [header_replaced_zero]
    exact headerDataSizeLength_replaced _ _
  have hslice := slice_write_self
    (sb.header.write 0 [(sb.header 0 &&& ~~~descAuthBits) ||| type.byte])
    (headerDataSizeLength (sb.header 0) + 2) (toBytesLE 8 hash.toNat)
  rw [← header_replaced, length_toBytesLE] at hslice
  simp only [getCommandPwdHash, ofDescriptor_replaced, hlength, getHeaderUlongAt_eq hslice,
    if_pos hnew]

/-- What replacing a password has to do: after a success the new password is read back and the rest
of the message is as it was, a failure changes nothing, and only a header that would have to change
its length is refused. -/
structure ReplacesPassword (access : IntegerAccess) (sb : SharedBuffers)
    (type : CommandPasswordType) (hash : UInt64) : Prop where
  password : (access.setCommandPwdHash sb type hash).1 = true →
    access.getCommandPwdHash (access.setCommandPwdHash sb type hash).2 =
      (type, if type = .noPassword then none else some hash)
  frame : (access.setCommandPwdHash sb type hash).1 = true →
    ∀ sb', sb' = (access.setCommandPwdHash sb type hash).2 →
      CommandAccessor.getCommandIdByte sb' = CommandAccessor.getCommandIdByte sb ∧
      CommandAccessor.getCommandHeaderSize sb' = CommandAccessor.getCommandHeaderSize sb ∧
      CommandAccessor.getPayloadInfo sb' = CommandAccessor.getPayloadInfo sb ∧
      CommandAccessor.getHeaderInfo sb' = CommandAccessor.getHeaderInfo sb ∧
      (∀ chunks : List Chunk, (∀ c ∈ chunks, c.Valid) →
        (HeaderChunkIterator.create commandFormat sb).Before (chunks.flatMap Chunk.encode) →
        ((HeaderChunkIterator.create commandFormat sb').takeChunks chunks.length).1 = chunks) ∧
      sb'.payload = sb.payload
  failure : (access.setCommandPwdHash sb type hash).1 = false →
    (access.setCommandPwdHash sb type hash).2 = sb
  refused : (access.setCommandPwdHash sb type hash).1 = false ↔
    ¬(ofDescriptor (sb.header 0) = .noPassword ↔ type = .noPassword)

theorem replacesPassword_of_mismatch (h : ¬(ofDescriptor (sb.header 0) = .noPassword ↔
    type = .noPassword)) : ReplacesPassword access sb type hash := by
  have hset : access.setCommandPwdHash sb type hash = (false, sb) := setCommandPwdHash_of_mismatch h
  constructor <;> rw [hset] <;> simp [h]

theorem replacesPassword_of_none (hold : ofDescriptor (sb.header 0) = .noPassword) :
    ReplacesPassword access sb .noPassword hash := by
  have hset : access.setCommandPwdHash sb .noPassword hash = (true, sb) :=
    setCommandPwdHash_of_none hold
  constructor
  case password =>
    intro _
    simp [hset, getCommandPwdHash, hold]
  case frame =>
    intro _ sb' hsb'
    obtain rfl : sb' = sb := hsb'.trans (by rw [hset])
    have hsame := SameButPassword.refl sb'.header
    exact ⟨rfl, rfl, rfl, rfl, fun _ hvalid hbefore => hsame.takeChunks_eq hvalid hbefore, rfl⟩
  case failure => simp [hset]
  case refused => simp [hset, hold]

theorem replacesPassword_of_password (hold : ofDescriptor (sb.header 0) ≠ .noPassword)
    (hnew : type ≠ .noPassword) :
    ReplacesPassword access sb type hash ↔ access.reread hash = hash := by
  have hset : access.setCommandPwdHash sb type hash = (true, replaced sb type hash) :=
    setCommandPwdHash_of_password hold hnew
  refine ⟨fun h => ?_, fun hread => ?_⟩
  · have hget := h.password (by rw [hset])
    rw [hset, getCommandPwdHash_replaced hnew, if_neg hnew] at hget
    exact Option.some.inj (congrArg Prod.snd hget)
  constructor
  case password =>
    intro _
    rw [hset, getCommandPwdHash_replaced hnew, hread, if_neg hnew]
  case frame =>
    intro _ sb' hsb'
    obtain rfl : sb' = replaced sb type hash := hsb'.trans (by rw [hset])
    have hsame : SameButPassword sb.header (replaced sb type hash).header :=
      replaced_sameButPassword hold hnew
    have hpayload : (replaced sb type hash).payload = sb.payload := by simp [replaced]
    refine ⟨?_, hsame.headerSize_eq, ?_, hsame.getHeaderInfo_eq,
      fun _ hvalid hbefore => hsame.takeChunks_eq hvalid hbefore, hpayload⟩
    · rw [CommandAccessor.getCommandIdByte, CommandAccessor.getCommandIdByte,
        hsame.headerDataSizeLength_eq, hsame.before _ (by omega) (by omega)]
    · have havailable : (replaced sb type hash).getAvailableHeaderSize =
        sb.getAvailableHeaderSize := by simp [replaced]
      rw [CommandAccessor.getPayloadInfo, CommandAccessor.getPayloadInfo,
        MessageFormat.getPayloadInfo, MessageFormat.getPayloadInfo, hsame.payloadInfo_eq, hpayload,
        havailable]
  case failure => simp [hset]
  case refused => simp [hset, hold, hnew]

/-- Passwords are replaced as they should be if the new hash can be read back, or if there is
none. -/
theorem replacesPassword_iff (access : IntegerAccess) (sb : SharedBuffers)
    (type : CommandPasswordType) (hash : UInt64) :
    ReplacesPassword access sb type hash ↔
      type = .noPassword ∨ CommandPasswordType.ofDescriptor (sb.header 0) = .noPassword ∨
        access = .unaligned ∨ hash.toNat < 2 ^ 31 ∨ 2 ^ 64 - 2 ^ 31 ≤ hash.toNat := by
  by_cases hnew : type = .noPassword
  · refine iff_of_true ?_ (.inl hnew)
    subst hnew
    by_cases hold : ofDescriptor (sb.header 0) = .noPassword
    · exact replacesPassword_of_none hold
    · exact replacesPassword_of_mismatch fun h => hold (h.mpr rfl)
  by_cases hold : ofDescriptor (sb.header 0) = .noPassword
  · exact iff_of_true (replacesPassword_of_mismatch fun h => hnew (h.mp hold)) (.inr (.inl hold))
  rw [replacesPassword_of_password hold hnew, reread_eq_iff, or_iff_right hnew, or_iff_right hold]

/-- A `PING` command with the hash of a user password, and a new hash for it. -/
theorem hash_lost_without_unaligned_access :
    let sb := SharedBuffers.create (ofList [0x01, 0x01, 1, 2, 3, 4, 5, 6, 7, 8]) fun _ => 0
    let result := aligned.setCommandPwdHash sb .userPassword 0x0807060504030201
    result.1 = true ∧
      aligned.getCommandPwdHash result.2 = (.userPassword, some 0x04030201) ∧
      ¬ReplacesPassword aligned sb .userPassword 0x0807060504030201 := by
  refine ⟨by decide, by decide, fun h => ?_⟩
  exact absurd (h.password (by decide)) (by decide)

end IntegerAccess

end CyberCache
