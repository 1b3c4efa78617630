import CyberCache.Types
import CyberCache.Wire.Protocol

/-!
# Shared buffers and message accessors

`SharedBuffers` holds the header and the payload of one message. A header of at most 12 bytes lives
in a fixed auxiliary area inside the object, a longer one in a separately allocated block. The
accessors find the parts of a header by its descriptor; the command and the response versions differ
only in what stands between the size field and the payload information.
-/

namespace CyberCache

def auxDataSize : Nat := 12

structure DataBuffer where
  size : Nat
  bytes : ByteMemory

/-- `aux` and `heap` are memory before anything was stored there: the auxiliary area as the object's
constructor leaves it, and the contents of a block as the allocator hands it out. -/
structure SharedBuffers where
  data : DataBuffer
  payload : DataBuffer
  aux : ByteMemory
  heap : ByteMemory

/-- Expand or contract a buffer, keeping what it held; an empty one gets a new block. -/
def DataBuffer.setSize (b : DataBuffer) (heap : ByteMemory) (size : Nat) : DataBuffer :=
  if 0 < b.size then
    if b.size ≠ size then ⟨size, fun i => if i < b.size then b.bytes i else heap i⟩ else b
  else ⟨size, heap⟩

namespace SharedBuffers

/-- A new object: both buffers are empty, the rest of its memory is arbitrary. -/
def create (aux heap : ByteMemory) : SharedBuffers :=
  ⟨⟨0, heap⟩, ⟨0, heap⟩, aux, heap⟩

def getAvailableHeaderSize (sb : SharedBuffers) : Nat :=
  if 0 < sb.data.size then sb.data.size else auxDataSize

def header (sb : SharedBuffers) : ByteMemory :=
  if 0 < sb.data.size then sb.data.bytes else sb.aux

/-- Store bytes in the block that `get_header_bytes()` points into. -/
def writeHeader (sb : SharedBuffers) (pos : Nat) (bytes : List UInt8) : SharedBuffers :=
  if 0 < sb.data.size then { sb with data.bytes := sb.data.bytes.write pos bytes }
  else { sb with aux := sb.aux.write pos bytes }

def configureHeader (sb : SharedBuffers) (usedSize fullSize : Nat) : SharedBuffers :=
  if auxDataSize < fullSize then
    let buffer := sb.data.setSize sb.heap fullSize
    { sb with
      data.size := buffer.size
      data.bytes := buffer.bytes.write 0 (sb.aux.slice 0 usedSize) }
  else sb

def setPayloadSize (sb : SharedBuffers) (size : Nat) : SharedBuffers :=
  { sb with payload := sb.payload.setSize sb.heap size }

def writePayload (sb : SharedBuffers) (pos : Nat) (bytes : List UInt8) : SharedBuffers :=
  { sb with payload.bytes := sb.payload.bytes.write pos bytes }

/-- The payload as the message's consumer sees it. -/
def payloadBytes (sb : SharedBuffers) : List UInt8 :=
  sb.payload.bytes.slice 0 sb.payload.size

@[simp]
theorem create_data_size (aux heap : ByteMemory) : (create aux heap).data.size = 0 := rfl

@[simp]
theorem create_payload_size (aux heap : ByteMemory) : (create aux heap).payload.size = 0 := rfl

theorem getAvailableHeaderSize_of_static {sb : SharedBuffers} (h : sb.data.size = 0) :
    sb.getAvailableHeaderSize = auxDataSize := by
  simp [getAvailableHeaderSize, h]

@[simp]
theorem header_writeHeader (sb : SharedBuffers) (pos : Nat) (bytes : List UInt8) :
    (sb.writeHeader pos bytes).header = sb.header.write pos bytes := by
  by_cases h : 0 < sb.data.size <;> simp [header, writeHeader, h]

@[simp]
theorem data_size_writeHeader (sb : SharedBuffers) (pos : Nat) (bytes : List UInt8) :
    (sb.writeHeader pos bytes).data.size = sb.data.size := by
  unfold writeHeader
  split_ifs <;> rfl

@[simp]
theorem payload_writeHeader (sb : SharedBuffers) (pos : Nat) (bytes : List UInt8) :
    (sb.writeHeader pos bytes).payload = sb.payload := by
  unfold writeHeader
  split_ifs <;> rfl

@[simp]
theorem getAvailableHeaderSize_writeHeader (sb : SharedBuffers) (pos : Nat) (bytes : List UInt8) :
    (sb.writeHeader pos bytes).getAvailableHeaderSize = sb.getAvailableHeaderSize := by
  simp [getAvailableHeaderSize]

theorem writeHeader_append (sb : SharedBuffers) (pos : Nat) (xs ys : List UInt8) :
    (sb.writeHeader pos xs).writeHeader (pos + xs.length) ys = sb.writeHeader pos (xs ++ ys) := by
  by_cases h : 0 < sb.data.size <;> simp [writeHeader, h, ByteMemory.write_append]

theorem writePayload_append (sb : SharedBuffers) (pos : Nat) (xs ys : List UInt8) :
    (sb.writePayload pos xs).writePayload (pos + xs.length) ys = sb.writePayload pos
    (xs ++ ys) := by
  simp [writePayload, ByteMemory.write_append]

@[simp]
theorem payload_configureHeader (sb : SharedBuffers) (used full : Nat) :
    (sb.configureHeader used full).payload = sb.payload := by
  unfold configureHeader
  split_ifs <;> rfl

theorem getAvailableHeaderSize_configureHeader {sb : SharedBuffers} (h : sb.data.size = 0)
    (used full : Nat) :
    (sb.configureHeader used full).getAvailableHeaderSize = max auxDataSize full := by
  unfold configureHeader getAvailableHeaderSize DataBuffer.setSize
  split_ifs <;> simp_all
  all_goals omega

@[simp]
theorem header_setPayloadSize (sb : SharedBuffers) (size : Nat) :
    (sb.setPayloadSize size).header = sb.header := rfl

@[simp]
theorem getAvailableHeaderSize_setPayloadSize (sb : SharedBuffers) (size : Nat) :
    (sb.setPayloadSize size).getAvailableHeaderSize = sb.getAvailableHeaderSize := rfl

theorem payload_size_setPayloadSize (sb : SharedBuffers) (size : Nat) :
    (sb.setPayloadSize size).payload.size = size := by
  simp only [setPayloadSize, DataBuffer.setSize]
  split_ifs <;> simp_all

@[simp]
theorem header_writePayload (sb : SharedBuffers) (pos : Nat) (bytes : List UInt8) :
    (sb.writePayload pos bytes).header = sb.header := rfl

@[simp]
theorem getAvailableHeaderSize_writePayload (sb : SharedBuffers) (pos : Nat) (bytes : List UInt8) :
    (sb.writePayload pos bytes).getAvailableHeaderSize = sb.getAvailableHeaderSize := rfl

theorem header_configureHeader {sb : SharedBuffers} (h : sb.data.size = 0) {used full i : Nat}
    (hi : i < used) : (sb.configureHeader used full).header i = sb.header i := by
  unfold configureHeader
  split_ifs with hfull
  · have hpos : 0 < full := by omega
    have hwrite := ByteMemory.write_add sb.heap 0 (sb.aux.slice 0 used) (k := i) (by simpa using hi)
    simp only [Nat.zero_add, ByteMemory.getElem_slice] at hwrite
    simp [header, h, hpos, DataBuffer.setSize, hwrite]
  · rfl

end SharedBuffers

/-! ## Accessors -/

/-- What a reader does after a descriptor that announces no size field. -/
inductive SizelessHeader where
  | readRest
  | expectMarker
  | reject
deriving DecidableEq, Repr

/-- Where commands and responses differ: the number of bytes between the size field and the payload
information, the treatment of a header without a size field, whether a payload that arrives in parts
makes `read` return to its caller, and whether `write` has a case of its own for the error state. A
header without a size field is read on if and only if something is left of it. -/
structure MessageFormat where
  fixedLength : UInt8 → Nat
  sizelessHeader : UInt8 → SizelessHeader
  returnsOnPartialPayload : Bool
  writeExpectsErrorState : Bool
  fixedLength_le : ∀ desc, fixedLength desc ≤ 9
  fixedLength_pos : ∀ desc, sizelessHeader desc = .readRest → 0 < fixedLength desc
  fixedLength_eq_zero : ∀ desc, sizelessHeader desc ≠ .readRest → fixedLength desc = 0

/-- The command ID, and the password hash unless the descriptor says that there is none. -/
def commandFormat : MessageFormat where
  fixedLength desc := if desc &&& descAuthBits ≠ descNoAuth then 8 + 1 else 1
  sizelessHeader _ := .readRest
  returnsOnPartialPayload := false
  writeExpectsErrorState := false
  fixedLength_le _ := by split_ifs <;> simp
  fixedLength_pos _ _ := by split_ifs <;> simp
  fixedLength_eq_zero _ h := absurd rfl h

def responseFormat : MessageFormat where
  fixedLength _ := 0
  sizelessHeader desc := if desc &&& respTypeBits = respTypeOk then .expectMarker else .reject
  returnsOnPartialPayload := true
  writeExpectsErrorState := true
  fixedLength_le _ := Nat.zero_le _
  fixedLength_pos _ h := by split_ifs at h
  fixedLength_eq_zero _ _ := rfl

/-- `payload_info_t` as `get_payload_info()` leaves it: no payload, an invalid header, or the sizes
of the payload and its compressor. -/
inductive PayloadInfo where
  | absent
  | invalid
  | present (size usize : Nat) (compressor : UInt8)
deriving DecidableEq, Repr

namespace MessageFormat

/-- Size of the whole header, computed with 32-bit unsigned numbers: `get_command_header_size()` and
its response twin. -/
def headerSize (f : MessageFormat) (m : ByteMemory) : Nat :=
  if m 0 &&& descHeaderBits = descNoHeader then 1 + f.fixedLength (m 0)
  else (m.readLE 1 (headerDataSizeLength (m 0)) + (headerDataSizeLength (m 0) + 1)) % uintRange

def payloadInfoOffset (f : MessageFormat) (desc : UInt8) : Nat :=
  headerDataSizeLength desc + 1 + f.fixedLength desc

/-- Offset and total size of the data chunks, `none` if there are none. -/
def getHeaderInfo (f : MessageFormat) (m : ByteMemory) : Option (Nat × Nat) :=
  if m 0 &&& descHeaderBits = descNoHeader then none
  else
    let offset := f.payloadInfoOffset (m 0) + payloadInfoLength (m 0)
    if offset < f.headerSize m then some (offset, f.headerSize m - offset) else none

/-- `get_payload_info()` for a header of which `available` bytes may be looked at, with a payload of
which `received` bytes are there already. -/
def payloadInfo (f : MessageFormat) (m : ByteMemory) (available received : Nat) : PayloadInfo :=
  let desc := m 0
  if desc &&& descPayloadBits = descNoPayload then .absent
  else
    let offset := f.payloadInfoOffset desc
    let length := payloadSizeLength desc
    if available < offset + payloadInfoLength desc then .invalid
    else if payloadIsCompressed desc then
      let compressor := m offset
      let size := m.readLE (offset + 1) length
      let usize := m.readLE (offset + 1 + length) length
      if compressor = ctNone ∨ ctNumberOfElements ≤ compressor ∨ size = 0 ∨
        usize ≤ size then .invalid
      else if 0 < received ∧ received ≠ size then .invalid
      else .present size usize compressor
    else
      let size := m.readLE offset length
      if 0 < received ∧ received ≠ size then .invalid
      else .present size size ctNone

def getPayloadInfo (f : MessageFormat) (sb : SharedBuffers) : PayloadInfo :=
  f.payloadInfo sb.header sb.getAvailableHeaderSize sb.payload.size

theorem headerSize_congr (f : MessageFormat) {m m' : ByteMemory}
    (h : ByteMemory.AgreeBelow (1 + headerDataSizeLength (m 0)) m m') :
    f.headerSize m = f.headerSize m' := by
  have hdesc : m 0 = m' 0 := h 0 (by omega)
  have hsize := h.readLE_eq (p := 1) (k := headerDataSizeLength (m 0)) (by omega)
  simp only [headerSize, ← hdesc, hsize]

theorem payloadInfo_congr (f : MessageFormat) {m m' : ByteMemory} (available received : Nat)
    (h : ByteMemory.AgreeBelow (f.payloadInfoOffset (m 0) + payloadInfoLength (m 0)) m m') :
    f.payloadInfo m available received = f.payloadInfo m' available received := by
  have hdesc : m 0 = m' 0 := h 0 (by simp only [payloadInfoOffset]; omega)
  simp only [payloadInfo, ← hdesc]
  by_cases hnone : m 0 &&& descPayloadBits = descNoPayload
  · simp [hnone]
  have hpos := payloadSizeLength_pos hnone
  by_cases hcomp : payloadIsCompressed (m 0)
  · have hlen : payloadInfoLength (m 0) = 2 * payloadSizeLength (m 0) + 1 := by
      simp [payloadInfoLength, hnone, hcomp]
    have hcompressor := h (f.payloadInfoOffset (m 0)) (by omega)
    have hsize := h.readLE_eq (p := f.payloadInfoOffset (m 0) + 1)
      (k := payloadSizeLength (m 0)) (by omega)
    have husize := h.readLE_eq (p := f.payloadInfoOffset (m 0) + 1 + payloadSizeLength (m 0))
      (k := payloadSizeLength (m 0)) (by omega)
    simp only [hcomp, if_true, hcompressor, hsize, husize]
  · have hlen : payloadInfoLength (m 0) = payloadSizeLength (m 0) := by
      simp [payloadInfoLength, hnone, hcomp]
    have hsize := h.readLE_eq (p := f.payloadInfoOffset (m 0))
      (k := payloadSizeLength (m 0)) (by omega)
    simp only [hcomp, hsize, if_false, Bool.false_eq_true]

theorem payloadSizeLength_bound (m : ByteMemory) (pos : Nat) (desc : UInt8) :
    m.readLE pos (payloadSizeLength desc) < uintRange := by
  have hlt := m.readLE_lt pos (payloadSizeLength desc)
  obtain h | h | h | h := payloadSizeLength_cases desc <;> rw [h] at hlt ⊢ <;>
    simp only [uintRange] <;> omega

theorem payloadInfo_present_lt {f : MessageFormat} {m : ByteMemory}
    {available received size usize : Nat} {compressor : UInt8}
    (h : f.payloadInfo m available received = .present size usize compressor) :
    size < uintRange := by
  unfold payloadInfo at h
  dsimp only at h
  split_ifs at h <;> injection h with hsize <;> rw [← hsize] <;> exact payloadSizeLength_bound _ _ _

theorem payloadInfo_available (f : MessageFormat) (m : ByteMemory) {available : Nat}
    (received : Nat) (h : f.payloadInfoOffset (m 0) + payloadInfoLength (m 0) ≤ available) :
    f.payloadInfo m available received =
      f.payloadInfo m (f.payloadInfoOffset (m 0) + payloadInfoLength (m 0)) received := by
  simp [payloadInfo, Nat.not_lt.mpr h]

end MessageFormat

namespace CommandAccessor

def getCommandHeaderSize (sb : SharedBuffers) : Nat :=
  commandFormat.headerSize sb.header

def getCommandIdByte (sb : SharedBuffers) : UInt8 :=
  sb.header (headerDataSizeLength (sb.header 0) + 1)

def getAuthType (sb : SharedBuffers) : UInt8 :=
  sb.header 0 &&& descAuthBits

/-- The kind of password in the header, and its hash unless there is no password. -/
def getCommandPwdHash (sb : SharedBuffers) : UInt8 × Option UInt64 :=
  if getAuthType sb ≠ descNoAuth then
    (getAuthType sb,
      some (UInt64.ofNat (sb.header.readLE (headerDataSizeLength (sb.header 0) + 2) 8)))
  else (descNoAuth, none)

/-- Replace the kind of password and its hash; a header cannot gain or lose its password. -/
def setCommandPwdHash (sb : SharedBuffers) (type : UInt8) (hash : UInt64) :
    Bool × SharedBuffers :=
  let desc := sb.header 0
  let auth := desc &&& descAuthBits
  if auth ≠ type ∧ (auth = descNoAuth ∨ type = descNoAuth) then (false, sb)
  else
    let sb := if auth ≠ type then sb.writeHeader 0 [(desc &&& ~~~descAuthBits) ||| type] else sb
    if type ≠ descNoAuth then
      (true, sb.writeHeader (headerDataSizeLength (sb.header 0) + 2)
        (ByteMemory.toBytesLE 8 hash.toNat))
    else (true, sb)

def getHeaderInfo (sb : SharedBuffers) : Option (Nat × Nat) :=
  commandFormat.getHeaderInfo sb.header

def getPayloadInfo (sb : SharedBuffers) : PayloadInfo :=
  commandFormat.getPayloadInfo sb

end CommandAccessor

namespace ResponseAccessor

def getResponseType (sb : SharedBuffers) : UInt8 :=
  sb.header 0 &&& respTypeBits

end ResponseAccessor

end CyberCache
