import CyberCache.Wire.Chunks

/-!
# Chunk builders

A message is built in two passes. The first one announces every chunk of the header with an
`estimate_*()` call; `configure()` then computes the size of the header, allocates it and stores
everything that stands before the chunks; the second pass stores the chunks. All sizes are 32-bit
numbers and nothing but assertions checks them, so a store outside of the allocated block is
possible; it has no result here.
-/

namespace CyberCache

open ByteMemory ChunkBuilder

/-- The options of `NetworkConfiguration` that commands and responses depend on. -/
structure NetworkConfiguration where
  userPassword : UInt64
  adminPassword : UInt64
  bulkPassword : UInt64
  commandIntegrityCheck : Bool
  responseIntegrityCheck : Bool
  fileIntegrityCheck : Bool

/-! ## Lists of strings -/

structure HeaderListChunkBuilder where
  buffer : ByteMemory
  allocatedSize : Nat
  usedSize : Nat
  count : Nat
  estimatedSize : Nat

namespace HeaderListChunkBuilder

def create (heap : ByteMemory) : HeaderListChunkBuilder :=
  ⟨heap, 0, 0, 0, 0⟩

def estimate (b : HeaderListChunkBuilder) (size : Nat) : HeaderListChunkBuilder :=
  { b with
    estimatedSize := uintAdd b.estimatedSize (measureString size)
    count := uintAdd b.count 1 }

def put (b : HeaderListChunkBuilder) (bytes : List UInt8) : Option HeaderListChunkBuilder :=
  if b.usedSize + bytes.length ≤ b.allocatedSize then
    some { b with
      buffer := b.buffer.write b.usedSize bytes
      usedSize := uintAdd b.usedSize bytes.length }
  else none

def configure (b : HeaderListChunkBuilder) : Option HeaderListChunkBuilder :=
  let size := uintAdd b.estimatedSize (measureEntity b.count)
  put { b with estimatedSize := size, allocatedSize := size, usedSize := 0 }
    (putEntity b.count chnkShortList chnkList chnkLongList)

def add (b : HeaderListChunkBuilder) (s : List UInt8) : Option HeaderListChunkBuilder :=
  b.put (putString s)

def build (heap : ByteMemory) (strings : List (List UInt8)) : Option HeaderListChunkBuilder := do
  let b ← (strings.foldl (fun b s => b.estimate s.length) (create heap)).configure
  strings.foldlM add b

end HeaderListChunkBuilder

/-! ## Payload -/

/-- A payload as it is stored in a message, and what `PayloadChunkBuilder` knows about it. -/
structure Payload where
  bytes : List UInt8
  usize : Nat
  compressor : UInt8
deriving DecidableEq, Repr

namespace Payload

/-- A compressed payload is not empty and shorter than its uncompressed form. -/
def Valid (p : Payload) : Prop :=
  p.usize < uintRange ∧
    (p.compressor = ctNone ∧ p.bytes.length = p.usize ∨
      p.compressor ≠ ctNone ∧ p.compressor < ctNumberOfElements ∧ 0 < p.bytes.length ∧
        p.bytes.length < p.usize)

instance (p : Payload) : Decidable p.Valid :=
  inferInstanceAs (Decidable (_ ∧ (_ ∨ _)))

end Payload

/-- The buffers once the payload is in them; an empty payload gets no block. -/
def SharedBuffers.attachPayload (sb : SharedBuffers) (bytes : List UInt8) : SharedBuffers :=
  if 0 < bytes.length then (sb.setPayloadSize bytes.length).writePayload 0 bytes else sb

/-! ## Headers -/

/-- What the virtual methods of a class derived from `HeaderChunkBuilder` return: the initial
descriptor, the command, and the password hash if there is one. -/
structure HeaderSource where
  descriptorInitializer : UInt8
  command : UInt8
  passwordHash : Option UInt64

/-- A chunk that can be announced and added; a list has a builder of its own. -/
inductive HeaderChunk where
  | number (n : Int)
  | string (s : List UInt8)
  | list (builder : HeaderListChunkBuilder)

def HeaderChunk.prepare (heap : ByteMemory) : Chunk → Option HeaderChunk
  | .number n => some (.number n)
  | .string s => some (.string s)
  | .list strings => (HeaderListChunkBuilder.build heap strings).map .list

structure HeaderChunkBuilder where
  sb : SharedBuffers
  estimatedSize : Nat
  usedSize : Nat

namespace HeaderChunkBuilder

def create (sb : SharedBuffers) : HeaderChunkBuilder :=
  ⟨sb, 0, 0⟩

def estimateSizeBytes (size : Nat) : Nat :=
  if size ≤ 0xFF then 1 else if size ≤ 0xFFFF then 2 else 4

/-- The descriptor bits that go with `estimate_size_bytes()`. -/
def sizeMask (size : Nat) (small medium large : UInt8) : UInt8 :=
  if size ≤ 0xFF then small else if size ≤ 0xFFFF then medium else large

def estimate (b : HeaderChunkBuilder) : HeaderChunk → HeaderChunkBuilder
  | .number n => { b with estimatedSize := uintAdd b.estimatedSize (measureNumber n) }
  | .string s =>
    { b with estimatedSize := uintAdd b.estimatedSize (measureEntity s.length + s.length) }
  | .list list => { b with estimatedSize := uintAdd b.estimatedSize list.usedSize }

def put (b : HeaderChunkBuilder) (bytes : List UInt8) : Option HeaderChunkBuilder :=
  if b.usedSize + bytes.length ≤ b.sb.getAvailableHeaderSize then
    some { b with
      sb := b.sb.writeHeader b.usedSize bytes
      usedSize := uintAdd b.usedSize bytes.length }
  else none

def putIf (b : HeaderChunkBuilder) (c : Prop) [Decidable c] (bytes : List UInt8) :
    Option HeaderChunkBuilder :=
  if c then b.put bytes else some b

def orDescriptor (b : HeaderChunkBuilder) (mask : UInt8) : HeaderChunkBuilder :=
  { b with sb := b.sb.writeHeader 0 [b.sb.header 0 ||| mask] }

def sizeBytes (size referenceSize : Nat) : List UInt8 :=
  toBytesLE (estimateSizeBytes referenceSize) size

def putHeaderSize (b : HeaderChunkBuilder) (headerSize : Nat) : Option HeaderChunkBuilder :=
  if 0 < headerSize then do
    let b ← b.put (sizeBytes headerSize headerSize)
    return b.orDescriptor (sizeMask headerSize descByteHeader descWordHeader descDwordHeader)
  else some b

def putPasswordHash (b : HeaderChunkBuilder) : Option UInt64 → Option HeaderChunkBuilder
  | some hash => b.put (toBytesLE 8 hash.toNat)
  | none => some b

def putPayloadInfo (b : HeaderChunkBuilder) : Option Payload → Option HeaderChunkBuilder
  | some payload => do
    let b ← b.putIf (payload.compressor ≠ ctNone) [payload.compressor]
    let b ← b.put (sizeBytes b.sb.payload.size payload.usize)
    let b := b.orDescriptor
      (sizeMask payload.usize descBytePayload descWordPayload descDwordPayload)
    b.putIf (payload.compressor ≠ ctNone) (sizeBytes payload.usize payload.usize)
  | none => some b

def payloadInfoSize : Option Payload → Nat
  | none => 0
  | some payload =>
    if payload.compressor ≠ ctNone then estimateSizeBytes payload.usize * 2 + 1
    else estimateSizeBytes payload.usize

def fixedSize (source : HeaderSource) : Nat :=
  (if source.command ≠ cmdInvalid then 1 else 0) + (if source.passwordHash.isSome then 8 else 0)

def configure (b : HeaderChunkBuilder) (source : HeaderSource) (payload : Option Payload) :
    Option HeaderChunkBuilder := do
  let desc :=
    if payload.any (·.compressor ≠ ctNone) then
      source.descriptorInitializer ||| descPayloadIsCompressed
    else source.descriptorInitializer
  let headerSize :=
    if 0 < b.estimatedSize ∨ payload.isSome then
      (b.estimatedSize + fixedSize source + payloadInfoSize payload) % uintRange
    else 0
  let fullHeaderSize :=
    if 0 < headerSize then (1 + estimateSizeBytes headerSize + headerSize) % uintRange
    else 1 + fixedSize source
  let b ← put ⟨b.sb.configureHeader 0 fullHeaderSize, b.estimatedSize, 0⟩ [desc]
  let b ← b.putHeaderSize headerSize
  let b ← b.putIf (source.command ≠ cmdInvalid) [source.command]
  let b ← b.putPasswordHash source.passwordHash
  let b ← b.putPayloadInfo payload
  return { b with estimatedSize := fullHeaderSize }

def add (b : HeaderChunkBuilder) : HeaderChunk → Option HeaderChunkBuilder
  | .number n => b.put (putNumber n)
  | .string s => do
    let b ← b.put (putEntity s.length chnkShortString chnkString chnkLongString)
    b.putIf (0 < s.length) s
  | .list list => b.put (list.buffer.slice 0 list.usedSize)

/-- Build a header the way all users of the class do. -/
def build (heap : ByteMemory) (sb : SharedBuffers) (source : HeaderSource)
    (payload : Option Payload) (chunks : List Chunk) : Option HeaderChunkBuilder := do
  let chunks ← chunks.mapM (HeaderChunk.prepare heap)
  let sb := sb.attachPayload ((payload.map Payload.bytes).getD [])
  let b ← (chunks.foldl estimate (create sb)).configure source payload
  chunks.foldlM add b

/-- A writer whose header was checked is ready to send. -/
def ready (b : HeaderChunkBuilder) : ReaderWriter :=
  ⟨b.sb, .writeReady, 0, 0⟩

end HeaderChunkBuilder

namespace CommandHeaderChunkBuilder

/-- `get_password_hash()`: the password of the given level, unless none is configured. -/
def passwordHash (config : NetworkConfiguration) (admin : Bool) : Option UInt64 :=
  let hash := if admin then config.adminPassword else config.userPassword
  if hash ≠ invalidHashValue then some hash else none

def descriptorInitializer (config : NetworkConfiguration) (admin network : Bool) : UInt8 :=
  let desc :=
    if (passwordHash config admin).isSome then (if admin then descAdminAuth else descUserAuth)
    else descNoAuth
  if network ∧ config.commandIntegrityCheck ∨ ¬network ∧ config.fileIntegrityCheck then
    desc ||| descMarkerIsPresent
  else desc

def source (config : NetworkConfiguration) (cmd : UInt8) (admin network : Bool) : HeaderSource :=
  ⟨descriptorInitializer config admin network, cmd, passwordHash config admin⟩

/-- The assertions of `check()` and of the `verify()` that it calls. -/
def check (b : HeaderChunkBuilder) : Bool :=
  b.usedSize == b.estimatedSize && 2 ≤ b.usedSize

end CommandHeaderChunkBuilder

namespace ResponseHeaderChunkBuilder

def descriptorInitializer (config : NetworkConfiguration) (type : ResponseType) : UInt8 :=
  if config.responseIntegrityCheck then type.byte ||| descMarkerIsPresent else type.byte

def source (config : NetworkConfiguration) (type : ResponseType) : HeaderSource :=
  ⟨descriptorInitializer config type, cmdInvalid, none⟩

end ResponseHeaderChunkBuilder

end CyberCache
