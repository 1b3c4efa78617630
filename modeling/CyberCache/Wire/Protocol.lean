import CyberCache.Lib.ByteMemory

/-!
# The wire protocol

Constants of `io_protocol.h` and the questions both ends ask of a descriptor byte. A message starts
with its descriptor; bits 2 and 3 say how many bytes hold the size of the rest of the header, bits
4 and 5 how many bytes hold each payload size, bit 6 whether the payload is compressed and bit 7
whether an integrity marker closes the message. Bits 0 and 1 are the kind of password of a command,
or the type of a response.
-/

namespace CyberCache

/-! ## Command and response descriptors -/

def descAuthBits : UInt8 := 0x03
def descNoAuth : UInt8 := 0x00
def descUserAuth : UInt8 := 0x01
def descAdminAuth : UInt8 := 0x02
def descBulkAuth : UInt8 := 0x03

def descHeaderBits : UInt8 := 0x0C
def descNoHeader : UInt8 := 0x00
def descByteHeader : UInt8 := 0x04
def descWordHeader : UInt8 := 0x08
def descDwordHeader : UInt8 := 0x0C

def descPayloadBits : UInt8 := 0x30
def descNoPayload : UInt8 := 0x00
def descBytePayload : UInt8 := 0x10
def descWordPayload : UInt8 := 0x20
def descDwordPayload : UInt8 := 0x30

def descPayloadIsCompressed : UInt8 := 0x40
def descMarkerIsPresent : UInt8 := 0x80

-- The `RESP_*` constants for header, payload, compression and marker bits are the `DESC_*` ones.
def respTypeBits : UInt8 := 0x03
def respTypeOk : UInt8 := 0x00
def respTypeData : UInt8 := 0x01
def respTypeList : UInt8 := 0x02
def respTypeError : UInt8 := 0x03

inductive ResponseType where
  | ok
  | data
  | list
  | error
deriving DecidableEq, Repr

def ResponseType.byte : ResponseType → UInt8
  | ok => respTypeOk
  | data => respTypeData
  | list => respTypeList
  | error => respTypeError

def c3IntegrityMarker : UInt8 := 0xC3

/-! ## Commands -/

/-- Not a command; responses have it in place of a command ID. -/
def cmdInvalid : UInt8 := 0x00

def cmdPing : UInt8 := 0x01
def cmdCheck : UInt8 := 0x02
def cmdInfo : UInt8 := 0x10
def cmdStats : UInt8 := 0x11
def cmdShutdown : UInt8 := 0xF0
def cmdLoadConfig : UInt8 := 0xF1
def cmdRestore : UInt8 := 0xF2
def cmdStore : UInt8 := 0xF3
def cmdGet : UInt8 := 0xF5
def cmdSet : UInt8 := 0xF6
def cmdLog : UInt8 := 0xFA
def cmdRotate : UInt8 := 0xFB

def cmdRead : UInt8 := 0x21
def cmdWrite : UInt8 := 0x22
def cmdDestroy : UInt8 := 0x23
def cmdGc : UInt8 := 0x24

def cmdLoad : UInt8 := 0x41
def cmdTest : UInt8 := 0x42
def cmdSave : UInt8 := 0x43
def cmdRemove : UInt8 := 0x44
def cmdClean : UInt8 := 0x45

def cmdGetIds : UInt8 := 0x61
def cmdGetTags : UInt8 := 0x62
def cmdGetIdsMatchingTags : UInt8 := 0x63
def cmdGetIdsNotMatchingTags : UInt8 := 0x64
def cmdGetIdsMatchingAnyTags : UInt8 := 0x65
def cmdGetFillingPercentage : UInt8 := 0x67
def cmdGetMetadatas : UInt8 := 0x68
def cmdTouch : UInt8 := 0x69

/-! ## Data chunks -/

def chnkTypeBits : UInt8 := 0xC0
def chnkInteger : UInt8 := 0x00
def chnkString : UInt8 := 0x40
def chnkList : UInt8 := 0x80
def chnkSubtype : UInt8 := 0xC0
def chnkLongMask : UInt8 := 0x3F

def chnkSubtypeBits : UInt8 := 0x38
def chnkSmallNegative : UInt8 := 0x00
def chnkBigNegative : UInt8 := 0x08
def chnkSmallInteger : UInt8 := 0x10
def chnkShortString : UInt8 := 0x18
def chnkShortList : UInt8 := 0x20
def chnkBigInteger : UInt8 := 0x28
def chnkLongString : UInt8 := 0x30
def chnkLongList : UInt8 := 0x38
def chnkShortMask : UInt8 := 0x07

def chnkMediumBias : Nat := 8
def chnkLargeBias : Nat := 72
def chnkSmallNegativeBias : Int := -1
def chnkBigNegativeBias : Int := -9

/-! ## Compressors -/

def ctNone : UInt8 := 0
def ctNumberOfElements : UInt8 := 9

/-! ## What a descriptor says -/

/-- Number of bytes that hold the header size: `get_command_header_data_size_length()` and its
response twin. -/
def headerDataSizeLength (desc : UInt8) : Nat :=
  if desc &&& descHeaderBits = descNoHeader then 0
  else if desc &&& descHeaderBits = descByteHeader then 1
  else if desc &&& descHeaderBits = descWordHeader then 2
  else 4

def payloadSizeLength (desc : UInt8) : Nat :=
  if desc &&& descPayloadBits = descNoPayload then 0
  else if desc &&& descPayloadBits = descBytePayload then 1
  else if desc &&& descPayloadBits = descWordPayload then 2
  else 4

def payloadIsCompressed (desc : UInt8) : Bool :=
  desc &&& descPayloadIsCompressed != 0

def markerIsPresent (desc : UInt8) : Bool :=
  desc &&& descMarkerIsPresent != 0

/-- Number of bytes of payload information in the header: 1, 2 or 4 for an uncompressed payload, 3,
5 or 9 for a compressed one, whose sizes follow a compressor byte. -/
def payloadInfoLength (desc : UInt8) : Nat :=
  if desc &&& descPayloadBits = descNoPayload then 0
  else if payloadIsCompressed desc then 2 * payloadSizeLength desc + 1
  else payloadSizeLength desc

theorem headerDataSizeLength_cases (desc : UInt8) :
    headerDataSizeLength desc = 0 ∨ headerDataSizeLength desc = 1 ∨
      headerDataSizeLength desc = 2 ∨ headerDataSizeLength desc = 4 := by
  unfold headerDataSizeLength
  split_ifs <;> simp

theorem payloadSizeLength_cases (desc : UInt8) :
    payloadSizeLength desc = 0 ∨ payloadSizeLength desc = 1 ∨
      payloadSizeLength desc = 2 ∨ payloadSizeLength desc = 4 := by
  unfold payloadSizeLength
  split_ifs <;> simp

theorem payloadSizeLength_pos {desc : UInt8} (h : desc &&& descPayloadBits ≠ descNoPayload) :
    0 < payloadSizeLength desc := by
  simp only [payloadSizeLength, h, if_false]
  split_ifs <;> simp

theorem payloadInfoLength_pos {desc : UInt8} (h : desc &&& descPayloadBits ≠ descNoPayload) :
    0 < payloadInfoLength desc := by
  have hpos := payloadSizeLength_pos h
  simp only [payloadInfoLength, h, if_false]
  split_ifs <;> omega

end CyberCache
