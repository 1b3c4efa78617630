import CyberCache.Wire.Accessors

/-!
# Reading messages incrementally

`CommandReader::read` and `ResponseReader::read` are one loop each around a finite state automaton:
every pass asks the device for the bytes of the current part of the message, stores what arrived and
moves on, or returns to be called again when the device has nothing to offer. The two automata are
one here, over a `MessageFormat`; the source keeps two copies of the states, and an object never
changes from one copy to the other.

The device is a list of bytes still to come and a schedule with one entry per `recv` call. What the
device stores outside of the block that it was given is the end of the run: `Outcome.overrun`.
-/

namespace CyberCache

inductive IoState where
  | invalid
  | created
  | error
  | readDescriptor
  | readHeaderSizeBytes
  | readHeaderBytes
  | readPayloadBytes
  | readMarkerByte
  | readDone
  | writeReady
  | writeHeader
  | writePayload
  | writeMarkerByte
  | writeDone
deriving DecidableEq, Repr

inductive IoResult where
  | ok
  | error
  | retry
  | eof
deriving DecidableEq, Repr

structure ReaderWriter where
  sb : SharedBuffers
  state : IoState
  pos : Nat
  remains : Nat

/-! ## The device -/

/-- The answer to one device call: nothing yet, at least one and at most `n + 1` bytes, the end of
the stream or a failure. -/
inductive Delivery where
  | retry
  | transfer (n : Nat)
  | eof
  | error
deriving DecidableEq, Repr

def Delivery.isTransfer : Delivery → Bool
  | .transfer _ => true
  | _ => false

/-- The answer of a device that is neither at the end of the stream nor broken. -/
def Delivery.Delivers (d : Delivery) : Prop :=
  d = .retry ∨ d.isTransfer = true

structure Device where
  incoming : List UInt8
  schedule : List Delivery

/-- `recv` for `count` bytes; a call for no bytes at all returns 0, which `read_bytes` takes for the
end of the stream. -/
def Delivery.recv (d : Delivery) (incoming : List UInt8) (count : Nat) : IoResult × List UInt8 :=
  match d with
  | .retry => (.retry, [])
  | .transfer n =>
    if count = 0 then (.eof, [])
    else if incoming = [] then (.retry, [])
    else (.ok, incoming.take (min (n + 1) count))
  | .eof => (.eof, [])
  | .error => (.error, [])

theorem Delivery.recv_ok {d : Delivery} {incoming bytes : List UInt8} {count : Nat}
    (h : d.recv incoming count = (.ok, bytes)) :
    bytes ≠ [] ∧ bytes.length ≤ count ∧ incoming = bytes ++ incoming.drop bytes.length := by
  cases d with
  | retry => simp [recv] at h
  | eof => simp [recv] at h
  | error => simp [recv] at h
  | transfer n =>
    simp only [recv] at h
    split_ifs at h with hcount hempty
    · simp at h
    · simp at h
    · obtain rfl : incoming.take (min (n + 1) count) = bytes := (Prod.mk.inj h).2
      refine ⟨by simp [hcount, hempty], by rw [List.length_take]; omega, ?_⟩
      exact (List.prefix_iff_eq_append.mp ( List.take_prefix _ _)).symm

/-! ## The automaton -/

inductive Area where
  | header
  | payload
  | marker
deriving DecidableEq, Repr

structure Request where
  area : Area
  offset : Nat
  count : Nat
deriving DecidableEq, Repr

namespace ReaderWriter

def create (sb : SharedBuffers) : ReaderWriter :=
  ⟨sb, .created, 0, 0⟩

def setErrorState (r : ReaderWriter) : ReaderWriter :=
  { r with state := .error, pos := uintMax, remains := 0 }

def descriptor (r : ReaderWriter) : UInt8 :=
  r.sb.header 0

def readCompleted (r : ReaderWriter) : ReaderWriter :=
  { r with state := .readDone, pos := uintMax, remains := 0 }

def areaSize (r : ReaderWriter) : Area → Nat
  | .header => r.sb.getAvailableHeaderSize
  | .payload => r.sb.payload.size
  | .marker => 1

end ReaderWriter

/-- One pass through the loop of `read`, up to its device call; a pass without one leaves the
loop. -/
inductive Pass where
  | ask (r : ReaderWriter) (request : Request)
  | leave (r : ReaderWriter) (result : IoResult)

inductive Verdict where
  | goOn (r : ReaderWriter)
  | leave (r : ReaderWriter) (result : IoResult)

def Verdict.reader : Verdict → ReaderWriter
  | .goOn r => r
  | .leave r _ => r

@[simp]
theorem Verdict.reader_goOn (r : ReaderWriter) : (Verdict.goOn r).reader = r := rfl

@[simp]
theorem Verdict.reader_leave (r : ReaderWriter) (result : IoResult) :
    (Verdict.leave r result).reader = r := rfl

def ReaderWriter.pass (r : ReaderWriter) : Pass :=
  match r.state with
  | .created | .readDescriptor => .ask { r with state := .readDescriptor } ⟨.header, 0, 1⟩
  | .readHeaderSizeBytes | .readHeaderBytes => .ask r ⟨.header, r.pos, r.remains⟩
  | .readPayloadBytes => .ask r ⟨.payload, r.pos, r.remains⟩
  | .readMarkerByte =>
    if markerIsPresent r.descriptor then .ask r ⟨.marker, 0, 1⟩ else .leave r.readCompleted .ok
  | _ => .leave r.setErrorState .error

/-- Every device call of a reader. -/
theorem ReaderWriter.pass_eq_ask {r r' : ReaderWriter} {request : Request}
    (h : r.pass = .ask r' request) :
    ((r.state = .created ∨ r.state = .readDescriptor) ∧ r' = { r with state := .readDescriptor } ∧
        request = ⟨.header, 0, 1⟩) ∨
      ((r.state = .readHeaderSizeBytes ∨ r.state = .readHeaderBytes) ∧ r' = r ∧
        request = ⟨.header, r.pos, r.remains⟩) ∨
      (r.state = .readPayloadBytes ∧ r' = r ∧ request = ⟨.payload, r.pos, r.remains⟩) ∨
      (r.state = .readMarkerByte ∧ markerIsPresent r.descriptor ∧ r' = r ∧
        request = ⟨.marker, 0, 1⟩) := by
  cases hstate : r.state <;> simp only [pass, hstate] at h
  case readMarkerByte =>
    split_ifs at h with hmarker
    · injection h with h₁ h₂
      simp [← h₁, ← h₂, hmarker]
  all_goals
    first
    | (injection h with h₁ h₂; simp [← h₁, ← h₂])
    | cases h

/-- Every way out of the loop without a device call. -/
theorem ReaderWriter.pass_eq_leave {r r' : ReaderWriter} {result : IoResult}
    (h : r.pass = .leave r' result) :
    (r.state = .readMarkerByte ∧ markerIsPresent r.descriptor = false ∧ r' = r.readCompleted ∧
        result = .ok) ∨
      (r.state ≠ .readMarkerByte ∧ r' = r.setErrorState ∧ result = .error) := by
  cases hstate : r.state <;> simp only [pass, hstate] at h
  case readMarkerByte =>
    split_ifs at h with hmarker
    · injection h with h₁ h₂
      simp [h₁, h₂, hmarker]
  all_goals
    first
    | (injection h with h₁ h₂; simp [← h₁, ← h₂])
    | cases h

namespace MessageFormat

/-- After the descriptor: a size field, the rest of a header that has none, or no header at all. -/
def acceptDescriptor (f : MessageFormat) (r : ReaderWriter) (bytes : List UInt8) : Verdict :=
  let sb := r.sb.writeHeader 0 bytes
  let desc := sb.header 0
  if headerDataSizeLength desc = 0 then
    match f.sizelessHeader desc with
    | .readRest =>
      let fullSize := 1 + f.fixedLength desc
      .goOn ⟨sb.configureHeader 1 fullSize, .readHeaderBytes, 1, uintSub fullSize 1⟩
    | .expectMarker => .goOn ⟨sb, .readMarkerByte, 1, 0⟩
    | .reject => .leave (ReaderWriter.setErrorState ⟨sb, .readHeaderSizeBytes, 1, 0⟩) .error
  else .goOn ⟨sb, .readHeaderSizeBytes, 1, headerDataSizeLength desc⟩

def acceptHeaderSizeBytes (f : MessageFormat) (r : ReaderWriter) (bytes : List UInt8) : Verdict :=
  let sb := r.sb.writeHeader r.pos bytes
  let pos := uintAdd r.pos bytes.length
  if bytes.length = r.remains then
    let fullSize := f.headerSize sb.header
    .goOn ⟨sb.configureHeader pos fullSize, .readHeaderBytes, pos, uintSub fullSize pos⟩
  else .goOn { r with sb := sb, pos := pos, remains := uintSub r.remains bytes.length }

/-- After the last byte of the header: the payload, the marker, or a header that makes no sense. -/
def headerReceived (f : MessageFormat) (r : ReaderWriter) : Verdict :=
  match f.getPayloadInfo r.sb with
  | .present size _ _ =>
    if 0 < size then .goOn ⟨r.sb.setPayloadSize size, .readPayloadBytes, 0, size⟩
    else .goOn { r with state := .readMarkerByte }
  | .invalid => .leave { r with state := .error } .error
  | .absent => .goOn { r with state := .readMarkerByte }

def acceptHeaderBytes (f : MessageFormat) (r : ReaderWriter) (bytes : List UInt8) : Verdict :=
  let r' := { r with sb := r.sb.writeHeader r.pos bytes }
  if bytes.length = r.remains then f.headerReceived r'
  else .goOn { r' with
    pos := uintAdd r.pos bytes.length, remains := uintSub r.remains bytes.length }

def acceptPayloadBytes (f : MessageFormat) (r : ReaderWriter) (bytes : List UInt8) : Verdict :=
  let r' := { r with sb := r.sb.writePayload r.pos bytes }
  if bytes.length = r.remains then .goOn { r' with state := .readMarkerByte }
  else
    let r' := { r' with
      pos := uintAdd r.pos bytes.length, remains := uintSub r.remains bytes.length }
    if f.returnsOnPartialPayload then .leave r' .retry else .goOn r'

def acceptMarkerByte (r : ReaderWriter) (bytes : List UInt8) : Verdict :=
  if bytes.head? = some c3IntegrityMarker then .leave r.readCompleted .ok
  else .leave { r with state := .error } .error

/-- The rest of a pass, after the device call returned `IO_RESULT_OK`. -/
def accept (f : MessageFormat) (r : ReaderWriter) (bytes : List UInt8) : Verdict :=
  match r.state with
  | .readDescriptor => f.acceptDescriptor r bytes
  | .readHeaderSizeBytes => f.acceptHeaderSizeBytes r bytes
  | .readHeaderBytes => f.acceptHeaderBytes r bytes
  | .readPayloadBytes => f.acceptPayloadBytes r bytes
  | .readMarkerByte => acceptMarkerByte r bytes
  -- no other state gets here: `pass` leaves the loop in them without a device call
  | _ => .leave r.setErrorState .error

/-- Why a reader gives up on a message. -/
def Rejects (f : MessageFormat) (r : ReaderWriter) (bytes : List UInt8) : Prop :=
  match r.state with
  | .readDescriptor =>
    let desc := (r.sb.writeHeader 0 bytes).header 0
    headerDataSizeLength desc = 0 ∧ f.sizelessHeader desc = .reject
  | .readHeaderSizeBytes | .readPayloadBytes => False
  | .readHeaderBytes =>
    bytes.length = r.remains ∧ f.getPayloadInfo (r.sb.writeHeader r.pos bytes) = .invalid
  | .readMarkerByte => bytes.head? ≠ some c3IntegrityMarker
  | _ => True

theorem accept_cases (f : MessageFormat) (r : ReaderWriter) (bytes : List UInt8) :
    (∃ r', f.accept r bytes = .goOn r' ∧ r'.state ≠ .error ∧ r'.state ≠ .readDone) ∨
    (∃ r', f.accept r bytes = .leave r' .retry ∧ r.state = .readPayloadBytes ∧
      r'.state = .readPayloadBytes) ∨
    (f.accept r bytes = .leave r.readCompleted .ok ∧ r.state = .readMarkerByte) ∨
    (∃ r', f.accept r bytes = .leave r' .error ∧ r'.state = .error ∧ f.Rejects r bytes) := by
  cases hstate : r.state with
  | readDescriptor =>
    simp only [accept, Rejects, hstate, acceptDescriptor, SharedBuffers.header_writeHeader]
    split_ifs with hsizeless
    · cases hformat : f.sizelessHeader (r.sb.header.write 0 bytes 0) <;>
        simp [hsizeless, ReaderWriter.setErrorState]
    · simp
  | readHeaderSizeBytes =>
    simp only [accept, Rejects, hstate, acceptHeaderSizeBytes]
    split_ifs <;> simp
  | readHeaderBytes =>
    simp only [accept, Rejects, hstate, acceptHeaderBytes, headerReceived]
    split_ifs with hcomplete
    · cases hinfo : f.getPayloadInfo (r.sb.writeHeader r.pos bytes) with
      | present size usize compressor =>
        simp only
        split_ifs <;> simp
      | _ => simp [hcomplete]
    · simp
  | readPayloadBytes =>
    simp only [accept, Rejects, hstate, acceptPayloadBytes]
    split_ifs <;> simp
  | readMarkerByte =>
    simp only [accept, Rejects, hstate, acceptMarkerByte]
    split_ifs with hmarker <;> simp [hmarker]
  | _ => simp [accept, Rejects, hstate, ReaderWriter.setErrorState]

end MessageFormat

/-! ## The loop -/

inductive Outcome where
  | returns (result : IoResult)
  | overrun
deriving DecidableEq, Repr

/-- The end of one call of `read`. `asked` is not part of the program: it records the object and the
request at every device call. -/
structure ReadCall where
  reader : ReaderWriter
  outcome : Outcome
  ntotal : Nat
  device : Device
  asked : List (ReaderWriter × Request)

namespace MessageFormat

def readLoop (f : MessageFormat) : List Delivery → List UInt8 → ReaderWriter → Nat →
    List (ReaderWriter × Request) → ReadCall
  | schedule, incoming, r, ntotal, asked =>
    match r.pass with
    | .leave r result => ⟨r, .returns result, ntotal, ⟨incoming, schedule⟩, asked⟩
    | .ask r request =>
      let asked := asked ++ [(r, request)]
      match schedule with
      | [] => ⟨r, .returns .retry, ntotal, ⟨incoming, []⟩, asked⟩
      | delivery :: schedule =>
        match delivery.recv incoming request.count with
        | (.ok, bytes) =>
          let incoming := incoming.drop bytes.length
          let ntotal := ntotal + bytes.length
          if r.areaSize request.area < request.offset + bytes.length then
            ⟨r, .overrun, ntotal, ⟨incoming, schedule⟩, asked⟩
          else
            match f.accept r bytes with
            | .goOn r => f.readLoop schedule incoming r ntotal asked
            | .leave r result => ⟨r, .returns result, ntotal, ⟨incoming, schedule⟩, asked⟩
        | (.retry, _) => ⟨r, .returns .retry, ntotal, ⟨incoming, schedule⟩, asked⟩
        | (result, _) =>
          ⟨{ r with state := .error }, .returns result, ntotal, ⟨incoming, schedule⟩, asked⟩

section Equations

variable {f : MessageFormat} {r r' : ReaderWriter} {request : Request} {delivery : Delivery}
  {schedule : List Delivery} {incoming bytes : List UInt8} {ntotal : Nat}
  {asked : List (ReaderWriter × Request)}

theorem readLoop_leave {result : IoResult} (h : r.pass = .leave r' result) :
    f.readLoop schedule incoming r ntotal asked =
      ⟨r', .returns result, ntotal, ⟨incoming, schedule⟩, asked⟩ := by
  unfold readLoop
  simp only [h]

section

variable (h : r.pass = .ask r' request)
include h

theorem readLoop_nil :
    f.readLoop [] incoming r ntotal asked =
      ⟨r', .returns .retry, ntotal, ⟨incoming, []⟩, asked ++ [(r', request)]⟩ := by
  unfold readLoop
  simp only [h]

theorem readLoop_retry
    (hrecv : delivery.recv incoming request.count = (.retry, bytes)) :
    f.readLoop (delivery :: schedule) incoming r ntotal asked =
      ⟨r', .returns .retry, ntotal, ⟨incoming, schedule⟩, asked ++ [(r', request)]⟩ := by
  unfold readLoop
  simp only [h, hrecv]

theorem readLoop_fail {result : IoResult}
    (hrecv : delivery.recv incoming request.count = (result, bytes))
    (hresult : result = .eof ∨ result = .error) :
    f.readLoop (delivery :: schedule) incoming r ntotal asked =
      ⟨{ r' with state := .error }, .returns result, ntotal, ⟨incoming, schedule⟩,
        asked ++ [(r', request)]⟩ := by
  unfold readLoop
  obtain rfl | rfl := hresult <;> simp only [h, hrecv]

theorem readLoop_overrun
    (hrecv : delivery.recv incoming request.count = (.ok, bytes))
    (hsize : r'.areaSize request.area < request.offset + bytes.length) :
    f.readLoop (delivery :: schedule) incoming r ntotal asked =
      ⟨r', .overrun, ntotal + bytes.length, ⟨incoming.drop bytes.length, schedule⟩,
        asked ++ [(r', request)]⟩ := by
  unfold readLoop
  simp only [h, hrecv, hsize, if_true]

theorem readLoop_goOn {r'' : ReaderWriter}
    (hrecv : delivery.recv incoming request.count = (.ok, bytes))
    (hsize : request.offset + bytes.length ≤ r'.areaSize request.area)
    (haccept : f.accept r' bytes = .goOn r'') :
    f.readLoop (delivery :: schedule) incoming r ntotal asked =
      f.readLoop schedule (incoming.drop bytes.length) r'' (ntotal + bytes.length)
        (asked ++ [(r', request)]) := by
  conv_lhs => unfold readLoop
  simp only [h, hrecv, Nat.not_lt.mpr hsize, if_false, haccept]

theorem readLoop_return {r'' : ReaderWriter} {result : IoResult}
    (hrecv : delivery.recv incoming request.count = (.ok, bytes))
    (hsize : request.offset + bytes.length ≤ r'.areaSize request.area)
    (haccept : f.accept r' bytes = .leave r'' result) :
    f.readLoop (delivery :: schedule) incoming r ntotal asked =
      ⟨r'', .returns result, ntotal + bytes.length, ⟨incoming.drop bytes.length, schedule⟩,
        asked ++ [(r', request)]⟩ := by
  unfold readLoop
  simp only [h, hrecv, Nat.not_lt.mpr hsize, if_false, haccept]

end

end Equations

def read (f : MessageFormat) (r : ReaderWriter) (device : Device) : ReadCall :=
  f.readLoop device.schedule device.incoming r 0 []

end MessageFormat

def CommandReader.read : ReaderWriter → Device → ReadCall :=
  commandFormat.read

def ResponseReader.read : ReaderWriter → Device → ReadCall :=
  responseFormat.read

end CyberCache
