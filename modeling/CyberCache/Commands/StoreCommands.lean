import CyberCache.Commands.Slots
import CyberCache.Store.Saving
import CyberCache.Store.SessionLock
import CyberCache.Tags.Cleaning

/-!
# Commands for the stores

The handlers of the session store, of the page store and of the tag manager for the commands that
read or change what is stored. A handler fetches the chunks of its command and tests them; if a test
fails, it reports an invalid format and does nothing else. Otherwise it looks the object up, posts a
response, and notifies the optimizer.

What a handler does besides changing objects is recorded as a list of events. What other threads do
while a handler waits for the lock on an object is given: whether the object was marked as deleted
meanwhile, and how `lock_session()` ended.
-/

namespace CyberCache

open TagIndex (CleanMode)

/-! ## State -/

structure StoredPayload where
  bytes : List UInt8
  usize : Nat
  compressor : UInt8
deriving DecidableEq, Repr

/-- An object of either store; sessions are not linked by the tag manager and have no tags. -/
structure CacheObject where
  ref : Nat
  name : List UInt8
  payload : StoredPayload
  modTime : Nat
  expTime : Nat
  beingDeleted : Bool
  linkedByTM : Bool
  tags : List (List UInt8)
deriving DecidableEq, Repr

inductive OptimizerNotice where
  | write (ref userAgent lifetime : Nat)
  | read (ref userAgent : Nat)
  | delete (ref : Nat)
  | touch (ref lifetime : Nat)
  | gc (seconds : Nat)
deriving DecidableEq, Repr

inductive Reply where
  | ok
  | error (text : String)
  | data (chunks : List Chunk) (payload : Option StoredPayload)
  | list (strings : List (List UInt8))
deriving DecidableEq, Repr

inductive ServerEvent where
  | respond (reply : Reply)
  | logError (text : String)
  | notify (domain : Domain) (notice : OptimizerNotice)
  /-- The command reader, or a clone of its header, is sent to the tag manager. -/
  | forward (cloned : Bool) (ref : Option Nat)
  | dispose
deriving DecidableEq, Repr

structure CacheServer where
  objects : Domain → List CacheObject
  nextRef : Nat
  now : Nat
  pageUsedSize : Nat
  pageQuota : Option Nat
  /-- The result of `log_error_response()`. -/
  logs : Bool
  events : List ServerEvent

/-- What happens to an object while a thread waits for it. -/
structure Interference where
  markedMeanwhile : Bool
  lockSession : (requestId : Nat) → SessionLockResult

abbrev Processing := StateM CacheServer

/-! ## Responses -/

def formatErrorText (cr : CommandReader) : String :=
  "Command [" ++ hexByte cr.getCommandId ++ "] has invalid format"

def internalErrorText (cr : CommandReader) : String :=
  "Internal server error while processing command [" ++ hexByte cr.getCommandId ++ "]"

def errorEvent (cr : CommandReader) (text : String) : ServerEvent :=
  if cr.network then .respond (.error text) else .logError text

namespace Processing

variable {α β : Type} (s : CacheServer)

theorem run_bind (x : Processing α) (f : α → Processing β) :
    (x >>= f).run s = (f (x.run s).1).run (x.run s).2 := rfl

theorem run_map (f : α → β) (x : Processing α) :
    (f <$> x).run s = (f (x.run s).1, (x.run s).2) := rfl

theorem run_pure (a : α) : (pure a : Processing α).run s = (a, s) := rfl

theorem run_get : (get : Processing CacheServer).run s = (s, s) := rfl

def record (event : ServerEvent) : Processing Unit :=
  modify fun s => { s with events := s.events ++ [event] }

def respond (reply : Reply) : Processing Bool := do
  record (.respond reply)
  return true

def postOkResponse (cr : CommandReader) : Processing Bool :=
  if cr.network then respond .ok else return true

def postError (cr : CommandReader) (text : String) : Processing Bool := do
  record (errorEvent cr text)
  return cr.network || (← get).logs

def postFormatErrorResponse (cr : CommandReader) : Processing Bool :=
  postError cr (formatErrorText cr)

def postInternalErrorResponse (cr : CommandReader) : Processing Bool :=
  postError cr (internalErrorText cr)

def notify (domain : Domain) (notice : OptimizerNotice) : Processing Unit :=
  record (.notify domain notice)

/-- The object that is found by its name, unless it is marked as deleted, before or after the thread
has got its lock. -/
def findAlive (domain : Domain) (name : List UInt8) (other : Interference) :
    Processing (Option CacheObject) := do
  let found := ((← get).objects domain).find? fun o => o.name = name
  return found.filter fun o => !o.beingDeleted && !other.markedMeanwhile

def change (domain : Domain) (ref : Nat) (f : CacheObject → CacheObject) : Processing Unit :=
  modify fun s => { s with
    objects := Function.update s.objects domain
      ((s.objects domain).map fun o => if o.ref = ref then f o else o) }

def markAsDeleted (domain : Domain) (ref : Nat) : Processing Unit :=
  change domain ref fun o => { o with beingDeleted := true }

/-- The object of a command that stores a payload: the one that is there, or a new one. -/
def storePayload (domain : Domain) (name : List UInt8) (payload : StoredPayload)
    (other : Interference) : Processing Nat := do
  match ← findAlive domain name other with
  | some o =>
    change domain o.ref fun o => { o with payload := payload }
    return o.ref
  | none =>
    let s ← get
    set { s with
      objects := Function.update s.objects domain
        (⟨s.nextRef, name, payload, s.now, maxTimestamp, false, false, []⟩ :: s.objects domain)
      nextRef := s.nextRef + 1 }
    return s.nextRef

end Processing

/-! ## Arguments -/

/-- A number is converted to `c3_uint_t` and then to `user_agent_t`, which is a byte. -/
def toUserAgent (n : Int) : Nat := uintOfInt n % 256

def CommandReader.hasPayloadData (cr : CommandReader) : Bool :=
  cr.sb.header 0 &&& descPayloadBits != 0

def CommandReader.hasAnyData (cr : CommandReader) : Bool :=
  (commandFormat.getHeaderInfo cr.sb.header).any (fun info => 0 < info.2) || cr.hasPayloadData

/-- The payload as it is handed over to an object; `none` if `get_payload_info()` fails. -/
def CommandReader.payload (cr : CommandReader) : Option StoredPayload :=
  match CommandAccessor.getPayloadInfo cr.sb with
  | .present _ usize compressor => some ⟨cr.sb.payloadBytes, usize, compressor⟩
  | _ => none

/-- Negative lifetimes are unlimited. -/
def lifetimeOf (n : Int) : Nat := if n < 0 then maxTimestamp else uintOfInt n

namespace Decoder

def takeUserAgent (isValid : Int → Bool) : Decoder Nat := do
  let agent ← takeNumber isValid
  check (toUserAgent agent < numUserAgents)
  return toUserAgent agent

def takeRequestId : Decoder Nat := do
  if (← ask fun it => it.getNextChunkType) = .number then
    let n ← takeNumber NumberChunk.isValidUint
    return uintOfInt n
  else return 0

def readArguments : Decoder (List UInt8 × Nat × Nat) := do
  let id ← takeName
  let ua ← takeUserAgent NumberChunk.isValid
  let requestId ← takeRequestId
  noMoreChunks
  return (id, ua, requestId)

def writeArguments (cr : CommandReader) : Decoder (List UInt8 × Nat × Nat × StoredPayload) := do
  let id ← takeName
  let ua ← takeUserAgent NumberChunk.isValidUint
  let lifetime ← takeNumber NumberChunk.isValid
  let _ ← takeRequestId
  noMoreChunks
  let payload ← ofOption cr.payload
  return (id, ua, lifetimeOf lifetime, payload)

def nameArguments (cr : CommandReader) : Decoder (List UInt8) := do
  let id ← takeName
  noMoreChunks
  check !cr.hasPayloadData
  return id

def gcArguments (cr : CommandReader) : Decoder Nat := do
  let seconds ← takeNumber NumberChunk.isValidUint
  noMoreChunks
  check !cr.hasPayloadData
  return uintOfInt seconds

def loadArguments : Decoder (List UInt8 × Nat) := do
  let id ← takeName
  let ua ← takeUserAgent NumberChunk.isValid
  noMoreChunks
  return (id, ua)

def saveArguments (cr : CommandReader) : Decoder (List UInt8 × StoredPayload) := do
  let id ← takeName
  let _ ← takeUserAgent NumberChunk.isValidUint
  let _ ← takeNumber (NumberChunk.isInRange (-1) uintMax)
  let _ ← takeNames
  noMoreChunks
  let payload ← ofOption cr.payload
  return (id, payload)

def touchArguments : Decoder (List UInt8 × Nat) := do
  let id ← takeName
  let lifetime ← takeNumber NumberChunk.isValidUint
  noMoreChunks
  return (id, uintOfInt lifetime)

def cleanModeOf : Nat → Option CleanMode
  | 1 => some .all
  | 2 => some .old
  | 3 => some .matchingAllTags
  | 4 => some .notMatchingAnyTag
  | 5 => some .matchingAnyTag
  | _ => none

/-- The list of tags is fetched for all modes but the first two; what follows it is ignored. -/
def cleanSelection : Option CleanMode → Decoder (CleanMode × List (List UInt8))
  | some .all => do
    noMoreChunks
    return (.all, [])
  | some .old => do
    noMoreChunks
    return (.old, [])
  | mode? => do
    let names ← takeNames
    let mode ← ofOption mode?
    return (mode, names)

def cleanArguments (cr : CommandReader) : Decoder (CleanMode × List (List UInt8)) := do
  let mode ← takeNumber NumberChunk.isValidUint
  check !cr.hasPayloadData
  cleanSelection (cleanModeOf (uintOfInt mode))

/-- What the tag manager takes from a SAVE command, without testing it again. -/
def savedTags : Decoder (Nat × Nat × List (List UInt8)) := do
  let _ ← getString
  let agent ← getNumber
  let lifetime ← getNumber
  let count ← getList
  let names ← ask fun it => (it.getListStrings count).1
  return (toUserAgent agent, lifetimeOf lifetime, names)

end Decoder

/-- The reader with which a handler starts; `stack` is the memory of its local variables. -/
def CommandReader.chunks (cr : CommandReader) (stack : Nat → BitVec 64) : ChunkReader :=
  ⟨HeaderChunkIterator.create commandFormat cr.sb, stack, []⟩

/-- A handler that goes on with what it has fetched if that passes its tests. -/
def CommandReader.ifValid {α β : Type} (cr : CommandReader) (stack : Nat → BitVec 64)
    (arguments : Decoder α) (execute : α → Processing β) (refuse : Processing β) :
    Processing β :=
  match (arguments (cr.chunks stack)).1 with
  | some a => execute a
  | none => refuse

theorem CommandReader.ifValid_none {α β : Type} {cr : CommandReader} {stack : Nat → BitVec 64}
    {arguments : Decoder α} (execute : α → Processing β) (refuse : Processing β)
    (h : (arguments (cr.chunks stack)).1 = none) :
    cr.ifValid stack arguments execute refuse = refuse := by
  rw [ifValid, h]

theorem CommandReader.ifValid_some {α β : Type} {cr : CommandReader} {stack : Nat → BitVec 64}
    {arguments : Decoder α} {a : α} (execute : α → Processing β) (refuse : Processing β)
    (h : (arguments (cr.chunks stack)).1 = some a) :
    cr.ifValid stack arguments execute refuse = execute a := by
  rw [ifValid, h]

/-! ## Session store -/

namespace SessionObjectStore

open Processing Decoder

variable (cr : CommandReader) (stack : Nat → BitVec 64) (other : Interference)

def processReadCommand : Processing Bool :=
  cr.ifValid stack readArguments
    (fun (id, ua, requestId) => do
      match ← findAlive .session id other with
      | none => postOkResponse cr
      | some so =>
        if (← get).now ≤ so.expTime then
          match other.lockSession requestId with
          | .deleted => postOkResponse cr
          | .success | .brokeLock =>
            record (.respond (.data [] (some so.payload)))
            notify .session (.read so.ref ua)
            return true
        else
          markAsDeleted .session so.ref
          notify .session (.delete so.ref)
          postOkResponse cr)
    (postFormatErrorResponse cr)

def processWriteCommand : Processing Bool :=
  cr.ifValid stack (writeArguments cr)
    (fun (id, ua, lifetime, payload) => do
      let ref ← storePayload .session id payload other
      let _ ← postOkResponse cr
      notify .session (.write ref ua lifetime)
      return true)
    (postFormatErrorResponse cr)

def processDestroyCommand : Processing Bool :=
  cr.ifValid stack (nameArguments cr)
    (fun id => do
      if let some so ← findAlive .session id other then
        markAsDeleted .session so.ref
        notify .session (.delete so.ref)
      postOkResponse cr)
    (postFormatErrorResponse cr)

def processGcCommand : Processing Bool :=
  cr.ifValid stack (gcArguments cr)
    (fun seconds => do
      notify .session (.gc seconds)
      postOkResponse cr)
    (postFormatErrorResponse cr)

def processCommand : Processing Bool := do
  let id := cr.getCommandId
  let result ←
    if id = cmdRead then processReadCommand cr stack other
    else if id = cmdWrite then processWriteCommand cr stack other
    else if id = cmdDestroy then processDestroyCommand cr stack other
    else if id = cmdGc then processGcCommand cr stack
    else pure false
  if result then record .dispose
  return result

end SessionObjectStore

/-! ## Page store -/

namespace PageObjectStore

open Processing Decoder

variable (cr : CommandReader) (stack : Nat → BitVec 64) (other : Interference)

def processLoadCommand : Processing Bool :=
  cr.ifValid stack loadArguments
    (fun (id, ua) => do
      match ← findAlive .page id other with
      | none => postOkResponse cr
      | some po =>
        record (.respond (.data [] (some po.payload)))
        notify .page (.read po.ref ua)
        return true)
    (postFormatErrorResponse cr)

def processTestCommand : Processing Bool :=
  cr.ifValid stack loadArguments
    (fun (id, ua) => do
      match ← findAlive .page id other with
      | none => postOkResponse cr
      | some po =>
        record (.respond (.data [.number po.modTime] none))
        notify .page (.read po.ref ua)
        return true)
    (postFormatErrorResponse cr)

/-- The results of this method and of the next two say whether the command reader is to be disposed
of. -/
def processSaveCommand : Processing Bool :=
  cr.ifValid stack (saveArguments cr)
    (fun (id, payload) => do
      let ref ← storePayload .page id payload other
      let _ ← postOkResponse cr
      record (.forward true (some ref))
      return true)
    (do
      let _ ← postFormatErrorResponse cr
      return true)

def processRemoveCommand : Processing Bool :=
  cr.ifValid stack (nameArguments cr)
    (fun id => do
      match ← findAlive .page id other with
      | none =>
        let _ ← postOkResponse cr
        return true
      | some po =>
        markAsDeleted .page po.ref
        let _ ← postOkResponse cr
        record (.forward false (some po.ref))
        return false)
    (do
      let _ ← postFormatErrorResponse cr
      return true)

def processGetmetadatasCommand : Processing Bool :=
  cr.ifValid stack (nameArguments cr)
    (fun id => do
      match ← findAlive .page id other with
      | none =>
        let _ ← postOkResponse cr
        return true
      | some po =>
        record (.forward false (some po.ref))
        return false)
    (do
      let _ ← postFormatErrorResponse cr
      return true)

def missingEntryText (id : List UInt8) : String :=
  "Entry '" ++ String.ofList (id.map fun b => Char.ofNat b.toNat) ++
    "' did not exist of had been deleted"

def processTouchCommand : Processing Bool :=
  cr.ifValid stack touchArguments
    (fun (id, lifetime) => do
      match ← findAlive .page id other with
      | none => postError cr (missingEntryText id)
      | some po =>
        let _ ← postOkResponse cr
        notify .page (.touch po.ref lifetime)
        return true)
    (postFormatErrorResponse cr)

/-- The percentage is an unsigned number, and the protocol limits it. -/
def processGetfillingpercentageCommand : Processing Bool := do
  if cr.hasAnyData then postFormatErrorResponse cr
  else
    let s ← get
    let percentage := match s.pageQuota with
      | some quota => min (s.pageUsedSize * 100 / quota % uintRange) 100
      | none => 0
    respond (.data [.number percentage] none)

def processCommand : Processing Bool := do
  let id := cr.getCommandId
  let (result, doDispose) ←
    if id = cmdLoad then (·, true) <$> processLoadCommand cr stack other
    else if id = cmdTest then (·, true) <$> processTestCommand cr stack other
    else if id = cmdSave then (true, ·) <$> processSaveCommand cr stack other
    else if id = cmdRemove then (true, ·) <$> processRemoveCommand cr stack other
    else if id = cmdGetFillingPercentage then (·, true) <$> processGetfillingpercentageCommand cr
    else if id = cmdGetMetadatas then (true, ·) <$> processGetmetadatasCommand cr stack other
    else if id = cmdTouch then (·, true) <$> processTouchCommand cr stack other
    else pure (false, true)
  if result && doDispose then record .dispose
  return result

end PageObjectStore

/-! ## Tag manager -/

namespace TagStore

open Processing Decoder

variable (cr : CommandReader) (stack : Nat → BitVec 64)

/-- Pages that are cleaned are unlinked and marked, and the optimizer is notified of each. -/
def cleanPages (selects : CacheObject → Bool) : Processing Unit :=
  modify fun s => { s with
    objects := Function.update s.objects .page ((s.objects .page).map fun o =>
      if selects o then { o with beingDeleted := true, linkedByTM := false } else o)
    events := s.events ++
      ((s.objects .page).filter selects).map fun o => .notify .page (.delete o.ref) }

instance (names own : List (List UInt8)) : (mode : CleanMode) → Decidable (mode.Selects names own)
  | .all => .isTrue trivial
  | .old => .isFalse fun h => h
  | .matchingAllTags => inferInstanceAs (Decidable (names ≠ [] ∧ ∀ name ∈ names, name ∈ own))
  | .notMatchingAnyTag => inferInstanceAs (Decidable (∀ name ∈ names, name ∉ own))
  | .matchingAnyTag => inferInstanceAs (Decidable (∃ name ∈ names, name ∈ own))

def isCleaned (mode : CleanMode) (names : List (List UInt8)) (o : CacheObject) : Bool :=
  !o.beingDeleted && o.linkedByTM && decide (mode.Selects names o.tags)

def processCleanCommand : Processing Unit :=
  cr.ifValid stack (cleanArguments cr)
    (fun (mode, names) => do
      if mode = .old then notify .page (.gc 0) else cleanPages (isCleaned mode names)
      let _ ← postOkResponse cr)
    (do
      let _ ← postFormatErrorResponse cr)

/-- Tags of a page are replaced by those of the command, unless the page was deleted before it had
any. -/
def processSaveCommand (ref : Nat) : Processing Unit := do
  if let some po := ((← get).objects .page).find? fun o => o.ref = ref then
    if po.linkedByTM || !po.beingDeleted then
      if let some (ua, lifetime, names) := (savedTags (cr.chunks stack)).1 then
        change .page ref fun o => { o with linkedByTM := true, tags := names.dedup }
        notify .page (.write ref ua lifetime)

end TagStore

/-! ## Dispatching -/

def finishCommand (cr : CommandReader) (result : Bool) : Processing Unit := do
  unless result do
    let _ ← Processing.postInternalErrorResponse cr
    Processing.record .dispose

inductive StoreCommand where
  | read
  | write
  | destroy
  | gc
  | load
  | test
  | save
  | remove
  | touch
  | getmetadatas
  | clean
deriving DecidableEq, Repr

namespace StoreCommand

def id : StoreCommand → UInt8
  | read => cmdRead
  | write => cmdWrite
  | destroy => cmdDestroy
  | gc => cmdGc
  | load => cmdLoad
  | test => cmdTest
  | save => cmdSave
  | remove => cmdRemove
  | touch => cmdTouch
  | getmetadatas => cmdGetMetadatas
  | clean => cmdClean

/-- A command from its dispatch to its end, or to the point where the tag manager takes over. -/
def process (cr : CommandReader) (stack : Nat → BitVec 64) (other : Interference) :
    Processing Unit := do
  match ConnectionThread.handlerOf (ConnectionThread.getCommandFlags cr.getCommandId) with
  | .sessionStore => finishCommand cr (← SessionObjectStore.processCommand cr stack other)
  | .fpcStore => finishCommand cr (← PageObjectStore.processCommand cr stack other)
  | .tagManager =>
    if cr.getCommandId = cmdClean then TagStore.processCleanCommand cr stack
    Processing.record .dispose
  | .server => return

end StoreCommand

end CyberCache
