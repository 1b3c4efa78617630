import CyberCache.Pipeline.Queue
import CyberCache.Pipeline.Descriptors

/-!
# Replicators

A `SocketOutputPipeline` sends commands to replication servers and reads their responses. The
counter `sp_num_connections` is the number of transfers in progress. With persistent connections the
socket of each server is remembered and used again, and commands wait in a queue while a transfer is
in progress; each transfer that comes to its end takes one command from that queue.

What the system answers (whether a connection is established, how much can be written or read) is
given. A use of a null pointer has no result. The log is not part of the program: it records what
the pipeline did.
-/

namespace CyberCache

/-- A `ReaderWriter`: command writers and response readers; `id` tells objects apart. -/
structure IoObject where
  id : Nat
  command : Nat
  isReader : Bool
  fd : Nat
deriving DecidableEq, Repr

/-- What `c3_socket()` and `c3_connect()` do. -/
inductive ConnectOutcome where
  | noSocket
  | refused (wish : Nat)
  | connected (wish : Nat)
deriving DecidableEq, Repr

def ConnectOutcome.isConnected : ConnectOutcome → Bool
  | .connected _ => true
  | _ => false

/-- The answers of the system to the `j`-th attempt on replica `i`. -/
structure Outcomes where
  connect : Nat → Nat → ConnectOutcome
  write : Nat → Nat → IoOutcome

inductive OutputAction where
  | start (command : Nat)
  | connect (replica : Nat) (fd : Option Nat)
  | write (replica : Nat) (id : Nat) (result : IoOutcome)
  | watch (replica : Nat) (id : Nat)
  | dispose (id : Nat)
  | logError (text : String)
deriving DecidableEq, Repr

structure SocketOutputPipeline where
  persistent : Bool
  numConnections : Nat
  /-- The descriptors in `sp_socket_events`, one for each replica. -/
  sockets : List (Option Nat)
  deferred : Queue IoObject
  descriptors : Descriptors IoObject
  /-- Events that `epoll_wait()` has returned and that have not been processed yet. -/
  events : List IoObject
  arrived : Nat
  nextId : Nat
  log : List OutputAction

namespace SocketOutputPipeline

/-! ## Sockets -/

@[simps]
def record (s : SocketOutputPipeline) (action : OutputAction) : SocketOutputPipeline :=
  { s with log := s.log ++ [action] }

def getFd (s : SocketOutputPipeline) (i : Nat) : Option Nat :=
  s.sockets.getD i none

def closeConnectionSocket (s : SocketOutputPipeline) (i : Nat) : SocketOutputPipeline :=
  match s.getFd i with
  | some fd =>
    { s with sockets := s.sockets.set i none, descriptors := s.descriptors.closeSocket fd }
  | none => s

def closeConnectionSocketByFd (s : SocketOutputPipeline) (fd : Nat) : SocketOutputPipeline :=
  match s.sockets.idxOf? (some fd) with
  | some i => s.closeConnectionSocket i
  | none => s

def closeConnectionSockets (s : SocketOutputPipeline) : SocketOutputPipeline :=
  (List.range s.sockets.length).foldl closeConnectionSocket s

/-- The part of `create_connection_socket()` behind the look at the remembered socket. -/
def connectSocket (s : SocketOutputPipeline) (i : Nat) :
    ConnectOutcome → Option Nat × SocketOutputPipeline
  | .noSocket => (none, s)
  | .refused wish =>
    let fd := s.descriptors.fresh wish
    (none, { s with descriptors := (s.descriptors.openSocket wish).closeSocket fd })
  | .connected wish =>
    let fd := s.descriptors.fresh wish
    let s := { s with descriptors := s.descriptors.openSocket wish }
    -- only persistent connections are remembered
    (some fd, if s.persistent then { s with sockets := s.sockets.set i (some fd) } else s)

def createConnectionSocket (s : SocketOutputPipeline) (i : Nat) (outcome : ConnectOutcome) :
    Option Nat × SocketOutputPipeline :=
  match s.getFd i with
  | some fd =>
    if s.persistent then (some fd, s) else (s.closeConnectionSocket i).connectSocket i outcome
  | none => s.connectSocket i outcome

/-- Sockets are opened and closed; everything else stays. -/
structure SameButSockets (s s' : SocketOutputPipeline) : Prop where
  persistent : s'.persistent = s.persistent
  numConnections : s'.numConnections = s.numConnections
  length : s'.sockets.length = s.sockets.length
  deferred : s'.deferred = s.deferred
  events : s'.events = s.events
  arrived : s'.arrived = s.arrived
  nextId : s'.nextId = s.nextId
  log : s'.log = s.log

theorem SameButSockets.refl (s : SocketOutputPipeline) : s.SameButSockets s :=
  ⟨rfl, rfl, rfl, rfl, rfl, rfl, rfl, rfl⟩

theorem SameButSockets.trans {s s' s'' : SocketOutputPipeline} (h : s.SameButSockets s')
    (h' : s'.SameButSockets s'') : s.SameButSockets s'' where
  persistent := h'.persistent.trans h.persistent
  numConnections := h'.numConnections.trans h.numConnections
  length := h'.length.trans h.length
  deferred := h'.deferred.trans h.deferred
  events := h'.events.trans h.events
  arrived := h'.arrived.trans h.arrived
  nextId := h'.nextId.trans h.nextId
  log := h'.log.trans h.log

theorem closeConnectionSocket_same (s : SocketOutputPipeline) (i : Nat) :
    s.SameButSockets (s.closeConnectionSocket i) := by
  unfold closeConnectionSocket
  split
  · exact ⟨rfl, rfl, List.length_set, rfl, rfl, rfl, rfl, rfl⟩
  · exact .refl s

theorem getFd_closeConnectionSocket (s : SocketOutputPipeline) (i : Nat) :
    (s.closeConnectionSocket i).getFd i = none := by
  unfold closeConnectionSocket
  split
  · simp only [getFd, List.getD_eq_getElem?_getD, List.getElem?_set, if_true]
    split_ifs <;> rfl
  · assumption

theorem connectSocket_same (s : SocketOutputPipeline) (i : Nat) (outcome : ConnectOutcome) :
    s.SameButSockets (s.connectSocket i outcome).2 := by
  cases outcome with
  | noSocket => exact .refl s
  | refused wish => exact ⟨rfl, rfl, rfl, rfl, rfl, rfl, rfl, rfl⟩
  | connected wish =>
    dsimp only [connectSocket]
    split_ifs
    · exact ⟨rfl, rfl, List.length_set, rfl, rfl, rfl, rfl, rfl⟩
    · exact ⟨rfl, rfl, rfl, rfl, rfl, rfl, rfl, rfl⟩

theorem createConnectionSocket_same (s : SocketOutputPipeline) (i : Nat)
    (outcome : ConnectOutcome) : s.SameButSockets (s.createConnectionSocket i outcome).2 := by
  unfold createConnectionSocket
  split
  · split_ifs
    · exact .refl s
    · exact (s.closeConnectionSocket_same i).trans (connectSocket_same _ i outcome)
  · exact s.connectSocket_same i outcome

/-! ## Commands -/

def newReader (s : SocketOutputPipeline) (command fd : Nat) :
    IoObject × SocketOutputPipeline :=
  (⟨s.nextId, command, true, fd⟩, { s with nextId := s.nextId + 1 })

def clone (s : SocketOutputPipeline) (rw : IoObject) : IoObject × SocketOutputPipeline :=
  ({ rw with id := s.nextId }, { s with nextId := s.nextId + 1 })

def watchObject (s : SocketOutputPipeline) (i : Nat) (rw : IoObject) : SocketOutputPipeline :=
  { s.record (.watch i rw.id) with
    descriptors := s.descriptors.watch rw.fd rw
    numConnections := uintAdd s.numConnections 1 }

/-- The `switch` over the result of `write()`; returns the object that the loop goes on with. -/
def afterWrite (s : SocketOutputPipeline) (i j : Nat) (rw : IoObject) :
    IoOutcome → Option IoObject × SocketOutputPipeline
  | .ok =>
    let (reader, s) := s.newReader rw.command rw.fd
    (some rw, s.watchObject i reader)
  | .retry =>
    if i + 1 < s.sockets.length then
      -- there will be more iterations with different sockets
      let (newWriter, s) := s.clone rw
      (some newWriter, s.watchObject i rw)
    else (none, s.watchObject i rw)
  | .error =>
    if s.persistent ∧ j = 0 then (some rw, s.closeConnectionSocket i)
    else
      (some rw, (s.record (.logError "could not send data [Q]")).closeConnectionSocket i)

def attempt (outcomes : Outcomes) (i j : Nat) (rw : Option IoObject)
    (s : SocketOutputPipeline) : Option (Option IoObject × SocketOutputPipeline) :=
  let (fd, s) := s.createConnectionSocket i (outcomes.connect i j)
  let s := s.record (.connect i fd)
  match fd with
  | some fd =>
    match rw with
    | some rw =>
      let rw := { rw with fd := fd }
      some ((s.record (.write i rw.id (outcomes.write i j))).afterWrite i j rw
        (outcomes.write i j))
    | none => none
  | none => some (rw, s.record (.logError "%s: could not connect to %s to send a command"))

/-- The inner loop: the `break` statements in its body only leave the `switch`. -/
def attempts (outcomes : Outcomes) (i : Nat) (rw : Option IoObject)
    (s : SocketOutputPipeline) : Option (Option IoObject × SocketOutputPipeline) :=
  [0, 1].foldlM (fun state j => state.2.attempt outcomes i j state.1) (rw, s)

/-- The outer loop: its body ends with `break`. -/
def sendToReplicas (outcomes : Outcomes) (rw : Option IoObject) (s : SocketOutputPipeline) :
    List Nat → Option (Option IoObject × SocketOutputPipeline)
  | [] => some (rw, s)
  | i :: _ => s.attempts outcomes i rw

def disposeObject (s : SocketOutputPipeline) (rw : IoObject) : SocketOutputPipeline :=
  s.record (.dispose rw.id)

def disposeLeft (s : SocketOutputPipeline) : Option IoObject → SocketOutputPipeline
  | some rw => s.disposeObject rw
  | none => s

def isDeferring (s : SocketOutputPipeline) : Bool :=
  s.persistent && 0 < s.numConnections

def processInputQueueObject (outcomes : Outcomes) (rw : IoObject) (s : SocketOutputPipeline) :
    Option SocketOutputPipeline :=
  if s.isDeferring then
    match s.deferred.put rw with
    | (true, deferred) => some { s with deferred := deferred }
    | (false, deferred) =>
      some ({ s with deferred := deferred }.record (.logError "could not defer writing [Q]"))
  else do
    let (left, s) ← (s.record (.start rw.command)).sendToReplicas outcomes (some rw)
      (List.range s.sockets.length)
    return s.disposeLeft left

/-! ## Events -/

/-- Whether a transfer goes on, or it is over and its socket is to be closed or not. -/
inductive TransferStatus where
  | unfinished
  | response
  | finished (closeConnection : Bool)
deriving DecidableEq, Repr

/-- The first half of `process_object_event()`; `io` is the result of `read()` or `write()`. -/
def transferStatus (persistent : Bool) (flags : EventFlags) (io : IoOutcome) : TransferStatus :=
  if flags.error then .finished true
  else if flags.hup && !flags.read then .finished true
  else if flags.read then
    match io with
    | .ok => .finished !(persistent && !flags.hup)
    | .retry => .unfinished
    | .error => .finished true
  else
    match io with
    | .ok => .response
    | .retry => .unfinished
    | .error => .finished true

/-- The transfer is over, and the next command has not been looked for yet. -/
def endTransfer (s : SocketOutputPipeline) (rw : IoObject) (closeConnection : Bool) :
    SocketOutputPipeline :=
  let s := { s with
    numConnections := uintSub s.numConnections 1
    descriptors := s.descriptors.unwatch rw.fd }
  let s := if closeConnection then s.closeConnectionSocketByFd rw.fd else s
  s.disposeObject rw

def processDeferred (outcomes : Outcomes) (s : SocketOutputPipeline) :
    Option SocketOutputPipeline :=
  match s.deferred.get with
  | (some rw, deferred) => { s with deferred := deferred }.processInputQueueObject outcomes rw
  | (none, deferred) => some { s with deferred := deferred }

def processObjectEvent (outcomes : Outcomes) (flags : EventFlags) (io : IoOutcome)
    (rw : IoObject) (s : SocketOutputPipeline) : Option SocketOutputPipeline :=
  match transferStatus s.persistent flags io with
  | .unfinished => some s
  | .response =>
    let (reader, s) := s.newReader rw.command rw.fd
    let s := { s with descriptors := s.descriptors.replaceWatched rw.fd reader }
    some (s.disposeObject rw)
  | .finished closeConnection => (s.endTransfer rw closeConnection).processDeferred outcomes

def processPersistentConnectionsChange (s : SocketOutputPipeline) (persistent : Bool) :
    SocketOutputPipeline :=
  let s := { s with persistent := persistent }
  if persistent then s else s.closeConnectionSockets

inductive OutputInput where
  | command (outcomes : Outcomes)
  | setPersistent (persistent : Bool)
  /-- `epoll_wait()` returns some of the watched objects. -/
  | waitForEvents (batch : List IoObject)
  | object (flags : EventFlags) (io : IoOutcome) (outcomes : Outcomes)

def step (s : SocketOutputPipeline) : OutputInput → Option SocketOutputPipeline
  | .command outcomes =>
    let rw : IoObject := ⟨s.nextId, s.arrived, false, 0⟩
    { s with arrived := s.arrived + 1, nextId := s.nextId + 1 }.processInputQueueObject outcomes rw
  | .setPersistent persistent => some (s.processPersistentConnectionsChange persistent)
  | .waitForEvents batch =>
    if s.events = [] ∧ batch.Nodup ∧ batch ⊆ s.descriptors.watched.map Prod.snd then
      some { s with events := batch }
    else none
  | .object flags io outcomes =>
    match s.events with
    | rw :: events => { s with events := events }.processObjectEvent outcomes flags io rw
    | [] => none

def defaultQueueCapacity : Nat := 16

def maxQueueCapacity : Nat := 1024

/-- A pipeline with `n` replicas before the first command; connections are persistent by default. -/
def create (n : Nat) (persistent : Bool) : SocketOutputPipeline where
  persistent := persistent
  numConnections := 0
  sockets := List.replicate n none
  deferred := .create defaultQueueCapacity maxQueueCapacity
  descriptors := .empty
  events := []
  arrived := 0
  nextId := 0
  log := []

end SocketOutputPipeline

end CyberCache
