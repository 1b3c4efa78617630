import CyberCache.Pipeline.Descriptors

/-!
# Inbound connections

A `SocketInputPipeline` accepts connections, reads commands from them, hands the commands to worker
threads through its output queue and gets their responses through its input queue. A connection is
represented by a command reader, then by a command that a worker thread has, then by a response
writer, and with persistent connections by a connection object that waits for the next command.

What the system and the worker threads do is given.
-/

namespace CyberCache

/-- What is watched: a `ReaderWriter` or a `PipelineConnectionEvent`. -/
inductive Endpoint where
  | object (isReader : Bool)
  | connection
deriving DecidableEq, Repr

def Endpoint.isObject : Endpoint → Bool
  | .object _ => true
  | .connection => false

inductive InputMessage where
  | persistentConnections (on : Bool)
  /-- A response writer that may have written everything already. -/
  | response (fd : Nat) (completed : Bool)
deriving DecidableEq, Repr

def InputMessage.fd? : InputMessage → Option Nat
  | .persistentConnections _ => none
  | .response fd _ => some fd

structure SocketInputPipeline where
  persistent : Bool
  numConnections : Nat
  descriptors : Descriptors Endpoint
  /-- Events that `epoll_wait()` has returned and that have not been processed yet. -/
  events : List (Nat × Endpoint)
  /-- The sockets of the commands in the output queue and of those that worker threads have. -/
  commands : List Nat
  inputQueue : List InputMessage
  underflow : Bool

namespace SocketInputPipeline

/-- Descriptors are of type `int`. -/
def maxFd : Nat := 2 ^ 31

def closeConnection (s : SocketInputPipeline) (fd : Nat) : SocketInputPipeline :=
  { s with
    numConnections := uintSub s.numConnections 1
    underflow := s.underflow || s.numConnections == 0
    descriptors := s.descriptors.closeSocket fd }

@[simps]
def unwatch (s : SocketInputPipeline) (fd : Nat) : SocketInputPipeline :=
  { s with descriptors := s.descriptors.unwatch fd }

@[simps]
def watch (s : SocketInputPipeline) (fd : Nat) (endpoint : Endpoint) : SocketInputPipeline :=
  { s with descriptors := s.descriptors.watch fd endpoint }

@[simps]
def replaceWatched (s : SocketInputPipeline) (fd : Nat) (endpoint : Endpoint) :
    SocketInputPipeline :=
  { s with descriptors := s.descriptors.replaceWatched fd endpoint }

@[simps]
def sendOutputObject (s : SocketInputPipeline) (fd : Nat) : SocketInputPipeline :=
  { s with commands := s.commands ++ [fd] }

/-- `io` is the result of `write()` if the response has not been written completely. -/
def processInputQueueObject (s : SocketInputPipeline) (fd : Nat) (completed : Bool)
    (io : IoOutcome) : SocketInputPipeline :=
  match if completed then .ok else io with
  | .ok => if s.persistent then s.watch fd .connection else s.closeConnection fd
  | .retry => s.watch fd (.object false)
  | .error => s.closeConnection fd

def processQueueEvent (s : SocketInputPipeline) (io : IoOutcome) :
    InputMessage → SocketInputPipeline
  | .persistentConnections on => { s with persistent := on }
  | .response fd completed => s.processInputQueueObject fd completed io

def acceptConnection (s : SocketInputPipeline) (fd : Nat) : Option SocketInputPipeline :=
  if 0 < fd ∧ fd < maxFd ∧ fd ∉ s.descriptors.opened then
    let s := { s with descriptors := s.descriptors.openSocket fd }
    let s := s.watch fd (.object true)
    some { s with numConnections := uintAdd s.numConnections 1 }
  else none

/-- The loop ends when `accept()` has no more connections or fails. -/
def processSocketEvent (s : SocketInputPipeline) (flags : EventFlags) (isActive : Bool)
    (accepted : List Nat) : Option SocketInputPipeline :=
  if flags.error || flags.hup then some s
  else if isActive then accepted.foldlM acceptConnection s
  else some s

def disposeWatched (s : SocketInputPipeline) (fd : Nat) : SocketInputPipeline :=
  (s.unwatch fd).closeConnection fd

/-- `io` is the result of `read()` or `write()`. -/
def processObjectEvent (s : SocketInputPipeline) (flags : EventFlags) (io : IoOutcome) (fd : Nat) :
    SocketInputPipeline :=
  if flags.error then s.disposeWatched fd
  else if flags.hup && !flags.read then s.disposeWatched fd
  else if flags.read then
    match io with
    | .ok => (s.unwatch fd).sendOutputObject fd
    | .retry => s
    | .error => s.disposeWatched fd
  else
    match io with
    | .ok => if s.persistent then s.replaceWatched fd .connection else s.disposeWatched fd
    | .retry => s
    | .error => s.disposeWatched fd

def processConnectionEvent (s : SocketInputPipeline) (flags : EventFlags) (io : IoOutcome)
    (fd : Nat) : SocketInputPipeline :=
  if flags.error then s.disposeWatched fd
  else if flags.hup && !flags.read then s.disposeWatched fd
  else if flags.read then
    match io with
    | .ok => (s.unwatch fd).sendOutputObject fd
    | .retry => s.replaceWatched fd (.object true)
    | .error => s.disposeWatched fd
  -- events of this kind are not expected
  else s.disposeWatched fd

def processEvent (s : SocketInputPipeline) (flags : EventFlags) (io : IoOutcome) :
    Nat × Endpoint → SocketInputPipeline
  | (fd, .object _) => s.processObjectEvent flags io fd
  | (fd, .connection) => s.processConnectionEvent flags io fd

inductive InputAction where
  | socket (flags : EventFlags) (isActive : Bool) (accepted : List Nat)
  /-- `epoll_wait()` returns some of the watched objects. -/
  | waitForEvents (batch : List (Nat × Endpoint))
  | event (flags : EventFlags) (io : IoOutcome)
  | message (io : IoOutcome)
  | switch (persistent : Bool)
  /-- A worker thread returns the response to a command. -/
  | respond (fd : Nat) (completed : Bool)

def step (s : SocketInputPipeline) : InputAction → Option SocketInputPipeline
  | .socket flags isActive accepted => s.processSocketEvent flags isActive accepted
  | .waitForEvents batch =>
    if s.events = [] ∧ batch.Nodup ∧ batch ⊆ s.descriptors.watched then
      some { s with events := batch }
    else none
  | .event flags io =>
    match s.events with
    | event :: events => some ({ s with events := events }.processEvent flags io event)
    | [] => none
  | .message io =>
    match s.inputQueue with
    | message :: inputQueue => some ({ s with inputQueue := inputQueue }.processQueueEvent
        io message)
    | [] => none
  | .switch persistent =>
    some { s with inputQueue := s.inputQueue ++ [.persistentConnections persistent] }
  | .respond fd completed =>
    if fd ∈ s.commands then
      some { s with
        commands := s.commands.erase fd
        inputQueue := s.inputQueue ++ [.response fd completed] }
    else none

def create (persistent : Bool) : SocketInputPipeline where
  persistent := persistent
  numConnections := 0
  descriptors := .empty
  events := []
  commands := []
  inputQueue := []
  underflow := false

end SocketInputPipeline

end CyberCache
