import CyberCache.Store.TableRuns

/-!
# Payload stores, their optimizers and the tag manager

A store of sessions or pages keeps its objects in hash tables. Objects go through several hands: the
optimizer links them into its chains, the tag manager links pages with their tags, and both learn
about objects through messages. An object that is to be deleted is flagged `HOF_BEING_DELETED`
first. When everybody has unlinked it, `post_unlink_message()` flags it `HOF_DELETED` and puts it
into a queue, from which a table takes it when it has an exclusive lock.

Commands are executed one after the other; the optimizer and the tag manager take any message from
their queues. Which objects are purged, have expired, match a list of tags or are still being read
is given. Objects are known by numbers that are not used again, and whoever uses an object that was
disposed has no result.
-/

namespace CyberCache

open Function (update)

inductive Domain where
  | session
  | page
deriving DecidableEq, Repr

structure StoreConfiguration where
  domain : Domain
  numTables : Nat
  store : Store
  /-- The initial capacity of a table divided by the fill factor. -/
  wanted : UInt32
  disposeIfResized : Nat
  disposeIfNotResized : Nat

def singleTable (domain : Domain) : StoreConfiguration :=
  ⟨domain, 1, ⟨0, fun n => n / 2⟩, 0, 4, 64⟩

def StoreConfiguration.getTableIndex (config : StoreConfiguration) (hash : UInt64) : Nat :=
  hash.toNat % uintRange &&& (config.numTables - 1)

theorem StoreConfiguration.getTableIndex_lt (config : StoreConfiguration) (h : 0 < config.numTables)
    (hash : UInt64) : config.getTableIndex hash < config.numTables :=
  Nat.and_le_right.trans_lt (Nat.sub_one_lt_of_lt h)

@[ext]
structure ObjectFlags where
  beingDeleted : Bool
  linkedByOptimizer : Bool
  linkedByTM : Bool
  deleted : Bool
deriving DecidableEq, Repr

inductive OptimizerMessage where
  | write (o : Nat)
  | read (o : Nat)
  | delete (o : Nat) (retries : Nat)
  /-- `OR_GC` or `OR_FREE_MEMORY`. -/
  | purge
deriving DecidableEq, Repr

def OptimizerMessage.object? : OptimizerMessage → Option Nat
  | .write o | .read o | .delete o _ => some o
  | .purge => none

def maxNumRetries : Nat := 256

inductive TagMessage where
  | save (o : Nat)
  | remove (o : Nat)
  | unlinkObject (o : Nat)
  | clean
  /-- The mode `CM_OLD`. -/
  | cleanOld
deriving DecidableEq, Repr

def TagMessage.object? : TagMessage → Option Nat
  | .save o | .remove o | .unlinkObject o => some o
  | .clean | .cleanOld => none

structure PayloadStore where
  tables : Nat → HashTable Nat
  queues : Nat → List Nat
  numObjects : Nat
  keys : Nat → HashObject
  payloads : Nat → Nat
  flags : Nat → ObjectFlags
  disposed : Nat → Bool
  optimizerQueue : List OptimizerMessage
  tagQueue : List TagMessage
  /-- All objects for which `post_unlink_message()` was called; not part of the program. -/
  posted : List Nat

namespace PayloadStore

def create (config : StoreConfiguration) : PayloadStore where
  tables := fun _ => .create config.wanted
  queues := fun _ => []
  numObjects := 0
  keys := fun _ => ⟨0, []⟩
  payloads := fun _ => 0
  flags := fun _ => ⟨false, false, false, false⟩
  disposed := fun _ => false
  optimizerQueue := []
  tagQueue := []
  posted := []

/-! ## Single objects -/

@[simps]
def setFlags (s : PayloadStore) (o : Nat) (flags : ObjectFlags) : PayloadStore :=
  { s with flags := update s.flags o flags }

@[simps]
def postOptimizer (s : PayloadStore) (m : OptimizerMessage) : PayloadStore :=
  { s with optimizerQueue := s.optimizerQueue ++ [m] }

@[simps]
def postTagManager (s : PayloadStore) (m : TagMessage) : PayloadStore :=
  { s with tagQueue := s.tagQueue ++ [m] }

@[simps]
def takeOptimizer (s : PayloadStore) (m : OptimizerMessage) : PayloadStore :=
  { s with optimizerQueue := s.optimizerQueue.erase m }

@[simps]
def takeTagManager (s : PayloadStore) (m : TagMessage) : PayloadStore :=
  { s with tagQueue := s.tagQueue.erase m }

def flagBeingDeleted (s : PayloadStore) (o : Nat) : PayloadStore :=
  s.setFlags o { s.flags o with beingDeleted := true }

def linkByOptimizer (s : PayloadStore) (o : Nat) : PayloadStore :=
  s.setFlags o { s.flags o with linkedByOptimizer := true }

def unlinkByOptimizer (s : PayloadStore) (o : Nat) : PayloadStore :=
  s.setFlags o { s.flags o with linkedByOptimizer := false }

def linkTags (s : PayloadStore) (o : Nat) : PayloadStore :=
  s.setFlags o { s.flags o with linkedByTM := true }

def unlinkTags (s : PayloadStore) (o : Nat) : PayloadStore :=
  s.setFlags o { s.flags o with linkedByTM := false }

def isAlive (s : PayloadStore) (o : Nat) : Bool := !(s.flags o).beingDeleted

variable (config : StoreConfiguration)

def tableOf (s : PayloadStore) (o : Nat) : Nat := config.getTableIndex (s.keys o).hash

def postUnlinkMessage (s : PayloadStore) (o : Nat) : PayloadStore :=
  let s := s.setFlags o { s.flags o with deleted := true }
  let index := s.tableOf config o
  { s with
    queues := update s.queues index (s.queues index ++ [o])
    posted := s.posted ++ [o] }

/-- The store tells those who have links to an object that it is to be deleted. -/
def postDelete (s : PayloadStore) (o : Nat) : PayloadStore :=
  match config.domain with
  | .session => s.postOptimizer (.delete o 0)
  | .page => s.postTagManager (.remove o)

def postWrite (s : PayloadStore) (o : Nat) : PayloadStore :=
  match config.domain with
  | .session => s.postOptimizer (.write o)
  | .page => s.postTagManager (.save o)

/-! ## Tables -/

def disposeObject (s : PayloadStore) (index o : Nat) : PayloadStore :=
  { s with
    tables := update s.tables index ((s.tables index).remove config.store s.keys o)
    disposed := update s.disposed o true }

/-- `dispose_deleted_objects()`; `hasReaders num o` says whether `o` is being read when `num` more
objects are to be looked at. -/
def disposeDeletedObjects (index : Nat) (hasReaders : Nat → Nat → Bool) :
    Nat → PayloadStore → PayloadStore
  | 0, s => s
  | num + 1, s =>
    match s.queues index with
    | [] => s
    | o :: queue =>
      if hasReaders num o then
        -- disposal is deferred
        disposeDeletedObjects index hasReaders num
          { s with queues := update s.queues index (queue ++ [o]) }
      else
        disposeDeletedObjects index hasReaders num
          ({ s with queues := update s.queues index queue }.disposeObject config index o)

def find (s : PayloadStore) (key : HashObject) : Option (Option Nat) :=
  (s.tables (config.getTableIndex key.hash)).find config.store s.keys key.hash key.name

def findAlive (s : PayloadStore) (key : HashObject) : Option (Option Nat) :=
  (s.find config key).map (·.filter s.isAlive)

def allocate (s : PayloadStore) (key : HashObject) (payload : Nat) : PayloadStore :=
  { s with
    numObjects := s.numObjects + 1
    keys := update s.keys s.numObjects key
    payloads := update s.payloads s.numObjects payload }

/-- Add a new object and dispose deleted ones, all of it under an exclusive lock. -/
def addObject (s : PayloadStore) (key : HashObject) (payload : Nat)
    (hasReaders : Nat → Nat → Bool) : Option PayloadStore := do
  let o := s.numObjects
  let s := s.allocate key payload
  let index := config.getTableIndex key.hash
  let (resized, table) ← (s.tables index).add config.store s.keys o
  let num := if resized then config.disposeIfResized else config.disposeIfNotResized
  return disposeDeletedObjects config index hasReaders num
    { s with tables := update s.tables index table }

/-! ## Commands -/

/-- `WRITE` or `SAVE`. -/
def processWriteCommand (s : PayloadStore) (key : HashObject) (payload : Nat)
    (hasReaders : Nat → Nat → Bool) : Option PayloadStore := do
  match ← s.findAlive config key with
  | some o =>
    return { s with payloads := update s.payloads o payload }.postWrite config o
  | none =>
    let s' ← s.addObject config key payload hasReaders
    return s'.postWrite config s.numObjects

/-- What `READ` or `LOAD` responds with; `some none` is a miss. -/
def readResponse (s : PayloadStore) (key : HashObject) : Option (Option Nat) :=
  (s.findAlive config key).map (·.map s.payloads)

/-- `READ` or `LOAD`; only sessions are checked for their expiration. -/
def processReadCommand (s : PayloadStore) (key : HashObject) (expired : Bool) :
    Option PayloadStore := do
  match ← s.findAlive config key with
  | some o =>
    if config.domain = .session ∧ expired then return (s.flagBeingDeleted o).postDelete config o
    else return s.postOptimizer (.read o)
  | none => return s

def processDestroyCommand (s : PayloadStore) (key : HashObject) : Option PayloadStore := do
  match ← s.findAlive config key with
  | some o => return (s.flagBeingDeleted o).postDelete config o
  | none => return s

/-! ## The optimizer -/

def onDelete (s : PayloadStore) (o : Nat) : PayloadStore :=
  match config.domain with
  | .session => s.postUnlinkMessage config o
  | .page => s.postTagManager (.unlinkObject o)

/-- The retained count of the user agent is left out: any linked object may be chosen, as with
`perf_session_opt_retain_counts 0`. -/
def purgeObject (s : PayloadStore) (o : Nat) : Option PayloadStore :=
  if (s.flags o).linkedByOptimizer ∧ s.isAlive o ∧ s.disposed o = false then
    some (((s.flagBeingDeleted o).unlinkByOptimizer o).onDelete config o)
  else none

/-- Garbage collection, a request for memory or a scheduled run delete some linked objects. -/
def purge (s : PayloadStore) (chosen : List Nat) : Option PayloadStore :=
  chosen.foldlM (purgeObject config) s

/-- Whether a linked object is alive or not, it is linked afterwards. -/
def processWriteMessage (s : PayloadStore) (o : Nat) : PayloadStore := s.linkByOptimizer o

def processDeleteMessage (s : PayloadStore) (o retries : Nat) : PayloadStore :=
  if (s.flags o).linkedByOptimizer then (s.unlinkByOptimizer o).postUnlinkMessage config o
  else if retries + 1 < maxNumRetries then s.postOptimizer (.delete o (retries + 1))
  else s

def processOptimizerMessage (s : PayloadStore) (chosen : List Nat) :
    OptimizerMessage → Option PayloadStore
  | .write o => some (s.processWriteMessage o)
  | .read _ => some s
  | .delete o retries => some (s.processDeleteMessage config o retries)
  | .purge => s.purge config chosen

/-! ## The tag manager -/

def processSaveMessage (s : PayloadStore) (o : Nat) : PayloadStore :=
  if (s.flags o).linkedByTM ∨ s.isAlive o then (s.linkTags o).postOptimizer (.write o) else s

def processRemoveMessage (s : PayloadStore) (o : Nat) : PayloadStore :=
  if (s.flags o).linkedByTM then (s.unlinkTags o).postOptimizer (.delete o 0) else s

def unlinkObject (s : PayloadStore) (o : Nat) : PayloadStore :=
  (s.unlinkTags o).postUnlinkMessage config o

def cleanObject (s : PayloadStore) (o : Nat) : Option PayloadStore :=
  if (s.flags o).linkedByTM ∧ s.isAlive o ∧ s.disposed o = false then
    some (((s.flagBeingDeleted o).unlinkTags o).postOptimizer (.delete o 0))
  else none

def processTagMessage (s : PayloadStore) (chosen : List Nat) : TagMessage → Option PayloadStore
  | .save o => some (s.processSaveMessage o)
  | .remove o => some (s.processRemoveMessage o)
  | .unlinkObject o => some (s.unlinkObject config o)
  | .clean => chosen.foldlM cleanObject s
  | .cleanOld => some (s.postOptimizer .purge)

/-! ## Steps -/

inductive StoreAction where
  | write (key : HashObject) (payload : Nat) (hasReaders : Nat → Nat → Bool)
  | read (key : HashObject) (expired : Bool)
  | destroy (key : HashObject)
  | clean
  /-- The command `GC`, or `CLEAN` with the mode `CM_OLD`. -/
  | gc
  | freeMemory
  /-- A scheduled run, or the deallocation of memory for the optimizer itself. -/
  | run (chosen : List Nat)
  | optimizer (m : OptimizerMessage) (chosen : List Nat)
  | tagManager (m : TagMessage) (chosen : List Nat)

def isUsable (s : PayloadStore) : Option Nat → Bool
  | some o => !s.disposed o
  | none => true

def step (s : PayloadStore) : StoreAction → Option PayloadStore
  | .write key payload hasReaders => s.processWriteCommand config key payload hasReaders
  | .read key expired => s.processReadCommand config key expired
  | .destroy key => s.processDestroyCommand config key
  | .clean => if config.domain = .page then some (s.postTagManager .clean) else none
  | .gc =>
    match config.domain with
    | .session => some (s.postOptimizer .purge)
    | .page => some (s.postTagManager .cleanOld)
  | .freeMemory => some (s.postOptimizer .purge)
  | .run chosen => s.purge config chosen
  | .optimizer m chosen =>
    if m ∈ s.optimizerQueue ∧ s.isUsable m.object? then
      (s.takeOptimizer m).processOptimizerMessage config chosen m
    else none
  | .tagManager m chosen =>
    if m ∈ s.tagQueue ∧ s.isUsable m.object? then
      (s.takeTagManager m).processTagMessage config chosen m
    else none

end PayloadStore

end CyberCache
