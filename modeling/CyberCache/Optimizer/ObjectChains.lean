import CyberCache.Lib.LinkedChain
import CyberCache.Lib.Runs
import CyberCache.Store.PayloadStore

/-!
# The chains of an optimizer

An optimizer keeps the objects of its store in one doubly linked chain for each kind of user agent.
An object that is used goes to the end of its chain, and garbage collection starts with the first
ones.

Two kinds of iterators walk through the chains. The optimizer's own one remembers, from one
scheduled run to the next, which object is to be looked at; every other one lives as long as a pass
that evicts objects. Such a pass can be started while another one is under way: whenever the
optimizer needs memory and there is none, it evicts objects right away. What an optimizer has yet to
do is therefore a stack.

Other threads flag objects as being deleted, lock and read them all the time. Whether an object is
locked or read, has expired or is worth compressing, and whether there is enough memory, is given.
-/

namespace CyberCache

/-- `UA_NUMBER_OF_ELEMENTS`; also the user agent of an object that was handed to its store. -/
def numUserAgents : Nat := 4

instance : NeZero numUserAgents := ⟨by decide⟩

structure ObjectChain (Object : Type) where
  first : Option Object
  last : Option Object
  /-- The number of objects, in 32 bits. -/
  num : Nat
  minNum : Nat

namespace ObjectChain

variable {Object : Type} [DecidableEq Object]

def link (chain : ObjectChain Object) (links : Links Object) (x : Object) :
    ObjectChain Object × Links Object :=
  ({ chain with
      first := if chain.last = none then some x else chain.first
      last := some x
      num := uintAdd chain.num 1 },
    links.pushBack chain.last x)

def promote (chain : ObjectChain Object) (links : Links Object) (x : Object) :
    ObjectChain Object × Links Object :=
  if chain.last = some x then (chain, links)
  else
    let (links, first) := links.unlink chain.first x
    ({ chain with first := first, last := some x }, links.pushBack chain.last x)

def unlink (chain : ObjectChain Object) (links : Links Object) (x : Object) :
    ObjectChain Object × Links Object :=
  let prev := links.prev x
  let next := links.next x
  let (links, first) := links.unlink chain.first x
  ({ chain with
      first := first
      last := if next = none then prev else chain.last
      num := uintSub chain.num 1 },
    (links.setPrev x none).setNext x none)

end ObjectChain

inductive PassKind where
  /-- The message `OR_GC`. -/
  | gc
  /-- The first pass of a scheduled run. -/
  | run
  /-- The message `OR_FREE_MEMORY`, or the optimizer needs memory itself. -/
  | memory
deriving DecidableEq, Repr

inductive Activity (Object : Type) where
  /-- Look for another object to evict, beginning with `next`. -/
  | advancing (mode : PassKind) (next deleted : Option Object)
  /-- Report objects that were evicted to free memory; they are linked with each other. -/
  | reporting (deleted : Option Object)
  /-- Put an object into a queue, for which memory may be needed. -/
  | posting
  /-- Look for objects to compress. -/
  | checking
  | recompressing
deriving DecidableEq, Repr

/-- An eviction pass has found an object and has not yet locked it. -/
structure Visit (Object : Type) where
  mode : PassKind
  next : Option Object
  object : Object
  deleted : Option Object

structure Optimizer (Object : Type) where
  /-- `pho_opt_prev` and `pho_opt_next`. -/
  links : Links Object
  userAgent : Object → Nat
  /-- Objects with `HOF_LINKED_BY_OPTIMIZER`. -/
  linked : Finset Object
  /-- Objects with `HOF_BEING_DELETED`. -/
  beingDeleted : Finset Object
  chains : Nat → ObjectChain Object
  /-- The number of linked objects, in 32 bits. -/
  totalNumObjects : Nat
  /-- The next object of the optimizer's own iterator. -/
  iterator : Option Object
  visit : Option (Visit Object)
  pending : List (Activity Object)

namespace Optimizer

variable {Object : Type} [DecidableEq Object]

def start : Optimizer Object where
  links := ⟨fun _ => none, fun _ => none⟩
  userAgent := fun _ => numUserAgents
  linked := ∅
  beingDeleted := ∅
  chains := fun _ => ⟨none, none, 0, 1⟩
  totalNumObjects := 0
  iterator := none
  visit := none
  pending := []

/-! ## Chains -/

def setUserAgent (s : Optimizer Object) (o : Object) (ua : Nat) : Optimizer Object :=
  { s with userAgent := Function.update s.userAgent o ua }

def link (s : Optimizer Object) (ua : Nat) (o : Object) : Optimizer Object :=
  let (chain, links) := (s.chains ua).link s.links o
  { s with chains := Function.update s.chains ua chain, links, linked := insert o s.linked }

def promote (s : Optimizer Object) (ua : Nat) (o : Object) : Optimizer Object :=
  let (chain, links) := (s.chains ua).promote s.links o
  { s with chains := Function.update s.chains ua chain, links }

def unlink (s : Optimizer Object) (ua : Nat) (o : Object) : Optimizer Object :=
  let (chain, links) := (s.chains ua).unlink s.links o
  { s with chains := Function.update s.chains ua chain, links, linked := s.linked.erase o }

/-! ## Iterators -/

def firstOf (s : Optimizer Object) (uas : List Nat) : Option Object :=
  uas.findSome? fun ua => (s.chains ua).first

def userAgentsFrom (ua : Nat) : List Nat := List.range' ua (numUserAgents - ua)

def nextOf (s : Optimizer Object) : Option Object → Option Object
  | none => none
  | some o =>
    match s.links.next o with
    | some n => some n
    | none => s.firstOf (userAgentsFrom (s.userAgent o + 1))

/-- The first object, from this one to the end of its chain, that can be evicted. -/
def findEvictable (s : Optimizer Object) (busy : Object → Bool) : Nat → Option Object →
    Option Object
  | 0, _ | _, none => none
  | fuel + 1, some o =>
    if o ∉ s.beingDeleted ∧ ¬busy o then some o else s.findEvictable busy fuel (s.links.next o)

def searchChains (s : Optimizer Object) (busy : Object → Bool) :
    List Nat → Option Object → Option Object
  | [], _ => none
  | ua :: uas, o =>
    let chain := s.chains ua
    if chain.minNum < chain.num then
      match s.findEvictable busy s.linked.card (o.or chain.first) with
      | some found => some found
      | none => s.searchChains busy uas none
    else s.searchChains busy uas none

def getGcObject (s : Optimizer Object) (busy : Object → Bool) : Option Object → Option Object
  | none => none
  | some o => s.searchChains busy (userAgentsFrom (s.userAgent o)) (some o)

/-- The object that is returned, and the next object of the iterator. -/
def getFirstGcObject (s : Optimizer Object) (busy : Object → Bool) :
    Option Object × Option Object :=
  let first := s.firstOf (userAgentsFrom 0)
  let firstGc := s.getGcObject busy first
  (firstGc, if firstGc ≠ first then s.nextOf firstGc else s.nextOf first)

def getNextGcObject (s : Optimizer Object) (busy : Object → Bool) (next : Option Object) :
    Option Object × Option Object :=
  let nextGc := s.getGcObject busy next
  (nextGc, if nextGc ≠ next then s.nextOf nextGc else s.nextOf next)

/-- `exclude_object()` of the optimizer's own iterator. -/
def exclude (s : Optimizer Object) (o : Object) : Optimizer Object :=
  if s.iterator = some o then { s with iterator := s.nextOf s.iterator } else s

def remove (s : Optimizer Object) (o : Object) : Optimizer Object :=
  { (s.exclude o).unlink (s.userAgent o) o with totalNumObjects := uintSub s.totalNumObjects 1 }

/-! ## Messages about an object -/

def add (s : Optimizer Object) (o : Object) (ua : Nat) : Optimizer Object :=
  { (s.setUserAgent o ua).link ua o with totalNumObjects := uintAdd s.totalNumObjects 1 }

/-- A linked object goes to the end of its chain, or to that of a better user agent. -/
def access (s : Optimizer Object) (o : Object) (ua : Nat) : Optimizer Object :=
  let currentUa := s.userAgent o
  if currentUa < ua then
    (((s.exclude o).setUserAgent o ua).unlink currentUa o).link ua o
  else (s.exclude o).promote currentUa o

def processWriteMessage (s : Optimizer Object) (o : Object) (ua : Nat) : Optimizer Object :=
  if o ∉ s.beingDeleted then
    if o ∉ s.linked then s.add o ua else s.access o ua
  else if o ∉ s.linked then s.add o ua
  else s

def processReadMessage (s : Optimizer Object) (o : Object) (ua : Nat) : Optimizer Object :=
  if o ∉ s.beingDeleted then
    if o ∈ s.linked then s.access o ua else s
  else s

def processFpcTouchMessage (s : Optimizer Object) (o : Object) : Optimizer Object :=
  if o ∉ s.beingDeleted then
    if o ∈ s.linked then (s.exclude o).promote (s.userAgent o) o else s
  else s

def postUnlinkMessage (s : Optimizer Object) (o : Object) : Optimizer Object :=
  s.setUserAgent o numUserAgents

def processDeleteMessage (s : Optimizer Object) (o : Object) (retries : Nat) : Optimizer Object :=
  if o ∈ s.linked then { (s.remove o).postUnlinkMessage o with pending := [.posting] }
  else if retries + 1 < maxNumRetries then { s with pending := [.posting] }
  else s

/-! ## Evicting objects -/

def endPass (s : Optimizer Object) (mode : PassKind) (deleted : Option Object) :
    Optimizer Object :=
  match mode with
  | .memory => { s with pending := .reporting deleted :: s.pending }
  | .gc | .run => s

def continuePass (s : Optimizer Object) (mode : PassKind) (deleted : Option Object) :
    Option Object × Option Object → Optimizer Object
  | (some o, next) => { s with visit := some ⟨mode, next, o, deleted⟩ }
  | (none, _) => s.endPass mode deleted

def startPass (s : Optimizer Object) (mode : PassKind) (busy : Object → Bool) :
    Optimizer Object :=
  s.continuePass mode none (s.getFirstGcObject busy)

/-- Objects are evicted if there is not enough memory, and then objects are compressed. -/
def startRun (s : Optimizer Object) (aboveQuota : Bool) (busy : Object → Bool) : Optimizer Object :=
  let s := { s with pending := [.checking] }
  if aboveQuota then s.startPass .run busy else s

variable (domain : Domain)

/-- `on_delete()`: sessions go to their store, pages to the tag manager. -/
def onDelete (s : Optimizer Object) (o : Object) : Optimizer Object :=
  match domain with
  | .session => s.postUnlinkMessage o
  | .page => s

def visitObject (s : Optimizer Object) (v : Visit Object) (evict : Bool) : Optimizer Object :=
  let s := { s with visit := none }
  if evict ∧ v.object ∉ s.beingDeleted then
    let s := { s with beingDeleted := insert v.object s.beingDeleted }.remove v.object
    match v.mode with
    | .memory =>
      { s with
        links := s.links.setNext v.object v.deleted
        pending := .advancing .memory v.next (some v.object) :: s.pending }
    | .gc | .run =>
      { s.onDelete domain v.object with
        pending := .posting :: .advancing v.mode v.next v.deleted :: s.pending }
  else { s with pending := .advancing v.mode v.next v.deleted :: s.pending }

def report (s : Optimizer Object) (o : Object) : Optimizer Object :=
  let next := s.links.next o
  { { s with links := s.links.setNext o none }.onDelete domain o with
    pending := .posting :: .reporting next :: s.pending }

def prepareNextObject (s : Optimizer Object) : Optimizer Object :=
  { s with iterator := s.firstOf (userAgentsFrom 0) }

/-- The optimizer's iterator goes on, and starts again behind the last object. -/
def nextToCheck (s : Optimizer Object) : Optimizer Object :=
  match s.iterator with
  | some o => { s with iterator := s.nextOf (some o) }
  | none => { s with iterator := s.nextOf (s.firstOf (userAgentsFrom 0)) }

/-! ## Steps -/

inductive Action (Object : Type) where
  | write (o : Object) (ua : Fin numUserAgents)
  | read (o : Object) (ua : Fin numUserAgents)
  | touch (o : Object)
  | delete (o : Object) (retries : Nat)
  | gc (strictLru : Bool) (busy : Object → Bool)
  | freeMemory (busy : Object → Bool)
  /-- The message `OR_CONFIG_RETAIN_COUNTS`. -/
  | retainCounts (counts : Nat → Nat)
  | configure
  | run (first aboveQuota : Bool) (busy : Object → Bool)
  /-- Lock the object that was found, and evict it if that is possible. -/
  | visit (evict : Bool)
  /-- Find another object; a pass may also stop when there is enough memory. -/
  | advance (stop : Bool) (busy : Object → Bool)
  | report
  /-- Look at another object, and compress it if that is worthwhile. -/
  | check (recompress : Bool)
  /-- A message was put, an object was compressed, or all objects were checked. -/
  | finish
  /-- There was no memory for the queue or the buffers. -/
  | needMemory (busy : Object → Bool)
  /-- Another thread flags an object as being deleted. -/
  | flagBeingDeleted (o : Object)
  /-- Somebody else hands an object that is not linked to its store. -/
  | release (o : Object)

def isIdle (s : Optimizer Object) : Bool := s.visit.isNone && s.pending.isEmpty

/-- An action that another thread does, or that continues what was begun. -/
def proceed (s : Optimizer Object) : Action Object → Option (Optimizer Object)
  | .visit evict => s.visit.map fun v => s.visitObject domain v evict
  | .advance stop busy =>
    match s.visit, s.pending with
    | none, .advancing mode next deleted :: pending =>
      let s := { s with pending }
      if stop then if mode = .gc then none else some (s.endPass mode deleted)
      else some (s.continuePass mode deleted (s.getNextGcObject busy next))
    | _, _ => none
  | .report =>
    match s.visit, s.pending with
    | none, .reporting (some o) :: pending => some ({ s with pending }.report domain o)
    | none, .reporting none :: pending => some { s with pending }
    | _, _ => none
  | .check recompress =>
    match s.visit, s.pending with
    | none, .checking :: pending =>
      if s.totalNumObjects = 0 then none
      else
        some { s.nextToCheck with
          pending := if recompress then .recompressing :: .checking :: pending
            else .checking :: pending }
    | _, _ => none
  | .finish =>
    match s.visit, s.pending with
    | none, .posting :: pending | none, .recompressing :: pending | none, .checking :: pending =>
      some { s with pending }
    | _, _ => none
  | .needMemory busy =>
    match s.visit, s.pending with
    | none, .posting :: _ | none, .recompressing :: _ => some (s.startPass .memory busy)
    | _, _ => none
  | .flagBeingDeleted o => some { s with beingDeleted := insert o s.beingDeleted }
  | .release o => if o ∉ s.linked then some (s.postUnlinkMessage o) else none
  | _ => none

/-- A message, or a scheduled run; `none` for other actions. -/
def receive (s : Optimizer Object) : Action Object → Option (Optimizer Object)
  | .write o ua => some (s.processWriteMessage o ua)
  | .read o ua => some (s.processReadMessage o ua)
  | .touch o => some (s.processFpcTouchMessage o)
  | .delete o retries => some (s.processDeleteMessage o retries)
  | .gc strictLru busy => some (if strictLru then s else s.startPass .gc busy)
  | .freeMemory busy => some (s.startPass .memory busy)
  | .retainCounts counts =>
    some { s with chains := fun ua => { s.chains ua with minNum := counts ua } }
  | .configure => some s
  | .run first aboveQuota busy =>
    let s := if first then s.prepareNextObject else s
    some (s.startRun aboveQuota busy)
  | _ => none

def step (s : Optimizer Object) (action : Action Object) : Option (Optimizer Object) :=
  if s.isIdle then (s.receive action).or (s.proceed domain action) else s.proceed domain action

end Optimizer

end CyberCache
