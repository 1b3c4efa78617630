import CyberCache.Store.PayloadStore
import CyberCache.Threads.MessageQueue

/-!
# Tag manager and FPC optimizer

The tag manager and the optimizer of the FPC domain are single threads, each with a queue of its
own, and each of them sends messages to the other. When the tag manager has unlinked a page, it
tells the optimizer; when the optimizer evicts a page, it tells the tag manager. Both wait if the
queue of the other one is full, and neither of them looks at its own queue while it waits.

Pages are known by numbers that are not used again. Which pages a `CLEAN` command selects, and which
pages have expired or are evicted to free memory, is given.
-/

namespace CyberCache

/-- Garbage collection reports every page when it evicts it. If memory is to be freed, pages are
reported after all of them were evicted. -/
inductive EvictionKind where
  | gc
  | freeMemory
deriving DecidableEq, Repr

inductive TagManagerState where
  | idle
  /-- Visits pages that a `CLEAN` command selects. -/
  | cleaning (rest : List Nat)
  | posting (m : OptimizerMessage) (rest : List Nat)
deriving DecidableEq, Repr

inductive OptimizerState where
  | idle
  /-- Visits pages, and has evicted some that are still to be reported. -/
  | evicting (kind : EvictionKind) (rest evicted : List Nat)
deriving DecidableEq, Repr

/-- Pages that were evicted and that the tag manager has not been told about. -/
@[simp]
def OptimizerState.unreported : OptimizerState → List Nat
  | .idle => []
  | .evicting _ _ evicted => evicted

/-- The page that the optimizer sends to the tag manager now. -/
def OptimizerState.reports : OptimizerState → Option Nat
  | .evicting .gc _ (p :: _) | .evicting .freeMemory [] (p :: _) => some p
  | _ => none

structure PageManagers where
  numPages : Nat
  /-- Pages without `HOF_BEING_DELETED`. -/
  alive : Finset Nat
  /-- Pages with `HOF_LINKED_BY_TM`. -/
  linkedByTM : Finset Nat
  /-- Pages with `HOF_LINKED_BY_OPTIMIZER`. -/
  linkedByOptimizer : Finset Nat
  tagQueue : MessageQueue TagMessage
  optimizerQueue : MessageQueue OptimizerMessage
  tagManager : TagManagerState
  optimizer : OptimizerState
  /-- What connection threads are about to put into the queue of the tag manager. -/
  commands : List TagMessage

inductive ManagerAction where
  | create
  | save (p : Nat)
  | remove (p : Nat)
  | clean
  /-- `CLEAN` with the mode `CM_OLD`. -/
  | cleanOld
  | post (m : TagMessage)
  /-- A thread that needs memory sends a message to the optimizer. -/
  | requestMemory
  /-- The tag manager goes on; a `CLEAN` command will select these pages. -/
  | tagManager (selected : List Nat)
  /-- The optimizer goes on; a message to evict pages will evict these. -/
  | optimizer (kind : EvictionKind) (victims : List Nat)
  /-- The optimizer has no messages, and starts a scheduled run. -/
  | run (victims : List Nat)

namespace PageManagers

def start (tagCapacity tagMaxCapacity optimizerCapacity optimizerMaxCapacity : Nat) :
    PageManagers where
  numPages := 0
  alive := ∅
  linkedByTM := ∅
  linkedByOptimizer := ∅
  tagQueue := .create tagCapacity tagMaxCapacity
  optimizerQueue := .create optimizerCapacity optimizerMaxCapacity
  tagManager := .idle
  optimizer := .idle
  commands := []

/-! ## The tag manager -/

def postToOptimizer (s : PageManagers) (m : OptimizerMessage) : Option PageManagers := do
  let (_, optimizerQueue) ← s.optimizerQueue.call (.put m)
  return { s with optimizerQueue }

def processTagMessage (s : PageManagers) (selected : List Nat) : TagMessage → PageManagers
  | .save p =>
    if p ∈ s.linkedByTM ∨ p ∈ s.alive then
      { s with linkedByTM := insert p s.linkedByTM, tagManager := .posting (.write p) [] }
    else s
  | .remove p =>
    if p ∈ s.linkedByTM then
      { s with linkedByTM := s.linkedByTM.erase p, tagManager := .posting (.delete p 0) [] }
    else s
  | .unlinkObject p => { s with linkedByTM := s.linkedByTM.erase p }
  | .clean => { s with tagManager := .cleaning selected }
  | .cleanOld => { s with tagManager := .posting .purge [] }

/-- `object_unlink_callback()` up to the message. -/
def cleanPage (s : PageManagers) (p : Nat) (rest : List Nat) : PageManagers :=
  if p ∈ s.alive ∧ p ∈ s.linkedByTM then
    { s with
      alive := s.alive.erase p
      linkedByTM := s.linkedByTM.erase p
      tagManager := .posting (.delete p 0) rest }
  else { s with tagManager := .cleaning rest }

def stepTagManager (s : PageManagers) (selected : List Nat) : Option PageManagers :=
  match s.tagManager with
  | .idle =>
    match s.tagQueue.call .get with
    | some (.message (some m), tagQueue) => some ({ s with tagQueue }.processTagMessage selected m)
    | _ => none
  | .cleaning [] => some { s with tagManager := .idle }
  | .cleaning (p :: rest) => some (s.cleanPage p rest)
  | .posting m rest => { s with tagManager := .cleaning rest }.postToOptimizer m

/-! ## The optimizer -/

def postToTagManager (s : PageManagers) (m : TagMessage) : Option PageManagers := do
  let (_, tagQueue) ← s.tagQueue.call (.put m)
  return { s with tagQueue }

def processDeleteMessage (s : PageManagers) (p retries : Nat) : PageManagers :=
  if p ∈ s.linkedByOptimizer then { s with linkedByOptimizer := s.linkedByOptimizer.erase p }
  else if retries + 1 < maxNumRetries then
    match s.optimizerQueue.call (.putAlways (.delete p (retries + 1))) with
    | some (_, optimizerQueue) => { s with optimizerQueue }
    | none => s
  else s

def processOptimizerMessage (s : PageManagers) (kind : EvictionKind) (victims : List Nat) :
    OptimizerMessage → PageManagers
  | .write p => { s with linkedByOptimizer := insert p s.linkedByOptimizer }
  | .read _ => s
  | .delete p retries => s.processDeleteMessage p retries
  | .purge => { s with optimizer := .evicting kind victims [] }

def evictPage (s : PageManagers) (kind : EvictionKind) (p : Nat) (rest evicted : List Nat) :
    PageManagers :=
  if p ∈ s.alive ∧ p ∈ s.linkedByOptimizer then
    { s with
      alive := s.alive.erase p
      linkedByOptimizer := s.linkedByOptimizer.erase p
      optimizer := .evicting kind rest (p :: evicted) }
  else { s with optimizer := .evicting kind rest evicted }

def stepOptimizer (s : PageManagers) (kind : EvictionKind) (victims : List Nat) :
    Option PageManagers :=
  match s.optimizer with
  | .idle =>
    match s.optimizerQueue.call .get with
    | some (.message (some m), optimizerQueue) =>
      some ({ s with optimizerQueue }.processOptimizerMessage kind victims m)
    | _ => none
  -- `on_delete()` for each page
  | .evicting .gc rest (p :: evicted) =>
    { s with optimizer := .evicting .gc rest evicted }.postToTagManager (.unlinkObject p)
  | .evicting .gc (p :: rest) [] => some (s.evictPage .gc p rest [])
  | .evicting .freeMemory (p :: rest) evicted => some (s.evictPage .freeMemory p rest evicted)
  | .evicting .freeMemory [] (p :: evicted) =>
    { s with optimizer := .evicting .freeMemory [] evicted }.postToTagManager (.unlinkObject p)
  | .evicting _ [] [] => some { s with optimizer := .idle }

/-! ## Steps -/

def sends (s : PageManagers) (m : TagMessage) : PageManagers :=
  { s with commands := m :: s.commands }

def step (s : PageManagers) : ManagerAction → Option PageManagers
  | .create =>
    some { s with
      numPages := s.numPages + 1
      alive := insert s.numPages s.alive
      commands := .save s.numPages :: s.commands }
  | .save p => if p ∈ s.alive then some (s.sends (.save p)) else none
  | .remove p =>
    if p ∈ s.alive then some ({ s with alive := s.alive.erase p }.sends (.remove p)) else none
  | .clean => some (s.sends .clean)
  | .cleanOld => some (s.sends .cleanOld)
  | .post m =>
    if m ∈ s.commands then { s with commands := s.commands.erase m }.postToTagManager m else none
  | .requestMemory => s.postToOptimizer .purge
  | .tagManager selected => s.stepTagManager selected
  | .optimizer kind victims => s.stepOptimizer kind victims
  | .run victims =>
    if s.optimizer = .idle ∧ s.optimizerQueue.count = 0 then
      some { s with optimizer := .evicting .gc victims [] }
    else none

/-- The tag manager waits until there is room in the queue of the optimizer. -/
def TagManagerBlocked (s : PageManagers) : Prop :=
  ∃ m rest, s.tagManager = .posting m rest ∧ s.optimizerQueue.call (.put m) = none

/-- The optimizer waits until there is room in the queue of the tag manager. -/
def OptimizerBlocked (s : PageManagers) : Prop :=
  ∃ p, s.optimizer.reports = some p ∧ s.tagQueue.call (.put (.unlinkObject p)) = none

def CircularlyBlocked (s : PageManagers) : Prop := s.TagManagerBlocked ∧ s.OptimizerBlocked

variable {s s' : PageManagers} {n : Nat}

/-! ## Room for reports -/

/-- The queue of the tag manager has room for so many messages, in addition to one for every page
that can be evicted or that is to be reported. -/
def RoomFor (s : PageManagers) (n : Nat) : Prop :=
  ∃ xs, s.tagQueue.Holds xs ∧
    xs.length + s.alive.card + s.optimizer.unreported.length + n ≤ s.tagQueue.maxCapacity

/-- A connection thread stores a new page, or sends a message to the tag manager, only if that
leaves room for a message about every page that can be evicted or is to be reported. -/
def LeavesRoom (s : PageManagers) : ManagerAction → Prop
  | .create | .post _ =>
    s.tagQueue.count + s.alive.card + s.optimizer.unreported.length < s.tagQueue.maxCapacity
  | _ => True

instance (s : PageManagers) : (action : ManagerAction) → Decidable (s.LeavesRoom action)
  | .create | .post _ => inferInstanceAs (Decidable (_ < _))
  | .save _ | .remove _ | .clean | .cleanOld | .requestMemory | .tagManager _ | .optimizer _ _
  | .run _ => .isTrue trivial

namespace RoomFor

theorem optimizer_not_blocked (h : s.RoomFor n) : ¬s.OptimizerBlocked := by
  rintro ⟨p, hreports, hfull⟩
  obtain ⟨xs, hholds, hroom⟩ := h
  have hpos : 0 < s.optimizer.unreported.length := by
    unfold OptimizerState.reports at hreports
    split at hreports
    case h_1 hstate | h_2 hstate => simp [hstate]
    case h_3 => cases hreports
  have hput := MessageQueue.call_put hholds (.unlinkObject p)
  rw [if_pos (by omega)] at hput
  obtain ⟨q, hput, -⟩ := hput
  simp [hput] at hfull

theorem of_count (h : s.RoomFor 0)
    (hcount : s.tagQueue.count + s.alive.card + s.optimizer.unreported.length <
      s.tagQueue.maxCapacity) : s.RoomFor 1 := by
  obtain ⟨xs, hholds, -⟩ := h
  have hlength := hholds.count
  exact ⟨xs, hholds, by omega⟩

theorem mono {m : Nat} (h : s.RoomFor n) (hqueue : s'.tagQueue = s.tagQueue)
    (hle : s'.alive.card + s'.optimizer.unreported.length + m ≤
      s.alive.card + s.optimizer.unreported.length + n) : s'.RoomFor m := by
  obtain ⟨xs, hholds, hroom⟩ := h
  refine ⟨xs, hqueue ▸ hholds, ?_⟩
  rw [hqueue]
  omega

theorem postToTagManager (h : s.RoomFor (n + 1)) {m : TagMessage}
    (hstep : s.postToTagManager m = some s') : s'.RoomFor n := by
  obtain ⟨xs, hholds, hroom⟩ := h
  obtain ⟨⟨result, q⟩, hcall, hs⟩ := Option.bind_eq_some_iff.mp hstep
  cases hs
  have hput := MessageQueue.call_put hholds m
  rw [if_pos (by omega)] at hput
  obtain ⟨q', hput, hq', hmax⟩ := hput
  obtain ⟨-, rfl⟩ := Prod.mk.inj (Option.some.inj (hput.symm.trans hcall))
  refine ⟨xs ++ [m], hq', ?_⟩
  simp only [hmax, List.length_append, List.length_singleton]
  omega

section

variable (h : s.RoomFor n)
include h

theorem postToOptimizer {m : OptimizerMessage}
    (hstep : s.postToOptimizer m = some s') : s'.RoomFor n := by
  obtain ⟨⟨result, q⟩, -, hs⟩ := Option.bind_eq_some_iff.mp hstep
  cases hs
  exact h

theorem get {result : QueueResult TagMessage} {q : MessageQueue TagMessage}
    (hcall : s.tagQueue.call .get = some (result, q)) : { s with tagQueue := q }.RoomFor n := by
  obtain ⟨xs, hholds, hroom⟩ := h
  obtain ⟨x, ys, rfl, hq, hmax⟩ := MessageQueue.call_get hholds hcall
  refine ⟨ys, hq, ?_⟩
  simp only [List.length_cons] at hroom
  simp only [hmax]
  omega

theorem processTagMessage (selected : List Nat) (m : TagMessage) :
    (s.processTagMessage selected m).RoomFor n := by
  cases m with
  | save p | remove p =>
    simp only [PageManagers.processTagMessage]
    split_ifs <;> exact h
  | unlinkObject p | clean | cleanOld => exact h

theorem stepTagManager {selected : List Nat}
    (hstep : s.stepTagManager selected = some s') : s'.RoomFor n := by
  unfold PageManagers.stepTagManager at hstep
  split at hstep
  case h_1 =>
    split at hstep
    case h_1 m q hcall =>
      cases hstep
      exact (h.get hcall).processTagMessage selected m
    case h_2 => cases hstep
  case h_2 =>
    cases hstep
    exact h
  case h_3 p rest hstate =>
    cases hstep
    rw [cleanPage]
    split_ifs
    · refine h.mono rfl ?_
      have hcard := Finset.card_erase_le (s := s.alive) (a := p)
      simp only
      omega
    · exact h
  case h_4 m rest hstate =>
    exact postToOptimizer (s := { s with tagManager := .cleaning rest }) h hstep

theorem processOptimizerMessage (hidle : s.optimizer = .idle)
    (kind : EvictionKind) (victims : List Nat) (m : OptimizerMessage) :
    (s.processOptimizerMessage kind victims m).RoomFor n := by
  cases m with
  | write p | read p => exact h
  | delete p retries =>
    simp only [PageManagers.processOptimizerMessage, processDeleteMessage]
    split_ifs
    · exact h
    · split <;> exact h
    · exact h
  | purge => exact h.mono rfl (by simp [PageManagers.processOptimizerMessage, hidle])

theorem evictPage {kind : EvictionKind} {rest rest' evicted : List Nat}
    (hstate : s.optimizer = .evicting kind rest' evicted) (p : Nat) :
    (s.evictPage kind p rest evicted).RoomFor n := by
  rw [PageManagers.evictPage]
  split_ifs with hp
  · refine h.mono rfl ?_
    have hcard := Finset.card_erase_add_one hp.1
    simp only [hstate, OptimizerState.unreported, List.length_cons]
    omega
  · exact h.mono rfl (by simp [hstate])

theorem report {kind : EvictionKind} {rest evicted : List Nat} {p : Nat}
    (hstate : s.optimizer = .evicting kind rest (p :: evicted))
    (hstep : { s with optimizer := .evicting kind rest evicted }.postToTagManager
      (.unlinkObject p) = some s') : s'.RoomFor n := by
  have hroom : { s with optimizer := .evicting kind rest evicted }.RoomFor (n + 1) := by
    refine h.mono rfl ?_
    simp only [hstate, OptimizerState.unreported, List.length_cons]
    omega
  exact hroom.postToTagManager hstep

theorem stepOptimizer {kind : EvictionKind} {victims : List Nat}
    (hstep : s.stepOptimizer kind victims = some s') : s'.RoomFor n := by
  unfold PageManagers.stepOptimizer at hstep
  split at hstep
  case h_1 hstate =>
    split at hstep
    case h_1 m q hcall =>
      cases hstep
      exact processOptimizerMessage (s := { s with optimizerQueue := q }) h hstate kind victims m
    case h_2 => cases hstep
  case h_2 rest p evicted hstate | h_5 p evicted hstate => exact h.report hstate hstep
  case h_3 p rest hstate | h_4 p rest evicted hstate =>
    cases hstep
    exact h.evictPage hstate p
  case h_6 kind' hstate =>
    cases hstep
    exact h.mono rfl (by simp [hstate])

end

theorem step (h : s.RoomFor 0) {action : ManagerAction} (hadmits : s.LeavesRoom action)
    (hstep : s.step action = some s') : s'.RoomFor 0 := by
  cases action with
  | create =>
    cases hstep
    refine (h.of_count hadmits).mono rfl ?_
    have hcard := Finset.card_insert_le s.numPages s.alive
    simp only
    omega
  | save p =>
    obtain ⟨-, hs⟩ := Option.ite_none_right_eq_some.mp hstep
    cases hs
    exact h
  | remove p =>
    obtain ⟨-, hs⟩ := Option.ite_none_right_eq_some.mp hstep
    cases hs
    refine h.mono rfl ?_
    have hcard := Finset.card_erase_le (s := s.alive) (a := p)
    simp only [sends]
    omega
  | clean | cleanOld =>
    cases hstep
    exact h
  | post m =>
    obtain ⟨-, hs⟩ := Option.ite_none_right_eq_some.mp hstep
    have hroom : { s with commands := s.commands.erase m }.RoomFor 1 := h.of_count hadmits
    exact hroom.postToTagManager hs
  | requestMemory => exact h.postToOptimizer hstep
  | tagManager selected => exact h.stepTagManager hstep
  | optimizer kind victims => exact h.stepOptimizer hstep
  | run victims =>
    obtain ⟨⟨hidle, -⟩, hs⟩ := Option.ite_none_right_eq_some.mp hstep
    cases hs
    exact h.mono rfl (by simp [hidle])

end RoomFor

/-! ## Runs -/

theorem start_roomFor (tagCapacity tagMaxCapacity optimizerCapacity optimizerMaxCapacity : Nat) :
    (start tagCapacity tagMaxCapacity optimizerCapacity optimizerMaxCapacity).RoomFor 0 :=
  ⟨[], Queue.create_holds tagCapacity tagMaxCapacity, Nat.zero_le _⟩

/-- The tag manager and the optimizer do not wait for each other if connection threads leave enough
room in the queue of the tag manager. -/
theorem not_circularlyBlocked
    {tagCapacity tagMaxCapacity optimizerCapacity optimizerMaxCapacity : Nat}
    {actions : List ManagerAction}
    (hruns : Reaches step LeavesRoom
      (start tagCapacity tagMaxCapacity optimizerCapacity optimizerMaxCapacity) actions s) :
    ¬s.CircularlyBlocked := by
  have hroom : s.RoomFor 0 := hruns.invariant (P := fun s => s.RoomFor 0)
    (start_roomFor _ _ _ _) fun _ _ _ hs hadmits hstep => hs.step hadmits hstep
  intro hblocked
  exact hroom.optimizer_not_blocked hblocked.2

theorem not_circularlyBlocked_of_run : ∃ s : PageManagers,
    Reaches step LeavesRoom (start 2 2 1 1)
      [.create, .post (.save 0), .tagManager [], .tagManager [], .tagManager [], .optimizer .gc [],
        .run [0], .optimizer .gc [], .optimizer .gc []] s ∧
      s.tagQueue.count = 1 ∧ s.optimizer = .evicting .gc [] [] ∧ ¬s.CircularlyBlocked :=
  ⟨_, Reaches.get_foldlM rfl, rfl, rfl, not_circularlyBlocked (Reaches.get_foldlM rfl)⟩

/-- The tag manager reports the page 0, which it has unlinked, while the optimizer reports the page
1, which it has evicted, and there are other messages in both queues. -/
theorem waiting_for_each_other : ∃ s : PageManagers,
    Reaches step (fun _ _ => True) (start 1 1 1 1)
      [.create, .post (.save 0), .tagManager [], .tagManager [], .tagManager [], .optimizer .gc [],
        .create, .post (.save 1), .tagManager [], .tagManager [], .tagManager [], .optimizer .gc [],
        .clean, .post .clean, .tagManager [0], .tagManager [0],
        .run [1], .optimizer .gc [], .requestMemory, .create, .post (.save 2)] s ∧
      s.CircularlyBlocked :=
  ⟨_, Reaches.get_foldlM rfl, ⟨_, _, rfl, rfl⟩, ⟨_, rfl, rfl⟩⟩

end PageManagers

end CyberCache
