import CyberCache.Optimizer.ObjectChains
import CyberCache.Store.Lifecycle

/-!
# Saving a store

`save_store()` walks over the chains of all tables in the main thread and sends what it finds to the
binlog saver. It does not lock the tables. Objects come to the front of a chain, so that they do not
get into the way; objects that are removed do, if it is the object that the walk has got to: its
link leads nowhere once it is disposed.

The store is as before. In addition, a table is cleaned up one object at a time at any moment, as
the walk goes on while a table is being cleaned up. Chains have their newest objects first, and
objects are numbered: the walk goes from larger numbers to smaller ones.
-/

namespace CyberCache

namespace PayloadStore

/-! ## Steps of a store -/

section Frames

variable {config : StoreConfiguration} {s s' : PayloadStore} {o i : Nat} {key : HashObject}
  {payload : Nat} {hasReaders : Nat → Nat → Bool}

theorem disposed_disposeDeletedObjects (num : Nat) (ho : o ∉ s.queues i) :
    (disposeDeletedObjects config i hasReaders num s).disposed o = s.disposed o := by
  induction num generalizing s with
  | zero => rfl
  | succ num ih =>
    rw [disposeDeletedObjects]
    split
    · rfl
    · rename_i o' queue hqueue
      rw [hqueue, List.mem_cons, not_or] at ho
      split_ifs
      · exact ih (by simp [ho.1, ho.2])
      · rw [ih (by simp [disposeObject, ho.2])]
        simp [disposeObject, ho.1]

theorem disposed_disposeDeletedObjects_one (ho : (s.queues i).head? ≠ some o) :
    (disposeDeletedObjects config i (fun _ _ => false) 1 s).disposed o = s.disposed o := by
  cases hqueue : s.queues i with
  | nil => simp [disposeDeletedObjects, hqueue]
  | cons o' queue =>
    have hne : o ≠ o' := fun heq => ho (by simp [hqueue, heq])
    simp [disposeDeletedObjects, hqueue, disposeObject, hne]

theorem disposed_postWrite : (s.postWrite config o).disposed = s.disposed :=
  (concerns_postWrite s o).keeps.disposed

theorem disposed_write (hs' : s.processWriteCommand config key payload hasReaders = some s')
    (ho : s.findAlive config key = some none → o ∉ s.queues (config.getTableIndex key.hash)) :
    s'.disposed o = s.disposed o := by
  obtain ⟨found, hfind, hs'⟩ := Option.bind_eq_some_iff.mp hs'
  cases found with
  | some o' =>
    cases hs'
    rw [disposed_postWrite]
  | none =>
    obtain ⟨s₁, hadd, hs'⟩ := Option.bind_eq_some_iff.mp hs'
    cases hs'
    obtain ⟨⟨resized, table⟩, -, hs₁⟩ := Option.bind_eq_some_iff.mp hadd
    cases hs₁
    rw [disposed_postWrite]
    exact disposed_disposeDeletedObjects _ (ho hfind)

theorem Sound.keys_write (h : s.Sound config)
    (hs' : s.processWriteCommand config key payload hasReaders = some s')
    (ho : o < s.numObjects) : o < s'.numObjects ∧ s'.keys o = s.keys o := by
  obtain ⟨o', -, rfl⟩ | ⟨s₁, -, hadd, rfl⟩ := h.write_cases hs'
  · have hkeeps : Keeps config { s with payloads := Function.update s.payloads o' payload } _ :=
      (concerns_postWrite _ o').keeps
    exact ⟨ho.trans_eq hkeeps.numObjects.symm, congrFun hkeeps.keys o⟩
  · obtain ⟨resized, table, -, -, hdiscards⟩ := h.addObject hadd
    have hkeeps : Keeps config s₁ _ := (concerns_postWrite s₁ s.numObjects).keeps
    rw [hkeeps.numObjects, hkeeps.keys, hdiscards.numObjects, hdiscards.keys]
    exact ⟨Nat.lt_succ_of_lt ho, Function.update_of_ne ho.ne _ _⟩

theorem Sound.dispose (h : s.Sound config) (num : Nat) :
    (disposeDeletedObjects config i hasReaders num s).Sound config := by
  have hdiscards : Discards config s (disposeDeletedObjects config i hasReaders num s) :=
    discards_disposeDeletedObjects num h.filed h.lives
  refine ⟨fun j => ?_, hdiscards.filed h.filed, hdiscards.valid h.lives⟩
  obtain ⟨recent, old, hholds⟩ := h.tables j
  obtain ⟨recent', old', hholds', -⟩ := hdiscards.tables j recent old hholds
  exact ⟨recent', old', hholds'⟩

end Frames

/-! ## The order of a chain -/

section Order

variable {config : StoreConfiguration} {s : PayloadStore} {i o p q : Nat} {recent old : List Nat}

theorem HoldsObjects.first_mem (h : s.HoldsObjects config i recent old)
    (hfirst : (s.tables i).first = some q) : q ∈ recent ++ old := by
  rw [h.represents.chain.first_eq] at hfirst
  exact List.mem_of_head? hfirst

theorem HoldsObjects.le_first (h : s.HoldsObjects config i recent old) (ho : o ∈ recent ++ old) :
    ∃ q, (s.tables i).first = some q ∧ o ≤ q := by
  rw [h.represents.chain.first_eq]
  have hdecreasing := h.decreasing
  cases hobjects : recent ++ old with
  | nil => simp [hobjects] at ho
  | cons q rest =>
    rw [hobjects] at ho hdecreasing
    refine ⟨q, rfl, ?_⟩
    obtain rfl | ho := List.mem_cons.mp ho
    · exact le_rfl
    · exact ((List.pairwise_cons.mp hdecreasing).1 o ho).le

theorem HoldsObjects.next_mem (h : s.HoldsObjects config i recent old) (hp : p ∈ recent ++ old)
    (hnext : (s.tables i).links.next p = some q) : q ∈ recent ++ old ∧ q < p := by
  have hchain := h.represents.chain
  have hdecreasing := h.decreasing
  obtain ⟨newer, older, hsplit⟩ := List.append_of_mem hp
  rw [hsplit] at hchain hdecreasing ⊢
  have hq : q ∈ older := hchain.next_mem q hnext
  obtain ⟨-, hrest, -⟩ := List.pairwise_append.mp hdecreasing
  exact ⟨by simp [hq], (List.pairwise_cons.mp hrest).1 q hq⟩

theorem HoldsObjects.le_next (h : s.HoldsObjects config i recent old) (hp : p ∈ recent ++ old)
    (ho : o ∈ recent ++ old) (hlt : o < p) : ∃ q, (s.tables i).links.next p = some q ∧ o ≤ q := by
  have hchain := h.represents.chain
  have hdecreasing := h.decreasing
  obtain ⟨newer, older, hsplit⟩ := List.append_of_mem hp
  rw [hsplit] at hchain hdecreasing ho
  obtain ⟨-, hrest, hnewer⟩ := List.pairwise_append.mp hdecreasing
  have ho : o ∈ older := by
    rcases List.mem_append.mp ho with ho | ho
    · have hgt : o > p := hnewer o ho p (by simp)
      omega
    · exact (List.mem_cons.mp ho).resolve_left hlt.ne
  rw [hchain.next_eq]
  cases older with
  | nil => cases ho
  | cons q rest =>
    refine ⟨q, rfl, ?_⟩
    obtain rfl | ho := List.mem_cons.mp ho
    · exact le_rfl
    · exact ((List.pairwise_cons.mp (List.pairwise_cons.mp hrest).2).1 o ho).le

end Order

end PayloadStore

/-! ## The walk -/

open PayloadStore

def maxTimestamp : Nat := 2 ^ 31 - 1

structure Traversal where
  table : Nat
  /-- The variable `ho` of `enumerate()`. -/
  position : Option Nat
  isVisited : Bool
  /-- `sdc_time` and `sdc_user_agent`. -/
  time : Nat
  userAgent : Nat
  sent : List Nat
  /-- What was visited, what stays in the tables and is alive, and what does not expire; this is not
  part of the program. -/
  visited : List Nat
  steady : Finset Nat
  unexpired : Finset Nat

namespace Traversal

def Passed (t : Traversal) (table o : Nat) : Prop :=
  table < t.table ∨ table = t.table ∧ ∀ p ∈ t.position, p < o ∨ p = o ∧ t.isVisited = true

end Traversal

structure SavingStore where
  store : PayloadStore
  expirationTimes : Nat → Nat
  userAgents : Nat → Nat
  traversal : Option Traversal

namespace SavingStore

variable (config : StoreConfiguration)

/-- The optimizer sets the expiration time and the user agent of an object later. -/
def create : SavingStore := ⟨.create config, fun _ => maxTimestamp, fun _ => numUserAgents, none⟩

inductive Action where
  | store (action : StoreAction)
  /-- One object is taken from the queue of deleted objects of a table and disposed. -/
  | dispose (index : Nat)
  | setMetadata (o : Nat) (expirationTime : Nat) (userAgent : Nat)
  /-- The steps of `save_store()`. -/
  | beginSave (time : Nat) (userAgent : Nat)
  | visit
  | advance
  | nextTable
  | endSave

/-- Whether `save_object()` sends the object; expired pages are sent too. -/
def isSaved (s : SavingStore) (t : Traversal) (o : Nat) : Bool :=
  s.store.isAlive o && decide (t.userAgent ≤ s.userAgents o) &&
    (config.domain = .page || decide (t.time < s.expirationTimes o))

def beginSave (s : SavingStore) (time userAgent : Nat) : Traversal where
  table := 0
  position := (s.store.tables 0).first
  isVisited := false
  time := time
  userAgent := userAgent
  sent := []
  visited := []
  steady := {o ∈ Finset.range s.store.numObjects | s.store.disposed o = false ∧ s.store.isAlive o}
  unexpired := {o ∈ Finset.range s.store.numObjects | time < s.expirationTimes o}

def withStore (s : SavingStore) (store : PayloadStore) : SavingStore :=
  { s with
    store
    traversal := s.traversal.map fun t =>
      { t with steady := {o ∈ t.steady | store.disposed o = false ∧ store.isAlive o} } }

/-- A step of the walk; an object that was disposed cannot be used. -/
def stepTraversal (s : SavingStore) (t : Traversal) : Action → Option Traversal
  | .visit =>
    match t.position with
    | some o =>
      if t.isVisited ∨ s.store.disposed o then none
      else some { t with
        isVisited := true
        sent := if s.isSaved config t o then t.sent ++ [o] else t.sent
        visited := t.visited ++ [o] }
    | none => none
  | .advance =>
    match t.position with
    | some o =>
      if t.isVisited ∧ s.store.disposed o = false then
        some { t with position := (s.store.tables t.table).links.next o, isVisited := false }
      else none
    | none => none
  | .nextTable =>
    if t.position = none ∧ t.table < config.numTables then
      some { t with
        table := t.table + 1
        position := if t.table + 1 < config.numTables then (s.store.tables (t.table + 1)).first
          else none
        isVisited := false }
    else none
  | _ => none

def step (s : SavingStore) : Action → Option SavingStore
  | .store action => (s.store.step config action).map s.withStore
  | .dispose index =>
    some (s.withStore (disposeDeletedObjects config index (fun _ _ => false) 1 s.store))
  | .setMetadata o expirationTime userAgent =>
    if o < s.store.numObjects then
      some { s with
        expirationTimes := Function.update s.expirationTimes o expirationTime
        userAgents := Function.update s.userAgents o userAgent
        traversal := s.traversal.map fun t =>
          if t.time < expirationTime then t else { t with unexpired := t.unexpired.erase o } }
    else none
  | .beginSave time userAgent =>
    match s.traversal with
    | none => some { s with traversal := some (s.beginSave time userAgent) }
    | some _ => none
  | .endSave =>
    match s.traversal with
    | some t => if t.table = config.numTables then some { s with traversal := none } else none
    | none => none
  | action =>
    match s.traversal with
    | some t => (s.stepTraversal config t action).map fun t => { s with traversal := some t }
    | none => none

variable {config} {s s' : SavingStore} {t t' : Traversal} {actions : List Action} {o : Nat}

/-! ## What is saved -/

variable (config) in
/-- The walk has got to an object of its table. When it is over, each object that stayed was visited
once, and sent once unless it has expired. -/
structure SavesAll (s : SavingStore) (t : Traversal) : Prop where
  inTable : ∀ o ∈ t.position,
    ∃ objects, (s.store.tables t.table).enumerate = some objects ∧ o ∈ objects
  complete : t.table = config.numTables → ∀ o ∈ t.steady,
    t.visited.count o = 1 ∧ (o ∈ t.unexpired → t.sent.count o = 1)

variable (config) in
/-- The object that the walk has got to is not disposed, and no object has a user agent that is not
to be saved. -/
def Spares (s : SavingStore) : Action → Prop
  | .store (.write key _ _) => ∀ t ∈ s.traversal, ∀ o ∈ t.position,
    s.store.findAlive config key = some none → o ∉ s.store.queues (config.getTableIndex key.hash)
  | .dispose index => ∀ t ∈ s.traversal, ∀ o ∈ t.position, (s.store.queues index).head? ≠ some o
  | .setMetadata _ _ userAgent => ∀ t ∈ s.traversal, t.userAgent ≤ userAgent
  | .beginSave _ userAgent => ∀ o < s.store.numObjects, userAgent ≤ s.userAgents o
  | _ => True

instance (s : SavingStore) : (action : Action) → Decidable (s.Spares config action)
  | .store (.write key _ _) => inferInstanceAs (Decidable (∀ t ∈ s.traversal, ∀ o ∈ t.position,
      s.store.findAlive config key = some none →
        o ∉ s.store.queues (config.getTableIndex key.hash)))
  | .dispose index => inferInstanceAs (Decidable (∀ t ∈ s.traversal, ∀ o ∈ t.position,
      (s.store.queues index).head? ≠ some o))
  | .setMetadata _ _ userAgent =>
    inferInstanceAs (Decidable (∀ t ∈ s.traversal, t.userAgent ≤ userAgent))
  | .beginSave _ userAgent =>
    inferInstanceAs (Decidable (∀ o < s.store.numObjects, userAgent ≤ s.userAgents o))
  | .store (.read _ _) | .store (.destroy _) | .store .clean | .store .gc | .store .freeMemory
  | .store (.run _) | .store (.optimizer _ _) | .store (.tagManager _ _) | .visit | .advance
  | .nextTable | .endSave => .isTrue trivial

variable (config) in
structure Progress (s : SavingStore) (t : Traversal) : Prop where
  steady : ∀ o ∈ t.steady,
    o < s.store.numObjects ∧ s.store.disposed o = false ∧ s.store.isAlive o = true
  userAgents : ∀ o ∈ t.steady, t.userAgent ≤ s.userAgents o
  unexpired : ∀ o ∈ t.unexpired, t.time < s.expirationTimes o
  position : ∀ o ∈ t.position,
    o < s.store.numObjects ∧ s.store.disposed o = false ∧ s.store.tableOf config o = t.table
  visited : ∀ o ∈ t.steady, t.Passed (s.store.tableOf config o) o → t.visited.count o = 1
  unvisited : ∀ o ∈ t.steady, ¬t.Passed (s.store.tableOf config o) o → t.visited.count o = 0
  sent : ∀ o ∈ t.steady, o ∈ t.unexpired → t.sent.count o = t.visited.count o

variable (config) in
structure Valid (s : SavingStore) : Prop where
  sound : s.store.Sound config
  progress : ∀ t ∈ s.traversal, s.Progress config t

theorem create_valid : (create config).Valid config := ⟨create_sound, by simp [create]⟩

/-! ## Steps of other threads -/

theorem Progress.withStore {store : PayloadStore} (h : s.Progress config t)
    (hkeys : ∀ o < s.store.numObjects, o < store.numObjects ∧ store.keys o = s.store.keys o)
    (hspared : ∀ o ∈ t.position, store.disposed o = false) :
    (s.withStore store).Progress config
      { t with steady := {o ∈ t.steady | store.disposed o = false ∧ store.isAlive o} } := by
  have htable : ∀ o < s.store.numObjects, store.tableOf config o = s.store.tableOf config o := by
    intro o ho
    rw [tableOf, tableOf, (hkeys o ho).2]
  have hsteady : ∀ o ∈ ({o ∈ t.steady | store.disposed o = false ∧ store.isAlive o} : Finset Nat),
      o ∈ t.steady ∧ store.tableOf config o = s.store.tableOf config o := by
    intro o ho
    have ho' := (Finset.mem_filter.mp ho).1
    exact ⟨ho', htable o (h.steady o ho').1⟩
  constructor
  case steady =>
    intro o ho
    obtain ⟨ho, hdisposed, halive⟩ := Finset.mem_filter.mp ho
    exact ⟨(hkeys o (h.steady o ho).1).1, hdisposed, halive⟩
  case userAgents => exact fun o ho => h.userAgents o (hsteady o ho).1
  case unexpired => exact h.unexpired
  case position =>
    intro o ho
    obtain ⟨hlt, -, hindex⟩ := h.position o ho
    exact ⟨(hkeys o hlt).1, hspared o ho, (htable o hlt).trans hindex⟩
  case visited =>
    intro o ho hpassed
    refine h.visited o (hsteady o ho).1 ?_
    rw [← (hsteady o ho).2]
    exact hpassed
  case unvisited =>
    intro o ho hpassed
    refine h.unvisited o (hsteady o ho).1 ?_
    rw [← (hsteady o ho).2]
    exact hpassed
  case sent => exact fun o ho => h.sent o (hsteady o ho).1

theorem Valid.withStore {store : PayloadStore} (h : s.Valid config) (hsound : store.Sound config)
    (hkeys : ∀ o < s.store.numObjects, o < store.numObjects ∧ store.keys o = s.store.keys o)
    (hspared : ∀ t ∈ s.traversal, ∀ o ∈ t.position, store.disposed o = false) :
    (s.withStore store).Valid config := by
  refine ⟨hsound, fun t' ht' => ?_⟩
  obtain ⟨t, ht, rfl⟩ := Option.map_eq_some_iff.mp ht'
  exact (h.progress t ht).withStore hkeys (hspared t ht)

theorem Valid.store (h : s.Valid config) {action : StoreAction} {store : PayloadStore}
    (hspares : s.Spares config (.store action)) (hstep : s.store.step config action = some store) :
    (s.withStore store).Valid config := by
  obtain ⟨key, payload, hasReaders, rfl⟩ | ⟨hkeeps, -⟩ := h.sound.proceeds hstep
  · refine h.withStore (h.sound.step hstep) (fun o ho => h.sound.keys_write hstep ho) ?_
    intro t ht o ho
    rw [disposed_write hstep (hspares t ht o ho)]
    exact ((h.progress t ht).position o ho).2.1
  · refine h.withStore (h.sound.step hstep) ?_ ?_
    · intro o ho
      rw [hkeeps.numObjects, hkeeps.keys]
      exact ⟨ho, rfl⟩
    · intro t ht o ho
      rw [hkeeps.disposed]
      exact ((h.progress t ht).position o ho).2.1

theorem Valid.dispose (h : s.Valid config) {index : Nat}
    (hspares : s.Spares config (.dispose index)) :
    (s.withStore (disposeDeletedObjects config index (fun _ _ => false) 1 s.store)).Valid
      config := by
  have hdiscards : Discards config s.store
      (disposeDeletedObjects config index (fun _ _ => false) 1 s.store) :=
    discards_disposeDeletedObjects 1 h.sound.filed h.sound.lives
  refine h.withStore (h.sound.dispose 1) ?_ ?_
  · intro o ho
    rw [hdiscards.numObjects, hdiscards.keys]
    exact ⟨ho, rfl⟩
  · intro t ht o ho
    rw [disposed_disposeDeletedObjects_one (hspares t ht o ho)]
    exact ((h.progress t ht).position o ho).2.1

theorem Valid.setMetadata (h : s.Valid config) {expirationTime userAgent : Nat}
    (hspares : s.Spares config (.setMetadata o expirationTime userAgent))
    (hstep : s.step config (.setMetadata o expirationTime userAgent) = some s') :
    s'.Valid config := by
  obtain ⟨-, hs⟩ := Option.ite_none_right_eq_some.mp hstep
  cases hs
  refine ⟨h.sound, fun t' ht' => ?_⟩
  obtain ⟨t, ht, rfl⟩ := Option.map_eq_some_iff.mp ht'
  have hprogress := h.progress t ht
  have hagents : ∀ o' ∈ t.steady, t.userAgent ≤ Function.update s.userAgents o userAgent o' := by
    intro o' ho'
    by_cases heq : o' = o
    · rw [heq, Function.update_self]
      exact hspares t ht
    · rw [Function.update_of_ne heq]
      exact hprogress.userAgents o' ho'
  split_ifs with htime
  · refine { hprogress with userAgents := hagents, unexpired := fun o' ho' => ?_ }
    by_cases heq : o' = o
    · simpa [heq] using htime
    · simpa [heq] using hprogress.unexpired o' ho'
  · refine { hprogress with
      userAgents := hagents
      unexpired := fun o' ho' => ?_
      sent := fun o' ho' hmem => hprogress.sent o' ho' (Finset.mem_of_mem_erase hmem) }
    obtain ⟨hne, ho'⟩ := Finset.mem_erase.mp ho'
    simpa [hne] using hprogress.unexpired o' ho'

/-! ## Steps of the walk -/

theorem not_passed_first (hsound : s.store.Sound config) (ho : o < s.store.numObjects)
    (hdisposed : s.store.disposed o = false) (htable : s.store.tableOf config o = t.table)
    (hposition : t.position = (s.store.tables t.table).first) (hvisited : t.isVisited = false) :
    ¬t.Passed (s.store.tableOf config o) o := by
  obtain ⟨recent, old, hholds⟩ := hsound.tables t.table
  obtain ⟨q, hfirst, hle⟩ := hholds.le_first ((hholds.mem_iff o).mpr ⟨ho, hdisposed, htable⟩)
  rintro (hlt | ⟨-, hpassed⟩)
  · omega
  · rcases hpassed q (hposition.trans hfirst) with hlt | ⟨-, hset⟩
    · omega
    · simp [hvisited] at hset

theorem position_first (hsound : s.store.Sound config) {i : Nat} :
    ∀ o ∈ (s.store.tables i).first,
      o < s.store.numObjects ∧ s.store.disposed o = false ∧ s.store.tableOf config o = i := by
  intro o ho
  obtain ⟨recent, old, hholds⟩ := hsound.tables i
  exact (hholds.mem_iff o).mp (hholds.first_mem ho)

theorem Valid.beginSave (h : s.Valid config) {time userAgent : Nat}
    (hspares : s.Spares config (.beginSave time userAgent)) :
    s.Progress config (s.beginSave time userAgent) := by
  have hsteady : ∀ o ∈ (s.beginSave time userAgent).steady,
      o < s.store.numObjects ∧ s.store.disposed o = false ∧ s.store.isAlive o = true := by
    intro o ho
    obtain ⟨hlt, hdisposed, halive⟩ := Finset.mem_filter.mp ho
    exact ⟨Finset.mem_range.mp hlt, hdisposed, halive⟩
  constructor
  case steady => exact hsteady
  case userAgents => exact fun o ho => hspares o (hsteady o ho).1
  case unexpired => exact fun o ho => (Finset.mem_filter.mp ho).2
  case position => exact position_first h.sound
  case visited =>
    intro o ho hpassed
    by_cases htable : s.store.tableOf config o = 0
    · exact absurd hpassed
        (not_passed_first h.sound (hsteady o ho).1 (hsteady o ho).2.1 htable rfl rfl)
    · rcases hpassed with hlt | ⟨heq, -⟩
      · exact absurd hlt (Nat.not_lt_zero _)
      · exact absurd heq htable
  case unvisited => exact fun _ _ _ => rfl
  case sent => exact fun _ _ _ => rfl

theorem Progress.visit (h : s.Progress config t) {p : Nat} (hposition : t.position = some p)
    (hnew : t.isVisited = false) :
    s.Progress config { t with
      isVisited := true
      sent := if s.isSaved config t p then t.sent ++ [p] else t.sent
      visited := t.visited ++ [p] } := by
  have hindex := (h.position p hposition).2.2
  have hcount : ∀ o ∈ t.steady, o ≠ p → (t.visited ++ [p]).count o = t.visited.count o :=
    fun o _ hne => by simp [Ne.symm hne]
  -- for other objects, the walk has got where it was before
  have hpassed : ∀ o, o ≠ p → (Traversal.Passed { t with
      isVisited := true
      sent := if s.isSaved config t p then t.sent ++ [p] else t.sent
      visited := t.visited ++ [p] } (s.store.tableOf config o) o ↔
      t.Passed (s.store.tableOf config o) o) := by
    intro o hne
    simp [Traversal.Passed, hposition, Ne.symm hne]
  have hnot : ¬t.Passed (s.store.tableOf config p) p := by
    simp [Traversal.Passed, hposition, hindex, hnew]
  constructor
  case steady => exact h.steady
  case userAgents => exact h.userAgents
  case unexpired => exact h.unexpired
  case position => exact h.position
  case visited =>
    intro o ho hp
    by_cases heq : o = p
    · subst heq
      simp [h.unvisited o ho hnot]
    · rw [hcount o ho heq]
      exact h.visited o ho ((hpassed o heq).mp hp)
  case unvisited =>
    intro o ho hp
    by_cases heq : o = p
    · subst heq
      exact absurd (.inr ⟨hindex, fun q hq => .inr ⟨by simpa [hposition] using hq.symm, rfl⟩⟩) hp
    · rw [hcount o ho heq]
      exact h.unvisited o ho fun hp' => hp ((hpassed o heq).mpr hp')
  case sent =>
    intro o ho hunexpired
    have hsent := h.sent o ho hunexpired
    by_cases heq : o = p
    · subst heq
      have hsaved : s.isSaved config t o = true := by
        simp [isSaved, (h.steady o ho).2.2, h.userAgents o ho, h.unexpired o hunexpired]
      simp [hsaved, hsent]
    · have hother : (if s.isSaved config t p then t.sent ++ [p] else t.sent).count o =
          t.sent.count o := by
        split_ifs <;> simp [Ne.symm heq]
      rw [hcount o ho heq, ← hsent]
      exact hother

/-- The walk goes on without getting past an object that it has not visited. -/
theorem Progress.proceed (h : s.Progress config t) {table : Nat} {position : Option Nat}
    (hposition : ∀ o ∈ position,
      o < s.store.numObjects ∧ s.store.disposed o = false ∧ s.store.tableOf config o = table)
    (hpassed : ∀ o ∈ t.steady, (Traversal.Passed { t with table, position, isVisited := false }
      (s.store.tableOf config o) o ↔ t.Passed (s.store.tableOf config o) o)) :
    s.Progress config { t with table, position, isVisited := false } where
  steady := h.steady
  userAgents := h.userAgents
  unexpired := h.unexpired
  position := hposition
  visited o ho hpast := h.visited o ho ((hpassed o ho).mp hpast)
  unvisited o ho hpast := h.unvisited o ho fun hp => hpast ((hpassed o ho).mpr hp)
  sent := h.sent

theorem Progress.advance (hsound : s.store.Sound config) (h : s.Progress config t) {p : Nat}
    (hposition : t.position = some p) (hvisited : t.isVisited = true) :
    s.Progress config { t with
      position := (s.store.tables t.table).links.next p
      isVisited := false } := by
  obtain ⟨recent, old, hholds⟩ := hsound.tables t.table
  have hp : p ∈ recent ++ old := (hholds.mem_iff p).mpr (h.position p hposition)
  -- the walk gets past the object it was at, and past nothing else
  refine h.proceed (fun q hq => (hholds.mem_iff q).mp (hholds.next_mem hp hq).1) fun o ho => ?_
  simp only [Traversal.Passed, hposition, hvisited, Option.mem_some_iff, forall_eq',
    Bool.false_eq_true, and_false, or_false, and_true]
  refine or_congr_right (and_congr_right fun htable => ?_)
  obtain ⟨hlt, hdisposed, -⟩ := h.steady o ho
  have hmem : o ∈ recent ++ old := (hholds.mem_iff o).mpr ⟨hlt, hdisposed, htable⟩
  constructor
  · intro hnext
    by_contra hle
    obtain ⟨q, hq, hoq⟩ := hholds.le_next hp hmem (by omega)
    have hqo := hnext q hq
    omega
  · intro hle q hq
    have hqp := (hholds.next_mem hp hq).2
    omega

theorem Progress.nextTable (hsound : s.store.Sound config) (h : s.Progress config t)
    (hposition : t.position = none) {position : Option Nat}
    (hnext : position = (s.store.tables (t.table + 1)).first ∨
      position = none ∧ ∀ o < s.store.numObjects, s.store.tableOf config o ≠ t.table + 1) :
    s.Progress config { t with table := t.table + 1, position, isVisited := false } := by
  refine h.proceed (fun o ho => ?_) fun o ho => ?_
  · rcases hnext with hfirst | ⟨hnone, -⟩
    · exact position_first hsound o (hfirst ▸ ho)
    · simp [hnone] at ho
  -- the walk gets past nothing, as it got past the whole table before
  · obtain ⟨hlt, hdisposed, -⟩ := h.steady o ho
    have hold : t.Passed (s.store.tableOf config o) o ↔ s.store.tableOf config o ≤ t.table := by
      simp [Traversal.Passed, hposition, le_iff_lt_or_eq]
    rw [hold]
    constructor
    · rintro (hlt | ⟨heq, hpast⟩)
      · exact Nat.lt_succ_iff.mp hlt
      · rcases hnext with hfirst | ⟨-, hnobody⟩
        · exact absurd (.inr ⟨heq, hpast⟩)
            (not_passed_first (t := { t with table := t.table + 1, position, isVisited := false })
              hsound hlt hdisposed heq hfirst rfl)
        · exact absurd heq (hnobody o hlt)
    · exact fun hle => .inl (Nat.lt_succ_iff.mpr hle)

theorem Progress.stepTraversal (hpos : 0 < config.numTables) (hsound : s.store.Sound config)
    (h : s.Progress config t) {action : Action}
    (hstep : s.stepTraversal config t action = some t') : s.Progress config t' := by
  cases action with
  | visit =>
    simp only [SavingStore.stepTraversal] at hstep
    split at hstep
    case h_1 o hposition =>
      obtain ⟨hnew, ht⟩ := Option.ite_none_left_eq_some.mp hstep
      cases ht
      exact h.visit hposition (by simpa using (not_or.mp hnew).1)
    case h_2 => cases hstep
  | advance =>
    simp only [SavingStore.stepTraversal] at hstep
    split at hstep
    case h_1 o hposition =>
      obtain ⟨⟨hvisited, -⟩, ht⟩ := Option.ite_none_right_eq_some.mp hstep
      cases ht
      exact h.advance hsound hposition hvisited
    case h_2 => cases hstep
  | nextTable =>
    obtain ⟨⟨hposition, -⟩, ht⟩ := Option.ite_none_right_eq_some.mp hstep
    cases ht
    refine h.nextTable hsound hposition ?_
    split_ifs with hlt
    · exact .inl rfl
    · refine .inr ⟨rfl, fun o _ heq => ?_⟩
      have hindex := config.getTableIndex_lt hpos (s.store.keys o).hash
      rw [tableOf] at heq
      omega
  | _ => cases hstep

theorem Valid.step (hpos : 0 < config.numTables) (h : s.Valid config) {action : Action}
    (hspares : s.Spares config action) (hstep : s.step config action = some s') :
    s'.Valid config := by
  cases action with
  | store action =>
    obtain ⟨store, hstore, rfl⟩ := Option.map_eq_some_iff.mp hstep
    exact h.store hspares hstore
  | dispose index =>
    cases hstep
    exact h.dispose hspares
  | setMetadata o expirationTime userAgent => exact h.setMetadata hspares hstep
  | beginSave time userAgent =>
    simp only [SavingStore.step] at hstep
    split at hstep
    case h_1 =>
      cases hstep
      refine ⟨h.sound, ?_⟩
      rintro t ⟨⟩
      exact { h.beginSave hspares with }
    case h_2 => cases hstep
  | endSave =>
    simp only [SavingStore.step] at hstep
    split at hstep
    case h_1 t ht =>
      obtain ⟨-, hs⟩ := Option.ite_none_right_eq_some.mp hstep
      cases hs
      exact ⟨h.sound, by simp⟩
    case h_2 => cases hstep
  | visit | advance | nextTable =>
    simp only [SavingStore.step] at hstep
    split at hstep
    case h_1 t ht =>
      obtain ⟨t', ht', rfl⟩ := Option.map_eq_some_iff.mp hstep
      refine ⟨h.sound, ?_⟩
      rintro t'' ⟨⟩
      exact { (h.progress t ht).stepTraversal hpos h.sound ht' with }
    case h_2 => cases hstep

theorem Valid.savesAll (hpos : 0 < config.numTables) (h : s.Valid config) (ht : t ∈ s.traversal) :
    s.SavesAll config t := by
  have hprogress := h.progress t ht
  constructor
  case inTable =>
    intro o ho
    obtain ⟨recent, old, hholds⟩ := h.sound.tables t.table
    exact ⟨_, hholds.represents.enumerate, (hholds.mem_iff o).mpr (hprogress.position o ho)⟩
  case complete =>
    intro hover o ho
    have hpassed : t.Passed (s.store.tableOf config o) o :=
      .inl ((config.getTableIndex_lt hpos _).trans_eq hover.symm)
    have hvisited := hprogress.visited o ho hpassed
    exact ⟨hvisited, fun hunexpired => (hprogress.sent o ho hunexpired).trans hvisited⟩

/-- In every run in which no table disposes the object that the walk has got to, saving is
consistent with whatever is done to the store meanwhile. -/
theorem saves_all (hpos : 0 < config.numTables)
    (hruns : Reaches (step config) (Spares config) (create config) actions s)
    (ht : t ∈ s.traversal) : s.SavesAll config t :=
  (hruns.invariant create_valid fun _ _ _ h hspares hstep => h.step hpos hspares hstep).savesAll
    hpos ht

/-- Two sessions are saved; the walk has visited the newer one when a third one is written. -/
theorem saves_all_of_write :
    ∃ s, ∃ t ∈ s.traversal,
      Reaches (step (singleTable .session)) (Spares (singleTable .session))
        (create (singleTable .session))
        [.store (.write ⟨1, [97]⟩ 10 fun _ _ => false),
        .store (.write ⟨2, [98]⟩ 11 fun _ _ => false),
          .beginSave 5 0, .visit, .store (.write ⟨3, [99]⟩ 12 fun _ _ => false), .advance, .visit,
          .advance, .nextTable] s ∧
      t.steady = {0, 1} ∧ t.sent = [1, 0] ∧ SavesAll (singleTable .session) s t :=
  ⟨_, _, rfl, Reaches.get_foldlM rfl, by decide, rfl,
    saves_all (by decide) (Reaches.get_foldlM rfl) rfl⟩

/-- A session is destroyed and disposed while the walk has just visited it. -/
theorem disposed_under_walk :
    ∃ s, ∃ t ∈ s.traversal,
      Reaches (step (singleTable .session)) (fun _ _ => True) (create (singleTable .session))
        [.store (.write ⟨1, [97]⟩ 10 fun _ _ => false), .store (.optimizer (.write 0) []),
          .beginSave 5 0, .visit, .store (.destroy ⟨1, [97]⟩), .store (.optimizer (.delete 0 0) []),
          .store (.write ⟨2, [98]⟩ 11 fun _ _ => false)] s ∧
      t.position = some 0 ∧ s.store.disposed 0 = true ∧
      (s.store.tables 0).enumerate = some [1] ∧ ¬SavesAll (singleTable .session) s t := by
  refine ⟨_, _, rfl, Reaches.get_foldlM rfl, rfl, rfl, rfl, fun h => ?_⟩
  obtain ⟨objects, henumerate, hmem⟩ := h.inTable 0 rfl
  obtain rfl : [1] = objects := Option.some.inj henumerate
  simp at hmem

end SavingStore

end CyberCache
