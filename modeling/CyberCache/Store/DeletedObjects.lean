import CyberCache.Lib.Runs
import CyberCache.Store.PayloadStore
import CyberCache.Threads.QueueAllocation

/-!
# Queues of deleted objects

Every table of a store has a queue of deleted objects. `post_unlink_message()` puts an object there
when nobody has links to it any more. Whoever holds an exclusive lock on the table calls
`dispose_deleted_objects()`, which takes some objects from the queue, removes them from the table
and disposes them; an object that is still being read goes to the end of the queue again. The store
counts the objects in all these queues.
-/

namespace CyberCache

open Function (update update_self update_of_ne)

/-- An object is disposed; `linked` says whether its table has it at that moment. -/
structure Disposal where
  object : Nat
  readers : Nat
  linked : Bool

/-- A call of `dispose_deleted_objects()` that was to look at `num` entries. -/
structure DisposalCall where
  num : Nat
  examined : Nat

/-- What becomes of deleted objects. The last three fields are not part of the program: they say
what has happened. -/
structure DeletedObjects where
  tables : Nat → HashTable Nat
  queues : Nat → Queue Nat
  numDeletedObjects : Nat
  keys : Nat → HashObject
  flags : Nat → ObjectFlags
  readers : Nat → Nat
  posted : List Nat
  disposals : List Disposal
  calls : List DisposalCall

inductive DisposalAction where
  | registerReader (o : Nat)
  | unregisterReader (o : Nat)
  /-- Somebody flags an object that is to be deleted, or has unlinked it. -/
  | setFlags (o : Nat) (flags : ObjectFlags)
  | postUnlinkMessage (o : Nat)
  /-- The readers `leaving n` are gone when `n` more entries are to be looked at. -/
  | disposeDeletedObjects (index num : Nat) (leaving : Nat → List Nat)

namespace DeletedObjects

def setFlags (s : DeletedObjects) (o : Nat) (flags : ObjectFlags) : DeletedObjects :=
  { s with flags := update s.flags o flags }

def setQueue (s : DeletedObjects) (index : Nat) (queue : Queue Nat) : DeletedObjects :=
  { s with queues := update s.queues index queue }

def registerReader (s : DeletedObjects) (o : Nat) : DeletedObjects :=
  { s with readers := update s.readers o (s.readers o + 1) }

def unregisterReader (s : DeletedObjects) (o : Nat) : DeletedObjects :=
  { s with readers := update s.readers o (s.readers o - 1) }

def isLinked (s : DeletedObjects) (index o : Nat) : Bool :=
  match (s.tables index).enumerate with
  | some objects => objects.contains o
  | none => true

variable (config : StoreConfiguration)

def tableOf (s : DeletedObjects) (o : Nat) : Nat := config.getTableIndex (s.keys o).hash

def postUnlinkMessage (s : DeletedObjects) (o : Nat) : DeletedObjects :=
  let s := s.setFlags o { s.flags o with deleted := true }
  let index := s.tableOf config o
  let (accepted, queue) := (s.queues index).putAlways o
  let s := s.setQueue index queue
  if accepted then
    { s with numDeletedObjects := uintAdd s.numDeletedObjects 1, posted := s.posted ++ [o] }
  else s

def removeFromTable (s : DeletedObjects) (index o : Nat) : DeletedObjects :=
  { s with
    tables := update s.tables index ((s.tables index).remove config.store s.keys o) }

def dispose (s : DeletedObjects) (index o : Nat) : DeletedObjects :=
  { s with disposals := s.disposals ++ [⟨o, s.readers o, s.isLinked index o⟩] }

def decrementNumDeletedObjects (s : DeletedObjects) : DeletedObjects :=
  { s with numDeletedObjects := uintSub s.numDeletedObjects 1 }

def processEntry (s : DeletedObjects) (index o : Nat) : DeletedObjects :=
  if s.readers o ≠ 0 then s.setQueue index ((s.queues index).putAlways o).2
  else ((s.removeFromTable config index o).dispose index o).decrementNumDeletedObjects

/-- The loop of `dispose_deleted_objects()`, with the number of entries that it has looked at. -/
def disposeLoop (index : Nat) (leaving : Nat → List Nat) : Nat → DeletedObjects →
    DeletedObjects × Nat
  | 0, s => (s, 0)
  | num + 1, s =>
    let s := (leaving num).foldl unregisterReader s
    match (s.queues index).get with
    | (none, _) => (s, 0)
    | (some o, queue) =>
      let (s, examined) :=
        disposeLoop index leaving num ((s.setQueue index queue).processEntry config index o)
      (s, examined + 1)

def disposeDeletedObjects (s : DeletedObjects) (index num : Nat) (leaving : Nat → List Nat) :
    DeletedObjects :=
  let (s, examined) := disposeLoop config index leaving num s
  { s with calls := s.calls ++ [⟨num, examined⟩] }

def step (s : DeletedObjects) : DisposalAction → Option DeletedObjects
  | .registerReader o => some (s.registerReader o)
  | .unregisterReader o => some (s.unregisterReader o)
  | .setFlags o flags => some (s.setFlags o flags)
  | .postUnlinkMessage o => some (s.postUnlinkMessage config o)
  | .disposeDeletedObjects index num leaving => some (s.disposeDeletedObjects config index num
  leaving)

/-! ## What is asked for -/

def IsInTable (s : DeletedObjects) (o : Nat) : Prop :=
  ∃ objects, (s.tables (s.tableOf config o)).enumerate = some objects ∧ o ∈ objects

/-- Readers register before an object is deleted, objects are in their table when they are posted,
nobody has links to them, they are not posted twice, and their queue can grow. -/
def Admits (s : DeletedObjects) : DisposalAction → Prop
  | .registerReader o => (s.flags o).beingDeleted = false
  | .unregisterReader _ => True
  | .setFlags o flags =>
    flags.deleted = (s.flags o).deleted ∧
      ((s.flags o).beingDeleted = true → flags.beingDeleted = true)
  | .postUnlinkMessage o => s.IsInTable config o ∧ s.flags o = ⟨true, false, false, false⟩ ∧
      ((s.queues (s.tableOf config o)).putAlways o).1 = true
  | .disposeDeletedObjects index _ _ => index < config.numTables

/-- Tables with any objects, none of them posted yet, and empty queues of any capacity. -/
structure Initial (s : DeletedObjects) : Prop where
  numTables : 0 < config.numTables
  tables : ∀ i, ∃ recent old, (s.tables i).Represents config.store s.keys recent old ∧
    ∀ o ∈ recent ++ old, s.tableOf config o = i
  queues : ∀ i, (s.queues i).Contains []
  numDeletedObjects : s.numDeletedObjects = 0
  flags : ∀ o, (s.flags o).deleted = false
  posted : s.posted = []
  disposals : s.disposals = []
  calls : s.calls = []

def numQueued (s : DeletedObjects) : Nat := ∑ i ∈ Finset.range config.numTables, (s.queues i).count

def numEntries (s : DeletedObjects) (o : Nat) : Nat :=
  ∑ i ∈ Finset.range config.numTables, (s.queues i).contents.count (some o)

structure Conserves (s : DeletedObjects) : Prop where
  counter : s.numDeletedObjects = s.numQueued config % uintRange
  once : (s.disposals.map Disposal.object).Nodup
  unused : ∀ d ∈ s.disposals, d.readers = 0 ∧ d.linked = false ∧ d.object ∈ s.posted
  waiting : ∀ o ∈ s.posted, o ∉ s.disposals.map Disposal.object →
    s.IsInTable config o ∧ s.numEntries config o = 1
  examined : ∀ call ∈ s.calls, call.examined ≤ call.num

/-! ## The invariant -/

/-- The objects that are in the queues, and those that are in the tables. -/
structure Valid (s : DeletedObjects) (queued held : Nat → List Nat) : Prop where
  queues : ∀ i, (s.queues i).Contains (queued i)
  nodup : ∀ i, (queued i).Nodup
  tables : ∀ i, ∃ recent old, held i = recent ++ old ∧
    (s.tables i).Represents config.store s.keys recent old
  filed : ∀ i, ∀ o ∈ held i, s.tableOf config o = i
  linked : ∀ i, ∀ o ∈ queued i, o ∈ held i
  flagged : ∀ i, ∀ o ∈ queued i, (s.flags o).deleted = true
  recorded : ∀ i, ∀ o ∈ queued i, o ∈ s.posted
  waiting : ∀ o ∈ s.posted, o ∉ s.disposals.map Disposal.object → o ∈ queued (s.tableOf config o)
  once : (s.disposals.map Disposal.object).Nodup
  gone : ∀ d ∈ s.disposals, ∀ i, d.object ∉ held i
  unused : ∀ d ∈ s.disposals, d.readers = 0 ∧ d.linked = false ∧ d.object ∈ s.posted
  counter : s.numDeletedObjects =
    (∑ i ∈ Finset.range config.numTables, (queued i).length) % uintRange
  examined : ∀ call ∈ s.calls, call.examined ≤ call.num

variable {config} {s s' : DeletedObjects} {queued held : Nat → List Nat} {o i : Nat}

theorem Initial.valid (h : s.Initial config) : ∃ held, s.Valid config (fun _ => []) held := by
  choose recent old hrep hfiled using h.tables
  refine ⟨fun i => recent i ++ old i, ?_⟩
  exact
    { queues := h.queues
      nodup := fun _ => List.nodup_nil
      tables := fun i => ⟨recent i, old i, rfl, hrep i⟩
      filed := hfiled
      linked := by simp
      flagged := by simp
      recorded := by simp
      waiting := by simp [h.posted]
      once := by simp [h.disposals]
      gone := by simp [h.disposals]
      unused := by simp [h.disposals]
      counter := by simp [h.numDeletedObjects]
      examined := by simp [h.calls] }

theorem postUnlinkMessage_of_accepted {queue : Queue Nat}
    (hput : (s.queues (s.tableOf config o)).putAlways o = (true, queue)) :
    s.postUnlinkMessage config o =
      { s with
        flags := update s.flags o { s.flags o with deleted := true }
        queues := update s.queues (s.tableOf config o) queue
        numDeletedObjects := uintAdd s.numDeletedObjects 1
        posted := s.posted ++ [o] } := by
  have hput' : ((s.setFlags o { s.flags o with deleted := true }).queues
      ((s.setFlags o { s.flags o with deleted := true }).tableOf config o)).putAlways o =
        (true, queue) := hput
  simp only [DeletedObjects.postUnlinkMessage, hput', if_true]
  rfl

theorem sum_length_update (hi : i < config.numTables) (queued : Nat → List Nat) (xs : List Nat) :
    ∑ j ∈ Finset.range config.numTables, (update queued i xs j).length + (queued i).length =
      ∑ j ∈ Finset.range config.numTables, (queued j).length + xs.length := by
  have hmem : i ∈ Finset.range config.numTables := Finset.mem_range.mpr hi
  have hothers : ∑ j ∈ (Finset.range config.numTables).erase i, (update queued i xs j).length =
      ∑ j ∈ (Finset.range config.numTables).erase i, (queued j).length := by
    refine Finset.sum_congr rfl fun j hj => ?_
    rw [update_of_ne (Finset.ne_of_mem_erase hj)]
  have hnew := Finset.sum_erase_add _ (fun j => (update queued i xs j).length) hmem
  have hold := Finset.sum_erase_add _ (fun j => (queued j).length) hmem
  simp only [update_self] at hnew
  omega

namespace Valid

section

variable (h : s.Valid config queued held)
include h

theorem isInTable (ho : o ∈ held (s.tableOf config o)) :
    s.IsInTable config o := by
  obtain ⟨recent, old, hheld, hrep⟩ := h.tables (s.tableOf config o)
  exact ⟨recent ++ old, hrep.enumerate, hheld ▸ ho⟩

theorem mem_held (ho : s.IsInTable config o) :
    o ∈ held (s.tableOf config o) := by
  obtain ⟨recent, old, hheld, hrep⟩ := h.tables (s.tableOf config o)
  obtain ⟨objects, henumerate, hmem⟩ := ho
  rw [hrep.enumerate] at henumerate
  rw [hheld, Option.some.inj henumerate]
  exact hmem

theorem contents (i : Nat) :
    (s.queues i).contents = (queued i).map some := by
  rw [Queue.contents, (h.queues i).count]
  exact (h.queues i).contents

theorem numEntries_eq (htables : 0 < config.numTables)
    (ho : o ∈ queued (s.tableOf config o)) : s.numEntries config o = 1 := by
  have hmem : s.tableOf config o ∈ Finset.range config.numTables :=
    Finset.mem_range.mpr (config.getTableIndex_lt htables _)
  have hcount (i : Nat) : (s.queues i).contents.count (some o) = (queued i).count o := by
    rw [h.contents, List.count_map_of_injective _ _ (Option.some_injective Nat)]
  simp only [numEntries, hcount]
  rw [Finset.sum_eq_single_of_mem _ hmem]
  · exact List.count_eq_one_of_mem (h.nodup _) ho
  · intro i _ hne
    refine List.count_eq_zero.mpr fun hqueued => hne ?_
    exact (h.filed i o (h.linked i o hqueued)).symm

theorem conserves (htables : 0 < config.numTables) :
    s.Conserves config where
  counter := by
    simp only [numQueued, fun i => (h.queues i).count]
    exact h.counter
  once := h.once
  unused := h.unused
  waiting o ho hdisposed :=
    have hqueued := h.waiting o ho hdisposed
    ⟨h.isInTable (h.linked _ o hqueued), h.numEntries_eq htables hqueued⟩
  examined := h.examined

end

/-! ## Steps -/

section

variable (h : s.Valid config queued held)
include h

theorem registerReader (o : Nat) :
    (s.registerReader o).Valid config queued held := { h with }

theorem unregisterReader (o : Nat) :
    (s.unregisterReader o).Valid config queued held := { h with }

theorem unregisterReaders (leaving : List Nat) :
    (leaving.foldl DeletedObjects.unregisterReader s).Valid config queued held := by
  induction leaving generalizing s with
  | nil => exact h
  | cons o leaving ih => exact ih (h.unregisterReader o)

theorem setFlags {flags : ObjectFlags}
    (hflags : (s.flags o).deleted = true → flags.deleted = true) :
    (s.setFlags o flags).Valid config queued held :=
  { h with
    flagged := by
      intro i o' ho'
      have hdeleted := h.flagged i o' ho'
      by_cases heq : o' = o
      · subst heq
        simpa [DeletedObjects.setFlags] using hflags hdeleted
      · simpa [DeletedObjects.setFlags, heq] using hdeleted }

theorem postUnlinkMessage (htables : 0 < config.numTables)
    (hadmits : s.Admits config (.postUnlinkMessage o)) :
    (s.postUnlinkMessage config o).Valid config
      (update queued (s.tableOf config o) (queued (s.tableOf config o) ++ [o])) held := by
  obtain ⟨htable, hflags, haccepted⟩ := hadmits
  have hlive : (s.flags o).deleted = false := by rw [hflags]
  have hheld := h.mem_held htable
  have hnew (i : Nat) : o ∉ queued i := fun hmem => by simpa [hlive] using h.flagged i o hmem
  obtain ⟨queue, hput, hqueue⟩ | hput := (h.queues (s.tableOf config o)).putAlways o
  · have hmem {i o' : Nat} (ho' : o' ∈ update queued (s.tableOf config o)
        (queued (s.tableOf config o) ++ [o]) i) : o' ∈ queued i ∨ o' = o ∧
        i = s.tableOf config o := by
      by_cases hi : i = s.tableOf config o
      · subst hi
        simpa using ho'
      · exact .inl (by simpa [hi] using ho')
    have hwaiting : ∀ o' ∈ s.posted ++ [o], o' ∉ s.disposals.map Disposal.object →
        o' ∈ update queued (s.tableOf config o) (queued (s.tableOf config o) ++ [o])
          (s.tableOf config o') := by
      intro o' ho' hdisposed
      obtain hposted | heq := List.mem_append.mp ho'
      · have hqueued := h.waiting o' hposted hdisposed
        by_cases hi : s.tableOf config o' = s.tableOf config o
        · rw [hi, update_self]
          exact List.mem_append_left _ (hi ▸ hqueued)
        · rwa [update_of_ne hi]
      · obtain rfl := List.mem_singleton.mp heq
        simp
    have hcounter : uintAdd s.numDeletedObjects 1 = (∑ i ∈ Finset.range config.numTables,
        (update queued (s.tableOf config o) (queued (s.tableOf config o) ++ [o]) i).length) %
          uintRange := by
      have hsum := sum_length_update (config.getTableIndex_lt htables (s.keys o).hash) queued
        (queued (s.tableOf config o) ++ [o])
      rw [List.length_append, List.length_singleton] at hsum
      rw [h.counter, uintAdd, Nat.mod_add_mod]
      congr 1
      exact (Nat.add_right_cancel (hsum.trans (by simp only [tableOf]; omega))).symm
    rw [postUnlinkMessage_of_accepted hput]
    exact
      { tables := h.tables
        filed := h.filed
        once := h.once
        gone := h.gone
        examined := h.examined
        queues := fun i => by
          by_cases hi : i = s.tableOf config o
          · subst hi
            simpa using hqueue
          · simpa [hi] using h.queues i
        nodup := fun i => by
          by_cases hi : i = s.tableOf config o
          · subst hi
            simpa using (h.nodup _).concat (hnew _)
          · simpa [hi] using h.nodup i
        linked := fun i o' ho' => by
          obtain hqueued | ⟨rfl, rfl⟩ := hmem ho'
          · exact h.linked i o' hqueued
          · exact hheld
        flagged := fun i o' ho' => by
          obtain hqueued | ⟨rfl, -⟩ := hmem ho'
          · have hne : o' ≠ o := fun heq => hnew i (heq ▸ hqueued)
            simpa [hne] using h.flagged i o' hqueued
          · simp
        recorded := fun i o' ho' => by
          obtain hqueued | ⟨rfl, -⟩ := hmem ho'
          · exact List.mem_append_left _ (h.recorded i o' hqueued)
          · simp
        waiting := hwaiting
        unused := fun d hd => by
          obtain ⟨hreaders, hlinked, hposted⟩ := h.unused d hd
          exact ⟨hreaders, hlinked, List.mem_append_left _ hposted⟩
        counter := hcounter }
  · simp [hput] at haccepted

theorem putBack {queue : Queue Nat} {xs : List Nat}
    (hi : i < config.numTables) (hqueued : queued i = o :: xs)
    (hqueue : queue.Contains (xs ++ [o])) :
    (s.setQueue i queue).Valid config (update queued i (xs ++ [o])) held := by
  have hperm (j : Nat) : (update queued i (xs ++ [o]) j).Perm (queued j) := by
    by_cases hj : j = i
    · subst hj
      rw [update_self, hqueued]
      exact List.perm_append_singleton o xs
    · rw [update_of_ne hj]
  exact
    { h with
      queues := fun j => by
        by_cases hj : j = i
        · subst hj
          simpa [DeletedObjects.setQueue] using hqueue
        · simpa [DeletedObjects.setQueue, hj] using h.queues j
      nodup := fun j => (hperm j).nodup_iff.mpr (h.nodup j)
      linked := fun j o' ho' => h.linked j o' ((hperm j).mem_iff.mp ho')
      flagged := fun j o' ho' => h.flagged j o' ((hperm j).mem_iff.mp ho')
      recorded := fun j o' ho' => h.recorded j o' ((hperm j).mem_iff.mp ho')
      waiting := fun o' ho' hdisposed => (hperm _).mem_iff.mpr (h.waiting o' ho' hdisposed)
      counter := by
        have hlength := fun j => (hperm j).length_eq
        simp only [hlength]
        exact h.counter }

end

theorem sublist_update {xs : List Nat} (hqueued : queued i = o :: xs) (j : Nat) :
    (update queued i xs j).Sublist (queued j) := by
  by_cases hj : j = i
  · subst hj
    rw [update_self, hqueued]
    exact List.sublist_cons_self o xs
  · rw [update_of_ne hj]

section

variable (h : s.Valid config queued held)
include h

/-- An object has one entry in all queues. -/
theorem ne_of_mem_update {xs : List Nat}
    (hqueued : queued i = o :: xs) {j o' : Nat} (ho' : o' ∈ update queued i xs j) : o' ≠ o := by
  rintro rfl
  have hlinked := h.linked j o' ((sublist_update hqueued j).subset ho')
  by_cases hj : j = i
  · subst hj
    have hnodup := h.nodup j
    rw [hqueued, List.nodup_cons] at hnodup
    exact hnodup.1 (by simpa using ho')
  · have htable := h.filed i o' (h.linked i o' (by simp [hqueued]))
    exact hj ((h.filed j o' hlinked).symm.trans htable)

theorem mem_update_filter (hheld : o ∈ held i) {j o' : Nat} :
    o' ∈ update held i ((held i).filter (· ≠ o)) j ↔ o' ∈ held j ∧ o' ≠ o := by
  by_cases hj : j = i
  · subst hj
    simp
  · have hne : o' ∈ held j → o' ≠ o := by
      rintro ho' rfl
      exact hj ((h.filed j o' ho').symm.trans (h.filed i o' hheld))
    simpa [hj] using hne

theorem tables_remove (hheld : o ∈ held i) (j : Nat) :
    ∃ recent old, update held i ((held i).filter (· ≠ o)) j = recent ++ old ∧
      (update s.tables i ((s.tables i).remove config.store s.keys o) j).Represents config.store
        s.keys recent old := by
  by_cases hj : j = i
  · subst hj
    obtain ⟨recent, old, hlists, hrep⟩ := h.tables j
    rw [update_self, update_self, hlists]
    exact ⟨_, _, List.filter_append .., hrep.remove (hlists ▸ hheld)⟩
  · rw [update_of_ne hj, update_of_ne hj]
    exact h.tables j

/-- The object is not in its table any more when it is disposed of. -/
theorem removeDisposed_eq (queue : Queue Nat)
    (hheld : o ∈ held i) :
    (((s.setQueue i queue).removeFromTable config i o).dispose i o).decrementNumDeletedObjects =
      { s with
        queues := update s.queues i queue
        tables := update s.tables i ((s.tables i).remove config.store s.keys o)
        disposals := s.disposals ++ [⟨o, s.readers o, false⟩]
        numDeletedObjects := uintSub s.numDeletedObjects 1 } := by
  obtain ⟨recent, old, hlists, hrep⟩ := h.tables i
  have henumerate : (((s.setQueue i queue).removeFromTable config i o).tables i).enumerate =
      some (recent.filter (· ≠ o) ++ old.filter (· ≠ o)) := by
    simpa [removeFromTable, setQueue] using (hrep.remove (hlists ▸ hheld)).enumerate
  have hunlinked : ((s.setQueue i queue).removeFromTable config i o).isLinked i o = false := by
    simp [isLinked, henumerate]
  rw [dispose, hunlinked]
  rfl

theorem removeDisposed {queue : Queue Nat} {xs : List Nat}
    (hi : i < config.numTables) (hqueued : queued i = o :: xs) (hqueue : queue.Contains xs)
    (hreaders : s.readers o = 0) :
    ((((s.setQueue i queue).removeFromTable config i o).dispose
    i o).decrementNumDeletedObjects).Valid
      config (update queued i xs) (update held i ((held i).filter (· ≠ o))) := by
  have hfirst : o ∈ queued i := by simp [hqueued]
  have hheld := h.linked i o hfirst
  have hsub := sublist_update hqueued
  have hcounter : uintSub s.numDeletedObjects 1 = (∑ j ∈ Finset.range config.numTables,
      (update queued i xs j).length) % uintRange := by
    have hsum := sum_length_update hi queued xs
    rw [hqueued, List.length_cons] at hsum
    rw [h.counter, uintSub, uintRange]
    omega
  have hnotYet : o ∉ s.disposals.map Disposal.object := by
    intro hmem
    obtain ⟨d, hd, rfl⟩ := List.mem_map.mp hmem
    exact h.gone d hd i hheld
  have hdisposals {d : Disposal} (hd : d ∈ s.disposals ++ [⟨o, s.readers o, false⟩]) :
      d ∈ s.disposals ∨ d = ⟨o, s.readers o, false⟩ := by
    simpa using hd
  rw [removeDisposed_eq h queue hheld]
  exact
    { examined := h.examined
      tables := tables_remove h hheld
      counter := hcounter
      queues := fun j => by
        by_cases hj : j = i
        · subst hj
          simpa using hqueue
        · simpa [hj] using h.queues j
      nodup := fun j => (h.nodup j).sublist (hsub j)
      filed := fun j o' ho' => h.filed j o' ((mem_update_filter h hheld).mp ho').1
      linked := fun j o' ho' => (mem_update_filter h hheld).mpr
        ⟨h.linked j o' ((hsub j).subset ho'), ne_of_mem_update h hqueued ho'⟩
      flagged := fun j o' ho' => h.flagged j o' ((hsub j).subset ho')
      recorded := fun j o' ho' => h.recorded j o' ((hsub j).subset ho')
      waiting := fun o' ho' hdisposed => by
        simp only [List.map_append, List.map_singleton, List.mem_append, List.mem_singleton,
          not_or] at hdisposed
        have hwaits := h.waiting o' ho' hdisposed.1
        change o' ∈ update queued i xs (s.tableOf config o')
        by_cases hj : s.tableOf config o' = i
        · rw [hj, hqueued] at hwaits
          rw [hj, update_self]
          exact (List.mem_cons.mp hwaits).resolve_left hdisposed.2
        · rwa [update_of_ne hj]
      once := by
        rw [List.map_append, List.map_singleton]
        simpa using h.once.concat hnotYet
      gone := fun d hd j hmem => by
        obtain ⟨hmem, hne⟩ := (mem_update_filter h hheld).mp hmem
        obtain hd | rfl := hdisposals hd
        · exact h.gone d hd j hmem
        · exact hne rfl
      unused := fun d hd => by
        obtain hd | rfl := hdisposals hd
        · exact h.unused d hd
        · exact ⟨hreaders, rfl, h.recorded i o hfirst⟩ }

theorem processEntry {queue : Queue Nat}
    (hi : i < config.numTables) (hget : (s.queues i).get = (some o, queue)) :
    ∃ queued held, ((s.setQueue i queue).processEntry config i o).Valid config queued held := by
  have hqueue := h.queues i
  cases hqueued : queued i with
  | nil =>
    rw [hqueued] at hqueue
    simp [hqueue.get_nil] at hget
  | cons o' xs =>
    rw [hqueued] at hqueue
    obtain ⟨queue', hget', hring, hcapacity, hmax⟩ := hqueue.get_cons
    rw [hget] at hget'
    obtain ⟨hsame, rfl⟩ := Prod.mk.inj hget'
    cases hsame
    have hcontains : queue.Contains xs :=
      hring.contains (hcapacity ▸ hqueue.le) hmax hqueue.maxCapacity
    simp only [DeletedObjects.processEntry]
    split_ifs with hreaders
    · -- a message was taken just now, so there is room for another one
      have hfits := hqueue.fits
      have hcount := hcontains.count
      have hspace : xs.length < queue.capacity := by
        rw [hcapacity]
        exact hfits
      have hput : queue.putAlways o = (true, queue.append o) := by
        rw [Queue.putAlways, Queue.putAlwaysWith, if_neg (by omega)]
      have hback := h.putBack hi hqueued (hcontains.append hspace o)
      have hstate : (s.setQueue i queue).setQueue i (((s.setQueue i queue).queues i).putAlways o).2
          = s.setQueue i (queue.append o) := by
        simp [setQueue, hput]
      rw [hstate]
      exact ⟨_, held, hback⟩
    · exact ⟨_, _, h.removeDisposed hi hqueued hcontains (not_not.mp hreaders)⟩

theorem disposeLoop (num : Nat) (leaving : Nat → List Nat)
    (hi : i < config.numTables) :
    (∃ queued held, (disposeLoop config i leaving num s).1.Valid config queued held) ∧
      (disposeLoop config i leaving num s).2 ≤ num := by
  induction num generalizing s queued held with
  | zero => exact ⟨⟨queued, held, h⟩, Nat.le_refl 0⟩
  | succ num ih =>
    have hleft := h.unregisterReaders (leaving num)
    simp only [DeletedObjects.disposeLoop]
    split
    · exact ⟨⟨queued, held, hleft⟩, Nat.zero_le _⟩
    · rename_i o queue hget
      obtain ⟨queued', held', hnext⟩ := hleft.processEntry hi hget
      obtain ⟨hvalid, hexamined⟩ := ih hnext
      exact ⟨hvalid, Nat.succ_le_succ hexamined⟩

theorem step {a : DisposalAction} (htables : 0 < config.numTables)
    (hadmits : s.Admits config a) (hs' : s.step config a = some s') :
    ∃ queued held, s'.Valid config queued held := by
  cases a with
  | registerReader o =>
    cases hs'
    exact ⟨queued, held, h.registerReader o⟩
  | unregisterReader o =>
    cases hs'
    exact ⟨queued, held, h.unregisterReader o⟩
  | setFlags o flags =>
    cases hs'
    exact ⟨queued, held, h.setFlags fun hdeleted => hadmits.1.trans hdeleted⟩
  | postUnlinkMessage o =>
    cases hs'
    exact ⟨_, held, h.postUnlinkMessage htables hadmits⟩
  | disposeDeletedObjects index num leaving =>
    cases hs'
    obtain ⟨⟨queued', held', hvalid⟩, hexamined⟩ := h.disposeLoop num leaving hadmits
    refine ⟨queued', held', { hvalid with examined := fun call hcall => ?_ }⟩
    obtain hcall | hcall := List.mem_append.mp hcall
    · exact hvalid.examined call hcall
    · obtain rfl := List.mem_singleton.mp hcall
      exact hexamined

end

end Valid

/-- In every sequence of calls, nothing is disposed twice or while it is in use, and nothing is
lost. -/
theorem deleted_conserved {start : DeletedObjects} {actions : List DisposalAction}
    (hstart : start.Initial config)
    (hruns : Reaches (step config) (Admits config) start actions s) :
    s.Conserves config := by
  have htables := hstart.numTables
  obtain ⟨held, hvalid⟩ := hstart.valid
  obtain ⟨queued, held, hvalid⟩ :=
    hruns.invariant (P := fun s => ∃ queued held, s.Valid config queued held)
    ⟨_, held, hvalid⟩ fun _ _ _ ⟨_, _, h⟩ hadmits hs' => h.step htables hadmits hs'
  exact hvalid.conserves htables

/-! ## Many objects -/

def fourTables : StoreConfiguration := ⟨.session, 4, ⟨0, fun n => n / 2⟩, 0, 4, 64⟩

def evenKey (o : Nat) : HashObject := ⟨UInt64.ofNat o, []⟩

def share (n i : Nat) : List Nat := (List.range n).filter (· % 4 = i)

def tableWith (objects : List Nat) : HashTable Nat :=
  objects.foldr (fun o ht => ht.link fourTables.store evenKey o) (.create 0)

/-- All objects are to be deleted, and nobody has links to them. -/
def manyObjects (n : Nat) : DeletedObjects where
  tables := fun i => tableWith (share n i)
  queues := fun _ => .create 1 1
  numDeletedObjects := 0
  keys := evenKey
  flags := fun _ => ⟨true, false, false, false⟩
  readers := fun _ => 0
  posted := []
  disposals := []
  calls := []

theorem tableWith_represents {objects : List Nat} (hnodup : objects.Nodup) :
    (tableWith objects).Represents fourTables.store evenKey objects [] := by
  induction objects with
  | nil => exact HashTable.create_represents _ _ 0
  | cons o objects ih =>
    obtain ⟨hnew, hrest⟩ := List.nodup_cons.mp hnodup
    exact (ih hrest).link (by simpa using hnew)

theorem nodup_share (n i : Nat) : (share n i).Nodup := List.nodup_range.filter _

theorem getTableIndex_evenKey (o : Nat) : fourTables.getTableIndex (evenKey o).hash = o % 4 := by
  have hmask : 4 - 1 = 2 ^ 2 - 1 := rfl
  simp only [fourTables, StoreConfiguration.getTableIndex, evenKey, uintRange, UInt64.toNat_ofNat']
  rw [hmask, Nat.and_two_pow_sub_one_eq_mod]
  omega

theorem length_share {i : Nat} (hi : i < 4) (n : Nat) : (share n i).length = (n + 3 - i) / 4 := by
  induction n with
  | zero => simp [share]; omega
  | succ n ih =>
    rw [share, List.range_succ, List.filter_append, List.length_append]
    change (share n i).length + _ = _
    by_cases hmod : n % 4 = i
    · simp [ih, hmod]
      omega
    · simp [ih, hmod]
      omega

theorem manyObjects_initial (n : Nat) : (manyObjects n).Initial fourTables where
  numTables := by decide
  tables i := by
    refine ⟨share n i, [], tableWith_represents (nodup_share n i), fun o ho => ?_⟩
    have hmem : o ∈ share n i := by simpa using ho
    simp only [share, List.mem_filter, decide_eq_true_eq] at hmem
    exact (getTableIndex_evenKey o).trans hmem.2
  queues _ := (Queue.create_holds 1 1).contains
  numDeletedObjects := rfl
  flags _ := rfl
  posted := rfl
  disposals := rfl
  calls := rfl

structure HasPosted (n k : Nat) (s : DeletedObjects) : Prop where
  tables : s.tables = fun i => tableWith (share n i)
  keys : s.keys = evenKey
  queues : ∀ i, (s.queues i).Contains (share k i)
  flags : ∀ o ≥ k, s.flags o = ⟨true, false, false, false⟩
  counter : s.numDeletedObjects = k % uintRange

theorem HasPosted.step {n k : Nat} (h : HasPosted n k s) (hk : k < n) (hlimit : n ≤ 2 ^ 32) :
    s.Admits fourTables (.postUnlinkMessage k) ∧
    HasPosted n (k + 1) (s.postUnlinkMessage fourTables k) := by
  have htable : s.tableOf fourTables k = k % 4 := by rw [tableOf, h.keys, getTableIndex_evenKey]
  have hlength := length_share (Nat.mod_lt k (by decide : 0 < 4)) k
  have hqueue := h.queues (k % 4)
  have haccepted : ((s.queues (k % 4)).putAlways k).1 = true := by
    have hcount := hqueue.count
    simp only [Queue.putAlways, Queue.putAlwaysWith]
    split_ifs
    · rfl
    · omega
    · rfl
    · rfl
  obtain ⟨queue, hput, hnext⟩ | hput := hqueue.putAlways k
  · have hflags := h.flags k (Nat.le_refl k)
    have hmem : k ∈ share n (k % 4) := by simp [share, hk]
    have hin : s.IsInTable fourTables k := by
      refine ⟨share n (k % 4), ?_, hmem⟩
      rw [htable, h.tables]
      simpa using (tableWith_represents (nodup_share n (k % 4))).enumerate
    refine ⟨⟨hin, hflags, by rw [htable, haccepted]⟩, ?_⟩
    rw [postUnlinkMessage_of_accepted (by rw [htable, hput]), htable]
    exact
      { tables := h.tables
        keys := h.keys
        queues := fun i => by
          by_cases hi : i = k % 4
          · subst hi
            simpa [share, List.range_succ] using hnext
          · simpa [share, List.range_succ, hi, Ne.symm hi] using h.queues i
        flags := fun o ho => by
          have hne : o ≠ k := by omega
          simpa [hne] using h.flags o (by omega)
        counter := by
          change uintAdd s.numDeletedObjects 1 = _
          rw [h.counter, uintAdd, Nat.mod_add_mod] }
  · simp [hput] at haccepted

theorem exists_hasPosted {n k : Nat} (hk : k ≤ n) (hlimit : n ≤ 2 ^ 32) : ∃ actions s,
    Reaches (step fourTables) (Admits fourTables) (manyObjects n) actions s ∧ HasPosted n k s := by
  induction k with
  | zero =>
    refine ⟨[], _, .nil, rfl, rfl, fun i => ?_, fun _ _ => rfl, rfl⟩
    exact (Queue.create_holds 1 1).contains
  | succ k ih =>
    obtain ⟨actions, s, hruns, hposted⟩ := ih (by omega)
    obtain ⟨hadmits, hnext⟩ := hposted.step hk hlimit
    exact ⟨_, _, hruns.snoc hadmits rfl, hnext⟩

theorem deleted_conserved_of_two : ∃ actions s s',
    Reaches (step fourTables) (Admits fourTables) (manyObjects 2) actions s ∧
      s.numDeletedObjects = 2 ∧ Reaches (step fourTables) (Admits fourTables) (manyObjects 2)
        (actions ++ [.disposeDeletedObjects 0 5 fun _ => []] ++
        [.disposeDeletedObjects 1 1 fun _ => []]) s' ∧
      s'.Conserves fourTables := by
  obtain ⟨actions, s, hruns, hposted⟩ := exists_hasPosted (Nat.le_refl 2) (by decide)
  have hfirst : Admits fourTables s (.disposeDeletedObjects 0 5 fun _ => []) :=
    (by decide : 0 < fourTables.numTables)
  have hsecond (s : DeletedObjects) :
      Admits fourTables s (.disposeDeletedObjects 1 1 fun _ => []) :=
    (by decide : 1 < fourTables.numTables)
  have hdisposed := (hruns.snoc hfirst rfl).snoc (hsecond _) rfl
  exact ⟨actions, s, _, hruns, hposted.counter, hdisposed,
    deleted_conserved (manyObjects_initial 2) hdisposed⟩

/-- When the last one of many objects is posted, the counter starts again at zero. -/
theorem counter_starts_again : ∃ start actions s, Initial fourTables start ∧
    Reaches (step fourTables) (Admits fourTables) start actions s ∧
      s.numQueued fourTables = 2 ^ 32 ∧ s.numDeletedObjects = 0 := by
  obtain ⟨actions, s, hruns, hposted⟩ := exists_hasPosted (Nat.le_refl (2 ^ 32)) (Nat.le_refl _)
  refine ⟨manyObjects (2 ^ 32), actions, s, manyObjects_initial _, hruns, ?_, hposted.counter⟩
  have hlength (i : Nat) (hi : i < 4) : (s.queues i).count = (2 ^ 32 + 3 - i) / 4 := by
    rw [(hposted.queues i).count, length_share hi]
  have htables : fourTables.numTables = 4 := rfl
  rw [numQueued, htables]
  simp [Finset.sum_range_succ, hlength]

end DeletedObjects

end CyberCache
