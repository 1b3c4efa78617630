import CyberCache.Lib.Runs
import CyberCache.Store.PayloadStore
import CyberCache.Threads.MutexGuards

/-!
# Commands that write at the same time

Several connection threads execute `WRITE` commands, or `SAVE` commands. Each looks for its object
with a shared lock on the table, and if there is none, makes one and asks for an exclusive lock. If
others have shared locks too, the thread gives up its own and waits; when it gets the exclusive
lock, it adds its object without looking again. Two threads that look for the same missing object
therefore add two of them, unless they look one after the other.
-/

namespace CyberCache

open Function (update update_self update_of_ne)

/-! ## Threads -/

/-- Where a thread is in `process_write_command()`. -/
inductive WriterState where
  | idle
  /-- It has a shared lock. -/
  | looking (key : HashObject)
  /-- It has found an object that is alive, and wants to lock it. -/
  | found (key : HashObject) (o : Nat)
  /-- It has made a new object, and wants to upgrade its lock. -/
  | missing (key : HashObject) (o : Nat)
  /-- It has no lock, and waits for an exclusive one. -/
  | waiting (key : HashObject) (o : Nat)
  /-- It has an exclusive lock. -/
  | adding (key : HashObject) (o : Nat)
  /-- It has a shared lock, and has locked the object. -/
  | writing (key : HashObject) (o : Nat)
deriving DecidableEq

def WriterState.pending? : WriterState → Option (HashObject × Nat)
  | .missing key o | .waiting key o | .adding key o => some (key, o)
  | .idle | .looking _ | .found _ _ | .writing _ _ => none

inductive WriterAction where
  | lockShared (t : Nat) (key : HashObject)
  | find (t : Nat)
  | lockObject (t : Nat)
  | beginUpgrade (t : Nat)
  | endUpgrade (t : Nat)
  | add (t : Nat)
  | finish (t : Nat)

def WriterAction.thread : WriterAction → Nat
  | .lockShared t _ | .find t | .lockObject t | .beginUpgrade t | .endUpgrade t | .add t
  | .finish t => t

structure WriterThreads where
  tables : Nat → HashTable Nat
  mutexes : Nat → DynamicMutex
  numObjects : Nat
  keys : Nat → HashObject
  beingDeleted : Nat → Bool
  locked : Nat → Bool
  threads : Nat → WriterState

namespace WriterThreads

def create (config : StoreConfiguration) : WriterThreads where
  tables := fun _ => .create config.wanted
  mutexes := fun _ => .create
  numObjects := 0
  keys := fun _ => ⟨0, []⟩
  beingDeleted := fun _ => false
  locked := fun _ => false
  threads := fun _ => .idle

def setThread (s : WriterThreads) (t : Nat) (place : WriterState) : WriterThreads :=
  { s with threads := update s.threads t place }

def setMutex (s : WriterThreads) (index : Nat) (mutex : DynamicMutex) : WriterThreads :=
  { s with mutexes := update s.mutexes index mutex }

def setLocked (s : WriterThreads) (o : Nat) (locked : Bool) : WriterThreads :=
  { s with locked := update s.locked o locked }

/-- A new object, which is locked before it is added to its table. -/
def makeObject (s : WriterThreads) (t : Nat) (key : HashObject) : WriterThreads :=
  { s with
    numObjects := s.numObjects + 1
    keys := update s.keys s.numObjects key
    locked := update s.locked s.numObjects true
    threads := update s.threads t (.missing key s.numObjects) }

variable (config : StoreConfiguration)

/-- One step of a thread; `none` if it has to wait or is somewhere else. -/
def act (s : WriterThreads) : WriterAction → Option WriterThreads
  | .lockShared t key =>
    match s.threads t with
    | .idle => do
      let mutex ← (s.mutexes (config.getTableIndex key.hash)).lockShared
      return (s.setMutex (config.getTableIndex key.hash) mutex).setThread t (.looking key)
    | _ => none
  | .find t =>
    match s.threads t with
    | .looking key => do
      let found ← (s.tables (config.getTableIndex key.hash)).find config.store s.keys key.hash
        key.name
      match found.filter fun o => !s.beingDeleted o with
      | some o => return s.setThread t (.found key o)
      | none => return s.makeObject t key
    | _ => none
  | .lockObject t =>
    match s.threads t with
    | .found key o =>
      if s.locked o then none
      -- the object could have been marked while the thread was waiting for it
      else if s.beingDeleted o then some (s.makeObject t key)
      else some ((s.setLocked o true).setThread t (.writing key o))
    | _ => none
  | .beginUpgrade t =>
    match s.threads t with
    | .missing key o =>
      let (done, mutex) := (s.mutexes (config.getTableIndex key.hash)).beginUpgrade
      some ((s.setMutex (config.getTableIndex key.hash) mutex).setThread t
        (if done then .adding key o else .waiting key o))
    | _ => none
  | .endUpgrade t =>
    match s.threads t with
    | .waiting key o => do
      let mutex ← (s.mutexes (config.getTableIndex key.hash)).endUpgrade
      return (s.setMutex (config.getTableIndex key.hash) mutex).setThread t (.adding key o)
    | _ => none
  | .add t =>
    match s.threads t with
    | .adding key o => do
      let index := config.getTableIndex key.hash
      let (_, table) ← (s.tables index).add config.store s.keys o
      -- nobody else can do anything with the table before the lock is downgraded
      return ({ s with tables := update s.tables index table }.setMutex index
        (s.mutexes index).downgradeLock).setThread t (.writing key o)
    | _ => none
  | .finish t =>
    match s.threads t with
    | .writing key o =>
      let index := config.getTableIndex key.hash
      some (((s.setLocked o false).setMutex index (s.mutexes index).unlockShared).setThread t .idle)
    | _ => none

def step (numThreads : Nat) (s : WriterThreads) (a : WriterAction) : Option WriterThreads :=
  if a.thread < numThreads then s.act config a else none

/-! ## One object for each name -/

/-- No table holds two objects of the same name that are alive. -/
def HoldsUnique (s : WriterThreads) : Prop :=
  ∀ i, ∃ objects, (s.tables i).enumerate = some objects ∧
    ∀ key, (objects.filter fun o => s.keys o = key ∧ s.beingDeleted o = false).length ≤ 1

def KeepsSize (s : WriterThreads) : WriterAction → Prop
  | .add t => ∀ key o, s.threads t = .adding key o →
      (s.tables (config.getTableIndex key.hash)).resizes config.store = false
  | _ => True

/-- No thread looks for an object while another one is about to add an object of this name. -/
def LooksAlone (numThreads : Nat) (s : WriterThreads) : WriterAction → Prop
  | .find t => ∀ t' < numThreads, ∀ p ∈ (s.threads t').pending?, s.threads t ≠ .looking p.1
  | _ => True

structure Unique (numThreads : Nat) (s : WriterThreads) : Prop where
  flags : ∀ o, s.beingDeleted o = false
  idle : ∀ t, numThreads ≤ t → s.threads t = .idle
  tables : ∀ i, ∃ recent, (s.tables i).Represents config.store s.keys recent [] ∧
    HashTable.DistinctKeys s.keys recent ∧ ∀ o ∈ recent, o < s.numObjects
  pending : ∀ t, ∀ p ∈ (s.threads t).pending?, p.2 < s.numObjects ∧ s.keys p.2 = p.1 ∧
    ∀ objects ∈ (s.tables (config.getTableIndex p.1.hash)).enumerate,
      ∀ o ∈ objects, s.keys o ≠ p.1
  apart : ∀ t t', t ≠ t' → ∀ p ∈ (s.threads t).pending?, ∀ p' ∈ (s.threads t').pending?,
    p.1 ≠ p'.1

variable {config} {numThreads : Nat} {s s' : WriterThreads} {t : Nat} {key : HashObject} {o : Nat}
  {a : WriterAction} {actions : List WriterAction}

theorem create_unique : (create config).Unique config numThreads where
  flags _ := rfl
  idle _ _ := rfl
  tables _ := ⟨[], HashTable.create_represents _ _ _, List.nodup_nil, by simp⟩
  pending _ p hp := absurd hp (by simp [create, WriterState.pending?])
  apart _ _ _ p hp := absurd hp (by simp [create, WriterState.pending?])

section

variable (h : s.Unique config numThreads)
include h

theorem Unique.holdsUnique : s.HoldsUnique := by
  intro i
  obtain ⟨recent, hrepresents, hdistinct, -⟩ := h.tables i
  refine ⟨recent ++ [], hrepresents.enumerate, fun key => ?_⟩
  rw [List.append_nil]
  have hsame : ∀ k ∈ (recent.filter fun o => s.keys o = key ∧ s.beingDeleted o = false).map s.keys,
      k = key := by
    simp only [List.mem_map, List.mem_filter, decide_eq_true_eq]
    rintro k ⟨o, ⟨-, hkey, -⟩, rfl⟩
    exact hkey
  have hnodup : ((recent.filter fun o => s.keys o = key ∧ s.beingDeleted o = false).map
      s.keys).Nodup := hdistinct.sublist (List.filter_sublist.map s.keys)
  rw [List.eq_replicate_of_mem hsame, List.nodup_replicate, List.length_map] at hnodup
  exact hnodup

theorem Unique.move (ht : t < numThreads)
    (htables : s'.tables = s.tables) (hnum : s'.numObjects = s.numObjects)
    (hkeys : s'.keys = s.keys) (hflags : s'.beingDeleted = s.beingDeleted) {place : WriterState}
    (hthreads : s'.threads = update s.threads t place)
    (hplace : ∀ p ∈ place.pending?, p ∈ (s.threads t).pending?) :
    s'.Unique config numThreads := by
  have hpending (t' : Nat) : ∀ p ∈ (s'.threads t').pending?, p ∈ (s.threads t').pending? := by
    intro p hp
    rw [hthreads] at hp
    obtain rfl | hne := eq_or_ne t' t
    · exact hplace p (by simpa using hp)
    · simpa [hne] using hp
  constructor
  · rw [hflags]
    exact h.flags
  · intro t' ht'
    rw [hthreads, update_of_ne (by omega)]
    exact h.idle t' ht'
  · rw [htables, hnum, hkeys]
    exact h.tables
  · rw [htables, hnum, hkeys]
    exact fun t' p hp => h.pending t' p (hpending t' p hp)
  · exact fun t₁ t₂ hne p hp p' hp' => h.apart t₁ t₂ hne p (hpending _ p hp) p' (hpending _ p' hp')

theorem Unique.makeObject (ht : t < numThreads)
    (hmissing : ∀ objects ∈ (s.tables (config.getTableIndex key.hash)).enumerate,
      ∀ o ∈ objects, s.keys o ≠ key)
    (halone : ∀ t', ∀ p ∈ (s.threads t').pending?, p.1 ≠ key) :
    (s.makeObject t key).Unique config numThreads := by
  have hold (o : Nat) (ho : o < s.numObjects) : (s.makeObject t key).keys o = s.keys o :=
    update_of_ne (Nat.ne_of_lt ho) _ _
  -- objects in tables have their names as before
  have htable (i : Nat) : ∀ objects ∈ (s.tables i).enumerate, ∀ o ∈ objects,
      (s.makeObject t key).keys o = s.keys o := by
    intro objects hobjects o ho
    obtain ⟨recent, hrepresents, -, hlt⟩ := h.tables i
    rw [hrepresents.enumerate, Option.mem_some_iff] at hobjects
    exact hold o (hlt o (by simpa [← hobjects] using ho))
  have hpending (t' : Nat) (p : HashObject × Nat)
      (hp : p ∈ ((s.makeObject t key).threads t').pending?) :
      t' = t ∧ p = (key, s.numObjects) ∨ t' ≠ t ∧ p ∈ (s.threads t').pending? := by
    obtain rfl | hne := eq_or_ne t' t
    · refine .inl ⟨rfl, ?_⟩
      simpa [WriterThreads.makeObject, WriterState.pending?, eq_comm] using hp
    · exact .inr ⟨hne, by simpa [WriterThreads.makeObject, hne] using hp⟩
  constructor
  · exact h.flags
  · intro t' ht'
    have hne : t' ≠ t := by omega
    simpa [WriterThreads.makeObject, hne] using h.idle t' ht'
  · intro i
    obtain ⟨recent, hrepresents, hdistinct, hlt⟩ := h.tables i
    refine ⟨recent, hrepresents.congr fun o ho => hold o (hlt o (by simpa using ho)), ?_,
      fun o ho => Nat.lt_succ_of_lt (hlt o ho)⟩
    rw [HashTable.DistinctKeys, List.map_congr_left fun o ho => hold o (hlt o ho)]
    exact hdistinct
  · intro t' p hp
    obtain ⟨-, rfl⟩ | ⟨-, hp⟩ := hpending t' p hp
    · refine ⟨Nat.lt_succ_self _, update_self .., fun objects hobjects o ho => ?_⟩
      rw [htable _ objects hobjects o ho]
      exact hmissing objects hobjects o ho
    · obtain ⟨hlt, hkey, hnone⟩ := h.pending t' p hp
      refine ⟨Nat.lt_succ_of_lt hlt, (hold _ hlt).trans hkey, fun objects hobjects o ho => ?_⟩
      rw [htable _ objects hobjects o ho]
      exact hnone objects hobjects o ho
  · intro t₁ t₂ hne p hp p' hp'
    obtain ⟨rfl, rfl⟩ | ⟨-, hq⟩ := hpending t₁ p hp <;>
      obtain ⟨rfl, rfl⟩ | ⟨-, hq'⟩ := hpending t₂ p' hp'
    · exact absurd rfl hne
    · exact (halone t₂ p' hq').symm
    · exact halone t₁ p hq
    · exact h.apart t₁ t₂ hne p hq p' hq'

theorem Unique.add (ht : t < numThreads)
    (hplace : s.threads t = .adding key o)
    (hsize : (s.tables (config.getTableIndex key.hash)).resizes config.store = false)
    {resized : Bool} {table : HashTable Nat} {mutexes : Nat → DynamicMutex}
    (hadd : (s.tables (config.getTableIndex key.hash)).add config.store s.keys o =
      some (resized, table)) :
    { s with
      tables := update s.tables (config.getTableIndex key.hash) table
      mutexes := mutexes
      threads := update s.threads t (.writing key o) }.Unique config numThreads := by
  have hpending : (key, o) ∈ (s.threads t).pending? := by simp [hplace, WriterState.pending?]
  obtain ⟨hlt, hkey, hnone⟩ := h.pending t (key, o) hpending
  obtain ⟨recent, hrepresents, hdistinct, hall⟩ := h.tables (config.getTableIndex key.hash)
  have hnone' (o' : Nat) (ho' : o' ∈ recent) : s.keys o' ≠ key :=
    hnone _ hrepresents.enumerate o' (by simpa using ho')
  have hnew : o ∉ recent ++ [] := fun ho => hnone' o (by simpa using ho) hkey
  obtain ⟨table', hadd', -, hrepresents'⟩ := hrepresents.add hnew
  obtain ⟨-, rfl⟩ := Prod.mk.inj (Option.some.inj (hadd'.symm.trans hadd))
  rw [hsize] at hrepresents'
  have hothers (t' : Nat) (p : HashObject × Nat)
      (hp : p ∈ (update s.threads t (.writing key o) t').pending?) :
      t' ≠ t ∧ p ∈ (s.threads t').pending? := by
    obtain rfl | hne := eq_or_ne t' t
    · simp [WriterState.pending?] at hp
    · exact ⟨hne, by simpa [hne] using hp⟩
  refine ⟨h.flags, fun t' ht' => ?_, fun i => ?_, fun t' p hp => ?_, fun t₁ t₂ hne p hp p'
    hp' => ?_⟩
  · exact (update_of_ne (by omega) _ _).trans (h.idle t' ht')
  · obtain rfl | hi := eq_or_ne i (config.getTableIndex key.hash)
    · refine ⟨o :: recent, by simpa using hrepresents', ?_, ?_⟩
      · refine List.nodup_cons.mpr ⟨fun hmem => ?_, hdistinct⟩
        obtain ⟨o', ho', hkey'⟩ := List.mem_map.mp hmem
        exact hnone' o' ho' (hkey'.trans hkey)
      · exact List.forall_mem_cons.mpr ⟨hlt, hall⟩
    · simpa [hi] using h.tables i
  · obtain ⟨hne, hp⟩ := hothers t' p hp
    obtain ⟨hlt', hkey', hnone''⟩ := h.pending t' p hp
    refine ⟨hlt', hkey', fun objects hobjects o' ho' => ?_⟩
    have hname : p.1 ≠ key := h.apart t' t hne p hp (key, o) hpending
    by_cases hi : config.getTableIndex p.1.hash = config.getTableIndex key.hash
    · have henumerate : table'.enumerate = some (o :: recent ++ []) :=
        (by simpa using hrepresents' : table'.Represents config.store s.keys (o :: recent)
          []).enumerate
      simp only [hi, update_self, henumerate, Option.mem_some_iff] at hobjects
      subst hobjects
      obtain rfl | ho' := List.mem_cons.mp (by simpa using ho' : o' ∈ o :: recent)
      · exact fun heq => hname (heq.symm.trans hkey)
      · refine hnone'' _ (hi ▸ hrepresents.enumerate) o' (by simpa using ho')
    · exact hnone'' objects (by simpa [update_of_ne hi] using hobjects) o' ho'
  · exact h.apart t₁ t₂ hne p (hothers t₁ p hp).2 p' (hothers t₂ p' hp').2

theorem Unique.missing_of_find {found : Option Nat}
    (hfind : (s.tables (config.getTableIndex key.hash)).find config.store s.keys key.hash key.name =
      some found) (hfound : (found.filter fun o => !s.beingDeleted o) = none) :
    ∀ objects ∈ (s.tables (config.getTableIndex key.hash)).enumerate,
      ∀ o ∈ objects, s.keys o ≠ key := by
  obtain ⟨recent, hrepresents, -⟩ := h.tables (config.getTableIndex key.hash)
  intro objects hobjects o ho hkey
  rw [hrepresents.enumerate, Option.mem_some_iff] at hobjects
  have hnone : found = none := by
    cases found with
    | none => rfl
    | some o' => simp [h.flags o'] at hfound
  rw [hrepresents.find, Option.some.injEq, hnone, List.find?_eq_none] at hfind
  exact hfind o (by simpa [← hobjects] using ho) ((HashTable.matchesKey_iff _).mpr hkey)

theorem Unique.step (hsize : KeepsSize config s a)
    (halone : LooksAlone numThreads s a) (hs' : s.step config numThreads a = some s') :
    s'.Unique config numThreads := by
  obtain ⟨ht, hs'⟩ := Option.ite_none_right_eq_some.mp hs'
  cases a with
  | lockShared t key =>
    simp only [act] at hs'
    split at hs'
    case h_2 => cases hs'
    obtain ⟨mutex, -, hs'⟩ := Option.bind_eq_some_iff.mp hs'
    obtain rfl := Option.some.inj hs'
    exact h.move ht rfl rfl rfl rfl rfl (by simp [WriterState.pending?])
  | find t =>
    simp only [act] at hs'
    split at hs'
    case h_2 => cases hs'
    case h_1 key hplace =>
      obtain ⟨found, hfind, hs'⟩ := Option.bind_eq_some_iff.mp hs'
      split at hs'
      · obtain rfl := Option.some.inj hs'
        exact h.move ht rfl rfl rfl rfl rfl (by simp [WriterState.pending?])
      case h_2 hfound =>
        obtain rfl := Option.some.inj hs'
        refine h.makeObject ht (h.missing_of_find hfind hfound) fun t' p hp heq => ?_
        by_cases ht' : t' < numThreads
        · exact halone t' ht' p hp (heq ▸ hplace)
        · simp [h.idle t' (Nat.le_of_not_lt ht'), WriterState.pending?] at hp
  | lockObject t =>
    simp only [act] at hs'
    split at hs'
    case h_2 => cases hs'
    simp only [h.flags, Bool.false_eq_true, if_false] at hs'
    split_ifs at hs'
    obtain rfl := Option.some.inj hs'
    exact h.move ht rfl rfl rfl rfl rfl (by simp [WriterState.pending?])
  | beginUpgrade t =>
    simp only [act] at hs'
    split at hs'
    case h_2 => cases hs'
    case h_1 key o hplace =>
      obtain rfl := Option.some.inj hs'
      refine h.move (t := t) ht rfl rfl rfl rfl rfl fun p hp => ?_
      rw [hplace]
      split_ifs at hp <;> exact hp
  | endUpgrade t =>
    simp only [act] at hs'
    split at hs'
    case h_2 => cases hs'
    case h_1 key o hplace =>
      obtain ⟨mutex, -, hs'⟩ := Option.bind_eq_some_iff.mp hs'
      obtain rfl := Option.some.inj hs'
      refine h.move (t := t) ht rfl rfl rfl rfl rfl fun p hp => ?_
      rw [hplace]
      exact hp
  | add t =>
    simp only [act] at hs'
    split at hs'
    case h_2 => cases hs'
    case h_1 key o hplace =>
      obtain ⟨⟨resized, table⟩, hadd, hs'⟩ := Option.bind_eq_some_iff.mp hs'
      obtain rfl := Option.some.inj hs'
      exact h.add ht hplace (hsize key o hplace) hadd
  | finish t =>
    simp only [act] at hs'
    split at hs'
    case h_2 => cases hs'
    obtain rfl := Option.some.inj hs'
    exact h.move ht rfl rfl rfl rfl rfl (by simp [WriterState.pending?])

end

/-- If no thread looks for an object that another one is about to add, and no table is resized,
there is at most one object for each name at any time. -/
theorem writers_keep_unique
    (h : Reaches (step config numThreads)
      (fun s a => KeepsSize config s a ∧ LooksAlone numThreads s a) (create config) actions s) :
    s.HoldsUnique :=
  (h.invariant create_unique fun _ _ _ hunique hadmits hs' =>
    hunique.step hadmits.1 hadmits.2 hs').holdsUnique

instance (s : WriterThreads) : (a : WriterAction) → Decidable (LooksAlone numThreads s a)
  | .find t => inferInstanceAs (Decidable (∀ t' < numThreads,
      ∀ p ∈ (s.threads t').pending?, s.threads t ≠ .looking p.1))
  | .lockShared _ _ | .lockObject _ | .beginUpgrade _ | .endUpgrade _ | .add _ | .finish _ =>
    .isTrue trivial

instance (s : WriterThreads) : (a : WriterAction) → Decidable (KeepsSize config s a)
  | .add t =>
    match hplace : s.threads t with
    | .adding key _ =>
      decidable_of_iff ((s.tables (config.getTableIndex key.hash)).resizes config.store = false)
        (by simp [KeepsSize, hplace])
    | .idle | .looking _ | .found _ _ | .missing _ _ | .waiting _ _ | .writing _ _ =>
      .isTrue (by simp [KeepsSize, hplace])
  | .lockShared _ _ | .find _ | .lockObject _ | .beginUpgrade _ | .endUpgrade _ | .finish _ =>
    .isTrue trivial

/-- The second thread looks when the first one has added its object. -/
theorem writers_keep_unique_in_turn :
    ∃ s, Reaches (step (singleTable .session) 2)
        (fun s a => KeepsSize (singleTable .session) s a ∧ LooksAlone 2 s a)
        (create (singleTable .session))
        [.lockShared 0 ⟨1, [97]⟩, .find 0, .beginUpgrade 0, .add 0, .lockShared 1 ⟨1, [97]⟩,
          .find 1, .finish 0, .lockObject 1, .finish 1] s ∧
      s.numObjects = 1 ∧ s.HoldsUnique :=
  ⟨_, Reaches.get_foldlM rfl, rfl, writers_keep_unique (Reaches.get_foldlM rfl)⟩

/-- Two threads look for the same session before one of them adds it. -/
theorem two_writers_add_twice :
    ∃ s, Reaches (step (singleTable .session) 2) (KeepsSize (singleTable .session))
        (create (singleTable .session))
        [.lockShared 0 ⟨1, [97]⟩, .lockShared 1 ⟨1, [97]⟩, .find 0, .find 1, .beginUpgrade 0,
          .beginUpgrade 1, .add 1, .finish 1, .endUpgrade 0, .add 0, .finish 0] s ∧
      (∀ t, s.threads t = .idle) ∧ (s.tables 0).enumerate = some [0, 1] ∧
      s.keys 0 = s.keys 1 ∧ ¬s.HoldsUnique := by
  refine ⟨_, Reaches.get_foldlM rfl, fun t => ?_, rfl, rfl, fun h => ?_⟩
  · obtain _ | _ | t := t <;> rfl
  · obtain ⟨objects, henumerate, hunique⟩ := h 0
    obtain rfl : [0, 1] = objects := Option.some.inj henumerate
    exact absurd (hunique ⟨1, [97]⟩) (by decide)

end WriterThreads

end CyberCache
