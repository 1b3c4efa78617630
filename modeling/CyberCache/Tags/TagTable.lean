import CyberCache.Store.HashTable

/-!
# The table of tags

The tag manager keeps its tags in hash tables of their own. It adds a tag only if there is none of
this name, so that resizing does not matter here: the tables are a map from names to tags. Tags are
known by numbers that are not used again.
-/

namespace CyberCache

open Function (update update_of_ne)

structure TagConfiguration where
  numTables : Nat
  store : Store
  /-- The initial capacity of a table divided by the fill factor. -/
  wanted : UInt32
  /-- `table_hasher.hash()`. -/
  hash : List UInt8 → UInt64
  numInternalTagRefs : Nat
  numInternalTagRefs_pos : 0 < numInternalTagRefs

def TagConfiguration.getTableIndex (config : TagConfiguration) (hash : UInt64) : Nat :=
  hash.toNat % uintRange &&& (config.numTables - 1)

structure TagTable where
  tables : Nat → HashTable Nat
  keys : Nat → HashObject
  numTags : Nat
  disposed : Nat → Bool

namespace TagTable

def empty (config : TagConfiguration) : TagTable where
  tables := fun _ => .create config.wanted
  keys := fun _ => ⟨0, []⟩
  numTags := 0
  disposed := fun _ => false

def Contains (T : TagTable) (t : Nat) : Prop := t < T.numTags ∧ T.disposed t = false

instance (T : TagTable) (t : Nat) : Decidable (T.Contains t) :=
  inferInstanceAs (Decidable (_ ∧ _))

def name (T : TagTable) (t : Nat) : List UInt8 := (T.keys t).name

variable (config : TagConfiguration)

def find (T : TagTable) (name : List UInt8) : Option (Option Nat) :=
  (T.tables (config.getTableIndex (config.hash name))).find config.store T.keys (config.hash name)
    name

def create (T : TagTable) (name : List UInt8) : Option TagTable := do
  let index := config.getTableIndex (config.hash name)
  let keys := update T.keys T.numTags ⟨config.hash name, name⟩
  let (_, table) ← (T.tables index).add config.store keys T.numTags
  return { T with
    tables := update T.tables index table
    keys := keys
    numTags := T.numTags + 1 }

def dispose (T : TagTable) (t : Nat) : TagTable :=
  let index := config.getTableIndex (T.keys t).hash
  { T with
    tables := update T.tables index ((T.tables index).remove config.store T.keys t)
    disposed := update T.disposed t true }

/-! ## The map from names to tags -/

/-- The tables hold the tags that exist, and no two of them have the same name. -/
structure Valid (T : TagTable) : Prop where
  fresh : ∀ t, T.numTags ≤ t → T.disposed t = false
  tables : ∀ i, ∃ recent old, (T.tables i).Represents config.store T.keys recent old ∧
    ∀ t, t ∈ recent ++ old ↔ T.Contains t ∧ config.getTableIndex (T.keys t).hash = i
  hash : ∀ t, T.Contains t → (T.keys t).hash = config.hash (T.name t)
  unique : ∀ t t', T.Contains t → T.Contains t' → T.name t = T.name t' → t = t'

variable {config} {T : TagTable} {t : Nat}

theorem empty_valid : (empty config).Valid config where
  fresh _ _ := rfl
  tables _ := ⟨[], [], HashTable.create_represents _ _ _, by simp [empty, Contains]⟩
  hash _ h := absurd h.1 (Nat.not_lt_zero _)
  unique _ _ h := absurd h.1 (Nat.not_lt_zero _)

theorem Valid.find (h : T.Valid config) (name : List UInt8) :
    ∃ found, T.find config name = some found ∧
      ∀ t, found = some t ↔ T.Contains t ∧ T.name t = name := by
  obtain ⟨recent, old, hrepresents, hmem⟩ := h.tables (config.getTableIndex (config.hash name))
  refine ⟨_, hrepresents.find _ _, fun t => ?_⟩
  -- tags of this name are in the table of its hash
  have hmem' : T.Contains t ∧ T.name t = name → t ∈ recent ++ old.reverse := by
    rintro ⟨ht, rfl⟩
    have := (hmem t).mpr ⟨ht, by rw [h.hash t ht]⟩
    simpa using this
  have hfound (t : Nat) (ht : (recent ++ old.reverse).find?
      (HashTable.matchesKey T.keys (config.hash name) name) = some t) :
      T.Contains t ∧ T.name t = name := by
    have hin : t ∈ recent ++ old := by simpa using List.mem_of_find?_eq_some ht
    have hkey := (HashTable.matchesKey_iff _).mp (List.find?_some ht)
    exact ⟨((hmem t).mp hin).1, by rw [TagTable.name, hkey]⟩
  constructor
  · exact hfound t
  · intro ht
    cases hfind : (recent ++ old.reverse).find?
        (HashTable.matchesKey T.keys (config.hash name) name) with
    | none =>
      refine absurd ?_ (List.find?_eq_none.mp hfind t (hmem' ht))
      have hhash := h.hash t ht.1
      rw [ht.2] at hhash
      simp only [HashTable.matchesKey, hhash, true_and, decide_eq_true_eq]
      exact ht.2
    | some t' =>
      have ht' := hfound t' hfind
      rw [h.unique t' t ht'.1 ht.1 (ht'.2.trans ht.2.symm)]

theorem contains_create {T' : TagTable} {name : List UInt8} (h : T.create config name = some T')
    (hnew : T.disposed T.numTags = false) (t : Nat) :
    T'.Contains t ↔ T.Contains t ∨ t = T.numTags := by
  obtain ⟨⟨resized, table⟩, -, hT'⟩ := Option.bind_eq_some_iff.mp h
  cases hT'
  by_cases heq : t = T.numTags
  · simp [Contains, heq, hnew]
  · have hlt : t < T.numTags + 1 ↔ t < T.numTags := by omega
    simp [Contains, heq, hlt]

theorem Valid.create (h : T.Valid config) {name : List UInt8}
    (hname : ∀ t, T.Contains t → T.name t ≠ name) :
    ∃ T', T.create config name = some T' ∧ T'.Valid config ∧ T'.numTags = T.numTags + 1 ∧
      T'.disposed = T.disposed ∧
      T'.keys = update T.keys T.numTags ⟨config.hash name, name⟩ := by
  have hkeys (t : Nat) (ht : T.Contains t) :
      update T.keys T.numTags ⟨config.hash name, name⟩ t = T.keys t :=
    update_of_ne (Nat.ne_of_lt ht.1) _ _
  have hrepresents (i : Nat) {recent old : List Nat}
      (hmem : ∀ t, t ∈ recent ++ old ↔ T.Contains t ∧ config.getTableIndex (T.keys t).hash = i)
      (hi : (T.tables i).Represents config.store T.keys recent old) :
      (T.tables i).Represents config.store
        (update T.keys T.numTags ⟨config.hash name, name⟩) recent old :=
    hi.congr fun t ht => hkeys t ((hmem t).mp ht).1
  obtain ⟨recent, old, hi, hmem⟩ := h.tables (config.getTableIndex (config.hash name))
  have hlast : T.numTags ∉ recent ++ old := fun ht =>
    absurd ((hmem _).mp ht).1.1 (Nat.lt_irrefl _)
  obtain ⟨table, hadd, -, htable⟩ := (hrepresents _ hmem hi).add hlast
  have hcreate : T.create config name = some { T with
      tables := update T.tables (config.getTableIndex (config.hash name)) table
      keys := update T.keys T.numTags ⟨config.hash name, name⟩
      numTags := T.numTags + 1 } := Option.bind_eq_some_iff.mpr ⟨_, hadd, rfl⟩
  have hcontains := contains_create hcreate (h.fresh _ (Nat.le_refl _))
  refine ⟨_, hcreate, ⟨fun t ht => h.fresh t (Nat.le_of_succ_le ht), fun i => ?_, fun t ht => ?_,
    fun t t' ht ht' heq => ?_⟩, rfl, rfl, rfl⟩
  · by_cases hindex : i = config.getTableIndex (config.hash name)
    · subst hindex
      obtain ⟨recent', old', htable', horder⟩ : ∃ recent' old',
          table.Represents config.store
            (update T.keys T.numTags ⟨config.hash name, name⟩) recent' old' ∧
          recent' ++ old' = T.numTags :: (recent ++ old) := by
        split_ifs at htable
        · exact ⟨_, _, htable, rfl⟩
        · exact ⟨_, _, htable, rfl⟩
      refine ⟨recent', old', by simpa using htable', fun t => ?_⟩
      rw [horder, List.mem_cons, hmem, hcontains]
      by_cases heq : t = T.numTags
      · simp [heq]
      · simp [heq]
    · obtain ⟨recent, old, hi, hmem⟩ := h.tables i
      refine ⟨recent, old, by simpa [hindex] using hrepresents i hmem hi, fun t => ?_⟩
      rw [hmem, hcontains]
      by_cases heq : t = T.numTags
      · have hnot : ¬T.Contains T.numTags := fun ht => absurd ht.1 (Nat.lt_irrefl _)
        simp [heq, hnot, Ne.symm hindex]
      · simp [heq]
  · obtain ht | rfl := (hcontains t).mp ht
    · simpa [TagTable.name, hkeys t ht] using h.hash t ht
    · simp [TagTable.name]
  · obtain ht | rfl := (hcontains t).mp ht <;> obtain ht' | rfl := (hcontains t').mp ht'
    · exact h.unique t t' ht ht' (by simpa [TagTable.name, hkeys t ht, hkeys t' ht'] using heq)
    · exact absurd (by simpa [TagTable.name, hkeys t ht] using heq) (hname t ht)
    · exact absurd (by simpa [TagTable.name, hkeys t' ht'] using heq.symm) (hname t' ht')
    · rfl

theorem contains_dispose (T : TagTable) (t t' : Nat) :
    (T.dispose config t).Contains t' ↔ T.Contains t' ∧ t' ≠ t := by
  by_cases heq : t' = t <;> simp [Contains, dispose, heq]

theorem Valid.dispose (h : T.Valid config) (ht : T.Contains t) :
    (T.dispose config t).Valid config := by
  refine ⟨fun t' ht' => ?_, fun i => ?_, fun t' ht' => ?_, fun t₁ t₂ ht₁ ht₂ heq => ?_⟩
  · have hne : t' ≠ t := fun heq => absurd ht.1 (Nat.not_lt_of_le (heq ▸ ht'))
    simpa [TagTable.dispose, hne] using h.fresh t' ht'
  · obtain ⟨recent, old, hi, hmem⟩ := h.tables i
    by_cases hindex : i = config.getTableIndex (T.keys t).hash
    · subst hindex
      have hremove := hi.remove ((hmem t).mpr ⟨ht, rfl⟩)
      refine ⟨_, _, by simpa [TagTable.dispose] using hremove, fun t' => ?_⟩
      rw [← List.filter_append, List.mem_filter, hmem, contains_dispose]
      simp only [ne_eq, Bool.not_eq_eq_eq_not, Bool.not_true, decide_eq_false_iff_not]
      tauto
    · refine ⟨recent, old, by simpa [TagTable.dispose, hindex] using hi, fun t' => ?_⟩
      rw [hmem, contains_dispose]
      constructor
      · rintro ⟨ht', rfl⟩
        refine ⟨⟨ht', ?_⟩, rfl⟩
        rintro rfl
        exact hindex rfl
      · rintro ⟨⟨ht', -⟩, hi'⟩
        exact ⟨ht', hi'⟩
  · exact h.hash t' ((contains_dispose T t t').mp ht').1
  · exact h.unique t₁ t₂ ((contains_dispose T t t₁).mp ht₁).1 ((contains_dispose T t t₂).mp ht₂).1
      heq

def IsListed (T : TagTable) (t : Nat) : Prop :=
  ∃ i tags, (T.tables i).enumerate = some tags ∧ t ∈ tags

theorem Valid.isListed_iff (h : T.Valid config) : T.IsListed t ↔ T.Contains t := by
  constructor
  · rintro ⟨i, tags, henumerate, ht⟩
    obtain ⟨recent, old, hi, hmem⟩ := h.tables i
    rw [hi.enumerate, Option.some.injEq] at henumerate
    subst henumerate
    exact ((hmem t).mp ht).1
  · intro ht
    obtain ⟨recent, old, hi, hmem⟩ := h.tables (config.getTableIndex (T.keys t).hash)
    exact ⟨_, _, hi.enumerate, (hmem t).mpr ⟨ht, rfl⟩⟩

end TagTable

end CyberCache
