import CyberCache.Store.HashTable

/-!
# What a hash table is after any sequence of operations

A table is meant to be a map from hash and name to the object that was added last: stores add a new
object while an old one with the same name still waits for its disposal. The chains are always what
they should be. The map is not, because a resize puts old objects before new ones; it is as long as
no table is resized while it holds two objects with the same hash and name.
-/

namespace CyberCache

namespace HashTable

variable {ρ : Type}

/-- Tables that operations lead to, with their objects from new to old. Objects are added if they
are not in the table and removed if they are; `admits` restricts additions further. -/
inductive Reached [DecidableEq ρ] (store : Store) (object : ρ → HashObject)
    (admits : HashTable ρ → List ρ → Prop) : List ρ → HashTable ρ → Prop where
  | create (wanted : UInt32) : Reached store object admits [] (create wanted)
  | add {contents : List ρ} {ht ht' : HashTable ρ} {ho : ρ} {resized : Bool}
      (h : Reached store object admits contents ht) (hnew : ho ∉ contents)
      (hadmits : admits ht contents) (hadd : ht.add store object ho = some (resized, ht')) :
      Reached store object admits (ho :: contents) ht'
  | remove {contents : List ρ} {ht : HashTable ρ} {ho : ρ}
      (h : Reached store object admits contents ht) (hmem : ho ∈ contents) :
      Reached store object admits (contents.filter (· ≠ ho)) (ht.remove store object ho)

/-- The table is a map in which the newest object wins, and its chains are in order. -/
structure NewestWins (store : Store) (object : ρ → HashObject) (ht : HashTable ρ)
    (contents : List ρ) : Prop where
  find : ∀ hash name, ht.find store object hash name =
    some (contents.find? (matchesKey object hash name))
  chain : ht.links.IsChain ht.first contents
  links : ∀ a ∈ contents, ∀ b ∈ contents, ht.links.next a = some b ↔ ht.links.prev b = some a
  buckets : ∃ bucket : Nat → List ρ,
    (∀ i < ht.nbuckets, ht.bucketLinks.IsChain (ht.buckets i) (bucket i)) ∧
    (∀ i < ht.nbuckets, ∀ ho ∈ bucket i, ht.getBucketIndex store (object ho).hash = i) ∧
    ((List.range ht.nbuckets).flatMap bucket).Perm contents
  bucketLinks : ∀ a ∈ contents, ∀ b ∈ contents,
    ht.bucketLinks.next a = some b ↔ ht.bucketLinks.prev b = some a
  count : ht.count = contents.length

def DistinctKeys (object : ρ → HashObject) (contents : List ρ) : Prop :=
  (contents.map object).Nodup

/-- The table is not resized while it holds objects with the same hash and name, and it never holds
more objects than its counter can count. -/
def AdmitsAdd (store : Store) (object : ρ → HashObject) (ht : HashTable ρ)
    (contents : List ρ) : Prop :=
  (ht.resizes store → DistinctKeys object contents) ∧ contents.length + 1 < uintRange

theorem find?_reverse_of_unique {p : ρ → Bool} {xs : List ρ}
    (h : ∀ a ∈ xs, ∀ b ∈ xs, p a → p b → a = b) : xs.reverse.find? p = xs.find? p := by
  cases hfind : xs.find? p with
  | none => simpa using hfind
  | some a =>
    cases hfind' : xs.reverse.find? p with
    | none =>
      rw [List.find?_eq_none] at hfind'
      exact absurd (List.find?_some hfind)
        (hfind' a (by simpa using List.mem_of_find?_eq_some hfind))
    | some b =>
      have hmem := List.mem_of_find?_eq_some hfind'
      rw [h b (by simpa using hmem) a (List.mem_of_find?_eq_some hfind)
        (List.find?_some hfind') (List.find?_some hfind)]

theorem DistinctKeys.find?_reverse {object : ρ → HashObject} {contents : List ρ}
    (h : DistinctKeys object contents) (hash : UInt64) (name : List UInt8) :
    contents.reverse.find? (matchesKey object hash name) =
      contents.find? (matchesKey object hash name) := by
  refine find?_reverse_of_unique fun a ha b hb hkey hkey' => ?_
  rw [matchesKey_iff] at hkey hkey'
  exact List.inj_on_of_nodup_map h ha hb (hkey.trans hkey'.symm)

/-- The invariant of runs in which all additions are admitted: old objects have distinct keys. -/
structure Ordered (store : Store) (object : ρ → HashObject) (ht : HashTable ρ)
    (recent old : List ρ) : Prop where
  represents : ht.Represents store object recent old
  distinct : DistinctKeys object old
  size : (recent ++ old).length < uintRange

theorem flatMap_bucketOf_perm {store : Store} {object : ρ → HashObject} {ht : HashTable ρ}
    (hpos : 0 < ht.nbuckets) {order : List ρ} (hnodup : order.Nodup) :
    ((List.range ht.nbuckets).flatMap (ht.bucketOf store object order)).Perm order := by
  refine (List.perm_ext_iff_of_nodup ?_ hnodup).mpr fun ho => ?_
  · rw [List.nodup_flatMap]
    refine ⟨fun i _ => hnodup.filter _, List.nodup_range.pairwise_of_forall_ne ?_⟩
    intro i _ j _ hne ho hi hj
    exact hne ((mem_bucketOf.mp hi).2.symm.trans (mem_bucketOf.mp hj).2)
  · simp only [List.mem_flatMap, List.mem_range, mem_bucketOf]
    exact ⟨fun ⟨_, _, hmem, _⟩ => hmem, fun hmem => ⟨_, getBucketIndex_lt store hpos _, hmem, rfl⟩⟩

theorem Ordered.newestWins {store : Store} {object : ρ → HashObject} {ht : HashTable ρ}
    {recent old : List ρ} (h : ht.Ordered store object recent old) :
    ht.NewestWins store object (recent ++ old) where
  find hash name := by
    rw [h.represents.find, List.find?_append, List.find?_append, h.distinct.find?_reverse]
  chain := h.represents.chain
  links a ha b hb := h.represents.chain.next_eq_iff ha hb
  buckets := by
    refine ⟨_, fun i _ => h.represents.buckets i, fun i _ ho hmem => (mem_bucketOf.mp hmem).2, ?_⟩
    refine (flatMap_bucketOf_perm h.represents.nbuckets h.represents.nodup_order).trans ?_
    exact (List.reverse_perm old).append_left recent
  bucketLinks a ha b hb := by
    -- both objects are in the bucket of the one that has the link
    have hbucket {ho : ρ} (hmem : ho ∈ recent ++ old) :
        ho ∈ ht.bucketOf store object (recent ++ old.reverse)
          (ht.getBucketIndex store (object ho).hash) := mem_bucketOf.mpr ⟨by simpa using hmem, rfl⟩
    constructor
    · intro hnext
      have hchain := h.represents.buckets (ht.getBucketIndex store (object a).hash)
      exact (hchain.next_eq_iff (hbucket ha) (hchain.mem_of_next (hbucket ha) hnext)).mp hnext
    · intro hprev
      have hchain := h.represents.buckets (ht.getBucketIndex store (object b).hash)
      exact (hchain.next_eq_iff (hchain.mem_of_prev (hbucket hb) hprev) (hbucket hb)).mpr hprev
  count := by
    rw [h.represents.count, Nat.mod_eq_of_lt h.size]

section Runs

variable [DecidableEq ρ] {store : Store} {object : ρ → HashObject} {ht : HashTable ρ}
  {recent old : List ρ} {ho : ρ}

theorem Ordered.add (h : ht.Ordered store object recent old) (hnew : ho ∉ recent ++ old)
    (hadmits : AdmitsAdd store object ht (recent ++ old)) :
    ∃ resized ht' recent' old', ht.add store object ho = some (resized, ht') ∧
      recent' ++ old' = ho :: (recent ++ old) ∧ ht'.Ordered store object recent' old' := by
  obtain ⟨ht', hadd, -, h'⟩ := h.represents.add hnew
  have hsize : (ho :: (recent ++ old)).length < uintRange := hadmits.2
  split_ifs at h' with hresizes
  · exact ⟨_, ht', [ho], recent ++ old, hadd, rfl, h', hadmits.1 hresizes, hsize⟩
  · exact ⟨_, ht', ho :: recent, old, hadd, rfl, h', h.distinct, hsize⟩

theorem Ordered.remove (h : ht.Ordered store object recent old) (hmem : ho ∈ recent ++ old) :
    (ht.remove store object ho).Ordered store object (recent.filter (· ≠ ho))
      (old.filter (· ≠ ho)) where
  represents := h.represents.remove hmem
  distinct := h.distinct.sublist (List.filter_sublist.map object)
  size := by
    rw [← List.filter_append]
    exact Nat.lt_of_le_of_lt (List.length_filter_le _ _) h.size

theorem Reached.ordered {contents : List ρ}
    (h : Reached store object (AdmitsAdd store object) contents ht) :
    ∃ recent old, contents = recent ++ old ∧ ht.Ordered store object recent old := by
  induction h with
  | create wanted =>
    exact ⟨[], [], rfl, create_represents store object wanted, List.nodup_nil,
      Nat.two_pow_pos 32⟩
  | add _ hnew hadmits hadd ih =>
    obtain ⟨recent, old, rfl, h⟩ := ih
    obtain ⟨resized, ht', recent', old', hadd', hcontents, h'⟩ := h.add hnew hadmits
    obtain ⟨rfl, rfl⟩ := Prod.mk.inj (Option.some.inj (hadd.symm.trans hadd'))
    exact ⟨recent', old', hcontents.symm, h'⟩
  | remove _ hmem ih =>
    obtain ⟨recent, old, rfl, h⟩ := ih
    exact ⟨_, _, List.filter_append .., h.remove hmem⟩

/-- In every run in which no table is resized while it holds objects with the same hash and name,
the table is a map in which the newest object wins, and every further addition returns. -/
theorem reached_newestWins {contents : List ρ}
    (h : Reached store object (AdmitsAdd store object) contents ht) :
    ht.NewestWins store object contents ∧
      ∀ ho ∉ contents, ∃ resized ht', ht.add store object ho = some (resized, ht') := by
  obtain ⟨recent, old, rfl, hordered⟩ := h.ordered
  refine ⟨hordered.newestWins, fun ho hnew => ?_⟩
  obtain ⟨ht', hadd, -⟩ := hordered.represents.add hnew
  exact ⟨_, ht', hadd⟩

end Runs

/-! ## Two objects with the same name -/

/-- Objects 0 and 1 have the same hash and name; no other objects do. -/
def twins (n : Nat) : HashObject :=
  ⟨if n ≤ 1 then 1 else UInt64.ofNat n, [97]⟩

theorem newest_twin_wins :
    ∃ ht, Reached ⟨0, fun n => n * 3 / 2⟩ twins (AdmitsAdd ⟨0, fun n => n * 3 / 2⟩ twins)
      [1, 0] ht ∧ ht.NewestWins ⟨0, fun n => n * 3 / 2⟩ twins [1, 0] := by
  have hone : (0 : Nat) ∉ ([] : List Nat) := by simp
  have htwo : (1 : Nat) ∉ [0] := by simp
  have hempty : Reached ⟨0, fun n => n * 3 / 2⟩ twins (AdmitsAdd ⟨0, fun n => n * 3 / 2⟩ twins) []
      (create 0) := .create 0
  obtain ⟨_, ht, hadd⟩ := (reached_newestWins hempty).2 0 hone
  have hreached := hempty.add hone ⟨fun _ => List.nodup_nil, by decide⟩ hadd
  obtain ⟨_, ht', hadd'⟩ := (reached_newestWins hreached).2 1 htwo
  have hreached' := hreached.add htwo ⟨fun _ => by simp [DistinctKeys], by decide⟩ hadd'
  exact ⟨ht', hreached', (reached_newestWins hreached').1⟩

theorem exists_filled (k : Nat) (hk : k ≤ 32) :
    ∃ ht, Reached ⟨0, fun n => n / 2⟩ twins (fun _ _ => True) (List.range k).reverse ht ∧
      ht.Represents ⟨0, fun n => n / 2⟩ twins (List.range k).reverse [] ∧ ht.nbuckets = 64 := by
  induction k with
  | zero => exact ⟨create 0, .create 0, create_represents _ _ 0, by decide⟩
  | succ k ih =>
    obtain ⟨ht, hreached, h, hnbuckets⟩ := ih (by omega)
    have hnew : k ∉ (List.range k).reverse := by simp
    have hcount : ht.count = k := by
      rw [h.count, List.append_nil, List.length_reverse, List.length_range, uintRange]
      omega
    have hresizes : ht.resizes ⟨0, fun n => n / 2⟩ = false := by
      simp [resizes, hnbuckets, hcount]
      omega
    obtain ⟨ht', hadd, hnbuckets', h'⟩ := h.add (show k ∉ (List.range k).reverse ++ [] by simp)
    rw [hresizes] at hnbuckets' h'
    rw [List.range_succ, List.reverse_append, List.reverse_singleton, List.singleton_append]
    exact ⟨ht', hreached.add hnew trivial hadd, h', hnbuckets'.trans hnbuckets⟩

/-- A resize puts the older twin before the newer one. -/
theorem resize_brings_back_older_twin :
    ∃ contents ht, Reached ⟨0, fun n => n / 2⟩ twins (fun _ _ => True) contents ht ∧
      contents.find? (matchesKey twins 1 [97]) = some 1 ∧
      ht.find ⟨0, fun n => n / 2⟩ twins 1 [97] = some (some 0) := by
  obtain ⟨ht, hreached, h, hnbuckets⟩ := exists_filled 32 (Nat.le_refl 32)
  have hnew : 32 ∉ (List.range 32).reverse := by simp
  have hcount : ht.count = 32 := by simp [h.count, uintRange]
  have hresizes : ht.resizes ⟨0, fun n => n / 2⟩ = true := by
    simp [resizes, hnbuckets, hcount, maxNumBuckets]
  obtain ⟨ht', hadd, -, h'⟩ := h.add (show 32 ∉ (List.range 32).reverse ++ [] by simp)
  rw [if_pos hresizes] at h'
  refine ⟨_, ht', hreached.add hnew trivial hadd, by decide, ?_⟩
  rw [h'.find]
  decide

end HashTable

end CyberCache
