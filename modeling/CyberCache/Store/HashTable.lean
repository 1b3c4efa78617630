import CyberCache.Lib.LinkedChain
import CyberCache.Types

/-!
# Hash tables

A `HashTable` keeps its objects in two kinds of doubly linked chains: one chain with all objects,
and one chain for each bucket. New objects go to the front of both. A table that is full doubles the
number of its buckets and fills them again by walking over the chain of all objects.

What a table is about is the order in which `find` meets its objects. `Represents` gives this order
for every table: first the objects that were added since the last resize, from new to old, and then
the others from old to new, because the walk turns them around.
-/

namespace CyberCache

/-- The constant fields of a hash object. -/
structure HashObject where
  hash : UInt64
  name : List UInt8
deriving DecidableEq, Repr

/-- What a table gets from its store: the number of bits that select a table, and the number of
objects that so many buckets have room for, `(c3_uint_t)(ht_nbuckets * fill_factor)`. -/
structure Store where
  indexShift : Nat
  capacity : Nat → Nat

def Store.getBaseIndex (store : Store) (hash : UInt64) : Nat :=
  (hash.toNat >>> store.indexShift) % uintRange

/-- A table of objects that are known by their addresses `ρ`. The links are fields of the objects,
but nobody else uses them. `bound` is not part of the program: no chain has more nodes than that. -/
structure HashTable (ρ : Type) where
  buckets : Nat → Option ρ
  first : Option ρ
  nbuckets : Nat
  count : Nat
  links : Links ρ
  bucketLinks : Links ρ
  bound : Nat

def minNumBuckets : Nat := 64

def maxNumBuckets : Nat := 2 ^ 31

namespace HashTable

variable {ρ : Type}

/-- A new table; `wanted` is the initial capacity divided by the fill factor. -/
def create (wanted : UInt32) : HashTable ρ :=
  let nbuckets := if wanted.toNat < minNumBuckets then UInt32.ofNat minNumBuckets else wanted
  let nbuckets := (getNextPowerOf2 nbuckets).toNat
  { buckets := fun _ => none
    first := none
    nbuckets := if nbuckets = 0 then maxNumBuckets else nbuckets
    count := 0
    links := ⟨fun _ => none, fun _ => none⟩
    bucketLinks := ⟨fun _ => none, fun _ => none⟩
    bound := 0 }

variable (store : Store) (object : ρ → HashObject)

def getBucketIndex (ht : HashTable ρ) (hash : UInt64) : Nat :=
  store.getBaseIndex hash &&& (ht.nbuckets - 1)

def matchesKey (hash : UInt64) (name : List UInt8) (ho : ρ) : Bool :=
  (object ho).hash = hash ∧ (object ho).name = name

theorem matchesKey_iff {hash : UInt64} {name : List UInt8} {ho : ρ} :
    matchesKey object hash name ho ↔ object ho = ⟨hash, name⟩ := by
  rw [matchesKey, decide_eq_true_eq, HashObject.mk.injEq]

/-- The loop of `find()`; `none` if it does not end. -/
def findLoop (ht : HashTable ρ) (hash : UInt64) (name : List UInt8) :
    Nat → Option ρ → Option (Option ρ)
  | _, none => some none
  | 0, some _ => none
  | fuel + 1, some ho =>
    if matchesKey object hash name ho then some (some ho)
    else findLoop ht hash name fuel (ht.bucketLinks.next ho)

def find (ht : HashTable ρ) (hash : UInt64) (name : List UInt8) : Option (Option ρ) :=
  ht.findLoop object hash name ht.bound (ht.buckets (ht.getBucketIndex store hash))

/-- The loop of `enumerate()` with a callback that always goes on. -/
def enumerateLoop (ht : HashTable ρ) : Nat → Option ρ → Option (List ρ)
  | _, none => some []
  | 0, some _ => none
  | fuel + 1, some ho => (enumerateLoop ht fuel (ht.links.next ho)).map (ho :: ·)

def enumerate (ht : HashTable ρ) : Option (List ρ) := ht.enumerateLoop ht.bound ht.first

def resizes (ht : HashTable ρ) : Bool :=
  store.capacity ht.nbuckets ≤ ht.count && ht.nbuckets < maxNumBuckets

section Update

variable [DecidableEq ρ]

def linkIntoBucket (ht : HashTable ρ) (ho : ρ) : HashTable ρ :=
  let index := ht.getBucketIndex store (object ho).hash
  { ht with
    bucketLinks := ht.bucketLinks.pushFront (ht.buckets index) ho
    buckets := Function.update ht.buckets index (some ho) }

/-- The loop of `resize_table()`; `none` if it does not end. -/
def resizeLoop : Nat → HashTable ρ → Option ρ → Option (HashTable ρ)
  | _, ht, none => some ht
  | 0, _, some _ => none
  | fuel + 1, ht, some ho =>
    resizeLoop fuel (ht.linkIntoBucket store object ho) (ht.links.next ho)

def resizeTable (ht : HashTable ρ) : Option (Bool × HashTable ρ) :=
  if ht.nbuckets < maxNumBuckets then do
    let resized ← resizeLoop store object ht.bound
      { ht with nbuckets := ht.nbuckets * 2, buckets := fun _ => none } ht.first
    return (true, resized)
  else some (false, ht)

def linkIntoChain (ht : HashTable ρ) (ho : ρ) : HashTable ρ :=
  { ht with
    links := ht.links.pushFront ht.first ho
    first := some ho
    bound := ht.bound + 1 }

def link (ht : HashTable ρ) (ho : ρ) : HashTable ρ :=
  let ht := (ht.linkIntoChain ho).linkIntoBucket store object ho
  { ht with count := uintAdd ht.count 1 }

/-- Add an object; the first component says whether the table was resized. -/
def add (ht : HashTable ρ) (ho : ρ) : Option (Bool × HashTable ρ) := do
  let (resized, ht) ←
    if store.capacity ht.nbuckets ≤ ht.count then ht.resizeTable store object
    else some (false, ht)
  return (resized, ht.link store object ho)

def remove (ht : HashTable ρ) (ho : ρ) : HashTable ρ :=
  let (links, first) := ht.links.unlink ht.first ho
  let index := ht.getBucketIndex store (object ho).hash
  let (bucketLinks, bucket) := ht.bucketLinks.unlink (ht.buckets index) ho
  { ht with
    links := links
    first := first
    bucketLinks := bucketLinks
    buckets := Function.update ht.buckets index bucket
    count := uintSub ht.count 1 }

end Update

/-! ## Bucket chains -/

theorem getBucketIndex_lt {ht : HashTable ρ} (h : 0 < ht.nbuckets) (hash : UInt64) :
    ht.getBucketIndex store hash < ht.nbuckets := by
  have hle : ht.getBucketIndex store hash ≤ ht.nbuckets - 1 := Nat.and_le_right
  omega

def bucketOf (ht : HashTable ρ) (order : List ρ) (i : Nat) : List ρ :=
  order.filter fun ho => ht.getBucketIndex store (object ho).hash = i

/-- All bucket chains hold their part of the objects in `order`. -/
def BucketsHold (ht : HashTable ρ) (order : List ρ) : Prop :=
  ∀ i, ht.bucketLinks.IsChain (ht.buckets i) (ht.bucketOf store object order i)

variable {store object} {ht : HashTable ρ} {ho : ρ} {order : List ρ}

theorem mem_bucketOf {i : Nat} :
    ho ∈ ht.bucketOf store object order i ↔
      ho ∈ order ∧ ht.getBucketIndex store (object ho).hash = i := by
  simp [bucketOf]

section Buckets

variable [DecidableEq ρ]

@[simp]
theorem bucketOf_linkIntoBucket (ht : HashTable ρ) (ho : ρ) :
    (ht.linkIntoBucket store object ho).bucketOf store object = ht.bucketOf store object := rfl

theorem BucketsHold.linkIntoBucket (h : ht.BucketsHold store object order)
    (hnodup : (ho :: order).Nodup) :
    (ht.linkIntoBucket store object ho).BucketsHold store object (ho :: order) := by
  intro i
  obtain ⟨hnew, hold⟩ := List.nodup_cons.mp hnodup
  have hchain := h (ht.getBucketIndex store (object ho).hash)
  by_cases hi : ht.getBucketIndex store (object ho).hash = i
  · have hfilter : ht.bucketOf store object (ho :: order) i = ho :: ht.bucketOf store object order
        i :=
      List.filter_cons_of_pos (by simpa using hi)
    have hnodup' : (ho :: ht.bucketOf store object order i).Nodup :=
      List.nodup_cons.mpr ⟨fun hmem => hnew (mem_bucketOf.mp hmem).1, hold.filter _⟩
    rw [bucketOf_linkIntoBucket, hfilter]
    subst hi
    simpa [HashTable.linkIntoBucket] using hchain.pushFront hnodup'
  · have hfilter : ht.bucketOf store object (ho :: order) i = ht.bucketOf store object order i :=
      List.filter_cons_of_neg (by simpa using hi)
    rw [bucketOf_linkIntoBucket, hfilter]
    have hframe := (h i).pushFront_frame hchain (x := ho) fun z hz hmem => by
      obtain ⟨hmem, hindex⟩ := mem_bucketOf.mp hmem
      obtain rfl | hz := List.mem_cons.mp hz
      · exact hnew hmem
      · exact hi ((mem_bucketOf.mp hz).2.symm.trans hindex)
    simpa [HashTable.linkIntoBucket, Function.update_of_ne (Ne.symm hi)] using hframe

/-- The walk over the chain of all objects puts them into the buckets in the opposite order. -/
theorem BucketsHold.resizeLoop {fuel : Nat} {before next last : Option ρ} {xs : List ρ}
    (h : ht.BucketsHold store object order) (hchain : ht.links.Segment before next xs last none)
    (hnodup : (xs.reverse ++ order).Nodup) (hfuel : xs.length ≤ fuel) :
    ∃ buckets bucketLinks,
      HashTable.resizeLoop store object fuel ht next =
        some { ht with buckets := buckets, bucketLinks := bucketLinks } ∧
      BucketsHold store object { ht with buckets := buckets, bucketLinks := bucketLinks }
        (xs.reverse ++ order) := by
  induction xs generalizing ht before next order fuel with
  | nil =>
    obtain ⟨-, rfl⟩ := hchain
    refine ⟨ht.buckets, ht.bucketLinks, ?_, h⟩
    cases fuel <;> rfl
  | cons ho xs ih =>
    obtain ⟨rfl, -, hrest⟩ := hchain
    obtain ⟨fuel, rfl⟩ := Nat.exists_eq_add_one_of_ne_zero (by simp at hfuel; omega : fuel ≠ 0)
    rw [List.reverse_cons, List.append_assoc, List.singleton_append] at hnodup ⊢
    have hlinked := h.linkIntoBucket (List.nodup_append.mp hnodup).2.1
    obtain ⟨buckets, bucketLinks, hloop, hhold⟩ :=
      ih hlinked hrest hnodup (by simpa using hfuel)
    exact ⟨buckets, bucketLinks, hloop, hhold⟩

theorem filter_ne_of_split {xs ys : List ρ} (h : (xs ++ ho :: ys).Nodup) :
    (xs ++ ho :: ys).filter (· ≠ ho) = xs ++ ys := by
  obtain ⟨-, hys, hdisjoint⟩ := List.nodup_append.mp h
  have hx : ∀ x ∈ xs, x ≠ ho := fun x hx => hdisjoint x hx ho (by simp)
  have hy : ∀ y ∈ ys, y ≠ ho := fun y hy heq => (List.nodup_cons.mp hys).1 (heq ▸ hy)
  rw [List.filter_append, List.filter_cons_of_neg (by simp),
    List.filter_eq_self.mpr (by simpa using hx), List.filter_eq_self.mpr (by simpa using hy)]

theorem BucketsHold.remove (h : ht.BucketsHold store object order) (hnodup : order.Nodup)
    (hmem : ho ∈ order) :
    (ht.remove store object ho).BucketsHold store object (order.filter (· ≠ ho)) := by
  intro i
  have hin : ho ∈ ht.bucketOf store object order (ht.getBucketIndex store (object ho).hash) :=
    mem_bucketOf.mpr ⟨hmem, rfl⟩
  obtain ⟨xs, ys, hsplit⟩ := List.append_of_mem hin
  have hchain := h (ht.getBucketIndex store (object ho).hash)
  have hfilter : (ht.remove store object ho).bucketOf store object (order.filter (· ≠ ho)) i =
      (ht.bucketOf store object order i).filter (· ≠ ho) :=
    List.filter_comm _ _ _
  rw [hfilter]
  have hnodup' : (ht.bucketOf store object order i).Nodup := hnodup.filter _
  by_cases hi : ht.getBucketIndex store (object ho).hash = i
  · subst hi
    rw [hsplit] at hchain hnodup' ⊢
    rw [filter_ne_of_split hnodup']
    simpa [HashTable.remove] using hchain.unlink hnodup'
  · have hother : (ht.bucketOf store object order i).filter (· ≠ ho) =
        ht.bucketOf store object order i := by
      rw [List.filter_eq_self]
      intro z hz
      simp only [ne_eq, decide_not, Bool.not_eq_eq_eq_not, Bool.not_true, decide_eq_false_iff_not]
      rintro rfl
      exact hi (mem_bucketOf.mp hz).2
    rw [hother]
    rw [hsplit] at hchain
    have hframe := (h i).unlink_frame hchain fun z hz hmem => by
      rw [← hsplit] at hz
      exact hi ((mem_bucketOf.mp hz).2.symm.trans (mem_bucketOf.mp hmem).2)
    simpa [HashTable.remove, Function.update_of_ne (Ne.symm hi)] using hframe

end Buckets

/-! ## The order of the objects in a table -/

/-- The table holds the objects `recent` and `old`, both from new to old, and was last resized when
the objects in `old` were all there was. -/
structure Represents (store : Store) (object : ρ → HashObject) (ht : HashTable ρ)
    (recent old : List ρ) : Prop where
  nodup : (recent ++ old).Nodup
  chain : ht.links.IsChain ht.first (recent ++ old)
  buckets : ht.BucketsHold store object (recent ++ old.reverse)
  nbuckets : 0 < ht.nbuckets
  bound : (recent ++ old).length ≤ ht.bound
  count : ht.count = (recent ++ old).length % uintRange

theorem create_represents (store : Store) (object : ρ → HashObject) (wanted : UInt32) :
    (create wanted).Represents store object [] [] where
  nodup := List.nodup_nil
  chain := ⟨none, rfl, rfl⟩
  buckets _ := ⟨none, rfl, rfl⟩
  nbuckets := by
    simp only [create]
    generalize (getNextPowerOf2 _).toNat = n
    split_ifs with hzero
    · decide
    · exact Nat.pos_of_ne_zero hzero
  bound := Nat.le_refl _
  count := rfl

namespace Represents

variable {recent old : List ρ}

section

variable (h : ht.Represents store object recent old)
include h

theorem nodup_order :
    (recent ++ old.reverse).Nodup := by
  have hperm : (recent ++ old.reverse).Perm (recent ++ old) :=
    (List.reverse_perm old).append_left recent
  exact hperm.nodup_iff.mpr h.nodup

theorem congr {object' : ρ → HashObject}
    (hsame : ∀ ho ∈ recent ++ old, object' ho = object ho) :
    ht.Represents store object' recent old := by
  refine ⟨h.nodup, h.chain, fun i => ?_, h.nbuckets, h.bound, h.count⟩
  have hbucket : ht.bucketOf store object' (recent ++ old.reverse) i =
      ht.bucketOf store object (recent ++ old.reverse) i :=
    List.filter_congr fun ho hmem => by rw [hsame ho (by simpa using hmem)]
  rw [hbucket]
  exact h.buckets i

theorem resizeTable [DecidableEq ρ]
    (hmax : ht.nbuckets < maxNumBuckets) :
    ∃ ht', ht.resizeTable store object = some (true, ht') ∧ ht'.nbuckets = ht.nbuckets * 2 ∧
      ht'.Represents store object [] (recent ++ old) := by
  obtain ⟨last, hchain⟩ := h.chain
  have hempty : BucketsHold store object
      { ht with nbuckets := ht.nbuckets * 2, buckets := fun _ => none } [] :=
    fun _ => ⟨none, rfl, rfl⟩
  have hnodup : ((recent ++ old).reverse ++ []).Nodup := by
    rw [List.append_nil]
    exact List.nodup_reverse.mpr h.nodup
  obtain ⟨buckets, bucketLinks, hloop, hhold⟩ :=
    hempty.resizeLoop hchain hnodup h.bound
  refine ⟨_, by rw [HashTable.resizeTable, if_pos hmax, hloop]; rfl, rfl, ?_⟩
  rw [List.append_nil] at hhold
  exact ⟨h.nodup, ⟨last, hchain⟩, hhold, by have := h.nbuckets; simp; omega, h.bound, h.count⟩

theorem link [DecidableEq ρ]
    (hnew : ho ∉ recent ++ old) :
    (ht.link store object ho).Represents store object (ho :: recent) old where
  nodup := List.nodup_cons.mpr ⟨hnew, h.nodup⟩
  chain := h.chain.pushFront (List.nodup_cons.mpr ⟨hnew, h.nodup⟩)
  buckets :=
    have hold : (ht.linkIntoChain ho).BucketsHold store object (recent ++ old.reverse) := h.buckets
    hold.linkIntoBucket (List.nodup_cons.mpr ⟨by simpa using hnew, h.nodup_order⟩)
  nbuckets := h.nbuckets
  bound := Nat.succ_le_succ h.bound
  count := by
    have hcount : (ht.link store object ho).count = uintAdd ht.count 1 := rfl
    rw [hcount, h.count, uintAdd, Nat.mod_add_mod, List.cons_append, List.length_cons]

/-- Adding an object: it comes first, and a resize makes all others old. -/
theorem add [DecidableEq ρ]
    (hnew : ho ∉ recent ++ old) :
    ∃ ht', ht.add store object ho = some (ht.resizes store, ht') ∧
      ht'.nbuckets = (if ht.resizes store then ht.nbuckets * 2 else ht.nbuckets) ∧
      if ht.resizes store then ht'.Represents store object [ho] (recent ++ old)
      else ht'.Represents store object (ho :: recent) old := by
  by_cases hfull : store.capacity ht.nbuckets ≤ ht.count
  · by_cases hmax : ht.nbuckets < maxNumBuckets
    · have hresizes : ht.resizes store = true := by simp [resizes, hfull, hmax]
      obtain ⟨ht', hresize, hdouble, h'⟩ := h.resizeTable hmax
      refine ⟨ht'.link store object ho, by simp [HashTable.add, hfull, hresize, hresizes], ?_⟩
      rw [if_pos hresizes, if_pos hresizes]
      exact ⟨hdouble, h'.link (by simpa using hnew)⟩
    · have hresizes : ht.resizes store = false := by simp [resizes, hmax]
      refine ⟨ht.link store object ho,
        by simp [HashTable.add, HashTable.resizeTable, hfull, hmax, hresizes], ?_⟩
      rw [hresizes]
      exact ⟨rfl, h.link hnew⟩
  · have hresizes : ht.resizes store = false := by simp [resizes, hfull]
    refine ⟨ht.link store object ho, by simp [HashTable.add, hfull, hresizes], ?_⟩
    rw [hresizes]
    exact ⟨rfl, h.link hnew⟩

end

theorem findLoop {hash : UInt64} {name : List UInt8} {fuel : Nat} {before next last : Option ρ}
    {xs : List ρ} (hchain : ht.bucketLinks.Segment before next xs last none)
    (hfuel : xs.length ≤ fuel) :
    ht.findLoop object hash name fuel next = some (xs.find? (matchesKey object hash name)) := by
  induction xs generalizing before next fuel with
  | nil =>
    obtain ⟨-, rfl⟩ := hchain
    cases fuel <;> rfl
  | cons ho xs ih =>
    obtain ⟨rfl, -, hrest⟩ := hchain
    obtain ⟨fuel, rfl⟩ := Nat.exists_eq_add_one_of_ne_zero (by simp at hfuel; omega : fuel ≠ 0)
    rw [HashTable.findLoop, List.find?_cons, ih hrest (by simpa using hfuel)]
    cases matchesKey object hash name ho <;> rfl

/-- `find` meets the recent objects from new to old, and then the old ones from old to new. -/
theorem find (h : ht.Represents store object recent old) (hash : UInt64) (name : List UInt8) :
    ht.find store object hash name =
      some ((recent ++ old.reverse).find? (matchesKey object hash name)) := by
  obtain ⟨last, hchain⟩ := h.buckets (ht.getBucketIndex store hash)
  have hfuel : (ht.bucketOf store object (recent ++ old.reverse)
      (ht.getBucketIndex store hash)).length ≤ ht.bound := by
    refine (List.length_filter_le _ _).trans ?_
    simpa using h.bound
  rw [HashTable.find, findLoop hchain hfuel, bucketOf, List.find?_filter]
  congr 2
  funext ho
  -- an object with the hash of the key is in the bucket of the key
  by_cases hkey : (object ho).hash = hash <;> simp [matchesKey, hkey]

theorem enumerateLoop {fuel : Nat} {before next last : Option ρ} {xs : List ρ}
    (hchain : ht.links.Segment before next xs last none) (hfuel : xs.length ≤ fuel) :
    ht.enumerateLoop fuel next = some xs := by
  induction xs generalizing before next fuel with
  | nil =>
    obtain ⟨-, rfl⟩ := hchain
    cases fuel <;> rfl
  | cons ho xs ih =>
    obtain ⟨rfl, -, hrest⟩ := hchain
    obtain ⟨fuel, rfl⟩ := Nat.exists_eq_add_one_of_ne_zero (by simp at hfuel; omega : fuel ≠ 0)
    rw [HashTable.enumerateLoop, ih hrest (by simpa using hfuel), Option.map_some]

theorem enumerate (h : ht.Represents store object recent old) :
    ht.enumerate = some (recent ++ old) := by
  obtain ⟨last, hchain⟩ := h.chain
  exact enumerateLoop hchain h.bound

theorem remove [DecidableEq ρ] (h : ht.Represents store object recent old)
    (hmem : ho ∈ recent ++ old) :
    (ht.remove store object ho).Represents store object (recent.filter (· ≠ ho))
      (old.filter (· ≠ ho)) := by
  obtain ⟨xs, ys, hsplit⟩ := List.append_of_mem hmem
  have hnodup := h.nodup
  have hchain := h.chain
  have hbound := h.bound
  have hcount := h.count
  rw [hsplit] at hnodup hchain hbound hcount
  have hrest : recent.filter (· ≠ ho) ++ old.filter (· ≠ ho) = xs ++ ys := by
    rw [← List.filter_append, hsplit, filter_ne_of_split hnodup]
  constructor
  · rw [hrest]
    exact hnodup.sublist (by simp)
  · rw [hrest]
    exact hchain.unlink hnodup
  · rw [← List.filter_reverse, ← List.filter_append]
    exact h.buckets.remove h.nodup_order (by simpa using hmem)
  · exact h.nbuckets
  · rw [hrest]
    refine Nat.le_trans ?_ hbound
    simp
  · rw [hrest]
    have hnew : (ht.remove store object ho).count = uintSub ht.count 1 := rfl
    rw [hnew, hcount]
    simp only [List.length_append, List.length_cons, uintSub, uintRange]
    omega

end Represents

end HashTable

end CyberCache
