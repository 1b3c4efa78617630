import CyberCache.Optimizer.ObjectChains

/-!
# Chains stay in order

The chains hold exactly the linked objects, each object in the chain of its user agent. An iterator
of an eviction pass may be left with an object that another pass, nested into it, has evicted. Such
an object is dead: it is flagged as being deleted, and its forward links lead to dead objects only,
so that the iterator will not return any of them.
-/

namespace CyberCache

variable {Object : Type} [DecidableEq Object]

/-! ## Single chains -/

namespace ObjectChain

variable {chain : ObjectChain Object} {links : Links Object} {x : Object} {xs ys zs : List Object}

variable {other : ObjectChain Object}

omit [DecidableEq Object] in
structure Holds (chain : ObjectChain Object) (links : Links Object) (xs : List Object) : Prop where
  isChain : links.IsChain chain.first xs
  last : chain.last = xs.getLast?
  num : chain.num = xs.length % uintRange
  nodup : xs.Nodup

omit [DecidableEq Object] in
theorem Holds.first_eq (h : chain.Holds links xs) : chain.first = xs.head? := h.isChain.first_eq

theorem Holds.link (h : chain.Holds links xs) (hx : x ∉ xs) :
    (chain.link links x).1.Holds (chain.link links x).2 (xs ++ [x]) where
  isChain := by
    have hfirst : (if chain.last = none then some x else chain.first) = (xs ++ [x]).head? := by
      rw [h.last, h.first_eq]
      cases xs <;> simp
    simp only [ObjectChain.link, hfirst]
    rw [h.last]
    exact h.isChain.pushBack h.nodup hx
  last := by simp [ObjectChain.link]
  num := by simp [ObjectChain.link, h.num, uintAdd_mod]
  nodup := List.concat_eq_append ▸ h.nodup.concat hx

theorem Holds.unlink (h : chain.Holds links (xs ++ x :: ys)) :
    (chain.unlink links x).1.Holds (chain.unlink links x).2 (xs ++ ys) := by
  have hx : x ∉ xs ++ ys := (List.nodup_middle.mp h.nodup).notMem
  have hnodup : (xs ++ ys).Nodup := (List.nodup_middle.mp h.nodup).of_cons
  constructor
  case isChain =>
    obtain ⟨last, hsegment⟩ := h.isChain.unlink h.nodup
    exact ⟨last, (hsegment.setPrev hx none).setNext hx none⟩
  case last =>
    simp only [ObjectChain.unlink, h.isChain.next_eq, h.isChain.prev_eq, h.last]
    cases ys with
    | nil => simp
    | cons y ys => simp [List.getLast?_append]
  case num =>
    simp only [ObjectChain.unlink, h.num, List.length_append, List.length_cons, ← add_assoc]
    exact uintSub_mod (by decide)
  case nodup => exact hnodup

theorem Holds.promote (h : chain.Holds links (xs ++ x :: ys)) :
    (chain.promote links x).1.Holds (chain.promote links x).2 (xs ++ ys ++ [x]) := by
  have hx : x ∉ xs ++ ys := (List.nodup_middle.mp h.nodup).notMem
  have hnodup : (xs ++ ys).Nodup := (List.nodup_middle.mp h.nodup).of_cons
  cases ys with
  | nil => simpa [ObjectChain.promote, h.last] using h
  | cons y ys =>
    have hlast : (xs ++ x :: y :: ys).getLast? = (xs ++ y :: ys).getLast? := by
      simp [List.getLast?_append]
    have hne : chain.last ≠ some x := by
      rw [h.last, hlast]
      intro heq
      exact hx (List.mem_of_getLast? heq)
    have hchain := (h.isChain.unlink h.nodup).pushBack hnodup hx
    simp only [ObjectChain.promote, if_neg hne]
    constructor
    case isChain =>
      have hfirst := (h.isChain.unlink h.nodup).first_eq
      rw [h.last, hlast, hfirst]
      simpa using hchain
    case last => rw [List.getLast?_concat]
    case num => simp [h.num]
    case nodup => exact List.concat_eq_append ▸ hnodup.concat hx

/-! Other chains. -/

theorem Holds.link_frame (h : chain.Holds links xs)
    (hother : other.Holds links zs) (hx : x ∉ zs) (hdisjoint : ∀ z ∈ xs, z ∉ zs) :
    other.Holds (chain.link links x).2 zs :=
  { hother with
    isChain := by
      simp only [ObjectChain.link, h.last]
      exact hother.isChain.pushBack_frame hx hdisjoint }

theorem Holds.unlink_frame (h : chain.Holds links (xs ++ x :: ys))
    (hother : other.Holds links zs) (hdisjoint : ∀ z ∈ xs ++ x :: ys, z ∉ zs) :
    other.Holds (chain.unlink links x).2 zs :=
  { hother with
    isChain := by
      have hx : x ∉ zs := hdisjoint x (by simp)
      obtain ⟨last, hsegment⟩ := hother.isChain.unlink_frame h.isChain hdisjoint
      exact ⟨last, (hsegment.setPrev hx none).setNext hx none⟩ }

theorem Holds.promote_frame (h : chain.Holds links (xs ++ x :: ys))
    (hother : other.Holds links zs) (hdisjoint : ∀ z ∈ xs ++ x :: ys, z ∉ zs) :
    other.Holds (chain.promote links x).2 zs := by
  rw [ObjectChain.promote]
  split_ifs
  · exact hother
  · refine { hother with isChain := ?_ }
    simp only [h.last]
    exact (hother.isChain.unlink_frame h.isChain hdisjoint).pushBack_frame
      (hdisjoint x (by simp)) hdisjoint

omit [DecidableEq Object] in
theorem Holds.next_mem (h : chain.Holds links xs) (hx : x ∈ xs) {y : Object}
    (hnext : links.next x = some y) : y ∈ xs ∧ y ≠ x := by
  obtain ⟨us, vs, rfl⟩ := List.append_of_mem hx
  have hy := h.isChain.next_mem y hnext
  refine ⟨by simp [hy], ?_⟩
  rintro rfl
  exact (List.nodup_middle.mp h.nodup).notMem (by simp [hy])

end ObjectChain

namespace Optimizer

variable {domain : Domain} {s s' : Optimizer Object} {objs : Nat → List Object} {o n : Object}
  {next deleted : Option Object} {ua : Nat} {busy : Object → Bool}

/-! ## All chains -/

section Fields

@[simp]
theorem userAgent_link : (s.link ua o).userAgent = s.userAgent := rfl

@[simp]
theorem linked_link : (s.link ua o).linked = insert o s.linked := rfl

@[simp]
theorem userAgent_unlink : (s.unlink ua o).userAgent = s.userAgent := rfl

@[simp]
theorem linked_unlink : (s.unlink ua o).linked = s.linked.erase o := rfl

@[simp]
theorem userAgent_promote : (s.promote ua o).userAgent = s.userAgent := rfl

@[simp]
theorem linked_promote : (s.promote ua o).linked = s.linked := rfl

@[simp]
theorem userAgent_setUserAgent :
    (s.setUserAgent o ua).userAgent = Function.update s.userAgent o ua := rfl

@[simp]
theorem linked_setUserAgent : (s.setUserAgent o ua).linked = s.linked := rfl

end Fields

omit [DecidableEq Object] in
/-- The chains have exactly the linked objects, sorted by their user agents. -/
structure Represents (s : Optimizer Object) (objs : Nat → List Object) : Prop where
  holds : ∀ ua, (s.chains ua).Holds s.links (objs ua)
  mem : ∀ ua o, o ∈ objs ua ↔ o ∈ s.linked ∧ s.userAgent o = ua
  userAgent : ∀ o ∈ s.linked, s.userAgent o < numUserAgents

def chainLength (s : Optimizer Object) (ua : Nat) : Nat := {o ∈ s.linked | s.userAgent o = ua}.card

omit [DecidableEq Object] in
theorem chainLength_le (s : Optimizer Object) (ua : Nat) : s.chainLength ua ≤ s.linked.card :=
  Finset.card_filter_le _ _

namespace Represents

variable {xs ys : List Object}

section

variable (h : s.Represents objs)
include h

theorem length_eq (ua : Nat) : (objs ua).length = s.chainLength ua := by
  have hfiber : ({o ∈ s.linked | s.userAgent o = ua} : Finset Object) = (objs ua).toFinset := by
    ext o
    simp [h.mem]
  rw [chainLength, hfiber, List.toFinset_card_of_nodup (h.holds ua).nodup]

theorem length_le (ua : Nat) : (objs ua).length ≤ s.linked.card :=
  h.length_eq ua ▸ s.chainLength_le ua

theorem num_eq (ua : Nat) :
    (s.chains ua).num = s.chainLength ua % uintRange := by
  rw [← h.length_eq, (h.holds ua).num]

theorem num_lt (ua : Nat) : (s.chains ua).num < uintRange :=
  h.num_eq ua ▸ Nat.mod_lt _ (Nat.two_pow_pos 32)

/-- The counter of a chain is exact if it is able to hold the number of all objects. -/
theorem num_eq_chainLength (hfits : s.linked.card < uintRange) (ua : Nat) :
    (s.chains ua).num = s.chainLength ua := by
  rw [h.num_eq, Nat.mod_eq_of_lt ((s.chainLength_le ua).trans_lt hfits)]

omit [DecidableEq Object] in
theorem transfer (hchains : s'.chains = s.chains)
    (hlinks : s'.links = s.links) (hlinked : s'.linked = s.linked)
    (huserAgent : s'.userAgent = s.userAgent) : s'.Represents objs where
  holds := by simpa only [hchains, hlinks] using h.holds
  mem := by simpa only [hlinked, huserAgent] using h.mem
  userAgent := by simpa only [hlinked, huserAgent] using h.userAgent

omit [DecidableEq Object] in
theorem disjoint {ua' : Nat} (hne : ua' ≠ ua) :
    ∀ z ∈ objs ua, z ∉ objs ua' := by
  intro z hz hz'
  exact hne (((h.mem ua' z).mp hz').2.symm.trans ((h.mem ua z).mp hz).2)

omit [DecidableEq Object] in
theorem split (ho : o ∈ s.linked) :
    ∃ xs ys, objs (s.userAgent o) = xs ++ o :: ys :=
  List.append_of_mem ((h.mem _ o).mpr ⟨ho, rfl⟩)

omit [DecidableEq Object] in
theorem update {ua : Nat}
    (hholds : (s'.chains ua).Holds s'.links xs)
    (hother : ∀ ua', ua' ≠ ua → (s'.chains ua').Holds s'.links (objs ua'))
    (hmem : ∀ z, z ∈ xs ↔ z ∈ s'.linked ∧ s'.userAgent z = ua)
    (hkept : ∀ z, s.userAgent z ≠ ua ∨ s'.userAgent z ≠ ua →
      (z ∈ s'.linked ↔ z ∈ s.linked) ∧ s'.userAgent z = s.userAgent z)
    (hlt : ua < numUserAgents) : s'.Represents (Function.update objs ua xs) where
  holds ua' := by
    by_cases hua : ua' = ua
    · subst hua
      rw [Function.update_self]
      exact hholds
    · rw [Function.update_of_ne hua]
      exact hother ua' hua
  mem ua' z := by
    by_cases hua : ua' = ua
    · subst hua
      rw [Function.update_self]
      exact hmem z
    · rw [Function.update_of_ne hua, h.mem]
      constructor
      · rintro ⟨hz, rfl⟩
        obtain ⟨hlinked, hagent⟩ := hkept z (.inl hua)
        exact ⟨hlinked.mpr hz, hagent⟩
      · rintro ⟨hz, rfl⟩
        obtain ⟨hlinked, hagent⟩ := hkept z (.inr hua)
        exact ⟨hlinked.mp hz, hagent.symm⟩
  userAgent z hz := by
    by_cases hua : s'.userAgent z = ua
    · rwa [hua]
    · obtain ⟨hlinked, hagent⟩ := hkept z (.inr hua)
      rw [hagent]
      exact h.userAgent z (hlinked.mp hz)

theorem setUserAgent (ho : o ∉ s.linked) (ua : Nat) :
    (s.setUserAgent o ua).Represents objs where
  holds := h.holds
  mem ua' z := by
    rw [h.mem]
    refine and_congr_right fun hz => ?_
    rw [userAgent_setUserAgent, Function.update_of_ne (ne_of_mem_of_not_mem hz ho)]
  userAgent z hz := by
    rw [userAgent_setUserAgent, Function.update_of_ne (ne_of_mem_of_not_mem hz ho)]
    exact h.userAgent z hz

theorem link (ho : o ∉ s.linked) (hua : s.userAgent o < numUserAgents) :
    (s.link (s.userAgent o) o).Represents
      (Function.update objs (s.userAgent o) (objs (s.userAgent o) ++ [o])) := by
  have hnew : ∀ ua, o ∉ objs ua := fun ua hmem => ho ((h.mem ua o).mp hmem).1
  refine h.update ?_ ?_ ?_ ?_ hua
  · simpa [Optimizer.link] using (h.holds _).link (hnew _)
  · intro ua' hne
    simpa [Optimizer.link, hne] using
      (h.holds (s.userAgent o)).link_frame (h.holds ua') (hnew ua') (h.disjoint hne)
  · intro z
    simp only [linked_link, userAgent_link, List.mem_append, h.mem, List.mem_singleton,
      Finset.mem_insert]
    grind
  · intro z hz
    simp only [linked_link, userAgent_link, Finset.mem_insert] at hz ⊢
    grind

theorem unlink (ho : o ∈ s.linked)
    (hsplit : objs (s.userAgent o) = xs ++ o :: ys) :
    (s.unlink (s.userAgent o) o).Represents
      (Function.update objs (s.userAgent o) (xs ++ ys)) := by
  have hholds := hsplit ▸ h.holds (s.userAgent o)
  have ho' : o ∉ xs ++ ys := (List.nodup_middle.mp hholds.nodup).notMem
  refine h.update ?_ ?_ ?_ ?_ (h.userAgent o ho)
  · simpa [Optimizer.unlink] using hholds.unlink
  · intro ua' hne
    simpa [Optimizer.unlink, hne] using
      hholds.unlink_frame (h.holds ua') (hsplit ▸ h.disjoint hne)
  · intro z
    have hz := h.mem (s.userAgent o) z
    rw [hsplit] at hz
    simp only [linked_unlink, userAgent_unlink, Finset.mem_erase]
    grind
  · intro z hz
    simp only [linked_unlink, userAgent_unlink, Finset.mem_erase] at hz ⊢
    grind

theorem promote (ho : o ∈ s.linked)
    (hsplit : objs (s.userAgent o) = xs ++ o :: ys) :
    (s.promote (s.userAgent o) o).Represents
      (Function.update objs (s.userAgent o) (xs ++ ys ++ [o])) := by
  have hholds := hsplit ▸ h.holds (s.userAgent o)
  refine h.update ?_ ?_ ?_ ?_ (h.userAgent o ho)
  · simpa [Optimizer.promote] using hholds.promote
  · intro ua' hne
    simpa [Optimizer.promote, hne] using
      hholds.promote_frame (h.holds ua') (hsplit ▸ h.disjoint hne)
  · intro z
    have hz := h.mem (s.userAgent o) z
    rw [hsplit] at hz
    simp only [linked_promote, userAgent_promote]
    grind
  · intro z _
    exact ⟨Iff.rfl, rfl⟩

theorem next_unlink (ho : o ∈ s.linked) {z : Object} (hz : z ∉ s.linked) :
    (s.unlink (s.userAgent o) o).links.next z = s.links.next z := by
  obtain ⟨xs, ys, hsplit⟩ := h.split ho
  have hchain := hsplit ▸ (h.holds (s.userAgent o)).isChain
  have hout : z ∉ xs := fun hmem => hz ((h.mem _ z).mp (by rw [hsplit]; simp [hmem])).1
  have hne : z ≠ o := (ne_of_mem_of_not_mem ho hz).symm
  simp only [Optimizer.unlink, ObjectChain.unlink, Links.next_setNext_of_ne _ hne,
    Links.next_setPrev]
  exact hchain.next_unlink hout

end

/-! ## Iterators -/

omit [DecidableEq Object] in
theorem firstOf_mem (h : s.Represents objs) {uas : List Nat} (hn : s.firstOf uas = some n) :
    n ∈ s.linked ∧ s.userAgent n ∈ uas := by
  obtain ⟨ua, hua, hfirst⟩ := List.exists_of_findSome?_eq_some hn
  rw [(h.holds ua).first_eq] at hfirst
  obtain ⟨hlinked, rfl⟩ := (h.mem ua n).mp (List.mem_of_head? hfirst)
  exact ⟨hlinked, hua⟩

omit [DecidableEq Object] in
theorem nextOf_mem (h : s.Represents objs) (ho : o ∈ s.linked) (hn : s.nextOf (some o) = some n) :
    n ∈ s.linked ∧ n ≠ o := by
  cases hnext : s.links.next o with
  | some m =>
    obtain rfl : m = n := by simpa [nextOf, hnext] using hn
    obtain ⟨hmem, hne⟩ := (h.holds _).next_mem ((h.mem _ o).mpr ⟨ho, rfl⟩) hnext
    exact ⟨((h.mem _ m).mp hmem).1, hne⟩
  | none =>
    simp only [nextOf, hnext] at hn
    obtain ⟨hlinked, hua⟩ := h.firstOf_mem hn
    refine ⟨hlinked, ?_⟩
    rintro rfl
    simp only [userAgentsFrom, List.mem_range'_1] at hua
    omega

theorem findEvictable_eq (h : s.Represents objs) (hobjs : objs ua = xs ++ ys)
    {fuel : Nat} (hfuel : ys.length ≤ fuel) :
    s.findEvictable busy fuel ys.head? = ys.find? fun o => o ∉ s.beingDeleted ∧ ¬busy o := by
  induction ys generalizing xs fuel with
  | nil => cases fuel <;> rfl
  | cons y ys ih =>
    obtain ⟨fuel, rfl⟩ := Nat.exists_eq_succ_of_ne_zero (Nat.ne_zero_of_lt hfuel)
    have hnext : s.links.next y = ys.head? := (hobjs ▸ (h.holds ua).isChain).next_eq
    have hobjs' : objs ua = (xs ++ [y]) ++ ys := by simp [hobjs]
    have hrest := ih hobjs' (Nat.le_of_succ_le_succ hfuel)
    rw [List.head?_cons, findEvictable, hnext, hrest, List.find?_cons]
    by_cases hy : y ∉ s.beingDeleted ∧ ¬busy y
    · simp only [if_pos hy, decide_eq_true hy]
    · simp only [if_neg hy, decide_eq_false hy]

end Represents

/-! ## Objects that were evicted -/

/-- What an iterator sees of the objects. -/
structure Marks (Object : Type) where
  links : Links Object
  linked : Finset Object
  beingDeleted : Finset Object

def marks (s : Optimizer Object) : Marks Object := ⟨s.links, s.linked, s.beingDeleted⟩

/-- All objects from this one on were evicted. -/
inductive Dead (m : Marks Object) : Object → Prop
  | intro {o : Object} : o ∈ m.beingDeleted → o ∉ m.linked →
      (∀ n, m.links.next o = some n → Dead m n) → Dead m o

/-- An iterator may have this object. -/
def Safe (m : Marks Object) (next : Option Object) : Prop :=
  ∀ o ∈ next, o ∈ m.linked ∨ Dead m o

/-- What is to be done is about such objects. -/
def Sound (m : Marks Object) : Activity Object → Prop
  | .advancing _ next deleted => Safe m next ∧ ∀ o ∈ deleted, Dead m o
  | .reporting deleted => ∀ o ∈ deleted, Dead m o
  | .posting | .checking | .recompressing => True

omit [DecidableEq Object] in
/-- No object is linked, and links between objects that are not linked are only cut. -/
structure Decays (m m' : Marks Object) : Prop where
  beingDeleted : m.beingDeleted ⊆ m'.beingDeleted
  unlinked : ∀ o ∉ m.linked, o ∉ m'.linked
  next : ∀ o ∉ m.linked, m'.links.next o = m.links.next o ∨ m'.links.next o = none
  linked : ∀ o ∈ m.linked, o ∈ m'.linked ∨ Dead m' o

section Decays

variable {m m' : Marks Object}

omit [DecidableEq Object]

theorem Dead.mono (h : Dead m o) (hdeleted : m.beingDeleted ⊆ m'.beingDeleted)
    (hunlinked : ∀ o ∉ m.linked, o ∉ m'.linked)
    (hnext : ∀ o ∉ m.linked, m'.links.next o = m.links.next o ∨ m'.links.next o = none) :
    Dead m' o := by
  induction h with
  | intro ho hlinked hrest ih =>
    refine .intro (hdeleted ho) (hunlinked _ hlinked) fun n hn => ?_
    rcases hnext _ hlinked with heq | hnone
    · exact ih n (heq ▸ hn)
    · cases hnone.symm.trans hn

theorem Decays.dead (h : Decays m m') (ho : Dead m o) : Dead m' o :=
  ho.mono h.beingDeleted h.unlinked h.next

theorem Decays.safe (h : Decays m m') (hsafe : Safe m next) : Safe m' next := by
  intro o ho
  rcases hsafe o ho with hlinked | hdead
  · exact h.linked o hlinked
  · exact .inr (h.dead hdead)

theorem Decays.sound (h : Decays m m') {a : Activity Object} (hsound : Sound m a) : Sound m' a := by
  cases a with
  | advancing mode next deleted => exact ⟨h.safe hsound.1, fun o ho => h.dead (hsound.2 o ho)⟩
  | reporting deleted => exact fun o ho => h.dead (hsound o ho)
  | posting | checking | recompressing => trivial

end Decays

omit [DecidableEq Object] in
theorem safe_none (m : Marks Object) : Safe m none := by simp [Safe]

namespace Represents

omit [DecidableEq Object]

theorem safe_firstOf (h : s.Represents objs) (uas : List Nat) : Safe s.marks (s.firstOf uas) :=
  fun _ hn => .inl (h.firstOf_mem hn).1

theorem safe_nextOf (h : s.Represents objs) (hsafe : Safe s.marks next) :
    Safe s.marks (s.nextOf next) := by
  cases next with
  | none => exact safe_none _
  | some o =>
    intro n hn
    rcases hsafe o rfl with hlinked | hdead
    · exact .inl (h.nextOf_mem hlinked hn).1
    · cases hnext : s.links.next o with
      | some m =>
        obtain rfl : m = n := by simpa [nextOf, hnext] using hn
        obtain ⟨-, -, hrest⟩ := hdead
        exact .inr (hrest m hnext)
      | none =>
        simp only [nextOf, hnext] at hn
        exact h.safe_firstOf _ n hn

end Represents

namespace Represents

section

variable (h : s.Represents objs)
include h

theorem findEvictable_mem (hsafe : Safe s.marks next) {fuel : Nat}
    (hn : s.findEvictable busy fuel next = some n) : n ∈ s.linked := by
  induction fuel generalizing next with
  | zero => cases hn
  | succ fuel ih =>
    cases next with
    | none => cases hn
    | some o =>
      rw [findEvictable] at hn
      split_ifs at hn with ho
      · obtain rfl := Option.some.inj hn
        rcases hsafe o rfl with hlinked | ⟨hdeleted, -, -⟩
        · exact hlinked
        · exact absurd hdeleted ho.1
      · refine ih (fun m hm => ?_) hn
        rcases hsafe o rfl with hlinked | ⟨-, -, hrest⟩
        · exact .inl (h.nextOf_mem hlinked (by simp [nextOf, Option.mem_def.mp hm])).1
        · exact .inr (hrest m hm)

theorem searchChains_mem {uas : List Nat} (hsafe : Safe s.marks next)
    (hn : s.searchChains busy uas next = some n) : n ∈ s.linked := by
  induction uas generalizing next with
  | nil => cases hn
  | cons ua uas ih =>
    have hstart : Safe s.marks (next.or (s.chains ua).first) := by
      cases next with
      | some o => exact hsafe
      | none =>
        intro n hn
        rw [Option.none_or, (h.holds ua).first_eq] at hn
        exact .inl ((h.mem ua n).mp (List.mem_of_head? hn)).1
    simp only [searchChains] at hn
    split_ifs at hn
    · split at hn
      case h_1 found hfound =>
        cases hn
        exact h.findEvictable_mem hstart hfound
      case h_2 => exact ih (safe_none _) hn
    · exact ih (safe_none _) hn

theorem getGcObject_mem (hsafe : Safe s.marks next)
    (hn : s.getGcObject busy next = some n) : n ∈ s.linked := by
  cases next with
  | none => cases hn
  | some o => exact h.searchChains_mem hsafe hn

theorem getNextGcObject_spec (hsafe : Safe s.marks next)
    (busy : Object → Bool) :
    (∀ o ∈ (s.getNextGcObject busy next).1, o ∈ s.linked) ∧
      Safe s.marks (s.getNextGcObject busy next).2 := by
  have hmem : ∀ o ∈ s.getGcObject busy next, o ∈ s.linked := fun o ho => h.getGcObject_mem hsafe ho
  refine ⟨hmem, ?_⟩
  simp only [getNextGcObject]
  split_ifs
  · exact h.safe_nextOf fun o ho => .inl (hmem o ho)
  · exact h.safe_nextOf hsafe

theorem getFirstGcObject_spec (busy : Object → Bool) :
    (∀ o ∈ (s.getFirstGcObject busy).1, o ∈ s.linked) ∧
      Safe s.marks (s.getFirstGcObject busy).2 :=
  h.getNextGcObject_spec (h.safe_firstOf _) busy

end

end Represents

end Optimizer

end CyberCache
