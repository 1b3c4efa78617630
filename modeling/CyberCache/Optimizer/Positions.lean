import CyberCache.Optimizer.ChainRuns

/-!
# Iterators as positions

The chains one after the other are one list. An iterator is a position in it, and the next object
that it returns is the first one behind the position that is not busy, not deleted and in a chain
with more objects than are to be retained.
-/

namespace CyberCache

namespace Optimizer

variable {Object : Type} {s : Optimizer Object} {objs : Nat → List Object} {o : Object}
  {busy : Object → Bool} {ua : Nat} {done todo : List Object}

/-! ## The order of all objects -/

/-- The objects of these chains, one chain after the other. -/
def inOrder (objs : Nat → List Object) (uas : List Nat) : List Object := uas.flatMap objs

theorem inOrder_cons (uas : List Nat) :
    inOrder objs (ua :: uas) = objs ua ++ inOrder objs uas := List.flatMap_cons

theorem userAgentsFrom_succ (h : ua < numUserAgents) :
    userAgentsFrom ua = ua :: userAgentsFrom (ua + 1) := by
  unfold userAgentsFrom
  obtain ⟨k, hk⟩ : ∃ k, numUserAgents - ua = k + 1 := ⟨numUserAgents - ua - 1, by omega⟩
  rw [hk, List.range'_succ]
  congr 2
  omega

theorem userAgentsFrom_zero (h : ua < numUserAgents) :
    userAgentsFrom 0 = List.range ua ++ ua :: userAgentsFrom (ua + 1) := by
  have happend : List.range' 0 ua ++ List.range' (0 + 1 * ua) (numUserAgents - ua) =
      List.range' 0 (ua + (numUserAgents - ua)) := List.range'_append
  rw [Nat.one_mul, Nat.zero_add, Nat.add_sub_cancel' h.le] at happend
  rw [← userAgentsFrom_succ h, List.range_eq_range']
  exact happend.symm

theorem inOrder_split (h : ua < numUserAgents) :
    inOrder objs (userAgentsFrom 0) =
      inOrder objs (List.range ua) ++ (objs ua ++ inOrder objs (userAgentsFrom (ua + 1))) := by
  rw [userAgentsFrom_zero h, inOrder, List.flatMap_append]
  rfl

theorem inOrder_update {uas : List Nat} (h : ua ∉ uas) (zs : List Object) :
    inOrder (Function.update objs ua zs) uas = inOrder objs uas := by
  refine List.flatMap_congr fun ua' hua' => ?_
  exact Function.update_of_ne (ne_of_mem_of_not_mem hua' h) zs objs

namespace Represents

section

variable (h : s.Represents objs)
include h

theorem firstOf_eq (uas : List Nat) :
    s.firstOf uas = (inOrder objs uas).head? := by
  induction uas with
  | nil => rfl
  | cons ua uas ih =>
    have hrest : s.firstOf (ua :: uas) = (s.chains ua).first.or (s.firstOf uas) := by
      simp only [firstOf, List.findSome?_cons]
      cases (s.chains ua).first <;> rfl
    rw [hrest, ih, (h.holds ua).first_eq, inOrder_cons, List.head?_append]

theorem mem_inOrder : o ∈ inOrder objs (userAgentsFrom 0) ↔
    o ∈ s.linked := by
  simp only [inOrder, List.mem_flatMap, userAgentsFrom, List.mem_range'_1, h.mem]
  constructor
  · rintro ⟨ua, -, hlinked, -⟩
    exact hlinked
  · intro hlinked
    exact ⟨s.userAgent o, by have := h.userAgent o hlinked; omega, hlinked, rfl⟩

theorem nodup_inOrder : (inOrder objs (userAgentsFrom 0)).Nodup := by
  refine List.nodup_flatMap.mpr ⟨fun ua _ => (h.holds ua).nodup, ?_⟩
  have huas : (userAgentsFrom 0).Nodup := List.nodup_range'
  refine huas.imp fun {ua ua'} hne => ?_
  intro z hz hz'
  exact h.disjoint hne.symm z hz hz'

theorem position
    (horder : inOrder objs (userAgentsFrom 0) = done ++ o :: todo) :
    ∃ xs ys, objs (s.userAgent o) = xs ++ o :: ys ∧
      done = inOrder objs (List.range (s.userAgent o)) ++ xs ∧
      todo = ys ++ inOrder objs (userAgentsFrom (s.userAgent o + 1)) := by
  have ho : o ∈ s.linked := h.mem_inOrder.mp (by simp [horder])
  obtain ⟨xs, ys, hsplit⟩ := h.split ho
  have hnodup := horder ▸ h.nodup_inOrder
  have hout : o ∉ done ++ todo := (List.nodup_middle.mp hnodup).notMem
  rw [inOrder_split (h.userAgent o ho), hsplit, List.append_assoc, List.cons_append,
    ← List.append_assoc, eq_comm, List.append_cons_inj_of_notMem
      (fun hmem => hout (List.mem_append_left _ hmem))
      (fun hmem => hout (List.mem_append_right _ hmem))] at horder
  exact ⟨xs, ys, hsplit, horder.1, horder.2.2⟩

theorem nextOf_eq
    (horder : inOrder objs (userAgentsFrom 0) = done ++ o :: todo) :
    s.nextOf (some o) = todo.head? := by
  obtain ⟨xs, ys, hsplit, -, rfl⟩ := h.position horder
  have hnext : s.links.next o = ys.head? := (hsplit ▸ (h.holds (s.userAgent o)).isChain).next_eq
  rw [nextOf, hnext, h.firstOf_eq, List.head?_append]
  cases ys <;> rfl

end

end Represents

/-! ## Objects that an iterator returns -/

variable [DecidableEq Object]

def isEligible (s : Optimizer Object) (busy : Object → Bool) (o : Object) : Bool :=
  decide (o ∉ s.beingDeleted ∧ ¬busy o) &&
    decide ((s.chains (s.userAgent o)).minNum < (s.chains (s.userAgent o)).num)

namespace Represents

section

variable (h : s.Represents objs)
include h

theorem searchChains_cons {xs ys : List Object} (hobjs : objs ua = xs ++ ys)
    {next : Option Object} (hnext : next.or (s.chains ua).first = ys.head?) (uas : List Nat) :
    s.searchChains busy (ua :: uas) next =
      (ys.find? (s.isEligible busy)).or (s.searchChains busy uas none) := by
  have hagent : ∀ o ∈ ys, s.userAgent o = ua := fun o ho =>
    ((h.mem ua o).mp (by rw [hobjs]; exact List.mem_append_right xs ho)).2
  rw [searchChains]
  by_cases hlong : (s.chains ua).minNum < (s.chains ua).num
  · have hfuel : ys.length ≤ s.linked.card := by
      have hall := h.length_le ua
      rw [hobjs, List.length_append] at hall
      exact (Nat.le_add_left _ _).trans hall
    have hfind : ys.find? (s.isEligible busy) = ys.find? fun o => o ∉ s.beingDeleted ∧ ¬busy o := by
      refine List.find?_congr fun o ho => ?_
      simp only [isEligible, hagent o ho, decide_eq_true hlong, Bool.and_true]
    rw [if_pos hlong, hnext, h.findEvictable_eq hobjs hfuel, hfind]
    cases ys.find? fun o => o ∉ s.beingDeleted ∧ ¬busy o <;> rfl
  · have hnone : ys.find? (s.isEligible busy) = none := by
      refine List.find?_eq_none.mpr fun o ho => ?_
      simp only [isEligible, hagent o ho, decide_eq_false hlong, Bool.and_false, Bool.false_eq_true,
        not_false_eq_true]
    rw [if_neg hlong, hnone, Option.none_or]

theorem searchChains_none (uas : List Nat) :
    s.searchChains busy uas none = (inOrder objs uas).find? (s.isEligible busy) := by
  induction uas with
  | nil => rfl
  | cons ua uas ih =>
    have hfirst : (none : Option Object).or (s.chains ua).first = (objs ua).head? := by
      rw [Option.none_or, (h.holds ua).first_eq]
    rw [h.searchChains_cons (List.nil_append (objs ua)).symm hfirst, ih, inOrder_cons,
      List.find?_append]

theorem getGcObject_eq
    (horder : inOrder objs (userAgentsFrom 0) = done ++ todo) :
    s.getGcObject busy todo.head? = todo.find? (s.isEligible busy) := by
  cases todo with
  | nil => rfl
  | cons o todo =>
    have ho : o ∈ s.linked := h.mem_inOrder.mp (by simp [horder])
    obtain ⟨xs, ys, hsplit, -, rfl⟩ := h.position horder
    rw [List.head?_cons, getGcObject, userAgentsFrom_succ (h.userAgent o ho),
      h.searchChains_cons hsplit rfl, h.searchChains_none, ← List.find?_append, List.cons_append]

theorem getNextGcObject_eq (busy : Object → Bool)
    (horder : inOrder objs (userAgentsFrom 0) = done ++ todo) :
    (s.getNextGcObject busy todo.head? = (none, none) ∧ ∀ o ∈ todo, s.isEligible busy o = false) ∨
      ∃ mid o rest, todo = mid ++ o :: rest ∧ (∀ z ∈ mid, s.isEligible busy z = false) ∧
        s.isEligible busy o = true ∧ s.getNextGcObject busy todo.head? = (some o, rest.head?) := by
  have hnext : s.getNextGcObject busy todo.head? =
      (todo.find? (s.isEligible busy), s.nextOf (todo.find? (s.isEligible busy))) := by
    rw [getNextGcObject, h.getGcObject_eq horder]
    split_ifs with heq
    · rfl
    · rw [not_not.mp heq]
  cases hfind : todo.find? (s.isEligible busy) with
  | none =>
    left
    rw [hnext, hfind]
    exact ⟨rfl, fun o ho => Bool.eq_false_iff.mpr (List.find?_eq_none.mp hfind o ho)⟩
  | some o =>
    right
    obtain ⟨helig, mid, rest, rfl, hmid⟩ := List.find?_eq_some_iff_append.mp hfind
    refine ⟨mid, o, rest, rfl, fun z hz => by simpa using hmid z hz, helig, ?_⟩
    rw [hnext, hfind]
    exact congrArg (some o, ·) (h.nextOf_eq (horder.trans (List.append_assoc done mid _).symm))

theorem remove (ho : o ∈ s.linked) {xs ys : List Object}
    (hsplit : objs (s.userAgent o) = xs ++ o :: ys) :
    (s.remove o).Represents (Function.update objs (s.userAgent o) (xs ++ ys)) := by
  have hrest : (s.exclude o).Represents objs := by
    rw [exclude]
    split_ifs <;> exact h.transfer rfl rfl rfl rfl
  have hunlink := hrest.unlink (by simpa using ho) (by simpa using hsplit)
  rw [userAgent_exclude] at hunlink
  exact hunlink.transfer rfl rfl rfl rfl

theorem remove_inOrder
    (horder : inOrder objs (userAgentsFrom 0) = done ++ o :: todo) :
    ∃ objs', (s.remove o).Represents objs' ∧ inOrder objs' (userAgentsFrom 0) = done ++ todo := by
  have ho : o ∈ s.linked := h.mem_inOrder.mp (by simp [horder])
  obtain ⟨xs, ys, hsplit, rfl, rfl⟩ := h.position horder
  refine ⟨_, h.remove ho hsplit, ?_⟩
  rw [inOrder_split (h.userAgent o ho), inOrder_update (by simp), Function.update_self,
    inOrder_update (by simp [userAgentsFrom])]
  simp only [List.append_assoc]

end

end Represents

theorem remove_flag (s : Optimizer Object) (flagged : Finset Object) :
    ({ s with beingDeleted := flagged } : Optimizer Object).remove o =
      { s.remove o with beingDeleted := flagged } := by
  unfold remove exclude
  split_ifs <;> rfl

theorem chains_remove (s : Optimizer Object) (o : Object) (ua : Nat) :
    ((s.remove o).chains ua).minNum = (s.chains ua).minNum ∧
      ((s.remove o).chains ua).num =
        if ua = s.userAgent o then uintSub (s.chains ua).num 1 else (s.chains ua).num := by
  have hexclude : (s.exclude o).chains = s.chains := by
    rw [exclude]
    split_ifs <;> rfl
  simp only [remove, unlink, hexclude]
  by_cases hua : ua = s.userAgent o
  · subst hua
    rw [Function.update_self, if_pos rfl]
    exact ⟨rfl, rfl⟩
  · rw [Function.update_of_ne hua, if_neg hua]
    exact ⟨rfl, rfl⟩

end Optimizer

end CyberCache
