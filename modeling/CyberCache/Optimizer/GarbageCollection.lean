import CyberCache.Optimizer.EvictionPasses

/-!
# Garbage collection

An explicit request makes an optimizer purge objects that have expired. As long as there is enough
memory, it purges from each chain as many of the expired objects that nobody uses as the chain has
objects in excess of the retained ones, beginning with the first.

Which mode the optimizer is in is decided anew at each request. Modes without expiration are meant
for optimizers with a memory quota, but the check is the wrong way round: it is an optimizer with a
quota that loses its mode.
-/

namespace CyberCache

namespace EvictionPass

namespace Collector

open Optimizer (inOrder userAgentsFrom)

variable {Object : Type} [DecidableEq Object] {around : Surroundings Object} {seconds : UInt32}
  {g g' : Collector Object} {o : Object} {objs : Nat → List Object} {todo : List Object}

/-! ## Objects that are selected -/

/-- The object is purged even if there is enough memory. -/
def isSelected (around : Surroundings Object) (seconds : UInt32) (g : Collector Object)
    (o : Object) : Bool :=
  g.evictionMode.value ≤ EvictionMode.expirationLru.value && around.onGc g.domain o seconds

/-- The object is selected, and nobody uses or deletes it. -/
def isCandidate (around : Surroundings Object) (seconds : UInt32) (g : Collector Object)
    (o : Object) : Bool :=
  o ∉ g.optimizer.beingDeleted && !around.isBusy o && isSelected around seconds g o

/-- So many objects of a chain are not retained. -/
def excess (g : Collector Object) (ua : Nat) : Nat :=
  (g.optimizer.chains ua).num - (g.optimizer.chains ua).minNum

def candidatesOf (around : Surroundings Object) (seconds : UInt32) (g : Collector Object) (ua : Nat)
    (todo : List Object) : List Object :=
  todo.filter fun o => g.optimizer.userAgent o = ua && isCandidate around seconds g o

theorem visitForGc_eq (hbelow : g.isAboveMemoryQuota = false)
    (ho : g.optimizer.isEligible around.isBusy o) :
    (isSelected around seconds g o = false ∧ visitForGc around seconds g o = g) ∨
      (isSelected around seconds g o = true ∧ Eviction g o (visitForGc around seconds g o)) := by
  obtain ⟨hlive, -, hreaders, -⟩ := isEligible_iff.mp ho
  rw [visitForGc, if_pos hlive, hbelow, Bool.false_or]
  cases hselected : isSelected around seconds g o with
  | false => exact .inl ⟨rfl, if_neg (Bool.eq_false_iff.mp hselected)⟩
  | true =>
    right
    refine ⟨rfl, ?_⟩
    have hsel : (decide (g.evictionMode.value ≤ EvictionMode.expirationLru.value) &&
      around.onGc g.domain o seconds) = true := hselected
    rw [if_pos hsel, tryDisposeBuffer, if_neg (by simp [hreaders])]
    exact evict_eviction.onDelete

theorem take_candidatesOf_append {skipped : List Object} (ua : Nat)
    (hskipped : ∀ z ∈ skipped, g.optimizer.isEligible around.isBusy z = false) :
    (candidatesOf around seconds g ua (skipped ++ todo)).take (g.excess ua) =
      (candidatesOf around seconds g ua todo).take (g.excess ua) := by
  rcases Nat.eq_zero_or_pos (g.excess ua) with hzero | hpos
  · rw [hzero, List.take_zero, List.take_zero]
  · have hnone : candidatesOf around seconds g ua skipped = [] := by
      refine List.filter_eq_nil_iff.mpr fun z hz => ?_
      simp only [isCandidate, Surroundings.isBusy, Bool.and_eq_true, decide_eq_true_eq,
        Bool.not_eq_true', Bool.or_eq_false_iff]
      rintro ⟨rfl, ⟨hlive, hlocked, hreaders⟩, -⟩
      have hlong := Nat.lt_of_sub_pos hpos
      have heligible := isEligible_iff.mpr ⟨hlive, hlocked, hreaders, hlong⟩
      exact absurd heligible (Bool.eq_false_iff.mp (hskipped z hz))
    rw [candidatesOf, List.filter_append]
    exact congrArg (fun l => (l ++ candidatesOf around seconds g ua todo).take _) hnone

theorem Eviction.candidatesOf_eq (h : Eviction g o g') (ho : o ∉ todo) (ua : Nat) :
    candidatesOf around seconds g' ua todo = candidatesOf around seconds g ua todo := by
  refine List.filter_congr fun z hz => ?_
  have hne : z ≠ o := ne_of_mem_of_not_mem hz ho
  simp only [isCandidate, isSelected, h.userAgent z hne, h.beingDeleted, h.domain, h.evictionMode,
    Finset.mem_insert, hne, false_or]

theorem Eviction.excess_eq (h : Eviction g o g') (ho : g.optimizer.isEligible around.isBusy o)
    (hnum : ∀ ua, (g.optimizer.chains ua).num < uintRange) (ua : Nat) :
    g'.excess ua = if ua = g.optimizer.userAgent o then g.excess ua - 1 else g.excess ua := by
  obtain ⟨hminNum, hnum'⟩ := Optimizer.chains_remove g.optimizer o ua
  simp only [excess, h.chains, hminNum, hnum']
  split_ifs with hua
  · rw [hua, uintSub_num hnum ho]
    omega
  · rfl

theorem take_candidatesOf_cons {gone : List Object} {ua : Nat}
    (ho : g.optimizer.isEligible around.isBusy o)
    (hnum : ∀ ua, (g.optimizer.chains ua).num < uintRange)
    (hselected : isSelected around seconds g o)
    (h : Eviction g o g') (hout : o ∉ todo) (hsubset : gone ⊆ todo)
    (hfilter : gone.filter (fun z => g'.optimizer.userAgent z = ua) =
      (candidatesOf around seconds g' ua todo).take (g'.excess ua)) :
    (o :: gone).filter (fun z => g.optimizer.userAgent z = ua) =
      (candidatesOf around seconds g ua (o :: todo)).take (g.excess ua) := by
  obtain ⟨hlive, hlocked, hreaders, hlong⟩ := isEligible_iff.mp ho
  have hcandidate : isCandidate around seconds g o := by
    simp [isCandidate, Surroundings.isBusy, hlive, hlocked, hreaders, hselected]
  have hgone : gone.filter (fun z => g.optimizer.userAgent z = ua) =
      gone.filter (fun z => g'.optimizer.userAgent z = ua) := by
    refine List.filter_congr fun z hz => ?_
    rw [h.userAgent z (ne_of_mem_of_not_mem (hsubset hz) hout)]
  rw [h.candidatesOf_eq hout, h.excess_eq ho hnum] at hfilter
  by_cases hua : ua = g.optimizer.userAgent o
  · subst hua
    have hcons : candidatesOf around seconds g (g.optimizer.userAgent o) (o :: todo) =
        o :: candidatesOf around seconds g (g.optimizer.userAgent o) todo :=
      List.filter_cons_of_pos (by simpa using hcandidate)
    obtain ⟨k, hk⟩ : ∃ k, g.excess (g.optimizer.userAgent o) = k + 1 := by
      refine Nat.exists_eq_succ_of_ne_zero ?_
      simp only [excess]
      omega
    rw [if_pos rfl, hk, Nat.add_sub_cancel] at hfilter
    rw [List.filter_cons_of_pos (by simp), hgone, hfilter, hcons, hk, List.take_succ_cons]
  · have hne : g.optimizer.userAgent o ≠ ua := fun heq => hua heq.symm
    have hskip : candidatesOf around seconds g ua (o :: todo) =
        candidatesOf around seconds g ua todo := List.filter_cons_of_neg (by simp [hne])
    rw [if_neg hua] at hfilter
    rw [List.filter_cons_of_neg (by simpa using hne), hgone, hfilter, hskip]

/-- From each chain, the first candidates are purged, as many as it has objects in excess. -/
theorem Walk.purged_gc (h : Walk around (fun _ => true) (visitForGc around seconds) g todo g')
    (hafford : g.Affords todo) (hnum : ∀ ua, (g.optimizer.chains ua).num < uintRange) :
    ∃ gone, g'.purged = g.purged ++ gone ∧ gone ⊆ todo ∧
      ∀ ua, gone.filter (fun z => g.optimizer.userAgent z = ua) =
        (candidatesOf around seconds g ua todo).take (g.excess ua) := by
  induction h with
  | stop hstop => cases hstop
  | @finish g todo hnone =>
    refine ⟨[], (List.append_nil _).symm, List.nil_subset _, fun ua => ?_⟩
    have htake : (candidatesOf around seconds g ua (todo ++ [])).take (g.excess ua) =
        (candidatesOf around seconds g ua []).take (g.excess ua) :=
        take_candidatesOf_append ua hnone
    rw [List.append_nil] at htake
    rw [htake]
    exact (List.take_nil).symm
  | @visit g g' skipped todo o hskipped ho _ hwalk ih =>
    have hafford' : (g.consider o).Affords (o :: todo) := { hafford.of_append with }
    have hout : o ∉ todo := (List.nodup_cons.mp hafford'.nodup).1
    rcases visitForGc_eq hafford'.belowQuota ho with ⟨hnot, heq⟩ | ⟨hselected, hev⟩
    · rw [heq] at ih
      obtain ⟨gone, hpurged, hsubset, hfilter⟩ := ih hafford'.tail hnum
      refine ⟨gone, hpurged, fun z hz => ?_, fun ua => ?_⟩
      · exact List.mem_append_right _ (List.mem_cons_of_mem o (hsubset hz))
      · have hdrop : candidatesOf around seconds g ua (o :: todo) =
            candidatesOf around seconds g ua todo := by
          have hnot : isSelected around seconds g o = false := hnot
          exact List.filter_cons_of_neg (by simp [isCandidate, hnot])
        rw [take_candidatesOf_append ua hskipped, hdrop]
        exact hfilter ua
    · have hstep := hev.evolves ho hnum
      obtain ⟨gone, hpurged, hsubset, hfilter⟩ :=
        ih (hev.affords hafford') fun ua => (hstep.num ua).trans_lt (hnum ua)
      refine ⟨o :: gone, ?_, fun z hz => ?_, fun ua => ?_⟩
      · rw [hpurged, hev.purged]
        exact List.append_assoc _ _ _
      · rcases List.mem_cons.mp hz with rfl | hz
        · exact List.mem_append_right _ List.mem_cons_self
        · exact List.mem_append_right _ (List.mem_cons_of_mem o (hsubset hz))
      · rw [take_candidatesOf_append ua hskipped]
        exact take_candidatesOf_cons (g := g.consider o) ho hnum hselected hev hout hsubset
          (hfilter ua)

omit [DecidableEq Object] in
theorem Evolves.isSelected_eq (h : Evolves g g') (o : Object) :
    isSelected around seconds g' o = isSelected around seconds g o := by
  simp only [isSelected, h.domain, h.evictionMode]

/-- No selected object is left that could be purged. -/
theorem Walk.kept_gc (h : Walk around (fun _ => true) (visitForGc around seconds) g todo g')
    (hafford : g.Affords todo) (hnum : ∀ ua, (g.optimizer.chains ua).num < uintRange) :
    ∀ o ∈ todo, isSelected around seconds g o → g'.optimizer.isEligible around.isBusy o =
    false := by
  have hdecides := decides_visitForGc around seconds
  induction h with
  | stop hstop => cases hstop
  | finish hnone => exact fun o ho _ => hnone o ho
  | @visit g g' skipped todo o hskipped ho _ hwalk ih =>
    have hstep := hdecides.evolves ho hnum
    have hnum' := fun ua => (hstep.num ua).trans_lt (hnum ua)
    have hlater := hwalk.evolves hdecides hnum'
    have hafford' : (g.consider o).Affords (o :: todo) := { hafford.of_append with }
    have hcases := @visitForGc_eq _ _ around seconds _ _ hafford'.belowQuota ho
    intro z hz hselected
    rcases List.mem_append.mp hz with hz | hz
    · exact (hstep.trans hlater).not_eligible (hskipped z hz)
    · rcases List.mem_cons.mp hz with rfl | hz
      · rcases hcases with ⟨hnot, -⟩ | ⟨-, hev⟩
        · exact absurd hselected (Bool.eq_false_iff.mp hnot)
        · refine Bool.eq_false_iff.mpr fun heligible => (isEligible_iff.mp heligible).1 ?_
          exact hlater.flagged (hev.beingDeleted ▸ Finset.mem_insert_self _ _)
      · have hrest : (visitForGc around seconds (g.consider o) o).Affords todo := by
          rcases hcases with ⟨-, heq⟩ | ⟨-, hev⟩
          · rw [heq]
            exact hafford'.tail
          · exact hev.affords hafford'
        refine ih hrest hnum' z hz ?_
        rw [hstep.isSelected_eq]
        exact hselected

theorem Walk.optimizer_eq (h : Walk around (fun _ => true) (visitForGc around seconds) g todo g')
    (hbelow : g.isAboveMemoryQuota = false) (hnot : ∀ o, isSelected around seconds g o = false) :
    g'.optimizer = g.optimizer := by
  induction h with
  | stop | finish => rfl
  | @visit g g' skipped todo o hskipped ho _ hwalk ih =>
    rcases visitForGc_eq (g := g.consider o) hbelow ho with ⟨-, heq⟩ | ⟨hselected, -⟩
    · rw [heq] at ih
      exact ih hbelow hnot
    · exact absurd hselected (Bool.eq_false_iff.mp (hnot o))

/-! ## A request -/

omit [DecidableEq Object] in
theorem validateEvictionMode_of_quota (h : g.memory.isQuotaSet ∨ g.globalMemory.isQuotaSet)
    (hmode : g.evictionMode = .lru ∨ g.evictionMode = .strictLru) :
    g.validateEvictionMode = { g with evictionMode := .expirationLru } := by
  have hquota : (g.memory.isQuotaSet || g.globalMemory.isQuotaSet) = true := by simpa using h
  unfold validateEvictionMode
  rcases hmode with hmode | hmode <;> simp only [hmode, hquota, if_true]

omit [DecidableEq Object] in
theorem validateEvictionMode_of_no_quota (h : ¬(g.memory.isQuotaSet ∨ g.globalMemory.isQuotaSet)) :
    g.validateEvictionMode = g := by
  have hquota : (g.memory.isQuotaSet || g.globalMemory.isQuotaSet) = false := by simpa using h
  unfold validateEvictionMode
  split <;> simp [hquota]

omit [DecidableEq Object] in
theorem validateEvictionMode_of_expiration
    (h : g.evictionMode.value ≤ EvictionMode.expirationLru.value) : g.validateEvictionMode = g := by
  unfold validateEvictionMode
  cases hmode : g.evictionMode with
  | strictExpirationLru | expirationLru => rfl
  | lru | strictLru => simp [hmode, EvictionMode.value] at h

theorem processGcMessage_walk (around : Surroundings Object) (seconds : UInt32)
    (h : g.optimizer.Represents objs)
    (hmode : g.validateEvictionMode.evictionMode ≠ .strictLru) :
    ∃ g', g.processGcMessage around seconds = some g' ∧
      Walk around (fun _ => true) (visitForGc around seconds) g.validateEvictionMode.begin
        (inOrder objs (userAgentsFrom 0)) g' ∧
      ∃ objs', g'.optimizer.Represents objs' := by
  obtain ⟨evictionMode, heq⟩ := validateEvictionMode_eq g
  rw [processGcMessage]
  simp only [if_pos hmode]
  rw [heq]
  exact pass_walk (fun _ => true) (decides_visitForGc around seconds) h

theorem candidatesOf_inOrder (h : g.optimizer.Represents objs) {ua : Nat}
    (hua : ua < numUserAgents) :
    candidatesOf around seconds g ua (inOrder objs (userAgentsFrom 0)) =
      (objs ua).filter (isCandidate around seconds g) := by
  have hother : ∀ uas : List Nat, ua ∉ uas →
      candidatesOf around seconds g ua (inOrder objs uas) = [] := by
    intro uas hout
    refine List.filter_eq_nil_iff.mpr fun z hz => ?_
    obtain ⟨ua', hua', hz⟩ := List.mem_flatMap.mp hz
    have hagent := ((h.mem ua' z).mp hz).2
    have hne : ua' ≠ ua := ne_of_mem_of_not_mem hua' hout
    simp [hagent, hne]
  have hown : candidatesOf around seconds g ua (objs ua) =
      (objs ua).filter (isCandidate around seconds g) := by
    refine List.filter_congr fun z hz => ?_
    simp [((h.mem ua z).mp hz).2]
  have hbefore := hother (List.range ua) (by simp)
  have hafter := hother (userAgentsFrom (ua + 1)) (by simp [userAgentsFrom])
  rw [Optimizer.inOrder_split hua]
  simp only [candidatesOf, List.filter_append] at hbefore hafter hown ⊢
  rw [hbefore, hafter, hown, List.nil_append, List.append_nil]

/-- There is enough memory, and the used size covers the buffers of all objects in the chains. -/
structure IsCovered (g : Collector Object) : Prop where
  covered : ∑ o ∈ g.optimizer.linked, g.bytes o ≤ g.memory.usedSize
  fits : g.sessionMemory.usedSize + g.fpcMemory.usedSize < ulongRange
  belowQuota : g.isAboveMemoryQuota = false

theorem IsCovered.affords (hcovered : g.IsCovered) (h : g.optimizer.Represents objs) :
    g.begin.Affords (inOrder objs (userAgentsFrom 0)) where
  nodup := h.nodup_inOrder
  covered := by
    have hall : (inOrder objs (userAgentsFrom 0)).toFinset =
        g.optimizer.linked := by
      ext z
      rw [List.mem_toFinset, h.mem_inOrder]
    have hsum := List.sum_toFinset g.bytes h.nodup_inOrder
    rw [hall] at hsum
    exact hsum.symm.trans_le hcovered.covered
  fits := hcovered.fits
  belowQuota := hcovered.belowQuota

theorem Walk.mem_purged_gc (h : g.optimizer.Represents objs) (hcovered : g.IsCovered)
    (hwalk : Walk around (fun _ => true) (visitForGc around seconds) g.begin
      (inOrder objs (userAgentsFrom 0)) g') :
    o ∈ g'.purged ↔ ∃ ua < numUserAgents,
      o ∈ ((objs ua).filter (isCandidate around seconds g)).take (g.excess ua) := by
  obtain ⟨gone, hpurged, hsubset, hfilter⟩ := hwalk.purged_gc (hcovered.affords h) h.num_lt
  have hgone : g'.purged = gone := hpurged
  have hcandidates : ∀ ua < numUserAgents, gone.filter (fun z => g.optimizer.userAgent z = ua) =
      ((objs ua).filter (isCandidate around seconds g)).take (g.excess ua) :=
    fun ua hua => candidatesOf_inOrder h hua ▸ hfilter ua
  rw [hgone]
  constructor
  · intro ho
    have hua := h.userAgent o (h.mem_inOrder.mp (hsubset ho))
    refine ⟨g.optimizer.userAgent o, hua, ?_⟩
    rw [← hcandidates _ hua]
    exact List.mem_filter.mpr ⟨ho, by simp⟩
  · rintro ⟨ua, hua, ho⟩
    rw [← hcandidates ua hua] at ho
    exact (List.mem_filter.mp ho).1

theorem Walk.isCandidate_of_purged (h : g.optimizer.Represents objs) (hcovered : g.IsCovered)
    (hwalk : Walk around (fun _ => true) (visitForGc around seconds) g.begin
      (inOrder objs (userAgentsFrom 0)) g') (ho : o ∈ g'.purged) :
    isCandidate around seconds g o := by
  obtain ⟨ua, -, hmem⟩ := (hwalk.mem_purged_gc h hcovered).mp ho
  exact (List.mem_filter.mp (List.mem_of_mem_take hmem)).2

/-- What the eviction modes are meant to do at a request. -/
structure Conforms (around : Surroundings Object) (seconds : UInt32) (g g' : Collector Object) :
    Prop where
  keepsMode : g.memory.isQuotaSet ∨ g.globalMemory.isQuotaSet → g'.evictionMode = g.evictionMode
  replacesMode : g'.evictionMode ≠ g.evictionMode →
    ¬(g.memory.isQuotaSet ∨ g.globalMemory.isQuotaSet) ∧
      (g.evictionMode = .lru ∨ g.evictionMode = .strictLru) ∧ g'.evictionMode = .expirationLru
  onlyExpired : g.evictionMode ≠ .strictLru → ∀ o ∈ g'.optimizer.beingDeleted,
    o ∉ g.optimizer.beingDeleted → around.onGc g.domain o seconds
  allExpired : g.evictionMode ≠ .strictLru → ∀ o ∈ g.optimizer.linked,
    o ∉ g'.optimizer.beingDeleted → around.onGc g.domain o seconds → Kept around g' o
  ignores : g.evictionMode = .strictLru → g'.optimizer.beingDeleted = g.optimizer.beingDeleted

def HasUsableMode (around : Surroundings Object) (seconds : UInt32) (g : Collector Object) : Prop :=
  match g.evictionMode with
  | .strictExpirationLru | .expirationLru => True
  | .lru => ¬(g.memory.isQuotaSet ∨ g.globalMemory.isQuotaSet) ∧
      ∀ o ∈ g.optimizer.linked, around.onGc g.domain o seconds → Kept around g o
  | .strictLru => ¬(g.memory.isQuotaSet ∨ g.globalMemory.isQuotaSet)

theorem Walk.conforms (hmode : g.evictionMode.value ≤ EvictionMode.expirationLru.value)
    (hcovered : g.IsCovered) (h : g.optimizer.Represents objs)
    (hfits : g.optimizer.linked.card < uintRange) (h' : ∃ objs', g'.optimizer.Represents objs')
    (hwalk : Walk around (fun _ => true) (visitForGc around seconds) g.begin
      (inOrder objs (userAgentsFrom 0)) g') : Conforms around seconds g g' := by
  have hdecides := decides_visitForGc around seconds
  have hevolves := hwalk.evolves hdecides h.num_lt
  have horderly := (hwalk.orderly hdecides h hfits h').1
  have hselected : ∀ o, isSelected around seconds g o = around.onGc g.domain o seconds :=
    fun o => by simp [isSelected, hmode]
  have hnot : g.evictionMode ≠ .strictLru := fun heq => by simp [heq, EvictionMode.value] at hmode
  refine ⟨fun _ => hevolves.evictionMode, fun hne => absurd hevolves.evictionMode hne,
    fun _ o ho hlive => ?_, fun _ o ho _ hexpired => ?_, fun heq => absurd heq hnot⟩
  · rw [horderly.beingDeleted] at ho
    have hpurged : o ∈ g'.purged := by simpa [hlive] using ho
    have hcandidate := hwalk.isCandidate_of_purged h hcovered hpurged
    simp only [isCandidate, Bool.and_eq_true, hselected] at hcandidate
    exact hcandidate.2
  · have hselected := (hselected o).trans hexpired
    refine (kept_iff h' (horderly.card_lt hfits)).mpr ?_
    exact hwalk.kept_gc (hcovered.affords h) h.num_lt o (h.mem_inOrder.mpr ho) hselected

theorem Walk.conforms_lru (hmode : g.evictionMode = .lru) (hbelow : g.isAboveMemoryQuota = false)
    (hnum : ∀ ua, (g.optimizer.chains ua).num < uintRange)
    (hwalk : Walk around (fun _ => true) (visitForGc around seconds) g.begin todo g') :
    Conforms around seconds g g' ↔
      ∀ o ∈ g.optimizer.linked, around.onGc g.domain o seconds → Kept around g o := by
  have hevolves := hwalk.evolves (decides_visitForGc around seconds) hnum
  have hsame : g'.optimizer = g.optimizer :=
    hwalk.optimizer_eq hbelow fun o => by simp [isSelected, begin, hmode, EvictionMode.value]
  have hkept : ∀ o, Kept around g' o ↔ Kept around g o := fun o => by rw [Kept, Kept, hsame]
  have hne : g.evictionMode ≠ .strictLru := by simp [hmode]
  constructor
  · intro hconforms o ho hexpired
    by_cases hdeleted : o ∈ g.optimizer.beingDeleted
    · exact .inl hdeleted
    · exact (hkept o).mp (hconforms.allExpired hne o ho (hsame ▸ hdeleted) hexpired)
  · intro hall
    exact ⟨fun _ => hevolves.evictionMode, fun hne => absurd hevolves.evictionMode hne,
      fun _ o ho hlive => absurd (hsame ▸ ho) hlive,
      fun _ o ho _ hexpired => (hkept o).mpr (hall o ho hexpired), fun heq => absurd heq hne⟩

theorem not_conforms_of_quota (hordered : g.optimizer.Ordered)
    (hquota : g.memory.isQuotaSet ∨ g.globalMemory.isQuotaSet)
    (hmode : g.evictionMode = .lru ∨ g.evictionMode = .strictLru)
    (hg' : g.processGcMessage around seconds = some g') : ¬Conforms around seconds g g' := by
  obtain ⟨objs, h⟩ := hordered.represents
  have hvalidate := validateEvictionMode_of_quota hquota hmode
  obtain ⟨g₁, hg₁, hwalk, -⟩ := processGcMessage_walk around seconds h (by simp [hvalidate])
  obtain rfl := Option.some.inj (hg'.symm.trans hg₁)
  have hnew : g'.evictionMode = .expirationLru := by
    have hevolves := hwalk.evolves (decides_visitForGc around seconds)
    rw [hvalidate] at hevolves
    exact (hevolves h.num_lt).evictionMode
  intro hconforms
  have hkept := hconforms.keepsMode hquota
  rcases hmode with hmode | hmode <;> simp [hnew, hmode] at hkept

theorem conforms_of_expiration (hordered : g.optimizer.Ordered)
    (hfits : g.optimizer.linked.card < uintRange) (hcovered : g.IsCovered)
    (hmode : g.evictionMode.value ≤ EvictionMode.expirationLru.value) :
    ∃ g', g.processGcMessage around seconds = some g' ∧ Conforms around seconds g g' := by
  obtain ⟨objs, h⟩ := hordered.represents
  have hvalidate := validateEvictionMode_of_expiration hmode
  have hne : g.validateEvictionMode.evictionMode ≠ .strictLru := by
    intro heq
    rw [hvalidate] at heq
    simp [heq, EvictionMode.value] at hmode
  obtain ⟨g', hg', hwalk, h'⟩ := processGcMessage_walk around seconds h hne
  rw [hvalidate] at hwalk
  exact ⟨g', hg', hwalk.conforms hmode hcovered h hfits h'⟩

theorem conforms_of_lru (hordered : g.optimizer.Ordered) (hbelow : g.isAboveMemoryQuota = false)
    (hmode : g.evictionMode = .lru) (hquota : ¬(g.memory.isQuotaSet ∨ g.globalMemory.isQuotaSet)) :
    (∃ g', g.processGcMessage around seconds = some g' ∧ Conforms around seconds g g') ↔
      ∀ o ∈ g.optimizer.linked, around.onGc g.domain o seconds → Kept around g o := by
  obtain ⟨objs, h⟩ := hordered.represents
  have hvalidate := validateEvictionMode_of_no_quota hquota
  obtain ⟨g', hg', hwalk, -⟩ := processGcMessage_walk around seconds h (by simp [hvalidate, hmode])
  rw [hvalidate] at hwalk
  rw [← hwalk.conforms_lru hmode hbelow h.num_lt]
  constructor
  · rintro ⟨g₁, hg₁, hconforms⟩
    obtain rfl := Option.some.inj (hg₁.symm.trans hg')
    exact hconforms
  · exact fun hconforms => ⟨g', hg', hconforms⟩

theorem conforms_of_strictLru (hmode : g.evictionMode = .strictLru)
    (hquota : ¬(g.memory.isQuotaSet ∨ g.globalMemory.isQuotaSet)) :
    ∃ g', g.processGcMessage around seconds = some g' ∧ Conforms around seconds g g' := by
  have hvalidate := validateEvictionMode_of_no_quota hquota
  refine ⟨g.begin, ?_, ?_⟩
  · simp [processGcMessage, hvalidate, hmode]
  · exact ⟨fun _ => rfl, fun hne => absurd rfl hne, fun hne => absurd hmode hne,
      fun hne => absurd hmode hne, fun _ => rfl⟩

theorem conforms_iff (around : Surroundings Object) (seconds : UInt32) (g : Collector Object)
    (hordered : g.optimizer.Ordered) (hfits : g.optimizer.linked.card < uintRange)
    (hcovered : g.IsCovered) :
    (∃ g', g.processGcMessage around seconds = some g' ∧ Conforms around seconds g g') ↔
      HasUsableMode around seconds g := by
  unfold HasUsableMode
  cases hmode : g.evictionMode with
  | strictExpirationLru | expirationLru =>
    have hle : g.evictionMode.value ≤ EvictionMode.expirationLru.value := by
      simp [hmode, EvictionMode.value]
    exact iff_of_true (conforms_of_expiration hordered hfits hcovered hle) trivial
  | lru =>
    by_cases hquota : g.memory.isQuotaSet ∨ g.globalMemory.isQuotaSet
    · refine iff_of_false ?_ fun h => h.1 hquota
      rintro ⟨g', hg', hconforms⟩
      exact not_conforms_of_quota hordered hquota (.inl hmode) hg' hconforms
    · rw [conforms_of_lru hordered hcovered.belowQuota hmode hquota]
      exact (and_iff_right hquota).symm
  | strictLru =>
    by_cases hquota : g.memory.isQuotaSet ∨ g.globalMemory.isQuotaSet
    · refine iff_of_false ?_ fun h => h hquota
      rintro ⟨g', hg', hconforms⟩
      exact not_conforms_of_quota hordered hquota (.inr hmode) hg' hconforms
    · exact iff_of_true (conforms_of_strictLru hmode hquota) hquota

theorem threeSessions_covered : (threeSessions .expirationLru 100).IsCovered :=
  ⟨by decide, by decide, rfl⟩

/-- With `expiration-lru`, a request purges the session that has expired. -/
theorem conforms_of_threeSessions : ∃ g',
    (threeSessions .expirationLru 100).processGcMessage (idleAt 1000) 0 = some g' ∧
      g'.purged = [1] ∧ Conforms (idleAt 1000) 0 (threeSessions .expirationLru 100) g' := by
  obtain ⟨g', hg', hconforms⟩ := (conforms_iff (idleAt 1000) 0 (threeSessions .expirationLru 100)
    (threeSessions_ordered _ _) (by decide) threeSessions_covered).mpr trivial
  have hpurged : ((threeSessions .expirationLru 100).processGcMessage (idleAt 1000) 0).map
      (·.purged) = some [1] := by decide
  rw [hg'] at hpurged
  exact ⟨g', hg', Option.some.inj hpurged, hconforms⟩

/-- With `lru` and a quota, the mode is replaced. -/
theorem lru_replaced_despite_quota : ∃ g',
    (threeSessions .lru 100).processGcMessage (idleAt 1000) 0 = some g' ∧
      g'.evictionMode = .expirationLru ∧ ¬Conforms (idleAt 1000) 0 (threeSessions .lru 100) g' := by
  refine ⟨_, rfl, rfl, ?_⟩
  exact not_conforms_of_quota (threeSessions_ordered .lru 100) (.inl rfl) (.inl rfl) rfl

/-! ## Sessions that have not been modified for some time -/

/-- The session was modified more than so many seconds ago. -/
def IsOld (around : Surroundings Object) (seconds : UInt32) (o : Object) : Prop :=
  (around.lastModificationTime o).toNat + seconds.toNat < around.currentTimestamp.toNat

/-- A request purges old sessions only, and all of them that it may purge. -/
def PurgesOld (around : Surroundings Object) (seconds : UInt32) (g' : Collector Object) : Prop :=
  (∀ o ∈ g'.purged, IsOld around seconds o) ∧
    ∀ o ∈ g'.optimizer.linked, IsOld around seconds o → Kept around g' o

/-- A session that nobody uses or deletes and whose 32-bit sum lies in the past. -/
def isPurgeable (around : Surroundings Object) (seconds : UInt32) (g : Collector Object)
    (o : Object) : Bool :=
  o ∉ g.optimizer.beingDeleted && !around.isBusy o && around.onGc .session o seconds

omit [DecidableEq Object] in
theorem onGc_session_iff : around.onGc .session o seconds = true ↔
    ((around.lastModificationTime o).toNat + seconds.toNat) % 2 ^ 32 <
      around.currentTimestamp.toNat := by
  rw [Surroundings.onGc, decide_eq_true_iff, UInt32.lt_iff_toNat_lt, UInt32.toNat_add]

omit [DecidableEq Object] in
theorem IsOld.onGc (h : IsOld around seconds o) : around.onGc .session o seconds := by
  rw [onGc_session_iff]
  exact (Nat.mod_le _ _).trans_lt h

omit [DecidableEq Object] in
theorem isOld_iff (h : around.onGc .session o seconds) : IsOld around seconds o ↔
    (around.lastModificationTime o).toNat + seconds.toNat < 2 ^ 32 := by
  rw [onGc_session_iff] at h
  constructor
  · exact fun hold => hold.trans around.currentTimestamp.toNat_lt
  · intro hfits
    rwa [Nat.mod_eq_of_lt hfits] at h

theorem purgesOld_iff (around : Surroundings Object) (seconds : UInt32) (g : Collector Object)
    (objs : Nat → List Object) (h : g.optimizer.Represents objs)
    (hfits : g.optimizer.linked.card < uintRange) (hcovered : g.IsCovered)
    (hdomain : g.domain = .session)
    (hmode : g.validateEvictionMode.evictionMode.value ≤ EvictionMode.expirationLru.value) :
    (∃ g', g.processGcMessage around seconds = some g' ∧ PurgesOld around seconds g') ↔
      ∀ ua < numUserAgents, ∀ o ∈ ((objs ua).filter (isPurgeable around seconds g)).take
        (g.excess ua), (around.lastModificationTime o).toNat + seconds.toNat < 2 ^ 32 := by
  have hne : g.validateEvictionMode.evictionMode ≠ .strictLru := by
    intro heq
    simp [heq, EvictionMode.value] at hmode
  obtain ⟨g', hg', hwalk, h'⟩ := processGcMessage_walk around seconds h hne
  obtain ⟨evictionMode, hvalidate⟩ := validateEvictionMode_eq g
  rw [hvalidate] at hwalk hmode
  have hcandidate : isCandidate around seconds { g with evictionMode } =
      isPurgeable around seconds g := by
    funext o
    simp [isCandidate, isPurgeable, isSelected, hmode, hdomain]
  have hpurged : ∀ o, o ∈ g'.purged ↔ ∃ ua < numUserAgents,
      o ∈ ((objs ua).filter (isPurgeable around seconds g)).take (g.excess ua) := by
    intro o
    rw [← hcandidate]
    exact hwalk.mem_purged_gc (g := { g with evictionMode }) h { hcovered with }
  have hselected : ∀ o ∈ g'.purged, around.onGc .session o seconds := by
    intro o ho
    obtain ⟨ua, -, hmem⟩ := (hpurged o).mp ho
    have hpurgeable := (List.mem_filter.mp (List.mem_of_mem_take hmem)).2
    simp only [isPurgeable, Bool.and_eq_true] at hpurgeable
    exact hpurgeable.2
  have hrest : ∀ o ∈ g'.optimizer.linked, IsOld around seconds o → Kept around g' o := by
    intro o ho hold
    have horderly := (hwalk.orderly (g := { g with evictionMode })
      (decides_visitForGc around seconds) h hfits h').1
    refine (kept_iff h' (horderly.card_lt hfits)).mpr ?_
    rw [horderly.linked] at ho
    refine hwalk.kept_gc { hcovered.affords h with } h.num_lt o
      (h.mem_inOrder.mpr (Finset.mem_sdiff.mp ho).1) ?_
    simp [isSelected, begin, hmode, hdomain, hold.onGc]
  constructor
  · rintro ⟨g₁, hg₁, hold, -⟩ ua hua o ho
    obtain rfl := Option.some.inj (hg₁.symm.trans hg')
    have ho := (hpurged o).mpr ⟨ua, hua, ho⟩
    exact (isOld_iff (hselected o ho)).mp (hold o ho)
  · intro hfits
    refine ⟨g', hg', fun o ho => ?_, hrest⟩
    obtain ⟨ua, hua, hmem⟩ := (hpurged o).mp ho
    exact (isOld_iff (hselected o ho)).mpr (hfits ua hua o hmem)

/-- The first session was modified 900 seconds ago. -/
theorem purgesOld_of_threeSessions : ∃ g',
    (threeSessions .expirationLru 100).processGcMessage (idleAt 1000) 500 = some g' ∧
      g'.purged = [1] ∧ PurgesOld (idleAt 1000) 500 g' := by
  obtain ⟨objs, h⟩ := (threeSessions_ordered .expirationLru 100).represents
  have hfits : ∀ o, ((idleAt 1000).lastModificationTime o).toNat + (500 : UInt32).toNat <
      2 ^ 32 := by
    intro o
    simp only [idleAt]
    split_ifs <;> decide
  obtain ⟨g', hg', hold⟩ := (purgesOld_iff (idleAt 1000) 500 (threeSessions .expirationLru 100)
    objs h (by decide) threeSessions_covered rfl (by decide)).mpr fun _ _ o _ => hfits o
  have hpurged : ((threeSessions .expirationLru 100).processGcMessage (idleAt 1000) 500).map
      (·.purged) = some [1] := by decide
  rw [hg'] at hpurged
  exact ⟨g', hg', Option.some.inj hpurged, hold⟩

/-- A request for sessions of 4294967295 seconds purges one that was modified 900 seconds ago. -/
theorem purges_recent_session : ∃ g',
    (threeSessions .expirationLru 100).processGcMessage (idleAt 1000) 4294967295 = some g' ∧
      g'.purged = [1] ∧ ¬PurgesOld (idleAt 1000) 4294967295 g' := by
  refine ⟨_, rfl, rfl, fun h => ?_⟩
  exact absurd (h.1 1 (by decide)) (by unfold IsOld; decide)

end Collector

end EvictionPass

end CyberCache
