import CyberCache.Optimizer.ChainInvariant

/-!
# Runs of an optimizer

All steps of an optimizer keep its chains in order. While an eviction pass is under way, objects
leave the chains and no object is linked, so that what the pass remembers is either linked or dead.
-/

namespace CyberCache

namespace Optimizer

variable {Object : Type} [DecidableEq Object] {domain : Domain} {s s' : Optimizer Object}
  {objs : Nat → List Object} {o n : Object} {next deleted : Option Object} {ua : Nat}
  {busy : Object → Bool}

/-! ## The invariant -/

section Fields

@[simp]
theorem visit_link : (s.link ua o).visit = s.visit := rfl

@[simp]
theorem pending_link : (s.link ua o).pending = s.pending := rfl

@[simp]
theorem visit_unlink : (s.unlink ua o).visit = s.visit := rfl

@[simp]
theorem pending_unlink : (s.unlink ua o).pending = s.pending := rfl

@[simp]
theorem visit_promote : (s.promote ua o).visit = s.visit := rfl

@[simp]
theorem pending_promote : (s.promote ua o).pending = s.pending := rfl

@[simp]
theorem visit_setUserAgent : (s.setUserAgent o ua).visit = s.visit := rfl

@[simp]
theorem pending_setUserAgent : (s.setUserAgent o ua).pending = s.pending := rfl

@[simp]
theorem linked_exclude : (s.exclude o).linked = s.linked := by
  rw [exclude]
  split_ifs <;> rfl

@[simp]
theorem userAgent_exclude : (s.exclude o).userAgent = s.userAgent := by
  rw [exclude]
  split_ifs <;> rfl

@[simp]
theorem visit_exclude : (s.exclude o).visit = s.visit := by
  rw [exclude]
  split_ifs <;> rfl

@[simp]
theorem pending_exclude : (s.exclude o).pending = s.pending := by
  rw [exclude]
  split_ifs <;> rfl

theorem marks_exclude : (s.exclude o).marks = s.marks := by
  rw [exclude]
  split_ifs <;> rfl

theorem marks_onDelete (s : Optimizer Object) (domain : Domain) (o : Object) :
    (s.onDelete domain o).marks = s.marks := by
  cases domain <;> rfl

@[simp]
theorem linked_remove : (s.remove o).linked = s.linked.erase o := by simp [remove]

@[simp]
theorem userAgent_remove : (s.remove o).userAgent = s.userAgent := by simp [remove]

@[simp]
theorem beingDeleted_remove : (s.remove o).beingDeleted = s.beingDeleted := by
  have h : (s.exclude o).marks.beingDeleted = s.marks.beingDeleted := by rw [marks_exclude]
  exact h

theorem setNext_remove : (s.remove o).links.setNext o none = (s.remove o).links := by
  simp [remove, unlink, ObjectChain.unlink, Links.setNext]

@[simp]
theorem visit_remove : (s.remove o).visit = s.visit := by simp [remove]

@[simp]
theorem pending_remove : (s.remove o).pending = s.pending := by simp [remove]

end Fields

structure Ordered (s : Optimizer Object) : Prop where
  represents : ∃ objs, s.Represents objs
  total : s.totalNumObjects = s.linked.card % uintRange
  iterator : ∀ o ∈ s.iterator, o ∈ s.linked

structure Valid (s : Optimizer Object) : Prop extends s.Ordered where
  visit : ∀ v ∈ s.visit, v.object ∈ s.linked ∧ Safe s.marks v.next ∧ ∀ o ∈ v.deleted, Dead s.marks o
  pending : ∀ a ∈ s.pending, Sound s.marks a

omit [DecidableEq Object] in
theorem start_valid [DecidableEq Object] : (start : Optimizer Object).Valid where
  represents := ⟨fun _ => [], fun _ => ⟨⟨none, rfl, rfl⟩, rfl, rfl, List.nodup_nil⟩,
    by simp [start], by simp [start]⟩
  total := rfl
  iterator := by simp [start]
  visit := by simp [start]
  pending := by simp [start]

namespace Ordered

section

variable (h : s.Ordered)
include h

omit [DecidableEq Object] in
theorem transfer (hchains : s'.chains = s.chains) (hlinks : s'.links = s.links)
    (hlinked : s'.linked = s.linked) (huserAgent : s'.userAgent = s.userAgent)
    (htotal : s'.totalNumObjects = s.totalNumObjects)
    (hiterator : ∀ o ∈ s'.iterator, o ∈ s.linked) : s'.Ordered where
  represents := by
    obtain ⟨objs, hobjs⟩ := h.represents
    exact ⟨objs, hobjs.transfer hchains hlinks hlinked huserAgent⟩
  total := by rw [htotal, h.total, hlinked]
  iterator := by rwa [hlinked]

omit [DecidableEq Object] in
theorem nextOf_iterator : ∀ n ∈ s.nextOf s.iterator, n ∈ s.linked := by
  intro n hn
  obtain ⟨objs, hobjs⟩ := h.represents
  cases hiterator : s.iterator with
  | none => simp [hiterator, nextOf] at hn
  | some o => exact (hobjs.nextOf_mem (h.iterator o hiterator) (hiterator ▸ hn)).1

theorem exclude (o : Object) : (s.exclude o).Ordered := by
  rw [Optimizer.exclude]
  split_ifs
  · exact h.transfer rfl rfl rfl rfl rfl h.nextOf_iterator
  · exact h

theorem exclude_ne (ho : o ∈ s.linked) : (s.exclude o).iterator ≠ some o := by
  obtain ⟨objs, hobjs⟩ := h.represents
  rw [Optimizer.exclude]
  split_ifs with hiterator
  · intro hnext
    exact (hobjs.nextOf_mem ho (hiterator ▸ hnext)).2 rfl
  · exact hiterator

theorem setUserAgent (ho : o ∉ s.linked) (ua : Nat) :
    (s.setUserAgent o ua).Ordered where
  represents := by
    obtain ⟨objs, hobjs⟩ := h.represents
    exact ⟨objs, hobjs.setUserAgent ho ua⟩
  total := h.total
  iterator := h.iterator

theorem add (ho : o ∉ s.linked) (hua : ua < numUserAgents) :
    (s.add o ua).Ordered where
  represents := by
    obtain ⟨objs, hobjs⟩ := (h.setUserAgent ho ua).represents
    have hagent : (s.setUserAgent o ua).userAgent o = ua := by simp
    have hlink := hobjs.link ho (hagent.symm ▸ hua)
    rw [hagent] at hlink
    exact ⟨_, hlink.transfer rfl rfl rfl rfl⟩
  total := by
    have hcard : (insert o s.linked).card = s.linked.card + 1 := Finset.card_insert_of_notMem ho
    simp only [Optimizer.add, linked_link, linked_setUserAgent, h.total, hcard, uintAdd_mod]
  iterator z hz := Finset.mem_insert_of_mem (h.iterator z hz)

theorem remove (ho : o ∈ s.linked) : (s.remove o).Ordered where
  represents := by
    obtain ⟨objs, hobjs⟩ := (h.exclude o).represents
    have ho' : o ∈ (s.exclude o).linked := by simpa using ho
    obtain ⟨xs, ys, hsplit⟩ := hobjs.split ho'
    have hunlink := hobjs.unlink ho' hsplit
    rw [userAgent_exclude] at hunlink
    exact ⟨_, hunlink.transfer rfl rfl rfl rfl⟩
  total := by
    have hcard := Finset.card_erase_add_one ho
    simp only [Optimizer.remove, linked_unlink, linked_exclude, h.total, ← hcard]
    exact uintSub_mod (by decide)
  iterator z hz := by
    have hne : z ≠ o := fun heq => h.exclude_ne ho (heq ▸ hz)
    have hmem : z ∈ s.linked := by simpa using (h.exclude o).iterator z hz
    simpa [Optimizer.remove] using ⟨hne, hmem⟩

theorem promote (ho : o ∈ s.linked) : (s.promote (s.userAgent o) o).Ordered where
  represents := by
    obtain ⟨objs, hobjs⟩ := h.represents
    obtain ⟨xs, ys, hsplit⟩ := hobjs.split ho
    exact ⟨_, hobjs.promote ho hsplit⟩
  total := h.total
  iterator := h.iterator

theorem move (ho : o ∈ s.linked) (hua : ua < numUserAgents) :
    (((s.setUserAgent o ua).unlink (s.userAgent o) o).link ua o).Ordered where
  represents := by
    obtain ⟨objs, hobjs⟩ := h.represents
    obtain ⟨xs, ys, hsplit⟩ := hobjs.split ho
    -- the user agent is set first, but that makes no difference to the chain
    have hunlink := (hobjs.unlink ho hsplit).setUserAgent (Finset.notMem_erase o s.linked) ua
    have hagent : ((s.unlink (s.userAgent o) o).setUserAgent o ua).userAgent o = ua := by simp
    have hlink := hunlink.link (Finset.notMem_erase o s.linked) (hagent.symm ▸ hua)
    rw [hagent] at hlink
    exact ⟨_, hlink⟩
  total := by
    have hinsert : insert o (s.linked.erase o) = s.linked := Finset.insert_erase ho
    exact h.total.trans (congrArg (Finset.card · % uintRange) hinsert.symm)
  iterator z hz := by
    have hinsert : insert o (s.linked.erase o) = s.linked := Finset.insert_erase ho
    have hmem := h.iterator z hz
    rw [← hinsert] at hmem
    exact hmem

theorem access (ho : o ∈ s.linked) (hua : ua < numUserAgents) :
    (s.access o ua).Ordered := by
  have hexclude := h.exclude o
  have ho' : o ∈ (s.exclude o).linked := by simpa using ho
  simp only [Optimizer.access]
  rw [← userAgent_exclude (s := s) (o := o)]
  split_ifs
  · exact hexclude.move ho' hua
  · exact hexclude.promote ho'

theorem processWriteMessage (hua : ua < numUserAgents) :
    (s.processWriteMessage o ua).Ordered := by
  rw [Optimizer.processWriteMessage]
  split_ifs with hdeleted hlinked hlinked
  · exact h
  · exact h.add hlinked hua
  · exact h.access hlinked hua
  · exact h.add hlinked hua

theorem processReadMessage (hua : ua < numUserAgents) :
    (s.processReadMessage o ua).Ordered := by
  rw [Optimizer.processReadMessage]
  split_ifs with hdeleted hlinked
  · exact h
  · exact h.access hlinked hua
  · exact h

theorem processFpcTouchMessage : (s.processFpcTouchMessage o).Ordered := by
  rw [Optimizer.processFpcTouchMessage]
  split_ifs with hdeleted hlinked
  · exact h
  · rw [← userAgent_exclude (s := s) (o := o)]
    exact (h.exclude o).promote (by simpa using hlinked)
  · exact h

omit [DecidableEq Object] in
theorem prepareNextObject : s.prepareNextObject.Ordered := by
  obtain ⟨objs, hobjs⟩ := h.represents
  exact h.transfer rfl rfl rfl rfl rfl fun _ ho => (hobjs.firstOf_mem ho).1

omit [DecidableEq Object] in
theorem nextToCheck : s.nextToCheck.Ordered := by
  obtain ⟨objs, hobjs⟩ := h.represents
  rw [Optimizer.nextToCheck]
  split
  case h_1 o hiterator =>
    exact h.transfer rfl rfl rfl rfl rfl (hiterator ▸ h.nextOf_iterator)
  case h_2 =>
    refine h.transfer rfl rfl rfl rfl rfl fun n hn => ?_
    cases hfirst : s.firstOf (userAgentsFrom 0) with
    | none => simp [hfirst, nextOf] at hn
    | some o => exact (hobjs.nextOf_mem (hobjs.firstOf_mem hfirst).1 (hfirst ▸ hn)).1

theorem setNext (ho : o ∉ s.linked) (next : Option Object) :
    { s with links := s.links.setNext o next }.Ordered where
  represents := by
    obtain ⟨objs, hobjs⟩ := h.represents
    refine ⟨objs, fun ua => { hobjs.holds ua with isChain := ?_ }, hobjs.mem, hobjs.userAgent⟩
    have hout : o ∉ objs ua := fun hmem => ho ((hobjs.mem ua o).mp hmem).1
    obtain ⟨last, hsegment⟩ := (hobjs.holds ua).isChain
    exact ⟨last, hsegment.setNext hout next⟩
  total := h.total
  iterator := h.iterator

theorem onDelete (domain : Domain) (ho : o ∉ s.linked) :
    (s.onDelete domain o).Ordered := by
  cases domain with
  | session => exact h.setUserAgent ho numUserAgents
  | page => exact h

theorem next_remove (ho : o ∈ s.linked) {z : Object} (hz : z ∉ s.linked) :
    (s.remove o).links.next z = s.links.next z := by
  obtain ⟨objs, hobjs⟩ := (h.exclude o).represents
  have hunlink := hobjs.next_unlink (by simpa using ho) (z := z) (by simpa using hz)
  have hlinks : (s.exclude o).marks.links = s.marks.links := by rw [marks_exclude]
  rw [userAgent_exclude] at hunlink
  exact hunlink.trans (congrArg (·.next z) hlinks)

theorem decays_remove (ho : o ∈ s.linked) (hflag : o ∈ s.beingDeleted)
    (hdeleted : ∀ n ∈ deleted, Dead s.marks n) :
    Decays s.marks ⟨(s.remove o).links.setNext o deleted, s.linked.erase o, s.beingDeleted⟩ := by
  have hunlinked : ∀ z ∉ s.linked, z ∉ s.linked.erase o :=
    fun z hz hmem => hz (Finset.mem_of_mem_erase hmem)
  have hnext : ∀ z ∉ s.linked,
      ((s.remove o).links.setNext o deleted).next z = s.links.next z := by
    intro z hz
    rw [Links.next_setNext_of_ne _ (ne_of_mem_of_not_mem ho hz).symm, h.next_remove ho hz]
  refine ⟨subset_rfl, hunlinked, fun z hz => .inl (hnext z hz), fun z hz => ?_⟩
  by_cases hzo : z = o
  · subst hzo
    refine .inr (.intro hflag (Finset.notMem_erase z s.linked) fun n hn => ?_)
    have hdead := hdeleted n ((Links.next_setNext _ _ _).symm.trans hn)
    exact hdead.mono subset_rfl hunlinked fun z hz => .inl (hnext z hz)
  · exact .inl (Finset.mem_erase.mpr ⟨hzo, hz⟩)

end

end Ordered

section Decays

variable {m m' m'' : Marks Object}

omit [DecidableEq Object] in
theorem Decays.refl (m : Marks Object) : Decays m m :=
  ⟨subset_rfl, fun _ => id, fun _ _ => .inl rfl, fun _ => .inl⟩

theorem decays_flag (s : Optimizer Object) (o : Object) :
    Decays s.marks { s with beingDeleted := insert o s.beingDeleted }.marks :=
  ⟨Finset.subset_insert o _, fun _ => id, fun _ _ => .inl rfl, fun _ => .inl⟩

theorem decays_cut (s : Optimizer Object) (o : Object) :
    Decays s.marks { s with links := s.links.setNext o none }.marks where
  beingDeleted := subset_rfl
  unlinked _ := id
  next z _ := by
    by_cases hz : z = o
    · subst hz
      exact .inr (Links.next_setNext _ _ _)
    · exact .inl (Links.next_setNext_of_ne _ hz none)
  linked _ := .inl

end Decays

/-! ## User agents -/

def AgentsGrow (s s' : Optimizer Object) : Prop :=
  ∀ o ∈ s.linked, s.userAgent o ≤ s'.userAgent o

namespace AgentsGrow

omit [DecidableEq Object] in
theorem of_eq (h : s'.userAgent = s.userAgent) : AgentsGrow s s' := fun o _ => (congrFun h o).ge

theorem of_update (h : s'.userAgent = Function.update s.userAgent o ua)
    (hle : o ∈ s.linked → s.userAgent o ≤ ua) : AgentsGrow s s' := by
  intro z hz
  rw [h]
  by_cases hzo : z = o
  · subst hzo
    simpa using hle hz
  · rw [Function.update_of_ne hzo]

theorem of_reset (hvalid : s.Valid)
    (h : s'.userAgent = Function.update s.userAgent o numUserAgents) :
    AgentsGrow s s' := by
  obtain ⟨objs, hobjs⟩ := hvalid.represents
  exact of_update h fun ho => (hobjs.userAgent o ho).le

theorem onDelete (hvalid : s.Valid) {t : Optimizer Object} (h : t.userAgent = s.userAgent)
    (ho : s'.userAgent = (t.onDelete domain o).userAgent) : AgentsGrow s s' := by
  cases domain with
  | session =>
    refine of_reset hvalid (o := o) ?_
    rw [ho, ← h]
    rfl
  | page => exact of_eq (ho.trans h)

omit [DecidableEq Object] in
theorem endPass (mode : PassKind) : AgentsGrow s (s.endPass mode deleted) := by
  cases mode <;> exact of_eq rfl

omit [DecidableEq Object] in
theorem continuePass (mode : PassKind) (found : Option Object × Option Object) :
    AgentsGrow s (s.continuePass mode deleted found) := by
  obtain ⟨_ | o, next⟩ := found
  · exact endPass mode
  · exact of_eq rfl

theorem visitObject (hvalid : s.Valid) (v : Visit Object) (evict : Bool) :
    AgentsGrow s (s.visitObject domain v evict) := by
  simp only [Optimizer.visitObject]
  split_ifs
  · have hremove : ({ s with
        visit := none, beingDeleted := insert v.object s.beingDeleted }.remove v.object).userAgent =
          s.userAgent := userAgent_remove
    cases v.mode with
    | memory => exact of_eq hremove
    | gc | run => exact onDelete hvalid hremove rfl
  · exact of_eq rfl

theorem access (o : Object) (ua : Nat) : AgentsGrow s (s.access o ua) := by
  simp only [Optimizer.access]
  split_ifs with hlt
  · exact of_update (by simp) fun _ => hlt.le
  · exact of_eq (by simp)

end AgentsGrow

/-! ## Steps -/

namespace Valid

variable {pending : List (Activity Object)} {action : Action Object}

omit [DecidableEq Object] in
theorem of_idle (h : s.Ordered) (hvisit : s.visit = none) (hpending : s.pending = []) : s.Valid :=
  { h with visit := by simp [hvisit], pending := by simp [hpending] }

omit [DecidableEq Object] in
theorem of_pending (h : s.Ordered) (hvisit : s.visit = none)
    (hpending : ∀ a ∈ pending, Sound s.marks a) : { s with pending }.Valid := by
  have hordered : { s with pending }.Ordered := h.transfer rfl rfl rfl rfl rfl h.iterator
  exact { hordered with visit := by simp [hvisit], pending := hpending }

section

variable (h : s.Valid)
include h

omit [DecidableEq Object] in
theorem decay (hordered : s'.Ordered) (hdecays : Decays s.marks s'.marks)
    (hvisit : s'.visit = none) (hpending : ∀ a ∈ s'.pending, a ∈ s.pending ∨ Sound s'.marks a) :
    s'.Valid :=
  { hordered with
    visit := by simp [hvisit]
    pending := by
      intro a ha
      rcases hpending a ha with hold | hsound
      · exact hdecays.sound (h.pending a hold)
      · exact hsound }

omit [DecidableEq Object] in
theorem stay (hordered : s'.Ordered) (hdecays : Decays s.marks s'.marks)
    (hlinked : s'.linked = s.linked) (hvisit : s'.visit = s.visit)
    (hpending : s'.pending = s.pending) :
    s'.Valid :=
  { hordered with
    visit := by
      intro v hv
      obtain ⟨ho, hsafe, hdeleted⟩ := h.visit v (hvisit ▸ hv)
      exact ⟨hlinked ▸ ho, hdecays.safe hsafe, fun n hn => hdecays.dead (hdeleted n hn)⟩
    pending := fun a ha => hdecays.sound (h.pending a (hpending ▸ ha)) }

omit [DecidableEq Object] in
theorem endPass (mode : PassKind) (hdeleted : ∀ o ∈ deleted, Dead s.marks o) :
    (s.endPass mode deleted).Valid := by
  cases mode with
  | gc | run => exact h
  | memory =>
    have hordered : (s.endPass .memory deleted).Ordered :=
      h.toOrdered.transfer rfl rfl rfl rfl rfl h.iterator
    exact { hordered with
      visit := h.visit
      pending := List.forall_mem_cons.mpr ⟨hdeleted, h.pending⟩ }

omit [DecidableEq Object] in
theorem continuePass (mode : PassKind) (hdeleted : ∀ o ∈ deleted, Dead s.marks o)
    {found : Option Object × Option Object} (hfound : ∀ o ∈ found.1, o ∈ s.linked)
    (hsafe : Safe s.marks found.2) : (s.continuePass mode deleted found).Valid := by
  obtain ⟨_ | o, next⟩ := found
  · exact h.endPass mode hdeleted
  · have hordered : (s.continuePass mode deleted (some o, next)).Ordered :=
      h.toOrdered.transfer rfl rfl rfl rfl rfl h.iterator
    exact { hordered with
      visit := by
        rintro v ⟨⟩
        exact ⟨hfound o rfl, hsafe, hdeleted⟩
      pending := h.pending }

theorem startPass (mode : PassKind) (busy : Object → Bool) :
    (s.startPass mode busy).Valid := by
  obtain ⟨objs, hobjs⟩ := h.represents
  obtain ⟨hfound, hsafe⟩ := hobjs.getFirstGcObject_spec busy
  exact h.continuePass mode (by simp) hfound hsafe

theorem flag (o : Object) :
    { s with visit := none, beingDeleted := insert o s.beingDeleted }.Valid :=
  h.decay (h.toOrdered.transfer rfl rfl rfl rfl rfl h.iterator) (decays_flag s o) rfl
    fun _ ha => .inl ha

theorem keep (hvisit : s.visit = none) (ho : o ∈ s.linked)
    (hflag : o ∈ s.beingDeleted) (hsafe : Safe s.marks next)
    (hdeleted : ∀ n ∈ deleted, Dead s.marks n) :
    { s.remove o with
      links := (s.remove o).links.setNext o deleted
      pending := .advancing .memory next (some o) :: (s.remove o).pending }.Valid := by
  have hdecays := h.toOrdered.decays_remove ho hflag hdeleted
  have hout : o ∉ (s.remove o).linked := by simp
  have hordered := (h.toOrdered.remove ho).setNext hout deleted
  have hdead := (hdecays.linked o ho).resolve_left (Finset.notMem_erase o s.linked)
  rw [← linked_remove, ← beingDeleted_remove (o := o)] at hdecays hdead
  refine h.decay (hordered.transfer rfl rfl rfl rfl rfl hordered.iterator) hdecays
    (by simp [hvisit]) ?_
  intro a ha
  rcases List.mem_cons.mp ha with rfl | hold
  · exact .inr ⟨hdecays.safe hsafe, by rintro n ⟨⟩; exact hdead⟩
  · exact .inl (by simpa using hold)

theorem discard (hvisit : s.visit = none) (ho : o ∈ s.linked)
    (hflag : o ∈ s.beingDeleted) (mode : PassKind) (hsafe : Safe s.marks next)
    (hdeleted : ∀ n ∈ deleted, Dead s.marks n) :
    { (s.remove o).onDelete domain o with
      pending := .posting :: .advancing mode next deleted :: (s.remove o).pending }.Valid := by
  have hnone : ∀ n ∈ (none : Option Object), Dead s.marks n := by simp
  have hdecays := h.toOrdered.decays_remove ho hflag hnone
  have hout : o ∉ (s.remove o).linked := by simp
  have hordered := (h.toOrdered.remove ho).onDelete domain hout
  have hmarks : ((s.remove o).onDelete domain o).marks =
      ⟨(s.remove o).links.setNext o none, s.linked.erase o, s.beingDeleted⟩ := by
    rw [marks_onDelete, setNext_remove, ← linked_remove, ← beingDeleted_remove (o := o)]
    rfl
  rw [← hmarks] at hdecays
  have hvisit' : ((s.remove o).onDelete domain o).visit = none := by
    cases domain <;> simp [Optimizer.onDelete, postUnlinkMessage, hvisit]
  refine h.decay (hordered.transfer rfl rfl rfl rfl rfl hordered.iterator) hdecays hvisit' ?_
  intro a ha
  simp only [List.mem_cons, pending_remove] at ha
  rcases ha with rfl | rfl | hold
  · exact .inr trivial
  · exact .inr ⟨hdecays.safe hsafe, fun n hn => hdecays.dead (hdeleted n hn)⟩
  · exact .inl hold

theorem visitObject {v : Visit Object} (hv : s.visit = some v) (evict : Bool) :
    (s.visitObject domain v evict).Valid := by
  obtain ⟨ho, hsafe, hdeleted⟩ := h.visit v hv
  have hflag := decays_flag s v.object
  have hinto := Finset.mem_insert_self v.object s.beingDeleted
  have hdead : ∀ n ∈ v.deleted, Dead _ n := fun n hn => hflag.dead (hdeleted n hn)
  simp only [Optimizer.visitObject]
  split_ifs with hevict
  · cases hmode : v.mode with
    | memory => exact (h.flag v.object).keep rfl ho hinto (hflag.safe hsafe) hdead
    | gc => exact (h.flag v.object).discard rfl ho hinto .gc (hflag.safe hsafe) hdead
    | run => exact (h.flag v.object).discard rfl ho hinto .run (hflag.safe hsafe) hdead
  · refine h.decay (h.toOrdered.transfer rfl rfl rfl rfl rfl h.iterator) (.refl _) rfl ?_
    intro a ha
    rcases List.mem_cons.mp ha with rfl | hold
    · exact .inr ⟨hsafe, hdeleted⟩
    · exact .inl hold

theorem report (hvisit : s.visit = none) (ho : Dead s.marks o) :
    (s.report domain o).Valid := by
  obtain ⟨-, hout, hrest⟩ := ho
  have hdecays := decays_cut s o
  have hordered := (h.toOrdered.setNext hout none).onDelete domain hout
  have hvisit' : ({ s with links := s.links.setNext o none }.onDelete domain o).visit = none := by
    cases domain <;> simp [Optimizer.onDelete, postUnlinkMessage, hvisit]
  rw [← marks_onDelete { s with links := s.links.setNext o none } domain o] at hdecays
  refine h.decay (hordered.transfer rfl rfl rfl rfl rfl hordered.iterator) hdecays hvisit' ?_
  intro a ha
  simp only [Optimizer.report, List.mem_cons] at ha
  rcases ha with rfl | rfl | hold
  · exact .inr trivial
  · exact .inr fun n hn => hdecays.dead (hrest n hn)
  · exact .inl hold

omit [DecidableEq Object] in
theorem tail {a : Activity Object}
    (hpending : s.pending = a :: pending) : { s with pending }.Valid := by
  have hordered : { s with pending }.Ordered :=
    h.toOrdered.transfer rfl rfl rfl rfl rfl h.iterator
  refine { hordered with visit := h.visit, pending := fun b hb => ?_ }
  exact h.pending b (hpending ▸ List.mem_cons_of_mem a hb)

theorem advance {mode : PassKind}
    (hpending : s.pending = .advancing mode next deleted :: pending) (stop : Bool)
    (hstep : (if stop then if mode = .gc then none
    else some ({ s with pending }.endPass mode deleted)
      else some ({ s with pending }.continuePass mode deleted
        ({ s with pending }.getNextGcObject busy next))) = some s') : s'.Valid := by
  obtain ⟨hsafe, hdeleted⟩ := h.pending (.advancing mode next deleted) (by simp [hpending])
  have htail := h.tail hpending
  split_ifs at hstep
  · cases hstep
    exact htail.endPass mode hdeleted
  · cases hstep
    obtain ⟨objs, hobjs⟩ := htail.represents
    obtain ⟨hfound, hsafe'⟩ := hobjs.getNextGcObject_spec hsafe busy
    exact htail.continuePass mode hdeleted hfound hsafe'

omit [DecidableEq Object] in
theorem nextToCheck (hvisit : s.visit = none) {pending : List (Activity Object)}
    (hpending : ∀ a ∈ pending, a ∈ s.pending ∨ Sound s.marks a) :
    { s.nextToCheck with pending }.Valid := by
  have hordered := h.toOrdered.nextToCheck
  have hmarks : s.nextToCheck.marks = s.marks := by
    rw [Optimizer.nextToCheck]
    split <;> rfl
  have hvisit' : s.nextToCheck.visit = none := by
    rw [Optimizer.nextToCheck]
    split <;> exact hvisit
  refine h.decay (hordered.transfer rfl rfl rfl rfl rfl hordered.iterator) (hmarks ▸ .refl _)
    hvisit' fun a ha => ?_
  rcases hpending a ha with hold | hsound
  · exact .inl hold
  · exact .inr (hmarks ▸ hsound)

theorem proceed (hstep : s.proceed domain action = some s') :
    s'.Valid ∧ AgentsGrow s s' := by
  cases action with
  | visit evict =>
    obtain ⟨v, hv, rfl⟩ := Option.map_eq_some_iff.mp hstep
    exact ⟨h.visitObject hv evict, .visitObject h v evict⟩
  | advance stop busy =>
    simp only [Optimizer.proceed] at hstep
    split at hstep
    case h_1 pending hvisit hpending =>
      refine ⟨h.advance hpending stop hstep, ?_⟩
      split_ifs at hstep <;> cases hstep
      · exact .endPass (s := { s with pending }) _
      · exact .continuePass (s := { s with pending }) _ _
    case h_2 => cases hstep
  | report =>
    simp only [Optimizer.proceed] at hstep
    split at hstep
    case h_1 o pending hvisit hpending =>
      cases hstep
      have hsound := h.pending (.reporting (some o)) (by simp [hpending])
      refine ⟨(h.tail hpending).report hvisit (hsound o rfl), ?_⟩
      exact .onDelete h (t := { s with pending, links := s.links.setNext o none }) rfl rfl
    case h_2 hvisit hpending =>
      cases hstep
      exact ⟨h.tail hpending, .of_eq rfl⟩
    case h_3 => cases hstep
  | check recompress =>
    simp only [Optimizer.proceed] at hstep
    split at hstep
    case h_1 pending hvisit hpending =>
      obtain ⟨-, hs⟩ := Option.ite_none_left_eq_some.mp hstep
      cases hs
      constructor
      · refine h.nextToCheck hvisit fun a ha => ?_
        cases recompress <;> grind [Sound]
      · refine .of_eq ?_
        simp only [Optimizer.nextToCheck]
        split <;> rfl
    case h_2 => cases hstep
  | finish =>
    simp only [Optimizer.proceed] at hstep
    split at hstep
    case h_1 hvisit hpending | h_2 hvisit hpending | h_3 hvisit hpending =>
      cases hstep
      exact ⟨h.tail hpending, .of_eq rfl⟩
    case h_4 => cases hstep
  | needMemory busy =>
    simp only [Optimizer.proceed] at hstep
    split at hstep
    case h_1 | h_2 =>
      cases hstep
      exact ⟨h.startPass .memory busy, .continuePass _ _⟩
    case h_3 => cases hstep
  | flagBeingDeleted o =>
    cases hstep
    refine ⟨?_, .of_eq rfl⟩
    exact h.stay (h.toOrdered.transfer rfl rfl rfl rfl rfl h.iterator) (decays_flag s o) rfl rfl rfl
  | release o =>
    obtain ⟨ho, hs⟩ := Option.ite_none_right_eq_some.mp hstep
    cases hs
    refine ⟨?_, .of_reset h rfl⟩
    exact h.stay (h.toOrdered.setUserAgent ho numUserAgents) (.refl _) rfl rfl rfl
  | write | read | touch | delete | gc | freeMemory | retainCounts | configure | run => cases hstep

end

theorem startRun (h : s.Ordered) (hvisit : s.visit = none) (aboveQuota : Bool)
    (busy : Object → Bool) :
    (s.startRun aboveQuota busy).Valid ∧ AgentsGrow s (s.startRun aboveQuota busy) := by
  have hbegun : { s with pending := [.checking] }.Valid := of_pending h hvisit (by simp [Sound])
  rw [Optimizer.startRun]
  split_ifs
  · exact ⟨hbegun.startPass .run busy, .continuePass (s := { s with pending := [.checking] }) _ _⟩
  · exact ⟨hbegun, .of_eq rfl⟩

theorem receive (h : s.Ordered) (hvisit : s.visit = none) (hpending : s.pending = [])
    (hstep : s.receive action = some s') : s'.Valid ∧ AgentsGrow s s' := by
  have hvalid := of_idle h hvisit hpending
  cases action with
  | write o ua =>
    cases hstep
    refine ⟨of_idle (h.processWriteMessage ua.isLt) ?_ ?_, ?_⟩
    · simp only [processWriteMessage, Optimizer.add, Optimizer.access]
      split_ifs <;> simp [hvisit]
    · simp only [processWriteMessage, Optimizer.add, Optimizer.access]
      split_ifs <;> simp [hpending]
    · rw [processWriteMessage]
      split_ifs with hdeleted ho ho
      · exact .of_eq rfl
      · exact .of_update rfl fun hlinked => absurd hlinked ho
      · exact .access o ua
      · exact .of_update rfl fun hlinked => absurd hlinked ho
  | read o ua =>
    cases hstep
    refine ⟨of_idle (h.processReadMessage ua.isLt) ?_ ?_, ?_⟩
    · simp only [processReadMessage, Optimizer.access]
      split_ifs <;> simp [hvisit]
    · simp only [processReadMessage, Optimizer.access]
      split_ifs <;> simp [hpending]
    · rw [processReadMessage]
      split_ifs
      · exact .of_eq rfl
      · exact .access o ua
      · exact .of_eq rfl
  | touch o =>
    cases hstep
    refine ⟨of_idle h.processFpcTouchMessage ?_ ?_, .of_eq ?_⟩
    all_goals
      simp only [processFpcTouchMessage]
      split_ifs <;> simp [hvisit, hpending]
  | delete o retries =>
    cases hstep
    simp only [processDeleteMessage]
    split_ifs with ho
    · have hremoved : ((s.remove o).postUnlinkMessage o).Ordered :=
        (h.remove ho).setUserAgent (by simp) numUserAgents
      refine ⟨of_pending hremoved (by simp [postUnlinkMessage, hvisit]) (by simp [Sound]), ?_⟩
      exact .of_reset hvalid (o := o) (by simp [postUnlinkMessage])
    · exact ⟨of_pending h hvisit (by simp [Sound]), .of_eq rfl⟩
    · exact ⟨hvalid, .of_eq rfl⟩
  | gc strictLru busy =>
    cases hstep
    cases strictLru with
    | true => exact ⟨hvalid, .of_eq rfl⟩
    | false => exact ⟨hvalid.startPass .gc busy, .continuePass _ _⟩
  | freeMemory busy =>
    cases hstep
    exact ⟨hvalid.startPass .memory busy, .continuePass _ _⟩
  | retainCounts counts =>
    cases hstep
    obtain ⟨objs, hobjs⟩ := h.represents
    refine ⟨of_idle ⟨⟨objs, fun ua => ?_, hobjs.mem, hobjs.userAgent⟩, h.total, h.iterator⟩
      hvisit hpending, .of_eq rfl⟩
    have hholds := hobjs.holds ua
    exact ⟨hholds.isChain, hholds.last, hholds.num, hholds.nodup⟩
  | configure =>
    cases hstep
    exact ⟨hvalid, .of_eq rfl⟩
  | run first aboveQuota busy =>
    cases hstep
    cases first with
    | true => exact startRun h.prepareNextObject hvisit aboveQuota busy
    | false => exact startRun h hvisit aboveQuota busy
  | visit | advance | report | check | finish | needMemory | flagBeingDeleted | release =>
    cases hstep

theorem step (h : s.Valid) (hstep : s.step domain action = some s') :
    s'.Valid ∧ AgentsGrow s s' := by
  rw [Optimizer.step] at hstep
  split_ifs at hstep with hidle
  · simp only [isIdle, Bool.and_eq_true, Option.isNone_iff_eq_none, List.isEmpty_iff] at hidle
    rcases Option.or_eq_some_iff.mp hstep with hreceive | ⟨-, hproceed⟩
    · exact receive h.toOrdered hidle.1 hidle.2 hreceive
    · exact h.proceed hproceed
  · exact h.proceed hstep

end Valid

/-! ## What messages do -/

def Action.used : Action Object → Option Object
  | .write o _ | .read o _ | .touch o => some o
  | _ => none

theorem last_promote : ((s.promote ua o).chains ua).last = some o := by
  simp only [promote, Function.update_self, ObjectChain.promote]
  split_ifs with hlast
  · exact hlast
  · rfl

theorem last_link : ((s.link ua o).chains ua).last = some o := by
  simp [link, ObjectChain.link]

theorem last_access : ((s.access o ua).chains ((s.access o ua).userAgent o)).last = some o := by
  simp only [access]
  split_ifs
  · simpa using last_link
  · simpa using last_promote

theorem linked_access (ho : o ∈ s.linked) : (s.access o ua).linked = s.linked := by
  simp only [access]
  split_ifs
  · simpa using Finset.insert_erase ho
  · simp

theorem last_of_used {action : Action Object} (hstep : s.step domain action = some s')
    (hused : action.used = some o) (ho : o ∈ s.linked) (halive : o ∉ s.beingDeleted) :
    o ∈ s'.linked ∧ (s'.chains (s'.userAgent o)).last = some o := by
  have hproceed : s.proceed domain action = none := by
    cases action with
    | write | read | touch => rfl
    | _ => cases hused
  rw [step, hproceed, Option.or_none] at hstep
  obtain ⟨-, hreceive⟩ := Option.ite_none_right_eq_some.mp hstep
  cases action with
  | write o' ua =>
    cases hused
    cases hreceive
    rw [processWriteMessage, if_pos halive, if_neg (not_not.mpr ho)]
    exact ⟨(linked_access ho).symm ▸ ho, last_access⟩
  | read o' ua =>
    cases hused
    cases hreceive
    rw [processReadMessage, if_pos halive, if_pos ho]
    exact ⟨(linked_access ho).symm ▸ ho, last_access⟩
  | touch o' =>
    cases hused
    cases hreceive
    rw [processFpcTouchMessage, if_pos halive, if_pos ho]
    refine ⟨by simpa using ho, ?_⟩
    simpa using last_promote
  | _ => cases hused

/-! ## Runs -/

theorem Represents.card_eq (h : s.Represents objs) :
    s.linked.card = ∑ ua ∈ Finset.range numUserAgents, (objs ua).length := by
  have hmaps : Set.MapsTo s.userAgent s.linked (Finset.range numUserAgents) :=
    fun o ho => Finset.mem_coe.mpr (Finset.mem_range.mpr (h.userAgent o ho))
  rw [Finset.card_eq_sum_card_fiberwise hmaps]
  exact Finset.sum_congr rfl fun ua _ => (h.length_eq ua).symm

/-- The chains, the number of objects and the iterator agree with each other. -/
structure WellFormed (s : Optimizer Object) (objs : Nat → List Object) : Prop
    extends s.Represents objs where
  total : s.totalNumObjects = (∑ ua ∈ Finset.range numUserAgents, (objs ua).length) % uintRange
  /-- Counters are exact while they are able to hold the numbers. -/
  exact : s.linked.card < uintRange →
    (∀ ua, (s.chains ua).num = (objs ua).length) ∧
      s.totalNumObjects = ∑ ua ∈ Finset.range numUserAgents, (s.chains ua).num
  iterator : ∀ o ∈ s.iterator, ∃ ua < numUserAgents, o ∈ objs ua

theorem Valid.wellFormed (h : s.Valid) : ∃ objs, s.WellFormed objs := by
  obtain ⟨objs, hobjs⟩ := h.represents
  refine ⟨objs, hobjs, hobjs.card_eq ▸ h.total, fun hfits => ?_, fun o ho => ?_⟩
  · have hnum : ∀ ua, (s.chains ua).num = (objs ua).length := fun ua => by
      rw [hobjs.num_eq_chainLength hfits, hobjs.length_eq]
    refine ⟨hnum, ?_⟩
    rw [h.total, Nat.mod_eq_of_lt hfits, hobjs.card_eq]
    exact Finset.sum_congr rfl fun ua _ => (hnum ua).symm
  · have hlinked := h.iterator o ho
    exact ⟨s.userAgent o, hobjs.userAgent o hlinked, (hobjs.mem _ o).mpr ⟨hlinked, rfl⟩⟩

/-- So many objects of the first user agent were written, and nothing else was done. -/
structure IsLong (s : Optimizer Nat) (n : Nat) : Prop where
  linked : s.linked = Finset.range n
  userAgent : ∀ i < n, s.userAgent i = 0
  beingDeleted : s.beingDeleted = ∅
  idle : s.isIdle
  minNum : ∀ ua, (s.chains ua).minNum = 1

theorem IsLong.write {s : Optimizer Nat} {n : Nat} (h : s.IsLong n) :
    s.step .session (.write n 0) = some (s.add n 0) ∧ (s.add n 0).IsLong (n + 1) := by
  have hnew : n ∉ s.linked := by simp [h.linked]
  refine ⟨?_, ?_, fun i hi => ?_, h.beingDeleted, h.idle, fun ua => ?_⟩
  · simp [step, h.idle, receive, processWriteMessage, h.beingDeleted, hnew]
  · simp [add, h.linked, Finset.range_add_one]
  · simp only [add, userAgent_link, userAgent_setUserAgent]
    rcases Nat.lt_succ_iff_lt_or_eq.mp hi with hlt | rfl
    · rw [Function.update_of_ne hlt.ne, h.userAgent i hlt]
    · rw [Function.update_self]
  · by_cases hua : ua = 0
    · subst hua
      simpa [add, link, ObjectChain.link, setUserAgent] using h.minNum 0
    · simpa [add, link, hua, setUserAgent] using h.minNum ua

theorem exists_isLong (n : Nat) : ∃ actions, ∃ s : Optimizer Nat,
    Reaches (step .session) (fun _ _ => True) start actions s ∧ s.IsLong n := by
  induction n with
  | zero => exact ⟨[], start, .nil, rfl, by simp, rfl, rfl, fun _ => rfl⟩
  | succ n ih =>
    obtain ⟨actions, s, hruns, hlong⟩ := ih
    exact ⟨_, _, hruns.snoc trivial hlong.write.1, hlong.write.2⟩

theorem IsLong.chainLength_eq {s : Optimizer Nat} {n : Nat} (h : s.IsLong n) (ua : Nat) :
    s.chainLength ua = if ua = 0 then n else 0 := by
  have hagent : ∀ o ∈ s.linked, s.userAgent o = 0 := fun o ho =>
    h.userAgent o (by simpa [h.linked] using ho)
  rw [chainLength]
  split_ifs with hua
  · rw [Finset.filter_true_of_mem fun o ho => (hagent o ho).trans hua.symm, h.linked,
      Finset.card_range]
  · rw [Finset.filter_false_of_mem fun o ho heq => hua (heq.symm.trans (hagent o ho)),
      Finset.card_empty]

end Optimizer

end CyberCache
