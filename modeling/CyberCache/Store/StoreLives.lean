import CyberCache.Store.ObjectLife

/-!
# Stores let objects live their lives

Each step of a store is, for each of its objects, nothing or an event of its life. The tables hold
exactly the objects that were created and not yet disposed, whatever is done with them.
-/

namespace CyberCache

open Function (update update_of_ne)

@[simp]
def OptimizerMessage.isAccess (o : Nat) : OptimizerMessage → Bool
  | .write o' | .read o' => o' = o
  | _ => false

@[simp]
def OptimizerMessage.isDelete (o : Nat) : OptimizerMessage → Bool
  | .delete o' _ => o' = o
  | _ => false

namespace PayloadStore

variable (config : StoreConfiguration)

variable {m : OptimizerMessage}

def life (s : PayloadStore) (o : Nat) : Life where
  created := o < s.numObjects
  disposed := s.disposed o
  flags := s.flags o
  accesses := s.optimizerQueue.countP (·.isAccess o)
  deletes := s.optimizerQueue.countP (·.isDelete o)
  saves := s.tagQueue.count (.save o)
  removes := s.tagQueue.count (.remove o)
  unlinks := s.tagQueue.count (.unlinkObject o)
  posted := s.posted.count o
  queued := (s.queues (s.tableOf config o)).count o

/-- Deleted objects are in the queues of their tables. -/
def Filed (s : PayloadStore) : Prop := ∀ i, ∀ o ∈ s.queues i, s.tableOf config o = i

/-- The table has the objects `recent` and `old`, and these are all that it should have. Objects are
numbered when they are created, so that the newer of two objects has the larger number. -/
structure HoldsObjects (s : PayloadStore) (i : Nat) (recent old : List Nat) : Prop where
  represents : (s.tables i).Represents config.store s.keys recent old
  decreasing : (recent ++ old).Pairwise (· > ·)
  mem_iff : ∀ o, o ∈ recent ++ old ↔
    o < s.numObjects ∧ s.disposed o = false ∧ s.tableOf config o = i

structure Sound (s : PayloadStore) : Prop where
  tables : ∀ i, ∃ recent old, s.HoldsObjects config i recent old
  filed : s.Filed config
  lives : ∀ o, (s.life config o).Valid config.domain

variable {config} {s s' s'' : PayloadStore} {o o' i : Nat} {recent old : List Nat}

/-! ## Steps that leave the tables alone -/

variable (config) in
structure Keeps (s s' : PayloadStore) : Prop where
  tables : s'.tables = s.tables
  numObjects : s'.numObjects = s.numObjects
  keys : s'.keys = s.keys
  payloads : s'.payloads = s.payloads
  disposed : s'.disposed = s.disposed
  filed : s.Filed config → s'.Filed config

theorem Keeps.refl (s : PayloadStore) : Keeps config s s := ⟨rfl, rfl, rfl, rfl, rfl, id⟩

theorem Keeps.trans (h : Keeps config s s') (h' : Keeps config s' s'') : Keeps config s s'' :=
  ⟨h'.tables.trans h.tables, h'.numObjects.trans h.numObjects, h'.keys.trans h.keys,
    h'.payloads.trans h.payloads, h'.disposed.trans h.disposed, h'.filed ∘ h.filed⟩

theorem HoldsObjects.keeps (h : s.HoldsObjects config i recent old) (hkeeps : Keeps config s s') :
    s'.HoldsObjects config i recent old where
  represents := by rw [hkeeps.tables, hkeeps.keys]; exact h.represents
  decreasing := h.decreasing
  mem_iff o := by
    rw [h.mem_iff o, hkeeps.numObjects, hkeeps.disposed, tableOf, tableOf, hkeeps.keys]

theorem keeps_postUnlinkMessage (s : PayloadStore) (o : Nat) :
    Keeps config s (s.postUnlinkMessage config o) where
  tables := rfl
  numObjects := rfl
  keys := rfl
  payloads := rfl
  disposed := rfl
  filed h i o' hmem := by
    by_cases hi : i = s.tableOf config o
    · subst hi
      have hmem : o' ∈ s.queues (s.tableOf config o) ++ [o] := by
        simpa [postUnlinkMessage, tableOf] using hmem
      obtain hmem | rfl := by simpa using hmem
      · exact h _ _ hmem
      · rfl
    · refine h i o' ?_
      have hi' : i ≠ config.getTableIndex (s.keys o).hash := hi
      simpa [postUnlinkMessage, tableOf, update_of_ne hi'] using hmem

/-! ## What messages are about -/

@[simp]
theorem flags_life (s : PayloadStore) (o : Nat) : (s.life config o).flags = s.flags o := rfl

theorem life_setFlags (s : PayloadStore) (o : Nat) (flags : ObjectFlags) :
    (s.setFlags o flags).life config o = { s.life config o with flags := flags } := by
  simp [life, tableOf]

theorem life_postOptimizer (s : PayloadStore) (m : OptimizerMessage) (o : Nat) :
    (s.postOptimizer m).life config o =
      { s.life config o with
        accesses := (s.life config o).accesses + (m.isAccess o).toNat
        deletes := (s.life config o).deletes + (m.isDelete o).toNat } := by
  simp [life, tableOf, List.countP_append, List.countP_singleton, Bool.toNat, Bool.cond_eq_ite]

theorem life_postTagManager (s : PayloadStore) (m : TagMessage) (o : Nat) :
    (s.postTagManager m).life config o =
      { s.life config o with
        saves := (s.life config o).saves + if m = .save o then 1 else 0
        removes := (s.life config o).removes + if m = .remove o then 1 else 0
        unlinks := (s.life config o).unlinks + if m = .unlinkObject o then 1 else 0 } := by
  simp [life, tableOf, List.count_append, List.count_singleton]

theorem life_takeOptimizer (hmem : m ∈ s.optimizerQueue) (o : Nat) :
    (s.takeOptimizer m).life config o =
      { s.life config o with
        accesses := (s.life config o).accesses - (m.isAccess o).toNat
        deletes := (s.life config o).deletes - (m.isDelete o).toNat } := by
  simp [life, tableOf, List.countP_erase, hmem, Bool.toNat, Bool.cond_eq_ite]

theorem life_takeTagManager (s : PayloadStore) (m : TagMessage) (o : Nat) :
    (s.takeTagManager m).life config o =
      { s.life config o with
        saves := (s.life config o).saves - if m = .save o then 1 else 0
        removes := (s.life config o).removes - if m = .remove o then 1 else 0
        unlinks := (s.life config o).unlinks - if m = .unlinkObject o then 1 else 0 } := by
  simp [life, tableOf, List.count_erase]

theorem life_postUnlinkMessage (s : PayloadStore) (o : Nat) :
    (s.postUnlinkMessage config o).life config o = (s.life config o).post := by
  simp [life, tableOf, postUnlinkMessage, Life.post]

theorem life_postUnlinkMessage_of_ne (s : PayloadStore) (h : o' ≠ o) :
    (s.postUnlinkMessage config o).life config o' = s.life config o' := by
  by_cases hi : s.tableOf config o' = s.tableOf config o
  · have hi' : config.getTableIndex (s.keys o').hash = config.getTableIndex (s.keys o).hash := hi
    simp [life, tableOf, postUnlinkMessage, h, hi', List.count_append, h.symm]
  · have hi' : config.getTableIndex (s.keys o').hash ≠ config.getTableIndex (s.keys o).hash := hi
    simp [life, tableOf, postUnlinkMessage, h, update_of_ne hi', List.count_append, h.symm]

/-! ## Steps of the optimizer and the tag manager -/

variable (config) in
/-- Nothing changes but the flags of one object, if any, and the messages about it. -/
structure Concerns (o : Option Nat) (s s' : PayloadStore) : Prop where
  keeps : Keeps config s s'
  others : ∀ o', o ≠ some o' → s'.life config o' = s.life config o'

section

variable {o : Option Nat}

theorem Concerns.trans (h : Concerns config o s s') (h' : Concerns config o s' s'') :
    Concerns config o s s'' :=
  ⟨h.keeps.trans h'.keeps, fun o' hne => (h'.others o' hne).trans (h.others o' hne)⟩

theorem concerns_postOptimizer (s : PayloadStore) (h : m.object? = o) :
    Concerns config o s (s.postOptimizer m) :=
  ⟨⟨rfl, rfl, rfl, rfl, rfl, id⟩, fun _ hne => by
    subst h
    cases m <;> simp_all [life_postOptimizer, OptimizerMessage.object?, -flags_life]⟩

theorem concerns_postTagManager (s : PayloadStore) {m : TagMessage} (h : m.object? = o) :
    Concerns config o s (s.postTagManager m) :=
  ⟨⟨rfl, rfl, rfl, rfl, rfl, id⟩, fun _ hne => by
    subst h
    cases m <;> simp_all [life_postTagManager, TagMessage.object?, -flags_life]⟩

theorem concerns_takeOptimizer (hmem : m ∈ s.optimizerQueue) (h : m.object? = o) :
    Concerns config o s (s.takeOptimizer m) :=
  ⟨⟨rfl, rfl, rfl, rfl, rfl, id⟩, fun _ hne => by
    subst h
    cases m <;> simp_all [life_takeOptimizer, OptimizerMessage.object?, -flags_life]⟩

theorem concerns_takeTagManager (s : PayloadStore) {m : TagMessage} (h : m.object? = o) :
    Concerns config o s (s.takeTagManager m) :=
  ⟨⟨rfl, rfl, rfl, rfl, rfl, id⟩, fun _ hne => by
    subst h
    cases m <;> simp_all [life_takeTagManager, TagMessage.object?, -flags_life]⟩

end

theorem concerns_setFlags (s : PayloadStore) (o : Nat) (flags : ObjectFlags) :
    Concerns config (some o) s (s.setFlags o flags) :=
  ⟨⟨rfl, rfl, rfl, rfl, rfl, id⟩, fun o' hne => by
    simp [life, tableOf, show o' ≠ o from fun heq => hne (heq ▸ rfl)]⟩

theorem concerns_postUnlinkMessage (s : PayloadStore) (o : Nat) :
    Concerns config (some o) s (s.postUnlinkMessage config o) :=
  ⟨keeps_postUnlinkMessage s o, fun _ hne =>
    life_postUnlinkMessage_of_ne s fun heq => hne (heq ▸ rfl)⟩

theorem concerns_onDelete (s : PayloadStore) (o : Nat) :
    Concerns config (some o) s (s.onDelete config o) := by
  unfold onDelete
  split
  · exact concerns_postUnlinkMessage s o
  · exact concerns_postTagManager s rfl

theorem concerns_postDelete (s : PayloadStore) (o : Nat) :
    Concerns config (some o) s (s.postDelete config o) := by
  unfold postDelete
  split
  · exact concerns_postOptimizer s rfl
  · exact concerns_postTagManager s rfl

theorem concerns_postWrite (s : PayloadStore) (o : Nat) :
    Concerns config (some o) s (s.postWrite config o) := by
  unfold postWrite
  split
  · exact concerns_postOptimizer s rfl
  · exact concerns_postTagManager s rfl

variable (config) in
structure Happens (o : Nat) (e : LifeEvent) (s s' : PayloadStore) : Prop
    extends Concerns config (some o) s s' where
  next : (s.life config o).Next config.domain e (s'.life config o)

section Messages

variable {e : LifeEvent}

theorem Happens.of {l : Life} (hconcerns : Concerns config (some o) s s')
    (hnext : (s.life config o).Next config.domain e l) (hl : s'.life config o = l) :
    Happens config o e s s' := ⟨hconcerns, hl ▸ hnext⟩

theorem Happens.others_of_ne (h : Happens config o e s s') (hne : o' ≠ o) :
    s'.life config o' = s.life config o' := h.others o' fun heq => hne (Option.some.inj heq).symm

theorem happens_purge (h : (s.life config o).Valid config.domain)
    (hpurge : s.purgeObject config o = some s') : Happens config o .purge s s' := by
  obtain ⟨⟨hlinked, halive, hdisposed⟩, hs'⟩ := Option.ite_none_right_eq_some.mp hpurge
  cases hs'
  have halive' : (s.life config o).Alive :=
    h.alive_of_linked hdisposed (by simpa [isAlive] using halive) (.inl hlinked)
  refine ⟨((concerns_setFlags ..).trans (concerns_setFlags ..)).trans (concerns_onDelete ..), ?_⟩
  cases hdomain : config.domain with
  | session =>
    simpa [onDelete, hdomain, life_postUnlinkMessage, life_setFlags, unlinkByOptimizer,
      flagBeingDeleted] using Life.Next.purgeSession halive' hlinked
  | page =>
    simpa [onDelete, hdomain, life_postTagManager, life_setFlags, unlinkByOptimizer,
      flagBeingDeleted] using Life.Next.purgePage halive' hlinked

theorem happens_clean (h : (s.life config o).Valid config.domain)
    (hclean : s.cleanObject o = some s') : Happens config o .clean s s' := by
  obtain ⟨⟨htagged, halive, hdisposed⟩, hs'⟩ := Option.ite_none_right_eq_some.mp hclean
  cases hs'
  have halive' : (s.life config o).Alive :=
    h.alive_of_linked hdisposed (by simpa [isAlive] using halive) (.inr htagged)
  exact .of (((concerns_setFlags ..).trans (concerns_setFlags ..)).trans
    (concerns_postOptimizer _ (by rfl))) (.clean halive' htagged)
    (by simp [life_postOptimizer, life_setFlags, unlinkTags, flagBeingDeleted])

theorem happens_foldlM {f : PayloadStore → Nat → Option PayloadStore} {chosen : List Nat}
    (hf : ∀ s o s', (s.life config o).Valid config.domain → f s o = some s' →
      Happens config o e s s')
    (hfinal : ∀ l l' : Life, l.Next config.domain e l' → l.Alive ∧ ¬l'.Alive)
    (h : ∀ o, (s.life config o).Valid config.domain) (hs' : chosen.foldlM f s = some s') :
    Keeps config s s' ∧ ∀ o, s'.life config o = s.life config o ∨
      o ∈ chosen ∧ (s.life config o).Next config.domain e (s'.life config o) := by
  induction chosen generalizing s with
  | nil =>
    obtain rfl := Option.some.inj hs'
    exact ⟨.refl s, fun o => .inl rfl⟩
  | cons o chosen ih =>
    rw [List.foldlM_cons] at hs'
    obtain ⟨s₁, hs₁, hs'⟩ := Option.bind_eq_some_iff.mp hs'
    have hhappens := hf s o s₁ (h o) hs₁
    have h₁ : ∀ o, (s₁.life config o).Valid config.domain := fun o' => by
      by_cases heq : o' = o
      · exact heq ▸ (h o).next hhappens.next
      · exact hhappens.others_of_ne heq ▸ h o'
    obtain ⟨hkeeps, hlives⟩ := ih h₁ hs'
    refine ⟨hhappens.keeps.trans hkeeps, fun o' => ?_⟩
    by_cases heq : o' = o
    · subst heq
      refine .inr ⟨List.mem_cons_self, ?_⟩
      obtain heq | ⟨-, hnext⟩ := hlives o'
      · rw [heq]
        exact hhappens.next
      · -- nothing of this kind happens twice
        exact absurd (hfinal _ _ hnext).1 (hfinal _ _ hhappens.next).2
    · rw [← hhappens.others_of_ne heq]
      exact (hlives o').imp id fun ⟨hmem, hnext⟩ => ⟨List.mem_cons_of_mem _ hmem, hnext⟩

variable (config) in
theorem life_takeAccess {m : OptimizerMessage} (hmem : m ∈ s.optimizerQueue)
    (hm : m.isAccess o = true) (hm' : m.isDelete o = false) :
    ∃ n, (s.life config o).accesses = n + 1 ∧
      (s.takeOptimizer m).life config o = { s.life config o with accesses := n } := by
  obtain ⟨n, hn⟩ : ∃ n, (s.life config o).accesses = n + 1 :=
    Nat.exists_eq_add_one.mpr (List.countP_pos_iff.mpr ⟨m, hmem, hm⟩)
  exact ⟨n, hn, by rw [life_takeOptimizer hmem, hm, hm', hn]; rfl⟩

variable (config) in
theorem life_takeDelete {retries : Nat} (hmem : .delete o retries ∈ s.optimizerQueue) :
    ∃ n, (s.life config o).deletes = n + 1 ∧
      (s.takeOptimizer (.delete o retries)).life config o =
        { s.life config o with deletes := n } := by
  obtain ⟨n, hn⟩ : ∃ n, (s.life config o).deletes = n + 1 :=
    Nat.exists_eq_add_one.mpr (List.countP_pos_iff.mpr ⟨_, hmem, by simp⟩)
  exact ⟨n, hn, by simp [life_takeOptimizer hmem, hn]⟩

theorem life_putBack {retries : Nat} (hmem : .delete o retries ∈ s.optimizerQueue) (o' : Nat) :
    ((s.takeOptimizer (.delete o retries)).postOptimizer (.delete o (retries + 1))).life config o' =
      s.life config o' := by
  by_cases hne : some o = some o'
  · cases hne
    obtain ⟨n, hn, -⟩ := life_takeDelete config hmem
    have hsame : (s.life config o).deletes - 1 + 1 = (s.life config o).deletes := by omega
    simp [life_postOptimizer, life_takeOptimizer hmem, hsame, -flags_life]
  · exact ((concerns_takeOptimizer hmem (by rfl)).trans (concerns_postOptimizer _ (by rfl))).others
      o' hne

theorem exists_count_eq {m : TagMessage} (hmem : m ∈ s.tagQueue) :
    ∃ n, s.tagQueue.count m = n + 1 :=
  Nat.exists_eq_add_one.mpr (List.count_pos_iff.mpr hmem)

section

variable {retries : Nat} (h : (s.life config o).Valid config.domain)
  (hdisposed : s.disposed o = false)

include h hdisposed

theorem happens_link (hmem : .write o ∈ s.optimizerQueue) :
    Happens config o .link s ((s.takeOptimizer (.write o)).processWriteMessage o) := by
  obtain ⟨n, hn, htaken⟩ := life_takeAccess config (o := o) hmem (by simp) rfl
  exact .of ((concerns_takeOptimizer hmem (by rfl)).trans (concerns_setFlags ..))
    (.link (h.inUse_of_message hdisposed (by omega)) hn)
    (by simp [processWriteMessage, linkByOptimizer, life_setFlags, htaken])

theorem happens_skipRead (hmem : .read o ∈ s.optimizerQueue) :
    Happens config o .skipRead s (s.takeOptimizer (.read o)) := by
  obtain ⟨n, hn, htaken⟩ := life_takeAccess config (o := o) hmem (by simp) rfl
  exact .of (concerns_takeOptimizer hmem (by rfl))
    (.skipRead (h.inUse_of_message hdisposed (by omega)) hn) htaken

theorem happens_unlink (hmem : .delete o retries ∈ s.optimizerQueue)
    (hlinked : (s.flags o).linkedByOptimizer = true) :
    Happens config o .unlink s
      ((s.takeOptimizer (.delete o retries)).processDeleteMessage config o retries) := by
  obtain ⟨n, hn, htaken⟩ := life_takeDelete config hmem
  have hprocess : (s.takeOptimizer (.delete o retries)).processDeleteMessage config o retries =
      ((s.takeOptimizer (.delete o retries)).unlinkByOptimizer o).postUnlinkMessage config o :=
    if_pos hlinked
  rw [hprocess]
  exact .of (((concerns_takeOptimizer hmem (by rfl)).trans (concerns_setFlags ..)).trans
    (concerns_postUnlinkMessage ..)) (.unlink (h.inUse_of_message hdisposed (by omega)) hn hlinked)
    (by simp [life_postUnlinkMessage, unlinkByOptimizer, life_setFlags, htaken])

theorem happens_giveUp (hmem : .delete o retries ∈ s.optimizerQueue)
    (hlinked : (s.flags o).linkedByOptimizer = false) :
    Happens config o .giveUp s (s.takeOptimizer (.delete o retries)) := by
  obtain ⟨n, hn, htaken⟩ := life_takeDelete config hmem
  exact .of (concerns_takeOptimizer hmem (by rfl))
    (.giveUp (h.inUse_of_message hdisposed (by omega)) hn hlinked) htaken

theorem happens_tag (hmem : .save o ∈ s.tagQueue) (htagged : (s.flags o).linkedByTM ∨ s.isAlive o) :
    Happens config o .tag s ((s.takeTagManager (.save o)).processSaveMessage o) := by
  obtain ⟨n, hn⟩ : ∃ n, (s.life config o).saves = n + 1 := exists_count_eq hmem
  have hprocess : (s.takeTagManager (.save o)).processSaveMessage o =
      ((s.takeTagManager (.save o)).linkTags o).postOptimizer (.write o) := if_pos htagged
  rw [hprocess]
  exact .of (((concerns_takeTagManager _ (by rfl)).trans (concerns_setFlags ..)).trans
    (concerns_postOptimizer _ (by rfl)))
    (.tag (h.inUse_of_message hdisposed (by omega)) hn (by simpa [isAlive] using htagged))
    (by simp [life_postOptimizer, linkTags, life_setFlags, life_takeTagManager, hn])

theorem happens_skipSave (hmem : .save o ∈ s.tagQueue) :
    Happens config o .skipSave s (s.takeTagManager (.save o)) := by
  obtain ⟨n, hn⟩ : ∃ n, (s.life config o).saves = n + 1 := exists_count_eq hmem
  exact .of (concerns_takeTagManager _ (by rfl))
    (.skipSave (h.inUse_of_message hdisposed (by omega)) hn) (by simp [life_takeTagManager, hn])

theorem happens_untag (hmem : .remove o ∈ s.tagQueue) (htagged : (s.flags o).linkedByTM = true) :
    Happens config o .untag s ((s.takeTagManager (.remove o)).processRemoveMessage o) := by
  obtain ⟨n, hn⟩ : ∃ n, (s.life config o).removes = n + 1 := exists_count_eq hmem
  have hprocess : (s.takeTagManager (.remove o)).processRemoveMessage o =
      ((s.takeTagManager (.remove o)).unlinkTags o).postOptimizer (.delete o 0) := if_pos htagged
  rw [hprocess]
  exact .of (((concerns_takeTagManager _ (by rfl)).trans (concerns_setFlags ..)).trans
    (concerns_postOptimizer _ (by rfl))) (.untag (h.inUse_of_message hdisposed (by omega))
    hn htagged) (by simp [life_postOptimizer, unlinkTags, life_setFlags, life_takeTagManager, hn])

theorem happens_skipRemove (hmem : .remove o ∈ s.tagQueue)
    (htagged : (s.flags o).linkedByTM = false) :
    Happens config o .skipRemove s (s.takeTagManager (.remove o)) := by
  obtain ⟨n, hn⟩ : ∃ n, (s.life config o).removes = n + 1 := exists_count_eq hmem
  exact .of (concerns_takeTagManager _ (by rfl))
    (.skipRemove (h.inUse_of_message hdisposed (by omega)) hn htagged)
    (by simp [life_takeTagManager, hn])

theorem happens_untagPurged (hmem : .unlinkObject o ∈ s.tagQueue) :
    Happens config o .untagPurged s
      ((s.takeTagManager (.unlinkObject o)).unlinkObject config o) := by
  obtain ⟨n, hn⟩ : ∃ n, (s.life config o).unlinks = n + 1 := exists_count_eq hmem
  exact .of (((concerns_takeTagManager _ (by rfl)).trans (concerns_setFlags ..)).trans
    (concerns_postUnlinkMessage ..)) (.untagPurged (h.inUse_of_message hdisposed (by omega)) hn)
    (by simp [unlinkObject, life_postUnlinkMessage, unlinkTags, life_setFlags, life_takeTagManager,
    hn])

end

end Messages

/-! ## Commands -/

section Commands

variable {key : HashObject} {payload : Nat} {hasReaders : Nat → Nat → Bool}

theorem Sound.find_eq (h : s.Sound config) (key : HashObject) :
    ∃ recent old, s.HoldsObjects config (config.getTableIndex key.hash) recent old ∧
      s.find config key =
        some ((recent ++ old.reverse).find? (HashTable.matchesKey s.keys key.hash key.name)) := by
  obtain ⟨recent, old, hholds⟩ := h.tables (config.getTableIndex key.hash)
  exact ⟨recent, old, hholds, hholds.represents.find key.hash key.name⟩

theorem Sound.findAlive_eq (h : s.Sound config) (key : HashObject) :
    ∃ found, s.findAlive config key = some found ∧
      ∀ o ∈ found, (s.life config o).Alive ∧ s.keys o = key := by
  obtain ⟨recent, old, hholds, hfind⟩ := h.find_eq key
  refine ⟨_, by rw [findAlive, hfind]; rfl, fun o ho => ?_⟩
  obtain ⟨hfound, halive⟩ := Option.mem_filter_iff.mp ho
  have hmem := (hholds.mem_iff o).mp (by simpa using List.mem_of_find?_eq_some hfound)
  have hkey := (HashTable.matchesKey_iff _).mp (List.find?_some hfound)
  exact ⟨⟨⟨by simpa [life] using hmem.1, hmem.2.1⟩, by simpa [isAlive] using halive⟩, hkey⟩

theorem happens_read (halive : (s.life config o).Alive) :
    Happens config o .read s (s.postOptimizer (.read o)) :=
  .of (concerns_postOptimizer _ (by rfl)) (.read halive) (by simp [life_postOptimizer])

theorem happens_destroy (halive : (s.life config o).Alive) :
    Happens config o .destroy s ((s.flagBeingDeleted o).postDelete config o) := by
  refine ⟨(concerns_setFlags ..).trans (concerns_postDelete ..), ?_⟩
  cases hdomain : config.domain with
  | session =>
    simpa [postDelete, hdomain, flagBeingDeleted, life_postOptimizer, life_setFlags]
      using Life.Next.destroySession halive
  | page =>
    simpa [postDelete, hdomain, flagBeingDeleted, life_postTagManager, life_setFlags] using
      Life.Next.destroyPage halive

theorem happens_write (halive : (s.life config o).Alive) :
    Happens config o .write s (s.postWrite config o) := by
  refine ⟨concerns_postWrite .., ?_⟩
  cases hdomain : config.domain with
  | session =>
    simpa [postWrite, hdomain, life_postOptimizer] using Life.Next.writeSession halive
  | page =>
    simpa [postWrite, hdomain, life_postTagManager] using Life.Next.writePage halive

/-! ## New objects -/

theorem Sound.life_new (h : s.Sound config) (ho : s.numObjects ≤ o) :
    s.life config o = .initial :=
  (h.lives o).initial (by simpa [life] using ho)

theorem Sound.not_mem_queues (h : s.Sound config) (ho : s.numObjects ≤ o) (i : Nat) :
    o ∉ s.queues i := by
  intro hmem
  have hqueued : 0 < (s.life config o).queued := by
    refine List.count_pos_iff.mpr ?_
    rwa [h.filed i o hmem]
  rw [h.life_new ho] at hqueued
  exact absurd hqueued (Nat.lt_irrefl 0)

theorem tableOf_allocate_of_ne (h : o ≠ s.numObjects) :
    (s.allocate key payload).tableOf config o = s.tableOf config o := by
  simp [tableOf, allocate, h]

theorem Sound.life_allocate (h : s.Sound config) (key : HashObject) (payload : Nat) :
    (s.allocate key payload).life config s.numObjects =
      { Life.initial with created := true } := by
  have hlife := h.life_new (Nat.le_refl s.numObjects)
  rw [← hlife]
  have hqueued (i : Nat) : (s.queues i).count s.numObjects = 0 :=
    List.count_eq_zero.mpr (h.not_mem_queues (Nat.le_refl _) i)
  simp [life, allocate, hqueued]

theorem life_allocate_of_ne (h : o ≠ s.numObjects) :
    (s.allocate key payload).life config o = s.life config o := by
  have hlt : o < s.numObjects + 1 ↔ o < s.numObjects := by omega
  simp [life, tableOf, allocate, h, hlt]

def linkObject (s : PayloadStore) (index : Nat) (table : HashTable Nat) : PayloadStore :=
  { s with tables := update s.tables index table }

variable (config) in
def withObject (s : PayloadStore) (key : HashObject) (payload : Nat) (table : HashTable Nat) :
    PayloadStore :=
  (s.allocate key payload).linkObject (config.getTableIndex key.hash) table

theorem HoldsObjects.add (h : s.HoldsObjects config i recent old)
    (hnew : s.disposed s.numObjects = false) {resized : Bool} {table : HashTable Nat}
    (hadd : (s.tables (config.getTableIndex key.hash)).add config.store
      (s.allocate key payload).keys s.numObjects = some (resized, table)) :
    ∃ recent' old', (s.withObject config key payload table).HoldsObjects config i recent' old' ∧
      (old' = old ∨ i = config.getTableIndex key.hash ∧
        (s.tables i).resizes config.store = true ∧ old' = recent ++ old) := by
  have hne : ∀ o ∈ recent ++ old, o ≠ s.numObjects := fun o ho heq =>
    absurd ((h.mem_iff o).mp ho).1 (by omega)
  have hrepresents : (s.tables i).Represents config.store (s.allocate key payload).keys
      recent old :=
    h.represents.congr fun o ho => by simp [allocate, hne o ho]
  -- what belongs to a table, apart from the new object
  have hmem (o : Nat) (ho : o ≠ s.numObjects) : o ∈ recent ++ old ↔
      o < s.numObjects + 1 ∧ s.disposed o = false ∧
        (s.allocate key payload).tableOf config o = i := by
    rw [h.mem_iff, tableOf_allocate_of_ne ho]
    have hlt : o < s.numObjects + 1 ↔ o < s.numObjects := by omega
    rw [hlt]
  have hindex : (s.allocate key payload).tableOf config s.numObjects =
      config.getTableIndex key.hash := by simp [tableOf, allocate]
  by_cases hi : i = config.getTableIndex key.hash
  · have hlast : s.numObjects ∉ recent ++ old := fun ho => hne _ ho rfl
    obtain ⟨table', hadd', -, hrepresents'⟩ := hrepresents.add hlast
    obtain ⟨-, rfl⟩ := Prod.mk.inj (Option.some.inj ((hi ▸ hadd').symm.trans hadd))
    have hdecreasing : (s.numObjects :: (recent ++ old)).Pairwise (· > ·) :=
      List.pairwise_cons.mpr ⟨fun o ho => ((h.mem_iff o).mp ho).1, h.decreasing⟩
    have hmem' (o : Nat) : o ∈ s.numObjects :: (recent ++ old) ↔ o < s.numObjects + 1 ∧
        s.disposed o = false ∧ (s.allocate key payload).tableOf config o = i := by
      by_cases ho : o = s.numObjects
      · subst ho
        simp [hnew, hindex, hi]
      · rw [List.mem_cons, or_iff_right ho, hmem o ho]
    have htable : (s.withObject config key payload table').tables i = table' := by
      simp [withObject, linkObject, hi]
    split_ifs at hrepresents' with hresizes
    · refine ⟨[s.numObjects], recent ++ old, ⟨?_, hdecreasing, hmem'⟩, .inr ⟨hi, hresizes, rfl⟩⟩
      rw [htable]
      exact hrepresents'
    · refine ⟨s.numObjects :: recent, old, ⟨?_, hdecreasing, hmem'⟩, .inl rfl⟩
      rw [htable]
      exact hrepresents'
  · refine ⟨recent, old, ⟨?_, h.decreasing, fun o => ?_⟩, .inl rfl⟩
    · simpa [withObject, linkObject, hi, allocate] using hrepresents
    · by_cases ho : o = s.numObjects
      · subst ho
        have htable : ¬(s.allocate key payload).tableOf config s.numObjects = i :=
          fun heq => hi (heq.symm.trans hindex)
        exact iff_of_false (fun ho => hne _ ho rfl) fun ⟨_, _, heq⟩ => htable heq
      · exact hmem o ho

/-! ## Disposal -/

variable (config) in
/-- Some objects are no longer there; nobody refers to them. -/
structure Discards (s s' : PayloadStore) : Prop where
  numObjects : s'.numObjects = s.numObjects
  keys : s'.keys = s.keys
  payloads : s'.payloads = s.payloads
  flags : s'.flags = s.flags
  filed : s.Filed config → s'.Filed config
  tables : ∀ i recent old, s.HoldsObjects config i recent old → ∃ recent' old',
    s'.HoldsObjects config i recent' old' ∧ recent'.Sublist recent ∧ old'.Sublist old
  lives : ∀ o, s'.life config o = s.life config o ∨
    (s.life config o).Next config.domain .dispose (s'.life config o)

theorem Discards.refl (s : PayloadStore) : Discards config s s :=
  ⟨rfl, rfl, rfl, rfl, id, fun _ recent old h => ⟨recent, old, h, .refl _, .refl _⟩,
    fun _ => .inl rfl⟩

theorem Discards.trans (h : Discards config s s') (h' : Discards config s' s'') :
    Discards config s s'' where
  numObjects := h'.numObjects.trans h.numObjects
  keys := h'.keys.trans h.keys
  payloads := h'.payloads.trans h.payloads
  flags := h'.flags.trans h.flags
  filed := h'.filed ∘ h.filed
  tables i recent old hholds := by
    obtain ⟨recent', old', hholds', hrecent, hold⟩ := h.tables i recent old hholds
    obtain ⟨recent'', old'', hholds'', hrecent', hold'⟩ := h'.tables i recent' old' hholds'
    exact ⟨recent'', old'', hholds'', hrecent'.trans hrecent, hold'.trans hold⟩
  lives o := by
    obtain heq | hnext := h'.lives o
    · rw [heq]
      exact h.lives o
    · obtain heq | hfirst := h.lives o
      · rw [← heq]
        exact .inr hnext
      · -- nobody is disposed twice
        have hdisposed := hfirst.of_dispose.2.2
        rw [hnext.of_dispose.1.2] at hdisposed
        exact absurd hdisposed Bool.false_ne_true

theorem Discards.valid (h : Discards config s s')
    (hlives : ∀ o, (s.life config o).Valid config.domain) (o : Nat) :
    (s'.life config o).Valid config.domain := by
  obtain heq | hnext := h.lives o
  · rw [heq]
    exact hlives o
  · exact (hlives o).next hnext

variable (config) in
theorem discards_putBack {queue : List Nat} (hqueue : s.queues i = o :: queue) :
    Discards config s { s with queues := update s.queues i (queue ++ [o]) } where
  numObjects := rfl
  keys := rfl
  payloads := rfl
  flags := rfl
  filed h j o' hmem := by
    refine h j o' ?_
    by_cases hj : j = i
    · subst hj
      rw [hqueue]
      simpa [or_comm] using hmem
    · simpa [hj] using hmem
  tables _ recent old h := ⟨recent, old, ⟨h.represents, h.decreasing, h.mem_iff⟩, .refl _, .refl _⟩
  lives o' := by
    refine .inl ?_
    by_cases hi : s.tableOf config o' = i
    · have hi' : config.getTableIndex (s.keys o').hash = i := hi
      have hcount : (queue ++ [o]).count o' = (o :: queue).count o' :=
        (List.perm_append_singleton o queue).count_eq o'
      simp [life, tableOf, hi', hqueue, hcount]
    · have hi' : config.getTableIndex (s.keys o').hash ≠ i := hi
      simp [life, tableOf, hi']

theorem discards_disposeObject {queue : List Nat} (hqueue : s.queues i = o :: queue)
    (hfiled : s.Filed config) (hlives : ∀ o, (s.life config o).Valid config.domain) :
    Discards config s
      ({ s with queues := update s.queues i queue }.disposeObject config i o) := by
  have htable : s.tableOf config o = i := hfiled i o (by simp [hqueue])
  have htable' : config.getTableIndex (s.keys o).hash = i := htable
  have hqueued : (s.life config o).queued = queue.count o + 1 := by simp [life, htable, hqueue]
  have hinUse := (hlives o).inUse_of_queued (by omega)
  refine ⟨rfl, rfl, rfl, rfl, fun h j o' hmem => ?_, fun j recent old h => ?_, fun o' => ?_⟩
  · refine h j o' ?_
    by_cases hj : j = i
    · subst hj
      rw [hqueue]
      exact List.mem_cons_of_mem o (by simpa [disposeObject] using hmem)
    · simpa [disposeObject, hj] using hmem
  · by_cases hj : j = i
    · subst hj
      have hmem : o ∈ recent ++ old :=
        (h.mem_iff o).mpr ⟨by simpa [life] using hinUse.1, hinUse.2, htable⟩
      have hsub : (recent.filter (· ≠ o) ++ old.filter (· ≠ o)).Sublist (recent ++ old) :=
        List.filter_sublist.append List.filter_sublist
      refine ⟨_, _, ⟨?_, h.decreasing.sublist hsub, fun o' => ?_⟩, List.filter_sublist,
        List.filter_sublist⟩
      · simpa [disposeObject] using h.represents.remove hmem
      · rw [← List.filter_append, List.mem_filter, h.mem_iff o']
        by_cases ho : o' = o
        · simp [ho, disposeObject]
        · simp [ho, disposeObject, tableOf]
    · refine ⟨recent, old, ⟨?_, h.decreasing, fun o' => ?_⟩, .refl _, .refl _⟩
      · simpa [disposeObject, hj] using h.represents
      · rw [h.mem_iff o']
        by_cases ho : o' = o
        · subst ho
          have hne : ¬config.getTableIndex (s.keys o').hash = j := fun heq =>
            hj (heq.symm.trans htable')
          simp [tableOf, hne, disposeObject]
        · simp [ho, disposeObject, tableOf]
  · by_cases ho : o' = o
    · subst ho
      refine .inr ?_
      have hnext : (s.life config o').Next config.domain .dispose _ := .dispose hinUse hqueued
      convert hnext using 1
      simp [life, disposeObject, tableOf, htable']
      rfl
    · refine .inl ?_
      by_cases hi : config.getTableIndex (s.keys o').hash = i
      · simp [life, disposeObject, tableOf, ho, hi, hqueue, List.count_cons_of_ne (Ne.symm ho)]
        rfl
      · simp [life, disposeObject, tableOf, ho, hi]
        rfl

theorem discards_disposeDeletedObjects (num : Nat) (hfiled : s.Filed config)
    (hlives : ∀ o, (s.life config o).Valid config.domain) :
    Discards config s (disposeDeletedObjects config i hasReaders num s) := by
  induction num generalizing s with
  | zero => exact .refl s
  | succ num ih =>
    rw [disposeDeletedObjects]
    split
    · exact .refl s
    · rename_i o queue hqueue
      have hputBack := discards_putBack config hqueue
      have hdispose := discards_disposeObject hqueue hfiled hlives
      split_ifs
      · exact hputBack.trans (ih (hputBack.filed hfiled) (hputBack.valid hlives))
      · exact hdispose.trans (ih (hdispose.filed hfiled) (hdispose.valid hlives))

theorem Sound.addObject (h : s.Sound config)
    (hadd : s.addObject config key payload hasReaders = some s') :
    ∃ resized table,
      (s.tables (config.getTableIndex key.hash)).add config.store (s.allocate key payload).keys
        s.numObjects = some (resized, table) ∧
      (s.withObject config key payload table).Filed config ∧
      Discards config (s.withObject config key payload table) s' := by
  obtain ⟨⟨resized, table⟩, htable, hs'⟩ := Option.bind_eq_some_iff.mp hadd
  cases hs'
  have hfiled : (s.withObject config key payload table).Filed config := by
    intro i o hmem
    have hne : o ≠ s.numObjects := fun heq =>
      h.not_mem_queues (Nat.le_of_eq heq.symm) i hmem
    have htableOf : (s.allocate key payload).tableOf config o = s.tableOf config o :=
      tableOf_allocate_of_ne hne
    exact htableOf.trans (h.filed i o hmem)
  have hlives (o : Nat) :
      ((s.withObject config key payload table).life config o).Valid config.domain := by
    by_cases hne : o = s.numObjects
    · subst hne
      have hlife := h.life_allocate key payload
      have hnext : Life.initial.Next config.domain .create { Life.initial with created := true } :=
        .create rfl
      exact hlife ▸ (Life.initial_valid config.domain).next hnext
    · have hlife : (s.allocate key payload).life config o = s.life config o :=
        life_allocate_of_ne hne
      exact hlife ▸ h.lives o
  exact ⟨resized, table, htable, hfiled, discards_disposeDeletedObjects _ hfiled hlives⟩

end Commands

/-! ## Steps -/

section Steps

variable {a : StoreAction}

variable {chosen : List Nat}

/-- The steps in which an object is flagged as being deleted, put into the queue of deleted objects,
or dropped by somebody who should care for it. -/
def Occurs (a : StoreAction) (o : Nat) : LifeEvent → Prop
  | .destroy => ∃ key, a = .destroy key ∨ a = .read key true
  | .unlink => ∃ retries chosen, a = .optimizer (.delete o retries) chosen
  | .giveUp => ∃ retries chosen, a = .optimizer (.delete o retries) chosen ∧
      maxNumRetries ≤ retries + 1
  | .purge => ∃ chosen, o ∈ chosen ∧ (a = .run chosen ∨ a = .optimizer .purge chosen)
  | .skipRemove => ∃ chosen, a = .tagManager (.remove o) chosen
  | .untagPurged => ∃ chosen, a = .tagManager (.unlinkObject o) chosen
  | .clean => ∃ chosen, a = .tagManager .clean chosen
  | _ => True

variable (config) in
/-- Nothing happens to the tables; each object is left alone, or one event happens to it. -/
structure Proceeds (a : StoreAction) (s s' : PayloadStore) : Prop where
  keeps : Keeps config s s'
  lives : ∀ o, s'.life config o = s.life config o ∨
    ∃ e, Occurs a o e ∧ (s.life config o).Next config.domain e (s'.life config o)

theorem Happens.proceeds {e : LifeEvent} (h : Happens config o e s s') (he : Occurs a o e) :
    Proceeds config a s s' := by
  refine ⟨h.keeps, fun o' => ?_⟩
  by_cases heq : o' = o
  · subst heq
    exact .inr ⟨e, he, h.next⟩
  · exact .inl (h.others_of_ne heq)

theorem Concerns.proceeds (h : Concerns config none s s') : Proceeds config a s s' :=
  ⟨h.keeps, fun o => .inl (h.others o nofun)⟩

theorem proceeds_purge
    (h : ∀ o, (s.life config o).Valid config.domain) (hs' : s.purge config chosen = some s')
    (ha : a = .run chosen ∨ a = .optimizer .purge chosen) : Proceeds config a s s' := by
  obtain ⟨hkeeps, hlives⟩ := happens_foldlM (fun _ _ _ => happens_purge)
    (fun _ _ hnext => hnext.of_purge) h hs'
  exact ⟨hkeeps, fun o => (hlives o).imp id fun ⟨hmem, hnext⟩ =>
    ⟨.purge, ⟨chosen, hmem, ha⟩, hnext⟩⟩

theorem disposed_of_isUsable (h : s.isUsable (some o) = true) : s.disposed o = false := by
  simpa [isUsable] using h

theorem proceeds_optimizer {m : OptimizerMessage} (h : ∀ o, (s.life config o).Valid config.domain)
    (hmem : m ∈ s.optimizerQueue) (husable : s.isUsable m.object? = true)
    (hs' : (s.takeOptimizer m).processOptimizerMessage config chosen m = some s') :
    Proceeds config (.optimizer m chosen) s s' := by
  cases m with
  | write o =>
    cases hs'
    exact (happens_link (h o) (disposed_of_isUsable husable) hmem).proceeds trivial
  | read o =>
    cases hs'
    exact (happens_skipRead (h o) (disposed_of_isUsable husable) hmem).proceeds trivial
  | delete o retries =>
    cases hs'
    have hdisposed := disposed_of_isUsable husable
    cases hlinked : (s.flags o).linkedByOptimizer with
    | true =>
      exact (happens_unlink (h o) hdisposed hmem hlinked).proceeds ⟨retries, chosen, rfl⟩
    | false =>
      by_cases hretries : retries + 1 < maxNumRetries
      · simp only [processDeleteMessage, takeOptimizer_flags, hlinked, Bool.false_eq_true, hretries,
          if_true, if_false]
        exact ⟨⟨rfl, rfl, rfl, rfl, rfl, id⟩, fun o => .inl (life_putBack hmem o)⟩
      · simp only [processDeleteMessage, takeOptimizer_flags, hlinked, Bool.false_eq_true, hretries,
          if_false]
        exact (happens_giveUp (h o) hdisposed hmem hlinked).proceeds
          ⟨retries, chosen, rfl, Nat.le_of_not_lt hretries⟩
  | purge =>
    have htake : Concerns config none s (s.takeOptimizer .purge) := concerns_takeOptimizer hmem rfl
    have hlife (o : Nat) := htake.others o nofun
    have hpurge := proceeds_purge (fun o => hlife o ▸ h o) hs'
      (.inr rfl : _ ∨ StoreAction.optimizer .purge chosen = .optimizer .purge chosen)
    exact ⟨htake.keeps.trans hpurge.keeps, fun o => hlife o ▸ hpurge.lives o⟩

theorem proceeds_tagManager {m : TagMessage} (h : ∀ o, (s.life config o).Valid config.domain)
    (hmem : m ∈ s.tagQueue) (husable : s.isUsable m.object? = true)
    (hs' : (s.takeTagManager m).processTagMessage config chosen m = some s') :
    Proceeds config (.tagManager m chosen) s s' := by
  cases m with
  | save o =>
    cases hs'
    have hdisposed := disposed_of_isUsable husable
    by_cases htagged : (s.flags o).linkedByTM ∨ s.isAlive o
    · exact (happens_tag (h o) hdisposed hmem htagged).proceeds trivial
    · have hprocess : (s.takeTagManager (.save o)).processSaveMessage o =
          s.takeTagManager (.save o) := if_neg htagged
      rw [hprocess]
      exact (happens_skipSave (h o) hdisposed hmem).proceeds trivial
  | remove o =>
    cases hs'
    have hdisposed := disposed_of_isUsable husable
    cases htagged : (s.flags o).linkedByTM with
    | true => exact (happens_untag (h o) hdisposed hmem htagged).proceeds trivial
    | false =>
      have hprocess : (s.takeTagManager (.remove o)).processRemoveMessage o =
          s.takeTagManager (.remove o) := if_neg (by simp [htagged])
      rw [hprocess]
      exact (happens_skipRemove (h o) hdisposed hmem htagged).proceeds ⟨chosen, rfl⟩
  | unlinkObject o =>
    cases hs'
    exact (happens_untagPurged (h o) (disposed_of_isUsable husable) hmem).proceeds
      ⟨chosen, rfl⟩
  | clean =>
    have htake : Concerns config none s (s.takeTagManager .clean) := concerns_takeTagManager s rfl
    have hlife (o : Nat) := htake.others o nofun
    obtain ⟨hkeeps, hlives⟩ := happens_foldlM (fun _ _ _ => happens_clean)
      (fun _ _ hnext => hnext.of_clean) (fun o => hlife o ▸ h o) hs'
    refine ⟨htake.keeps.trans hkeeps, fun o => ?_⟩
    rw [← hlife o]
    exact (hlives o).imp id fun ⟨_, hnext⟩ => ⟨.clean, ⟨chosen, rfl⟩, hnext⟩
  | cleanOld =>
    cases hs'
    exact ((concerns_takeTagManager s (by rfl)).trans (concerns_postOptimizer _ (by rfl))).proceeds

theorem Sound.proceeds (h : s.Sound config) (hs' : s.step config a = some s') :
    (∃ key payload hasReaders, a = .write key payload hasReaders) ∨ Proceeds config a s s' := by
  refine or_iff_not_imp_left.mpr fun ha => ?_
  cases a with
  | write key payload hasReaders => exact absurd ⟨key, payload, hasReaders, rfl⟩ ha
  | read key expired =>
    obtain ⟨found, hfind, hfound⟩ := h.findAlive_eq key
    rw [step, processReadCommand, hfind, Option.bind_eq_bind, Option.bind_some] at hs'
    cases found with
    | none =>
      cases hs'
      exact ⟨.refl s, fun _ => .inl rfl⟩
    | some o =>
      have halive := (hfound o rfl).1
      simp only at hs'
      split_ifs at hs' with hexpired
      · cases hs'
        exact (happens_destroy halive).proceeds ⟨key, .inr (by rw [hexpired.2])⟩
      · cases hs'
        exact (happens_read halive).proceeds trivial
  | destroy key =>
    obtain ⟨found, hfind, hfound⟩ := h.findAlive_eq key
    rw [step, processDestroyCommand, hfind, Option.bind_eq_bind, Option.bind_some] at hs'
    cases found with
    | none =>
      cases hs'
      exact ⟨.refl s, fun _ => .inl rfl⟩
    | some o =>
      cases hs'
      exact (happens_destroy (hfound o rfl).1).proceeds ⟨key, .inl rfl⟩
  | clean =>
    obtain ⟨-, hs'⟩ := Option.ite_none_right_eq_some.mp hs'
    cases hs'
    exact (concerns_postTagManager s (by rfl)).proceeds
  | gc =>
    rw [step] at hs'
    split at hs' <;> cases hs'
    · exact (concerns_postOptimizer s (by rfl)).proceeds
    · exact (concerns_postTagManager s (by rfl)).proceeds
  | freeMemory =>
    cases hs'
    exact (concerns_postOptimizer s (by rfl)).proceeds
  | run chosen => exact proceeds_purge h.lives hs' (.inl rfl)
  | optimizer m chosen =>
    obtain ⟨⟨hmem, husable⟩, hs'⟩ := Option.ite_none_right_eq_some.mp hs'
    exact proceeds_optimizer h.lives hmem husable hs'
  | tagManager m chosen =>
    obtain ⟨⟨hmem, husable⟩, hs'⟩ := Option.ite_none_right_eq_some.mp hs'
    exact proceeds_tagManager h.lives hmem husable hs'

variable (config) in
def Advances (a : StoreAction) (s : PayloadStore) (o : Nat) : Life → Life → Prop :=
  Relation.ReflTransGen fun l l' => ∃ e, l.Next config.domain e l' ∧
    (e = .create ∨ e = .write ∨ e = .dispose ∨ l = s.life config o ∧ Occurs a o e)

theorem Advances.induct {I : Life → Prop} {l l' : Life} (h : Advances config a s o l l')
    (hI : I l)
    (hnext : ∀ l e l', I l → l.Next config.domain e l' →
      (e = .create ∨ e = .write ∨ e = .dispose ∨ l = s.life config o ∧ Occurs a o e) → I l') :
    I l' := by
  induction h with
  | refl => exact hI
  | tail _ hlast ih =>
    obtain ⟨e, he, hcause⟩ := hlast
    exact hnext _ e _ ih he hcause

theorem Advances.valid {l l' : Life} (h : Advances config a s o l l') (hl : l.Valid config.domain) :
    l'.Valid config.domain :=
  h.induct hl fun _ _ _ hvalid hnext _ => hvalid.next hnext

theorem Proceeds.advances (h : Proceeds config a s s') (o : Nat) :
    Advances config a s o (s.life config o) (s'.life config o) := by
  obtain heq | ⟨e, he, hnext⟩ := h.lives o
  · rw [heq]
    exact .refl
  · exact .single ⟨e, hnext, .inr (.inr (.inr ⟨rfl, he⟩))⟩

section Writes

variable {key : HashObject} {payload : Nat} {hasReaders : Nat → Nat → Bool}

section

variable (hs' : s.processWriteCommand config key payload hasReaders = some s')
include hs'

/-- A command that writes finds an object of this name, or creates one. -/
theorem Sound.write_cases (h : s.Sound config) :
    (∃ o, (s.life config o).Alive ∧
      s' = { s with payloads := update s.payloads o payload }.postWrite config o) ∨
    ∃ s₁, s.findAlive config key = some none ∧ s.addObject config key payload hasReaders = some s₁ ∧
      s' = s₁.postWrite config s.numObjects := by
  obtain ⟨found, hfind, hfound⟩ := h.findAlive_eq key
  rw [processWriteCommand, hfind, Option.bind_eq_bind, Option.bind_some] at hs'
  cases found with
  | some o => exact .inl ⟨o, (hfound o rfl).1, (Option.some.inj hs').symm⟩
  | none =>
    obtain ⟨s₁, hadd, hs'⟩ := Option.bind_eq_some_iff.mp hs'
    exact .inr ⟨s₁, hfind, hadd, (Option.some.inj hs').symm⟩

/-- What a command that writes does to an object: the object of this name is written, perhaps after
it was created, and others may be disposed. -/
theorem Sound.write_advances (h : s.Sound config) (o : Nat) :
    Advances config a s o (s.life config o) (s'.life config o) := by
  obtain ⟨o', halive, rfl⟩ | ⟨s₁, -, hadd, rfl⟩ := h.write_cases hs'
  · have hwrite : Happens config o' .write _ _ := happens_write
      (s := { s with payloads := update s.payloads o' payload }) halive
    by_cases heq : o = o'
    · subst heq
      exact .single ⟨.write, hwrite.next, by simp⟩
    · rw [hwrite.others_of_ne heq]
      exact .refl
  · obtain ⟨resized, table, -, -, hdiscards⟩ := h.addObject hadd
    obtain heq | hne := eq_or_ne o s.numObjects
    · subst heq
      have hcreate : (s.life config s.numObjects).Next config.domain .create
          ((s.allocate key payload).life config s.numObjects) := by
        rw [h.life_allocate, h.life_new (Nat.le_refl _)]
        exact .create rfl
      have hlife : s₁.life config s.numObjects =
          (s.allocate key payload).life config s.numObjects := by
        refine (hdiscards.lives s.numObjects).resolve_right fun hdispose => ?_
        have hqueued : 0 < ((s.allocate key payload).life config s.numObjects).queued :=
          hdispose.of_dispose.2.1
        rw [h.life_allocate] at hqueued
        exact absurd hqueued (Nat.lt_irrefl 0)
      have halive : (s₁.life config s.numObjects).Alive := by
        rw [hlife, h.life_allocate]
        exact ⟨⟨rfl, rfl⟩, rfl⟩
      refine .tail (.single ⟨.create, hcreate, by simp⟩) ⟨.write, ?_, by simp⟩
      rw [← hlife]
      exact (happens_write halive).next
    · rw [(concerns_postWrite s₁ s.numObjects).others o (by simpa using hne.symm)]
      have hlife : (s.allocate key payload).life config o = s.life config o :=
        life_allocate_of_ne hne
      rw [← hlife]
      obtain heq | hdispose := hdiscards.lives o
      · rw [heq]
        exact .refl
      · exact .single ⟨.dispose, hdispose, by simp⟩

/-- What a command that writes does to a table. Old objects are those that were old, unless the
table was resized. -/
theorem Sound.write_holds (h : s.Sound config)
    (hholds : s.HoldsObjects config i recent old) :
    ∃ recent' old', s'.HoldsObjects config i recent' old' ∧ (old'.Sublist old ∨
      i = config.getTableIndex key.hash ∧ s.findAlive config key = some none ∧
        (s.tables i).resizes config.store = true ∧ old'.Sublist (recent ++ old)) := by
  obtain ⟨o', -, rfl⟩ | ⟨s₁, hfind, hadd, rfl⟩ := h.write_cases hs'
  · have hpayload : { s with payloads := update s.payloads o' payload }.HoldsObjects
        config i recent old := ⟨hholds.represents, hholds.decreasing, hholds.mem_iff⟩
    exact ⟨recent, old, hpayload.keeps (concerns_postWrite _ o').keeps, .inl (.refl _)⟩
  · obtain ⟨resized, table, htable, -, hdiscards⟩ := h.addObject hadd
    have hnew : s.disposed s.numObjects = false :=
      congrArg Life.disposed (h.life_new (Nat.le_refl s.numObjects))
    obtain ⟨recent', old', hadded, hold⟩ := hholds.add hnew htable
    obtain ⟨recent'', old'', hdisposed, -, hsub⟩ := hdiscards.tables i recent' old' hadded
    refine ⟨recent'', old'', hdisposed.keeps (concerns_postWrite s₁ s.numObjects).keeps, ?_⟩
    obtain rfl | ⟨hi, hresizes, rfl⟩ := hold
    · exact .inl hsub
    · exact .inr ⟨hi, hfind, hresizes, hsub⟩

theorem Sound.write_filed (h : s.Sound config) : s'.Filed config := by
  obtain ⟨o', -, rfl⟩ | ⟨s₁, -, hadd, rfl⟩ := h.write_cases hs'
  · exact (concerns_postWrite _ o').keeps.filed h.filed
  · obtain ⟨resized, table, -, hfiled, hdiscards⟩ := h.addObject hadd
    exact (concerns_postWrite s₁ s.numObjects).keeps.filed (hdiscards.filed hfiled)

end

end Writes

theorem Sound.advances (h : s.Sound config) (hs' : s.step config a = some s') (o : Nat) :
    Advances config a s o (s.life config o) (s'.life config o) := by
  obtain ⟨key, payload, hasReaders, rfl⟩ | hproceeds := h.proceeds hs'
  · exact h.write_advances hs' o
  · exact hproceeds.advances o

/-- Every step keeps the tables and the lives of all objects in order. -/
theorem Sound.step (h : s.Sound config) (hs' : s.step config a = some s') : s'.Sound config := by
  have hlives (o : Nat) := (h.advances hs' o).valid (h.lives o)
  obtain ⟨key, payload, hasReaders, rfl⟩ | ⟨hkeeps, -⟩ := h.proceeds hs'
  · refine ⟨fun i => ?_, h.write_filed hs', hlives⟩
    obtain ⟨recent, old, hholds⟩ := h.tables i
    obtain ⟨recent', old', hholds', -⟩ := h.write_holds hs' hholds
    exact ⟨recent', old', hholds'⟩
  · refine ⟨fun i => ?_, hkeeps.filed h.filed, hlives⟩
    obtain ⟨recent, old, hholds⟩ := h.tables i
    exact ⟨recent, old, hholds.keeps hkeeps⟩

end Steps

theorem create_life (o : Nat) : (create config).life config o = .initial := by
  simp [create, life, Life.initial]

theorem create_sound : (create config).Sound config where
  tables _ := ⟨[], [], HashTable.create_represents _ _ _, .nil, fun o => by simp [create]⟩
  filed _ _ hmem := absurd hmem List.not_mem_nil
  lives o := create_life o ▸ Life.initial_valid config.domain

end PayloadStore

end CyberCache
