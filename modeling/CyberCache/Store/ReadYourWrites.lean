import CyberCache.Lib.Runs
import CyberCache.Store.StoreLives

/-!
# Stores are maps

For those who send commands, a store is a map from names to payloads. The store itself may have
several objects of one name: one that was written last, and others that wait for their disposal.
Reading finds the right one as long as the newest object of a name comes first in its bucket, that
is, unless a table is resized while it holds several objects of one name.
-/

namespace CyberCache

open Function (update update_self update_of_ne update_eq_self)

namespace PayloadStore

variable {config : StoreConfiguration} {s s' : PayloadStore} {actions : List StoreAction}
  {o i : Nat} {key : HashObject} {contents : HashObject → Option Nat}

def StoreAction.apply (contents : HashObject → Option Nat) : StoreAction → HashObject → Option Nat
  | .write key payload _ => update contents key (some payload)
  | .destroy key => update contents key none
  | _ => contents

def contentsAfter (actions : List StoreAction) : HashObject → Option Nat :=
  actions.foldl StoreAction.apply fun _ => none

/-- Nothing is deleted but by commands that ask for it. -/
def StoreAction.IsPlain : StoreAction → Prop
  | .read _ expired => expired = false
  | .run chosen => chosen = []
  | .clean | .gc | .freeMemory | .optimizer .purge _ | .tagManager .clean _
  | .tagManager .cleanOld _ => False
  | _ => True

instance : (a : StoreAction) → Decidable a.IsPlain
  | .read _ _ => inferInstanceAs (Decidable (_ = _))
  | .run _ => inferInstanceAs (Decidable (_ = _))
  | .clean | .gc | .freeMemory | .optimizer .purge _ | .tagManager .clean _
  | .tagManager .cleanOld _ => .isFalse id
  | .write _ _ _ | .destroy _ | .optimizer (.write _) _ | .optimizer (.read _) _
  | .optimizer (.delete _ _) _ | .tagManager (.save _) _ | .tagManager (.remove _) _
  | .tagManager (.unlinkObject _) _ => .isTrue trivial

variable (config) in
/-- A table that is full when a new object is added, because none of this name is alive, does not
hold objects with the same hash and name. -/
def ResizesDistinct (s : PayloadStore) : StoreAction → Prop
  | .write key _ _ => ∀ objects ∈ (s.tables (config.getTableIndex key.hash)).enumerate,
      (∀ o ∈ objects, s.keys o = key → s.isAlive o = false) →
      (s.tables (config.getTableIndex key.hash)).resizes config.store = true →
      HashTable.DistinctKeys s.keys objects
  | _ => True

instance (s : PayloadStore) : (a : StoreAction) → Decidable (ResizesDistinct config s a)
  | .write key _ _ =>
    inferInstanceAs (Decidable (∀ objects ∈ (s.tables (config.getTableIndex key.hash)).enumerate,
      (∀ o ∈ objects, s.keys o = key → s.isAlive o = false) →
      (s.tables (config.getTableIndex key.hash)).resizes config.store = true →
      (objects.map s.keys).Nodup))
  | .read _ _ | .destroy _ | .clean | .gc | .freeMemory | .run _ | .optimizer _ _
  | .tagManager _ _ => .isTrue trivial

/-! ## The map that a store is -/

variable (config) in
structure Mirrors (contents : HashObject → Option Nat) (s : PayloadStore) : Prop where
  sound : s.Sound config
  tables : ∀ i, ∃ recent old, s.HoldsObjects config i recent old ∧
    HashTable.DistinctKeys s.keys old
  newest : ∀ o < s.numObjects, s.isAlive o = true →
    ∀ o' < s.numObjects, s.keys o' = s.keys o → o' ≤ o
  alive : ∀ o < s.numObjects, s.isAlive o = true → contents (s.keys o) = some (s.payloads o)
  present : ∀ key, contents key ≠ none → ∃ o < s.numObjects, s.isAlive o = true ∧ s.keys o = key

theorem create_mirrors : (create config).Mirrors config fun _ => none where
  sound := create_sound
  tables _ := ⟨[], [], ⟨HashTable.create_represents _ _ _, .nil, fun o => by simp [create]⟩,
    List.nodup_nil⟩
  newest _ ho := absurd ho (Nat.not_lt_zero _)
  alive _ ho := absurd ho (Nat.not_lt_zero _)
  present _ h := absurd rfl h

theorem Sound.disposed_of_alive (h : s.Sound config) (halive : s.isAlive o = true) :
    s.disposed o = false := by
  have hposted := (h.lives o).posted
  have hqueued := (h.lives o).queued
  have hcarriers := (h.lives o).carriers
  have hflag : (s.flags o).beingDeleted = false := by simpa [isAlive] using halive
  rw [Life.carriers, flags_life, hflag, Bool.toNat_false] at hcarriers
  have hdisposed : (s.life config o).disposed.toNat = 0 := by
    rw [flags_life] at hposted
    omega
  exact Bool.toNat_eq_zero.mp hdisposed

theorem HoldsObjects.find_newest {recent old : List Nat}
    (h : s.HoldsObjects config (config.getTableIndex key.hash) recent old)
    (hdistinct : HashTable.DistinctKeys s.keys old) (ho : o ∈ recent ++ old)
    (hkey : s.keys o = key) (hnewest : ∀ o' ∈ recent ++ old, s.keys o' = key → o' ≤ o) :
    s.find config key = some (some o) := by
  rw [find, h.represents.find, List.find?_append, hdistinct.find?_reverse, ← List.find?_append]
  congr 1
  obtain ⟨front, rest, hsplit⟩ := List.append_of_mem ho
  rw [hsplit, List.find?_eq_some_iff_append]
  refine ⟨(HashTable.matchesKey_iff _).mpr hkey, front, rest, rfl, fun o' ho' => ?_⟩
  -- what comes before the object is newer
  have hlt : o < o' := by
    have hdecreasing := h.decreasing
    rw [hsplit, List.pairwise_append] at hdecreasing
    exact hdecreasing.2.2 o' ho' o List.mem_cons_self
  rw [Bool.not_eq_true', ← Bool.not_eq_true, HashTable.matchesKey_iff]
  intro hkey'
  exact absurd (hnewest o' (by rw [hsplit]; simp [ho']) hkey') (Nat.not_le_of_lt hlt)

theorem Mirrors.findAlive_of_alive (h : s.Mirrors config contents) (ho : o < s.numObjects)
    (halive : s.isAlive o = true) (hkey : s.keys o = key) :
    s.findAlive config key = some (some o) := by
  obtain ⟨recent, old, hholds, hdistinct⟩ := h.tables (config.getTableIndex key.hash)
  have hmem : o ∈ recent ++ old :=
    (hholds.mem_iff o).mpr ⟨ho, h.sound.disposed_of_alive halive, by rw [tableOf, hkey]⟩
  have hfind := hholds.find_newest hdistinct hmem hkey fun o' ho' hkey' =>
    h.newest o ho halive o' ((hholds.mem_iff o').mp ho').1 (hkey'.trans hkey.symm)
  rw [findAlive, hfind, Option.map_some, Option.filter_some, if_pos halive]

theorem Mirrors.findAlive (h : s.Mirrors config contents) (key : HashObject) :
    ∃ found, s.findAlive config key = some found ∧ contents key = found.map s.payloads ∧
      ∀ o ∈ found, o < s.numObjects ∧ s.isAlive o = true ∧ s.keys o = key := by
  obtain ⟨found, hfind, hfound⟩ := h.sound.findAlive_eq key
  refine ⟨found, hfind, ?_, fun o ho => ?_⟩
  · cases found with
    | none =>
      by_contra hne
      obtain ⟨o, ho, halive, hkey⟩ := h.present key (by simpa using hne)
      rw [h.findAlive_of_alive ho halive hkey] at hfind
      cases hfind
    | some o =>
      obtain ⟨halive, hkey⟩ := hfound o rfl
      rw [← hkey]
      exact h.alive o (by simpa [life] using halive.inUse.1) (by simpa [isAlive] using halive.flag)
  · obtain ⟨halive, hkey⟩ := hfound o ho
    exact ⟨by simpa [life] using halive.inUse.1, by simpa [isAlive] using halive.flag, hkey⟩

theorem Mirrors.readResponse (h : s.Mirrors config contents) (key : HashObject) :
    s.readResponse config key = some (contents key) := by
  obtain ⟨found, hfind, hcontents, -⟩ := h.findAlive key
  rw [PayloadStore.readResponse, hfind, hcontents, Option.map_some]

/-! ## Steps -/

theorem Mirrors.keeps {contents' : HashObject → Option Nat} (h : s.Mirrors config contents)
    (hsound : s'.Sound config) (hkeeps : Keeps config s s')
    (halive : ∀ o, s'.isAlive o = true → s.isAlive o = true)
    (hcontents : ∀ o < s.numObjects, s'.isAlive o = true →
      contents' (s.keys o) = contents (s.keys o))
    (hpresent : ∀ key, contents' key ≠ none →
      ∃ o < s.numObjects, s'.isAlive o = true ∧ s.keys o = key) :
    s'.Mirrors config contents' where
  sound := hsound
  tables i := by
    obtain ⟨recent, old, hholds, hdistinct⟩ := h.tables i
    exact ⟨recent, old, hholds.keeps hkeeps, by rw [hkeeps.keys]; exact hdistinct⟩
  newest := by
    rw [hkeeps.numObjects, hkeeps.keys]
    exact fun o ho hs' => h.newest o ho (halive o hs')
  alive := by
    rw [hkeeps.numObjects, hkeeps.keys, hkeeps.payloads]
    exact fun o ho hs' => (hcontents o ho hs').trans (h.alive o ho (halive o hs'))
  present := by
    rw [hkeeps.numObjects, hkeeps.keys]
    exact hpresent

theorem Proceeds.isAlive_eq {a : StoreAction} (h : Proceeds config a s s') (ha : a.IsPlain)
    (hdestroy : ∀ key, a ≠ .destroy key) (o : Nat) : s'.isAlive o = s.isAlive o := by
  have hflag : (s'.flags o).beingDeleted = (s.flags o).beingDeleted := by
    obtain heq | ⟨e, hoccurs, hnext⟩ := h.lives o
    · exact congrArg (·.flags.beingDeleted) heq
    · refine hnext.beingDeleted_eq ?_ ?_ ?_ <;> rintro rfl
      · obtain ⟨key, rfl | rfl⟩ := hoccurs
        · exact hdestroy key rfl
        · cases ha
      · obtain ⟨chosen, hmem, rfl | rfl⟩ := hoccurs
        · obtain rfl : chosen = [] := ha
          cases hmem
        · exact ha
      · obtain ⟨chosen, rfl⟩ := hoccurs
        exact ha
  rw [isAlive, isAlive, hflag]

theorem Mirrors.quiet {a : StoreAction} (h : s.Mirrors config contents) (ha : a.IsPlain)
    (hwrite : ∀ key payload hasReaders, a ≠ .write key payload hasReaders)
    (hdestroy : ∀ key, a ≠ .destroy key) (hs' : s.step config a = some s') :
    s'.Mirrors config contents := by
  have hproceeds := (h.sound.proceeds hs').resolve_left fun ⟨key, payload, hasReaders, heq⟩ =>
    hwrite key payload hasReaders heq
  have halive := hproceeds.isAlive_eq ha hdestroy
  refine h.keeps (h.sound.step hs') hproceeds.keeps (fun o ho => halive o ▸ ho)
    (fun _ _ _ => rfl) fun key hkey => ?_
  obtain ⟨o, ho, hs, hkeys⟩ := h.present key hkey
  exact ⟨o, ho, (halive o).trans hs, hkeys⟩

theorem Mirrors.destroy (h : s.Mirrors config contents)
    (hs' : s.step config (.destroy key) = some s') :
    s'.Mirrors config (update contents key none) := by
  have hsound := h.sound.step hs'
  obtain ⟨found, hfind, hcontents, hfound⟩ := h.findAlive key
  rw [step, processDestroyCommand, hfind, Option.bind_eq_bind, Option.bind_some] at hs'
  cases found with
  | none =>
    cases hs'
    rw [← hcontents.trans (Option.map_none ..), update_eq_self]
    exact h
  | some o =>
    cases hs'
    obtain ⟨ho, halive, hkey⟩ := hfound o rfl
    have hhappens : Happens config o .destroy s ((s.flagBeingDeleted o).postDelete config o) :=
      happens_destroy ⟨⟨by simpa [life] using ho, h.sound.disposed_of_alive halive⟩,
        by simpa [isAlive] using halive⟩
    have hdead : ((s.flagBeingDeleted o).postDelete config o).isAlive o = false := by
      cases hdomain : config.domain <;>
        simp [postDelete, hdomain, flagBeingDeleted, isAlive]
    have hothers (o' : Nat) (hne : o' ≠ o) :
        ((s.flagBeingDeleted o).postDelete config o).isAlive o' = s.isAlive o' :=
      congrArg (fun l : Life => !l.flags.beingDeleted) (hhappens.others_of_ne hne)
    refine h.keeps hsound hhappens.keeps (fun o' ho' => ?_) (fun o' ho' hs' => ?_)
      fun key' hkey' => ?_
    · obtain rfl | hne := eq_or_ne o' o
      · simp [hdead] at ho'
      · exact hothers o' hne ▸ ho'
    · obtain rfl | hne := eq_or_ne o' o
      · simp [hdead] at hs'
      · refine update_of_ne (fun heq => hne ?_) _ _
        -- there is only one object of this name that is alive
        have hs := hothers o' hne ▸ hs'
        exact Nat.le_antisymm (h.newest o ho halive o' ho' (heq.trans hkey.symm))
          (h.newest o' ho' hs o ho (hkey.trans heq.symm))
    · have hne : key' ≠ key := fun heq => hkey' (by simp [heq])
      rw [update_of_ne hne] at hkey'
      obtain ⟨o', ho', hs, hkeys⟩ := h.present key' hkey'
      refine ⟨o', ho', (hothers o' ?_).trans hs, hkeys⟩
      rintro rfl
      exact hne (hkeys.symm.trans hkey)

section Writes

variable {payload : Nat} {hasReaders : Nat → Nat → Bool}

theorem Mirrors.write_tables (h : s.Mirrors config contents)
    (hadmits : ResizesDistinct config s (.write key payload hasReaders))
    (hs' : s.step config (.write key payload hasReaders) = some s')
    (hkeys : ∀ o < s.numObjects, s'.keys o = s.keys o) (i : Nat) :
    ∃ recent old, s'.HoldsObjects config i recent old ∧ HashTable.DistinctKeys s'.keys old := by
  obtain ⟨recent, old, hholds, hdistinct⟩ := h.tables i
  obtain ⟨recent', old', hholds', hold⟩ := h.sound.write_holds hs' hholds
  have hlt (o : Nat) (ho : o ∈ recent ++ old) : o < s.numObjects := ((hholds.mem_iff o).mp ho).1
  have hdistinct' : HashTable.DistinctKeys s.keys old' ∧ ∀ o ∈ old', o < s.numObjects := by
    obtain hsub | ⟨rfl, hfind, hresizes, hsub⟩ := hold
    · exact ⟨hdistinct.sublist (hsub.map s.keys), fun o ho =>
        hlt o (List.mem_append_right recent (hsub.subset ho))⟩
    · have hmissing (o : Nat) (ho : o ∈ recent ++ old) (hkey : s.keys o = key) :
          s.isAlive o = false := by
        by_contra halive
        rw [h.findAlive_of_alive (hlt o ho) (eq_true_of_ne_false halive) hkey] at hfind
        cases hfind
      have hall := hadmits _ hholds.represents.enumerate hmissing hresizes
      exact ⟨hall.sublist (hsub.map s.keys), fun o ho => hlt o (hsub.subset ho)⟩
  refine ⟨recent', old', hholds', ?_⟩
  rw [HashTable.DistinctKeys, List.map_congr_left fun o ho => hkeys o (hdistinct'.2 o ho)]
  exact hdistinct'.1

theorem Mirrors.rewrite (h : s.Mirrors config contents) (ho : o < s.numObjects)
    (halive : s.isAlive o = true) (hsound : s'.Sound config)
    (htables : ∀ i, ∃ recent old, s'.HoldsObjects config i recent old ∧
      HashTable.DistinctKeys s'.keys old)
    (hnum : s'.numObjects = s.numObjects) (hkeys : s'.keys = s.keys)
    (hpayloads : s'.payloads = update s.payloads o payload) (hflags : s'.flags = s.flags) :
    s'.Mirrors config (update contents (s.keys o) (some payload)) where
  sound := hsound
  tables := htables
  newest := by
    simp only [hnum, hkeys, isAlive, hflags]
    exact h.newest
  alive o' := by
    simp only [hnum, hkeys, hpayloads, isAlive, hflags]
    intro ho' halive'
    obtain rfl | hne := eq_or_ne o' o
    · simp
    · rw [update_of_ne hne, update_of_ne]
      · exact h.alive o' ho' halive'
      · intro heq
        exact hne (Nat.le_antisymm (h.newest o ho halive o' ho' heq)
          (h.newest o' ho' halive' o ho heq.symm))
  present key hkey := by
    simp only [hnum, hkeys, isAlive, hflags]
    obtain rfl | hne := eq_or_ne key (s.keys o)
    · exact ⟨o, ho, halive, rfl⟩
    · rw [update_of_ne hne] at hkey
      exact h.present key hkey

theorem Mirrors.addNew (h : s.Mirrors config contents) (hmissing : contents key = none)
    (hsound : s'.Sound config)
    (htables : ∀ i, ∃ recent old, s'.HoldsObjects config i recent old ∧
      HashTable.DistinctKeys s'.keys old)
    (hnum : s'.numObjects = s.numObjects + 1)
    (hkeys : s'.keys = update s.keys s.numObjects key)
    (hpayloads : s'.payloads = update s.payloads s.numObjects payload)
    (hflags : s'.flags = s.flags) :
    s'.Mirrors config (update contents key (some payload)) := by
  have hnone (o : Nat) (ho : o < s.numObjects) (halive : s.isAlive o = true) :
      s.keys o ≠ key := fun hkey => by
    have hsome := h.alive o ho halive
    rw [hkey, hmissing] at hsome
    cases hsome
  have hold (o : Nat) (ho : o < s.numObjects) : o ≠ s.numObjects := Nat.ne_of_lt ho
  have hnew : s.isAlive s.numObjects = true := by
    have hlife := congrArg (·.flags.beingDeleted) (h.sound.life_new (Nat.le_refl s.numObjects))
    simpa [isAlive, Life.initial] using hlife
  refine ⟨hsound, htables, ?_, ?_, fun key' hkey' => ?_⟩ <;>
    simp only [hnum, hkeys, hpayloads, isAlive, hflags, Nat.lt_add_one_iff_lt_or_eq]
  · rintro o (ho | rfl) halive o' (ho' | rfl) hkey'
    · rw [update_of_ne (hold o' ho'), update_of_ne (hold o ho)] at hkey'
      exact h.newest o ho halive o' ho' hkey'
    · rw [update_self, update_of_ne (hold o ho)] at hkey'
      exact absurd hkey'.symm (hnone o ho halive)
    · exact Nat.le_of_lt ho'
    · exact Nat.le_refl _
  · rintro o (ho | rfl) halive
    · rw [update_of_ne (hold o ho), update_of_ne (hold o ho),
        update_of_ne (hnone o ho halive)]
      exact h.alive o ho halive
    · simp
  · obtain rfl | hne := eq_or_ne key' key
    · exact ⟨s.numObjects, .inr rfl, hnew, by simp⟩
    · rw [update_of_ne hne] at hkey'
      obtain ⟨o, ho, halive, hkeys⟩ := h.present key' hkey'
      exact ⟨o, .inl ho, halive, by rw [update_of_ne (hold o ho)]; exact hkeys⟩

theorem flags_postWrite (s : PayloadStore) (o : Nat) : (s.postWrite config o).flags = s.flags := by
  unfold postWrite
  split <;> rfl

theorem Mirrors.write (h : s.Mirrors config contents)
    (hadmits : ResizesDistinct config s (.write key payload hasReaders))
    (hs' : s.step config (.write key payload hasReaders) = some s') :
    s'.Mirrors config (update contents key (some payload)) := by
  have hsound := h.sound.step hs'
  have htables := h.write_tables hadmits hs'
  obtain ⟨found, hfind, hcontents, hfound⟩ := h.findAlive key
  rw [step, processWriteCommand, hfind, Option.bind_eq_bind, Option.bind_some] at hs'
  cases found with
  | some o =>
    obtain ⟨ho, halive, rfl⟩ := hfound o rfl
    cases hs'
    have hkeeps : Keeps config { s with payloads := update s.payloads o payload } _ :=
      (concerns_postWrite _ o).keeps
    exact h.rewrite ho halive hsound (htables fun _ _ => by rw [hkeeps.keys]) hkeeps.numObjects
      hkeeps.keys hkeeps.payloads (flags_postWrite ..)
  | none =>
    obtain ⟨s₁, hadd, hs'⟩ := Option.bind_eq_some_iff.mp hs'
    cases hs'
    obtain ⟨resized, table, -, -, hdiscards⟩ := h.sound.addObject hadd
    have hkeeps : Keeps config s₁ (s₁.postWrite config s.numObjects) :=
      (concerns_postWrite ..).keeps
    have hkeys := hkeeps.keys.trans hdiscards.keys
    refine h.addNew (hcontents.trans (Option.map_none ..)) hsound (htables fun o ho => ?_)
      (hkeeps.numObjects.trans hdiscards.numObjects) hkeys
      (hkeeps.payloads.trans hdiscards.payloads) ((flags_postWrite ..).trans hdiscards.flags)
    rw [hkeys]
    exact update_of_ne (Nat.ne_of_lt ho) _ _

end Writes

theorem Mirrors.step {a : StoreAction} (h : s.Mirrors config contents) (hplain : a.IsPlain)
    (hadmits : ResizesDistinct config s a) (hs' : s.step config a = some s') :
    s'.Mirrors config (a.apply contents) := by
  cases a with
  | write key payload hasReaders => exact h.write hadmits hs'
  | destroy key => exact h.destroy hs'
  | _ => exact h.quiet hplain (by simp) (by simp) hs'

theorem Sound.exists_addObject (h : s.Sound config) (key : HashObject) (payload : Nat)
    (hasReaders : Nat → Nat → Bool) : ∃ s', s.addObject config key payload hasReaders =
    some s' := by
  obtain ⟨recent, old, hholds⟩ := h.tables (config.getTableIndex key.hash)
  have hne : ∀ o ∈ recent ++ old, o ≠ s.numObjects := fun o ho heq =>
    absurd ((hholds.mem_iff o).mp ho).1 (by omega)
  have hrepresents : (s.tables (config.getTableIndex key.hash)).Represents config.store
      (s.allocate key payload).keys recent old :=
    hholds.represents.congr fun o ho => by simp [allocate, hne o ho]
  obtain ⟨table, hadd, -⟩ := hrepresents.add fun ho => hne _ ho rfl
  exact ⟨_, Option.bind_eq_some_iff.mpr ⟨_, hadd, rfl⟩⟩

/-- In every run without purges and expiration in which no table is resized while it holds objects
with the same hash and name, reading responds with what was written last, and every further command
is executed. -/
theorem reads_last_write
    (h : Reaches (PayloadStore.step config) (fun s a => a.IsPlain ∧ ResizesDistinct config s a)
      (create config) actions s) :
    (∀ key, s.readResponse config key = some (contentsAfter actions key)) ∧
      ∀ key, (∃ s', s.step config (.read key false) = some s') ∧
        (∃ s', s.step config (.destroy key) = some s') ∧
        ∀ payload hasReaders, ∃ s', s.step config (.write key payload hasReaders) = some s' := by
  have hmirrors : s.Mirrors config (contentsAfter actions) := by
    refine h.invariant_inputs (P := fun actions s => s.Mirrors config (contentsAfter actions))
      create_mirrors fun actions s a s' h hadmits hs' => ?_
    rw [contentsAfter, List.foldl_append]
    exact h.step hadmits.1 hadmits.2 hs'
  refine ⟨hmirrors.readResponse, fun key => ?_⟩
  obtain ⟨found, hfind, -⟩ := hmirrors.findAlive key
  refine ⟨?_, ?_, fun payload hasReaders => ?_⟩
  · rw [PayloadStore.step, processReadCommand, hfind]
    cases found <;> simp
  · rw [PayloadStore.step, processDestroyCommand, hfind]
    cases found <;> simp
  · rw [PayloadStore.step, processWriteCommand, hfind]
    obtain ⟨s₁, hs₁⟩ := hmirrors.sound.exists_addObject key payload hasReaders
    cases found <;> simp [hs₁]

/-- A session that is destroyed and written again. -/
theorem reads_last_write_of_two :
    ∃ s, Reaches (PayloadStore.step (singleTable .session))
        (fun s a => a.IsPlain ∧ ResizesDistinct (singleTable .session) s a)
        (create (singleTable .session))
        [.write ⟨1, [97]⟩ 10 (fun _ _ => false), .optimizer (.write 0) [], .destroy ⟨1, [97]⟩,
          .write ⟨1, [97]⟩ 11 (fun _ _ => false), .read ⟨1, [97]⟩ false] s ∧
      s.numObjects = 2 ∧ s.readResponse (singleTable .session) ⟨1, [97]⟩ = some (some 11) :=
  ⟨_, Reaches.get_foldlM rfl, rfl, (reads_last_write (Reaches.get_foldlM rfl)).1 ⟨1, [97]⟩⟩

/-- A session is destroyed and written again, and then 31 other sessions are written. -/
def rewrittenAmongOthers : List StoreAction :=
  [.write ⟨1, [97]⟩ 10 (fun _ _ => false), .destroy ⟨1, [97]⟩] ++
    (List.range 32).map fun n => .write ⟨UInt64.ofNat (n + 1), [97]⟩ (n + 11) (fun _ _ => false)

/-- The last session that is written resizes the table, and puts the destroyed object first. -/
theorem rewritten_session_lost :
    ∃ s, Reaches (PayloadStore.step (singleTable .session)) (fun _ a => a.IsPlain)
        (create (singleTable .session)) rewrittenAmongOthers s ∧
      contentsAfter rewrittenAmongOthers ⟨1, [97]⟩ = some 11 ∧
      s.readResponse (singleTable .session) ⟨1, [97]⟩ = some none :=
  ⟨_, Reaches.get_foldlM (by decide +kernel), by decide +kernel, by decide +kernel⟩

end PayloadStore

end CyberCache
