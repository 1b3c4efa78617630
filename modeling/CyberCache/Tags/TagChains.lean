import CyberCache.Tags.TagIndex

/-!
# Chains of references

`Indexed` says which references are in the chains of all tags, in their order. While tags are
protected by dummy references their numbers are greater than the lengths of their chains, and while
a page gets other tags some tags are idle: nothing keeps them. Numbers of references have 32 bits,
so that there must be room for a reference that is added.
-/

namespace CyberCache

open Function (update update_self update_of_ne)

namespace TagChains

variable (config : TagConfiguration)

structure Indexed (c : TagChains) (refs : Nat → List TagRef) (extra : Nat → Nat)
    (idle : List Nat) : Prop where
  valid : c.table.Valid config
  contains : ∀ t r, r ∈ refs t → c.table.Contains t
  referenced : ∀ t, 0 < extra t → c.table.Contains t
  nodup : ∀ t, (refs t).Nodup
  tagOf : ∀ t r, r ∈ refs t → c.tagOf r = t
  chain : ∀ t, c.table.Contains t → c.links.IsChain (c.first t) (refs t)
  num : ∀ t, c.table.Contains t → c.num t = (refs t).length + extra t
  fits : ∀ t, (refs t).length + extra t < uintRange
  used : ∀ t, c.table.Contains t → t = untagged ∨ refs t ≠ [] ∨ 0 < extra t ∨ t ∈ idle

def without (refs : Nat → List TagRef) (gone : List TagRef) (t : Nat) : List TagRef :=
  (refs t).filter (· ∉ gone)

/-- Tags get new numbers and keep their names. -/
structure KeepsNames (c c' : TagChains) : Prop where
  numTags : c.table.numTags ≤ c'.table.numTags
  name : ∀ t, t < c.table.numTags → c'.table.name t = c.table.name t

/-- Some tags are disposed, but not those that are protected. -/
structure Shrinks (extra : Nat → Nat) (c c' : TagChains) : Prop extends KeepsNames c c' where
  tagOf : c'.tagOf = c.tagOf
  contains : ∀ t, c'.table.Contains t → c.table.Contains t
  keeps : ∀ t, c.table.Contains t → t = untagged ∨ 0 < extra t → c'.table.Contains t

structure Disposes (t : Nat) (c c' : TagChains) : Prop extends KeepsNames c c' where
  tagOf : c'.tagOf = c.tagOf
  contains_iff : ∀ t', c'.table.Contains t' ↔ c.table.Contains t' ∧ t' ≠ t

structure Grows (c c' : TagChains) : Prop extends KeepsNames c c' where
  keeps : ∀ t, c.table.Contains t → c'.table.Contains t

variable {config} {c c' c'' : TagChains} {refs : Nat → List TagRef} {extra : Nat → Nat}
  {idle : List Nat} {r : TagRef} {t : Nat}

theorem KeepsNames.refl (c : TagChains) : KeepsNames c c := ⟨Nat.le_refl _, fun _ _ => rfl⟩

theorem KeepsNames.trans (h : KeepsNames c c') (h' : KeepsNames c' c'') : KeepsNames c c'' where
  numTags := h.numTags.trans h'.numTags
  name t ht := (h'.name t (ht.trans_le h.numTags)).trans (h.name t ht)

theorem Shrinks.refl (c : TagChains) : Shrinks extra c c where
  toKeepsNames := .refl c
  tagOf := rfl
  contains _ ht := ht
  keeps _ ht _ := ht

theorem Shrinks.trans (h : Shrinks extra c c') (h' : Shrinks extra c' c'') :
    Shrinks extra c c'' where
  toKeepsNames := h.toKeepsNames.trans h'.toKeepsNames
  tagOf := h'.tagOf.trans h.tagOf
  contains t ht := h.contains t (h'.contains t ht)
  keeps t ht hkeep := h'.keeps t (h.keeps t ht hkeep) hkeep

theorem Shrinks.of_table_eq (htable : c'.table = c.table) (htagOf : c'.tagOf = c.tagOf) :
    Shrinks extra c c' := by
  refine ⟨⟨?_, ?_⟩, htagOf, ?_, ?_⟩ <;> simp only [htable]
  · exact Nat.le_refl _
  · exact fun _ _ => trivial
  · exact fun _ ht => ht
  · exact fun _ ht _ => ht

theorem Disposes.shrinks (h : Disposes t c c') (hextra : extra t = 0) (hne : t ≠ untagged) :
    Shrinks extra c c' where
  toKeepsNames := h.toKeepsNames
  tagOf := h.tagOf
  contains t' ht' := ((h.contains_iff t').mp ht').1
  keeps t' ht' hkeep := by
    refine (h.contains_iff t').mpr ⟨ht', ?_⟩
    rintro rfl
    omega

theorem Grows.refl (c : TagChains) : Grows c c := ⟨.refl c, fun _ ht => ht⟩

theorem Grows.trans (h : Grows c c') (h' : Grows c' c'') : Grows c c'' where
  toKeepsNames := h.toKeepsNames.trans h'.toKeepsNames
  keeps t ht := h'.keeps t (h.keeps t ht)

theorem Grows.name_of_contains (h : Grows c c') (ht : c.table.Contains t) :
    c'.table.name t = c.table.name t :=
  h.name t ht.1

theorem mem_without {gone : List TagRef} : r ∈ without refs gone t ↔ r ∈ refs t ∧ r ∉ gone := by
  simp [without]

theorem exists_mem_without {r : TagRef} {rs : List TagRef} (hr : r ∉ rs)
    (hmem : ∀ r' ∈ r :: rs, ∃ t, r' ∈ refs t) : ∀ r' ∈ rs, ∃ t, r' ∈ without refs [r] t := by
  intro r' hr'
  obtain ⟨t, ht⟩ := hmem r' (by simp [hr'])
  exact ⟨t, mem_without.mpr ⟨ht, by simpa using ne_of_mem_of_not_mem hr' hr⟩⟩

theorem without_without (refs : Nat → List TagRef) (gone gone' : List TagRef) :
    without (without refs gone) gone' = without refs (gone ++ gone') := by
  funext t
  simp only [without, List.filter_filter, List.mem_append, not_or]
  exact List.filter_congr fun r _ => by simp [Bool.and_comm]

theorem without_eq_self {gone : List TagRef} (h : ∀ r ∈ refs t, r ∉ gone) :
    without refs gone t = refs t :=
  List.filter_eq_self.mpr fun r hr => by simpa using h r hr

theorem without_of_split {xs ys : List TagRef} (hsplit : refs t = xs ++ r :: ys)
    (hnodup : (refs t).Nodup) : without refs [r] t = xs ++ ys := by
  rw [hsplit] at hnodup
  have hr : r ∉ xs ++ ys := (List.nodup_cons.mp (List.nodup_middle.mp hnodup)).1
  have hfilter : (xs ++ ys).filter (· ∉ [r]) = xs ++ ys :=
    List.filter_eq_self.mpr fun z hz => by simpa using ne_of_mem_of_not_mem hz hr
  rw [without, hsplit, List.filter_append, List.filter_cons_of_neg (by simp), ← List.filter_append,
    hfilter]

theorem unlink_of_contains (ht : c.table.Contains (c.tagOf r)) :
    c.unlink r = some
      (if uintSub (c.num (c.tagOf r)) 1 = 0 ∧ c.tagOf r ≠ untagged then some (c.tagOf r) else none,
      { c with
        links := (c.links.unlink (c.first (c.tagOf r)) r).1
        first := update c.first (c.tagOf r) (c.links.unlink (c.first (c.tagOf r)) r).2
        num := update c.num (c.tagOf r) (uintSub (c.num (c.tagOf r)) 1) }) :=
  if_pos ht

/-! ## One reference -/

namespace Indexed

theorem mem_iff (h : c.Indexed config refs extra idle) :
    r ∈ refs t ↔ (∃ t', r ∈ refs t') ∧ c.tagOf r = t := by
  constructor
  · intro hr
    exact ⟨⟨t, hr⟩, h.tagOf t r hr⟩
  · rintro ⟨⟨t', hr⟩, rfl⟩
    rwa [h.tagOf t' r hr]

theorem disjoint (h : c.Indexed config refs extra idle) {t' : Nat} (hne : t' ≠ t) :
    ∀ r ∈ refs t, r ∉ refs t' := by
  intro r hr hr'
  exact hne ((h.tagOf t' r hr').symm.trans (h.tagOf t r hr))

theorem mono (h : c.Indexed config refs extra idle) {idle' : List Nat}
    (hidle : ∀ t ∈ idle, t ∈ idle') : c.Indexed config refs extra idle' := by
  refine { h with used := fun t ht => ?_ }
  have hused := h.used t ht
  have hmem := hidle t
  tauto

theorem link (h : c.Indexed config refs extra (t :: idle)) (ht : c.table.Contains t)
    (hr : ∀ t', r ∉ refs t') (hroom : (refs t).length + extra t + 1 < uintRange) :
    ∃ c', c.link r t = some c' ∧
      c'.Indexed config (update refs t (r :: refs t)) extra idle ∧
      c'.table = c.table ∧ c'.tagOf = update c.tagOf r t := by
  have hnodup : (r :: refs t).Nodup := List.nodup_cons.mpr ⟨hr t, h.nodup t⟩
  have htagOf (t' : Nat) (r' : TagRef) (hr' : r' ∈ refs t') : update c.tagOf r t r' = t' := by
    rw [update_of_ne (ne_of_mem_of_not_mem hr' (hr t'))]
    exact h.tagOf t' r' hr'
  refine ⟨_, if_pos ht, ⟨h.valid, fun t' r' hr' => ?_, h.referenced, fun t' => ?_,
    fun t' r' hr' => ?_, fun t' ht' => ?_, fun t' ht' => ?_, fun t' => ?_, fun t' ht' => ?_⟩, rfl,
    rfl⟩
  all_goals by_cases heq : t' = t
  all_goals first | subst heq | skip
  · exact ht
  · exact h.contains t' r' (by simpa [heq] using hr')
  · simpa using hnodup
  · simpa [heq] using h.nodup t'
  · obtain rfl | hmem : r' = r ∨ r' ∈ refs t' := by simpa using hr'
    · simp
    · exact htagOf t' r' hmem
  · exact htagOf t' r' (by simpa [heq] using hr')
  · simpa using (h.chain t' ht').pushFront hnodup
  · have hdisjoint : ∀ z ∈ r :: refs t, z ∉ refs t' := by
      intro z hz
      obtain rfl | hz := List.mem_cons.mp hz
      · exact hr t'
      · exact h.disjoint heq z hz
    simpa [heq] using (h.chain t' ht').pushFront_frame (h.chain t ht) hdisjoint
  · simp only [update_self, h.num t' ht', uintAdd_eq hroom, List.length_cons]
    omega
  · simpa [heq] using h.num t' ht'
  · simp only [update_self, List.length_cons]
    omega
  · simpa [heq] using h.fits t'
  · simp
  · simpa [heq] using h.used t' ht'

theorem unlink (h : c.Indexed config refs extra idle) (hr : r ∈ refs t) :
    ∃ empty c', c.unlink r = some (empty, c') ∧
      c'.Indexed config (without refs [r]) extra (idle ++ empty.toList) ∧
      c'.table = c.table ∧ c'.tagOf = c.tagOf ∧
      ∀ t' ∈ empty, t' = t ∧ without refs [r] t' = [] ∧ extra t' = 0 ∧ t' ≠ untagged := by
  obtain rfl := h.tagOf t r hr
  have ht := h.contains _ r hr
  obtain ⟨xs, ys, hsplit⟩ := List.append_of_mem hr
  have hwithout := without_of_split hsplit (h.nodup _)
  have hother (t' : Nat) (hne : t' ≠ c.tagOf r) : without refs [r] t' = refs t' := by
    refine without_eq_self fun z hz hmem => hne ?_
    obtain rfl := List.mem_singleton.mp hmem
    exact (h.tagOf t' z hz).symm
  have hchain := h.chain _ ht
  have hnodup := h.nodup (c.tagOf r)
  rw [hsplit] at hchain hnodup
  have hfits (t' : Nat) : (without refs [r] t').length + extra t' < uintRange := by
    have hle : (without refs [r] t').length ≤ (refs t').length := List.length_filter_le _ _
    have hfits := h.fits t'
    omega
  have hnum : uintSub (c.num (c.tagOf r)) 1 =
      (without refs [r] (c.tagOf r)).length + extra (c.tagOf r) := by
    have hlength : (refs (c.tagOf r)).length = (xs ++ ys).length + 1 := by
      rw [hsplit]
      simp only [List.length_append, List.length_cons, Nat.add_assoc]
    rw [h.num _ ht, hwithout, uintSub_eq (h.fits _) (by omega)]
    omega
  refine ⟨_, _, unlink_of_contains ht, ⟨h.valid, fun t' r' hr' => ?_, h.referenced, fun t' => ?_,
    fun t' r' hr' => ?_, fun t' ht' => ?_, fun t' ht' => ?_, hfits, fun t' ht' => ?_⟩, rfl, rfl,
    fun t' ht' => ?_⟩
  · exact h.contains t' r' (mem_without.mp hr').1
  · exact (h.nodup t').filter _
  · exact h.tagOf t' r' (mem_without.mp hr').1
  · by_cases heq : t' = c.tagOf r
    · subst heq
      simpa [hwithout] using hchain.unlink hnodup
    · have hdisjoint := h.disjoint heq
      rw [hsplit] at hdisjoint
      simpa [heq, hother t' heq] using (h.chain t' ht').unlink_frame hchain hdisjoint
  · by_cases heq : t' = c.tagOf r
    · subst heq
      simpa using hnum
    · simpa [heq, hother t' heq] using h.num t' ht'
  · by_cases heq : t' = c.tagOf r
    · subst heq
      rw [hnum]
      by_cases hempty : without refs [r] (c.tagOf r) = []
      · by_cases hextra : extra (c.tagOf r) = 0
        · by_cases huntagged : c.tagOf r = untagged
          · exact .inl huntagged
          · simp [hempty, hextra, huntagged]
        · exact .inr (.inr (.inl (Nat.pos_of_ne_zero hextra)))
      · exact .inr (.inl hempty)
    · rw [hother t' heq, List.mem_append]
      exact (h.used t' ht').imp_right (.imp_right (.imp_right .inl))
  · obtain ⟨⟨hzero, huntagged⟩, rfl⟩ : (uintSub (c.num (c.tagOf r)) 1 = 0 ∧ c.tagOf r ≠ untagged) ∧
        c.tagOf r = t' := by simpa using ht'
    rw [hnum, Nat.add_eq_zero_iff, List.length_eq_zero_iff] at hzero
    exact ⟨rfl, hzero.1, hzero.2, huntagged⟩

theorem disposeTag (h : c.Indexed config refs extra (t :: idle)) (ht : c.table.Contains t)
    (hrefs : refs t = []) (hextra : extra t = 0) :
    ∃ c', c.disposeTag config t = some c' ∧ c'.Indexed config refs extra idle ∧
      Disposes t c c' := by
  have hcontains (t' : Nat) : (c.table.dispose config t).Contains t' ↔ c.table.Contains t' ∧
      t' ≠ t :=
    TagTable.contains_dispose c.table t t'
  refine ⟨_, if_pos ht, ⟨h.valid.dispose ht, fun t' r hr => ?_, fun t' hpos => ?_, h.nodup, h.tagOf,
    fun t' ht' => ?_, fun t' ht' => ?_, h.fits, fun t' ht' => ?_⟩,
    ⟨⟨Nat.le_refl _, fun _ _ => rfl⟩, rfl, hcontains⟩⟩
  · refine (hcontains t').mpr ⟨h.contains t' r hr, ?_⟩
    rintro rfl
    simp [hrefs] at hr
  · refine (hcontains t').mpr ⟨h.referenced t' hpos, ?_⟩
    rintro rfl
    omega
  · exact h.chain t' ((hcontains t').mp ht').1
  · exact h.num t' ((hcontains t').mp ht').1
  · obtain ⟨ht', hne⟩ := (hcontains t').mp ht'
    simpa [hne] using h.used t' ht'

theorem unlinkTag (h : c.Indexed config refs extra []) (hr : r ∈ refs t) :
    ∃ c', c.unlinkTag config r = some c' ∧ c'.Indexed config (without refs [r]) extra [] ∧
      Shrinks extra c c' := by
  obtain ⟨empty, c', hunlink, h', htable, htagOf, hempty⟩ := h.unlink hr
  have hshrinks : Shrinks extra c c' := .of_table_eq htable htagOf
  cases empty with
  | none => exact ⟨c', by simp [TagChains.unlinkTag, hunlink], by simpa using h', hshrinks⟩
  | some t' =>
    obtain ⟨rfl, hrefs, hextra, hne⟩ := hempty t' rfl
    have ht : c'.table.Contains t' := by
      rw [htable]
      exact h.contains t' r hr
    obtain ⟨c'', hdispose, h'', hdisposes⟩ := h'.disposeTag ht hrefs hextra
    exact ⟨c'', by simpa [TagChains.unlinkTag, hunlink] using hdispose, h'',
      hshrinks.trans (hdisposes.shrinks hextra hne)⟩

theorem disposeIfEmpty (h : c.Indexed config refs extra (t :: idle)) (ht : c.table.Contains t) :
    ∃ c', c.disposeIfEmpty config t = some c' ∧ c'.Indexed config refs extra idle ∧
      (c' = c ∨ refs t = [] ∧ extra t = 0 ∧ Disposes t c c') := by
  have hnum := h.num t ht
  by_cases hzero : c.num t = 0
  · have hrefs : refs t = [] := List.length_eq_zero_iff.mp (by omega)
    have hextra : extra t = 0 := by omega
    obtain ⟨c', hdispose, h', hdisposes⟩ := h.disposeTag ht hrefs hextra
    exact ⟨c', by simpa [TagChains.disposeIfEmpty, hzero] using hdispose, h',
      .inr ⟨hrefs, hextra, hdisposes⟩⟩
  · refine ⟨c, by simp [TagChains.disposeIfEmpty, hzero],
      { h with used := fun t' ht' => ?_ }, .inl rfl⟩
    obtain huntagged | hrefs | hextra | hmem := h.used t' ht'
    · exact .inl huntagged
    · exact .inr (.inl hrefs)
    · exact .inr (.inr (.inl hextra))
    · obtain rfl | hmem := List.mem_cons.mp hmem
      · rw [hnum] at hzero
        by_cases hrefs : refs t' = []
        · simp only [hrefs, List.length_nil, Nat.zero_add] at hzero
          exact .inr (.inr (.inl (Nat.pos_of_ne_zero hzero)))
        · exact .inr (.inl hrefs)
      · exact .inr (.inr (.inr hmem))

/-! ## All references of a page -/

theorem unlinkTags (h : c.Indexed config refs extra []) {rs : List TagRef} (hnodup : rs.Nodup)
    (hmem : ∀ r ∈ rs, ∃ t, r ∈ refs t) :
    ∃ c', rs.foldlM (TagChains.unlinkTag config) c = some c' ∧
      c'.Indexed config (without refs rs) extra [] ∧ Shrinks extra c c' := by
  induction rs generalizing c refs with
  | nil =>
    refine ⟨c, rfl, ?_, .refl c⟩
    have hwithout : without refs [] = refs := funext fun t => without_eq_self (by simp)
    rwa [hwithout]
  | cons r rs ih =>
    obtain ⟨hr, hnodup⟩ := List.nodup_cons.mp hnodup
    obtain ⟨t, ht⟩ := hmem r (by simp)
    obtain ⟨c', hunlink, h', hshrinks⟩ := h.unlinkTag ht
    have hrest := exists_mem_without hr hmem
    obtain ⟨c'', hfold, h'', hshrinks'⟩ := ih h' hnodup hrest
    rw [without_without] at h''
    exact ⟨c'', by simpa [hunlink] using hfold, h'', hshrinks.trans hshrinks'⟩

theorem unlinkExistingTags {empties : List Nat} (h : c.Indexed config refs extra empties)
    (hempties : empties.Nodup ∧
      ∀ t ∈ empties, c.table.Contains t ∧ refs t = [] ∧ extra t = 0 ∧ t ≠ untagged)
    {rs : List TagRef} (hnodup : rs.Nodup) (hmem : ∀ r ∈ rs, ∃ t, r ∈ refs t) :
    ∃ empties' c', rs.foldlM TagChains.unlinkExisting (empties, c) = some (empties', c') ∧
      c'.Indexed config (without refs rs) extra empties' ∧
      c'.table = c.table ∧ c'.tagOf = c.tagOf ∧ empties'.Nodup ∧
      ∀ t ∈ empties', c.table.Contains t ∧ extra t = 0 ∧ t ≠ untagged := by
  induction rs generalizing c refs empties with
  | nil =>
    have hwithout : without refs [] = refs := funext fun t => without_eq_self (by simp)
    refine ⟨empties, c, rfl, by rwa [hwithout], rfl, rfl, hempties.1, fun t ht => ?_⟩
    obtain ⟨hcontains, -, hextra, hne⟩ := hempties.2 t ht
    exact ⟨hcontains, hextra, hne⟩
  | cons r rs ih =>
    obtain ⟨hr, hnodup⟩ := List.nodup_cons.mp hnodup
    obtain ⟨t, ht⟩ := hmem r (by simp)
    obtain ⟨empty, c', hunlink, h', htable, htagOf, hempty⟩ := h.unlink ht
    have hrest := exists_mem_without hr hmem
    -- a tag with a reference has not been empty before
    have hempties' : (empties ++ empty.toList).Nodup ∧ ∀ t ∈ empties ++ empty.toList,
        c'.table.Contains t ∧ without refs [r] t = [] ∧ extra t = 0 ∧ t ≠ untagged := by
      rw [htable]
      constructor
      · refine List.nodup_append.mpr ⟨hempties.1, by cases empty <;> simp, ?_⟩
        rintro a ha b hb rfl
        obtain ⟨rfl, -⟩ := hempty a (by simpa using hb)
        simp [(hempties.2 a ha).2.1] at ht
      · intro t' ht'
        obtain hold | hnew := List.mem_append.mp ht'
        · obtain ⟨hcontains, hrefs, hrest⟩ := hempties.2 t' hold
          exact ⟨hcontains, by simp [without, hrefs], hrest⟩
        · obtain ⟨rfl, hrest⟩ := hempty t' (by simpa using hnew)
          exact ⟨h.contains t' r ht, hrest⟩
    obtain ⟨empties', c'', hfold, h'', htable', htagOf', hnodup', hfacts⟩ :=
      ih h' hempties' hnodup hrest
    rw [without_without] at h''
    rw [htable] at hfacts
    exact ⟨empties', c'', by simpa [TagChains.unlinkExisting, hunlink] using hfold, h'',
      htable'.trans htable, htagOf'.trans htagOf, hnodup', hfacts⟩

theorem disposeEmpties {empties : List Nat} (h : c.Indexed config refs extra empties)
    (hnodup : empties.Nodup)
    (hempties : ∀ t ∈ empties, c.table.Contains t ∧ extra t = 0 ∧ t ≠ untagged) :
    ∃ c', empties.foldlM (TagChains.disposeIfEmpty config) c = some c' ∧
      c'.Indexed config refs extra [] ∧ Shrinks extra c c' := by
  induction empties generalizing c with
  | nil => exact ⟨c, rfl, h, .refl c⟩
  | cons t empties ih =>
    obtain ⟨hnot, hnodup⟩ := List.nodup_cons.mp hnodup
    obtain ⟨ht, hextra, hne⟩ := hempties t (by simp)
    obtain ⟨c', hdispose, h', hc'⟩ := h.disposeIfEmpty ht
    have hrest : ∀ t' ∈ empties, c'.table.Contains t' ∧ extra t' = 0 ∧ t' ≠ untagged := by
      intro t' ht'
      obtain ⟨hold, hrest⟩ := hempties t' (by simp [ht'])
      obtain rfl | ⟨-, -, hdisposes⟩ := hc'
      · exact ⟨hold, hrest⟩
      · exact ⟨(hdisposes.contains_iff t').mpr ⟨hold, ne_of_mem_of_not_mem ht' hnot⟩, hrest⟩
    have hshrinks : Shrinks extra c c' := by
      obtain rfl | ⟨-, -, hdisposes⟩ := hc'
      · exact .refl c'
      · exact hdisposes.shrinks hextra hne
    obtain ⟨c'', hfold, h'', hshrinks'⟩ := ih h' hnodup hrest
    exact ⟨c'', by simpa [hdispose] using hfold, h'', hshrinks.trans hshrinks'⟩

/-! ## New tags -/

section

variable (h : c.Indexed config refs extra idle)
include h

theorem findCreateTag (name : List UInt8) :
    ∃ t c', c.findCreateTag config name = some (t, c') ∧
      c'.Indexed config refs extra (t :: idle) ∧ c'.table.Contains t ∧ c'.table.name t = name ∧
      Grows c c' ∧ c'.tagOf = c.tagOf := by
  obtain ⟨found, hfind, hfound⟩ := h.valid.find name
  cases found with
  | some t =>
    obtain ⟨ht, hname⟩ := (hfound t).mp rfl
    exact ⟨t, c, by simp [TagChains.findCreateTag, hfind], h.mono (by simp +contextual), ht, hname,
      .refl c, rfl⟩
  | none =>
    have hnew : ∀ t, c.table.Contains t → c.table.name t ≠ name := by
      intro t ht hname
      simpa using (hfound t).mpr ⟨ht, hname⟩
    obtain ⟨table, hcreate, hvalid, hnumTags, -, hkeys⟩ := h.valid.create hnew
    have hcontains := TagTable.contains_create hcreate (h.valid.fresh _ (Nat.le_refl _))
    have hlast : ¬c.table.Contains c.table.numTags := fun ht => absurd ht.1 (Nat.lt_irrefl _)
    have hne (t : Nat) (ht : c.table.Contains t) : t ≠ c.table.numTags :=
      fun heq => hlast (heq ▸ ht)
    have hrefs : refs c.table.numTags = [] :=
      List.eq_nil_iff_forall_not_mem.mpr fun r hr => hlast (h.contains _ r hr)
    have hextra : extra c.table.numTags = 0 :=
      Nat.eq_zero_of_not_pos fun hpos => hlast (h.referenced _ hpos)
    have hresult : c.findCreateTag config name = some (c.table.numTags, { c with
        table := table
        first := update c.first c.table.numTags none
        num := update c.num c.table.numTags 0 }) := by
      simp [TagChains.findCreateTag, hfind, hcreate]
    refine ⟨c.table.numTags, _, hresult,
      ⟨hvalid, fun t r hr => ?_, fun t hpos => ?_, h.nodup, h.tagOf, fun t ht => ?_, fun t ht => ?_,
      h.fits, fun t ht => ?_⟩, ?_, ?_, ⟨⟨?_, fun t ht => ?_⟩, fun t ht => ?_⟩, rfl⟩
    · exact (hcontains t).mpr (.inl (h.contains t r hr))
    · exact (hcontains t).mpr (.inl (h.referenced t hpos))
    · obtain hold | rfl := (hcontains t).mp ht
      · simpa [hne t hold] using h.chain t hold
      · have hnil : c.links.IsChain none [] := ⟨none, rfl, rfl⟩
        simpa [hrefs] using hnil
    · obtain hold | rfl := (hcontains t).mp ht
      · simpa [hne t hold] using h.num t hold
      · simp [hrefs, hextra]
    · obtain hold | rfl := (hcontains t).mp ht
      · have hused := h.used t hold
        rw [List.mem_cons]
        tauto
      · simp
    · exact (hcontains _).mpr (.inr rfl)
    · simp [TagTable.name, hkeys]
    · simp [hnumTags]
    · simp [TagTable.name, hkeys, Nat.ne_of_lt ht]
    · exact (hcontains t).mpr (.inl ht)

theorem refs_eq_nil (ht : ¬c.table.Contains t) :
    refs t = [] ∧ extra t = 0 :=
  ⟨List.eq_nil_iff_forall_not_mem.mpr fun r hr => ht (h.contains t r hr),
    Nat.eq_zero_of_not_pos fun hpos => ht (h.referenced t hpos)⟩

theorem room {n : Nat} (hn : n < uintRange)
    (hroom : c.table.Contains t → (refs t).length + extra t + n < uintRange) :
    (refs t).length + extra t + n < uintRange := by
  by_cases ht : c.table.Contains t
  · exact hroom ht
  · obtain ⟨hrefs, hextra⟩ := h.refs_eq_nil ht
    simpa [hrefs, hextra] using hn

theorem linkTag (name : List UInt8) (hr : ∀ t, r ∉ refs t)
    (hroom : ∀ t, c.table.Contains t → c.table.name t = name →
      (refs t).length + extra t + 1 < uintRange) :
    ∃ t c', c.linkTag config (name, r) = some c' ∧
      c'.Indexed config (update refs t (r :: refs t)) extra idle ∧
      c'.table.Contains t ∧ c'.table.name t = name ∧
      Grows c c' ∧ c'.tagOf = update c.tagOf r t := by
  obtain ⟨t, c', hfind, h', ht, hname, hgrows, htagOf⟩ := h.findCreateTag name
  have hfits := h.room (t := t) (n := 1) (by decide) fun hold =>
    hroom t hold ((hgrows.name_of_contains hold).symm.trans hname)
  obtain ⟨c'', hlink, h'', htable, htagOf'⟩ := h'.link ht hr hfits
  have hgrows' : Grows c' c'' := by
    refine ⟨⟨?_, ?_⟩, ?_⟩ <;> simp [htable]
  refine ⟨t, c'', by simpa [TagChains.linkTag, hfind] using hlink, h'', by rwa [htable],
    by rwa [htable], hgrows.trans hgrows', by rw [htagOf', htagOf]⟩

theorem linkTags {links : List (List UInt8 × TagRef)}
    (hnames : (links.map Prod.fst).Nodup) (hnodup : (links.map Prod.snd).Nodup)
    (hnew : ∀ r ∈ links.map Prod.snd, ∀ t, r ∉ refs t)
    (hroom : ∀ t, c.table.Contains t → c.table.name t ∈ links.map Prod.fst →
      (refs t).length + extra t + 1 < uintRange) :
    ∃ c' refs', links.foldlM (TagChains.linkTag config) c = some c' ∧
      c'.Indexed config refs' extra idle ∧ Grows c c' ∧
      (∀ r, r ∉ links.map Prod.snd → c'.tagOf r = c.tagOf r) ∧
      (∀ link ∈ links, c'.table.name (c'.tagOf link.2) = link.1) ∧
      ∀ r, (∃ t, r ∈ refs' t) ↔ (∃ t, r ∈ refs t) ∨ r ∈ links.map Prod.snd := by
  induction links generalizing c refs with
  | nil => exact ⟨c, refs, rfl, h, .refl c, by simp, by simp, by simp⟩
  | cons link links ih =>
    obtain ⟨name, r⟩ := link
    obtain ⟨hfresh, hnames⟩ := List.nodup_cons.mp hnames
    obtain ⟨hr, hnodup⟩ := List.nodup_cons.mp hnodup
    obtain ⟨t, c', hlink, h', ht, hname, hgrows, htagOf⟩ := h.linkTag name (hnew r (by simp))
      fun t ht hname => hroom t ht (by simp [hname])
    have hmem (r' : TagRef) :
        (∃ t', r' ∈ update refs t (r :: refs t) t') ↔ (∃ t', r' ∈ refs t') ∨ r' = r := by
      constructor
      · rintro ⟨t', hr'⟩
        by_cases heq : t' = t
        · subst heq
          obtain rfl | hr' : r' = r ∨ r' ∈ refs t' := by simpa using hr'
          · exact .inr rfl
          · exact .inl ⟨t', hr'⟩
        · exact .inl ⟨t', by simpa [heq] using hr'⟩
      · rintro (⟨t', hr'⟩ | rfl)
        · by_cases heq : t' = t
          · subst heq
            exact ⟨t', by simp [hr']⟩
          · exact ⟨t', by simpa [heq] using hr'⟩
        · exact ⟨t, by simp⟩
    have hnew' : ∀ r' ∈ links.map Prod.snd, ∀ t', r' ∉ update refs t (r :: refs t) t' := by
      intro r' hr' t' hin
      obtain ⟨t'', hold⟩ | rfl := (hmem r').mp ⟨t', hin⟩
      · exact hnew r' (List.mem_cons_of_mem _ hr') t'' hold
      · exact hr hr'
    -- the tags of the names to come have not got a reference yet
    have hroom' : ∀ t', c'.table.Contains t' → c'.table.name t' ∈ links.map Prod.fst →
        (update refs t (r :: refs t) t').length + extra t' + 1 < uintRange := by
      intro t' _ hin
      have hne : t' ≠ t := by
        rintro rfl
        exact hfresh (hname ▸ hin)
      rw [update_of_ne hne]
      exact h.room (by decide) fun hold => hroom t' hold (by
        rw [← hgrows.name_of_contains hold]
        exact List.mem_cons_of_mem _ hin)
    obtain ⟨c'', refs', hfold, h'', hgrows', htagOf', hnames, hmem'⟩ :=
      ih h' hnames hnodup hnew' hroom'
    refine ⟨c'', refs', by simpa [hlink] using hfold, h'', hgrows.trans hgrows', fun r' hr' => ?_,
      fun link hlink => ?_, fun r' => ?_⟩
    · obtain ⟨hne, hnot⟩ := not_or.mp (mt List.mem_cons.mpr hr')
      rw [htagOf' r' hnot, htagOf, update_of_ne hne]
    · obtain rfl | hlink := List.mem_cons.mp hlink
      · have htag : c''.tagOf r = t := by rw [htagOf' r hr, htagOf, update_self]
        rw [htag, hgrows'.name_of_contains ht, hname]
      · exact hnames link hlink
    · rw [hmem', hmem, List.map_cons, List.mem_cons, or_assoc]

end

/-! ## Dummy references -/

theorem addReference (h : c.Indexed config refs extra idle) (ht : c.table.Contains t)
    (hroom : (refs t).length + extra t + 1 < uintRange) :
    ∃ c', c.addReference t = some c' ∧
      c'.Indexed config refs (update extra t (extra t + 1)) idle ∧
      c'.table = c.table ∧ c'.tagOf = c.tagOf ∧ c'.first = c.first := by
  refine ⟨_, if_pos ht, ⟨h.valid, h.contains, fun t' hpos => ?_, h.nodup, h.tagOf, h.chain,
    fun t' ht' => ?_, fun t' => ?_, fun t' ht' => ?_⟩, rfl, rfl, rfl⟩
  all_goals by_cases heq : t' = t
  · exact heq ▸ ht
  · exact h.referenced t' (by simpa [heq] using hpos)
  · subst heq
    simp only [update_self, h.num t' ht', uintAdd_eq hroom, Nat.add_assoc]
  · simpa [heq] using h.num t' ht'
  · subst heq
    rwa [update_self, ← Nat.add_assoc]
  · simpa [heq] using h.fits t'
  · simp [heq]
  · simpa [heq] using h.used t' ht'

theorem addDummyReferences (h : c.Indexed config refs extra idle) {tags : List Nat}
    (htags : ∀ t ∈ tags, c.table.Contains t)
    (hroom : ∀ t, (refs t).length + extra t + tags.count t < uintRange) :
    ∃ c', c.addDummyReferences tags = some c' ∧
      c'.Indexed config refs (fun t => extra t + tags.count t) idle ∧
      c'.table = c.table ∧ c'.tagOf = c.tagOf ∧ c'.first = c.first := by
  induction tags generalizing c extra with
  | nil => exact ⟨c, rfl, by simpa using h, rfl, rfl, rfl⟩
  | cons t tags ih =>
    have hself := hroom t
    rw [List.count_cons_self] at hself
    obtain ⟨c', hadd, h', htable, htagOf, hfirst⟩ := h.addReference (htags t (by simp)) (by omega)
    have hextra : (fun t' => update extra t (extra t + 1) t' + tags.count t') =
        fun t' => extra t' + (t :: tags).count t' := by
      funext t'
      by_cases heq : t' = t
      · subst heq
        simp only [update_self, List.count_cons_self]
        omega
      · simp [heq, List.count_cons_of_ne (Ne.symm heq)]
    obtain ⟨c'', hfold, h'', htable', htagOf', hfirst'⟩ := ih h'
      (fun t' ht' => by simpa [htable] using htags t' (by simp [ht']))
      (fun t' => by simpa only [Nat.add_assoc, ← congrFun hextra t'] using hroom t')
    rw [hextra] at h''
    exact ⟨c'', by simpa [TagChains.addDummyReferences, hadd] using hfold, h'',
      htable'.trans htable, htagOf'.trans htagOf, hfirst'.trans hfirst⟩

theorem removeReference (h : c.Indexed config refs extra []) (hpos : 0 < extra t) :
    ∃ c', c.removeReference config t = some c' ∧
      c'.Indexed config refs (update extra t (extra t - 1)) [] ∧
      KeepsNames c c' ∧ c'.tagOf = c.tagOf ∧
      ∀ t', t' ≠ t → (c'.table.Contains t' ↔ c.table.Contains t') := by
  have ht := h.referenced t hpos
  have h' : Indexed config { c with num := update c.num t (uintSub (c.num t) 1) } refs
      (update extra t (extra t - 1)) [t] := by
    refine ⟨h.valid, h.contains, fun t' hpos' => ?_, h.nodup, h.tagOf, h.chain, fun t' ht' => ?_,
      fun t' => ?_, fun t' ht' => ?_⟩
    all_goals by_cases heq : t' = t
    · exact heq ▸ ht
    · exact h.referenced t' (by simpa [heq] using hpos')
    · subst heq
      have hnum := uintSub_eq (h.fits t') (Nat.le_add_left_of_le hpos)
      simp only [update_self, h.num t' ht', hnum]
      omega
    · simpa [heq] using h.num t' ht'
    · subst heq
      have hfits := h.fits t'
      rw [update_self]
      omega
    · simpa [heq] using h.fits t'
    · simp [heq]
    · simpa [heq] using h.used t' ht'
  obtain ⟨c', hdispose, h'', hc'⟩ := h'.disposeIfEmpty ht
  refine ⟨c', by simpa [TagChains.removeReference, ht] using hdispose, h'', ?_⟩
  obtain rfl | ⟨-, -, hdisposes⟩ := hc'
  · exact ⟨⟨Nat.le_refl _, fun _ _ => rfl⟩, rfl, fun _ _ => Iff.rfl⟩
  · refine ⟨⟨hdisposes.numTags, hdisposes.name⟩, hdisposes.tagOf, fun t' hne => ?_⟩
    simpa [hne] using hdisposes.contains_iff t'

theorem removeDummyReferences (tags : List Nat)
    (h : c.Indexed config refs (fun t => tags.count t) []) :
    ∃ c', c.removeDummyReferences config tags = some c' ∧
      c'.Indexed config refs (fun _ => 0) [] ∧ KeepsNames c c' ∧ c'.tagOf = c.tagOf ∧
      ∀ t, t ∉ tags → (c'.table.Contains t ↔ c.table.Contains t) := by
  induction tags generalizing c with
  | nil => exact ⟨c, rfl, by simpa using h, .refl c, rfl, fun _ _ => Iff.rfl⟩
  | cons t tags ih =>
    obtain ⟨c', hremove, h', hnames, htagOf, hcontains⟩ := h.removeReference (t := t) (by simp)
    have hextra : update (fun t' => (t :: tags).count t') t ((t :: tags).count t - 1) =
        fun t' => tags.count t' := by
      funext t'
      by_cases heq : t' = t
      · simp [heq]
      · simp [heq, List.count_cons_of_ne (Ne.symm heq)]
    rw [hextra] at h'
    obtain ⟨c'', hfold, h'', hnames', htagOf', hcontains'⟩ := ih h'
    refine ⟨c'', by simpa [TagChains.removeDummyReferences, hremove] using hfold, h'',
      hnames.trans hnames', htagOf'.trans htagOf, fun t' ht' => ?_⟩
    obtain ⟨hne, hnot⟩ := not_or.mp (mt List.mem_cons.mpr ht')
    exact (hcontains' t' hnot).trans (hcontains t' hne)

end Indexed

end TagChains

end CyberCache
