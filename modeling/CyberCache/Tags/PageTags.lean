import CyberCache.Tags.TagChains

/-!
# Tags of pages

`Sound` says how pages and chains go together: exactly the references of linked pages are in chains,
and their tags have the names that the page was last saved with. All messages keep it, as long as
numbers of references do not exceed their bits: a page must not have too many different tags, and a
tag must not be the tag of too many pages.
-/

namespace CyberCache

open Function (update update_self update_of_ne update_eq_self)

/-! ## Unique names -/

theorem mem_foldl_unique (names unique : List (List UInt8)) (name : List UInt8) :
    name ∈ names.foldl (fun unique name => if name ∈ unique then unique else unique ++ [name])
      unique ↔ name ∈ unique ∨ name ∈ names := by
  induction names generalizing unique with
  | nil => simp
  | cons n names ih =>
    simp only [List.foldl_cons, ih, List.mem_cons]
    split_ifs with hn
    · constructor
      · tauto
      · rintro (h | rfl | h) <;> tauto
    · simp only [List.mem_append, List.mem_singleton, or_assoc]

theorem nodup_foldl_unique (names : List (List UInt8)) {unique : List (List UInt8)}
    (h : unique.Nodup) :
    (names.foldl (fun unique name => if name ∈ unique then unique else unique ++ [name])
      unique).Nodup := by
  induction names generalizing unique with
  | nil => exact h
  | cons n names ih =>
    rw [List.foldl_cons]
    apply ih
    split_ifs with hn
    · exact h
    · exact List.nodup_append.mpr ⟨h, by simp, by simp; intro a ha; rintro rfl; exact hn ha⟩

@[simp]
theorem mem_uniqueNames {names : List (List UInt8)} {name : List UInt8} :
    name ∈ uniqueNames names ↔ name ∈ names := by
  simp [uniqueNames, mem_foldl_unique]

theorem nodup_uniqueNames (names : List (List UInt8)) : (uniqueNames names).Nodup :=
  nodup_foldl_unique names List.nodup_nil

theorem length_uniqueNames (names : List (List UInt8)) :
    (uniqueNames names).length = names.toFinset.card := by
  rw [← List.toFinset_card_of_nodup (nodup_uniqueNames names)]
  congr 1
  ext name
  simp

def tagNames (names : List (List UInt8)) : List (List UInt8) :=
  if names = [] then [untaggedName] else uniqueNames names

theorem nodup_tagNames (names : List (List UInt8)) : (tagNames names).Nodup := by
  unfold tagNames
  split_ifs
  · simp
  · exact nodup_uniqueNames names

theorem length_tagNames (names : List (List UInt8)) :
    (tagNames names).length = if names = [] then 1 else names.toFinset.card := by
  unfold tagNames
  split_ifs
  · rfl
  · exact length_uniqueNames names

theorem length_tagNames_pos (names : List (List UInt8)) : 0 < (tagNames names).length := by
  obtain _ | ⟨name, names⟩ := names
  · simp [tagNames]
  · have hmem : name ∈ tagNames (name :: names) := by simp [tagNames]
    exact List.length_pos_of_mem hmem

theorem mem_tagNames {names : List (List UInt8)} {name : List UInt8} (h : name ≠ untaggedName) :
    name ∈ tagNames names ↔ name ∈ names := by
  unfold tagNames
  split_ifs with hnil
  · simp [hnil, h]
  · exact mem_uniqueNames

namespace TagIndex

open TagChains (Indexed Shrinks Grows KeepsNames)

variable (config : TagConfiguration)

/-- The size of the external array of a page with this number of references. -/
def xtagsFor (num : Nat) : Option Nat :=
  if config.numInternalTagRefs < num then some (num - config.numInternalTagRefs) else none

structure Sound (s : TagIndex) (refs : Nat → List TagRef) (extra : Nat → Nat) : Prop where
  indexed : s.Indexed config refs extra []
  linked : ∀ r, (∃ t, r ∈ refs t) ↔ s.linkedByTM r.1 = true ∧ r.2 < s.count r.1
  counted : ∀ p, s.count p < ushortRange
  sized : ∀ p, s.xtags p = xtagsFor config (s.count p)
  names : ∀ p, s.linkedByTM p = true →
    (List.range (s.count p)).map (fun i => s.table.name (s.tagOf (p, i))) = tagNames (s.saved p)
  untaggedName : 0 < s.table.numTags ∧ s.table.name untagged = CyberCache.untaggedName
  nodup : s.pages.Nodup
  exists_of_linked : ∀ p, s.linkedByTM p = true → p ∈ s.pages
  lt_of_exists : ∀ p ∈ s.pages, p < s.numPages

/-- The number of references of every tag has room for some more. -/
def HasRoom (s : TagIndex) (n : Nat) : Prop :=
  ∀ t < s.table.numTags, s.table.Contains t → s.num t + n < uintRange

def dropPage (refs : Nat → List TagRef) (p t : Nat) : List TagRef :=
  (refs t).filter (·.1 ≠ p)

variable {config} {s s' : TagIndex} {refs : Nat → List TagRef} {extra : Nat → Nat} {p i t : Nat}

theorem mem_dropPage {r : TagRef} : r ∈ dropPage refs p t ↔ r ∈ refs t ∧ r.1 ≠ p := by
  simp [dropPage]

theorem mapM_eq_some {α β : Type*} {f : α → Option β} {g : α → β} {xs : List α}
    (h : ∀ x ∈ xs, f x = some (g x)) : xs.mapM f = some (xs.map g) := by
  induction xs with
  | nil => rfl
  | cons x xs ih =>
    rw [List.mapM_cons, h x (by simp), ih fun y hy => h y (by simp [hy])]
    rfl

theorem tagRefs_eq {num : Nat} (h : s.xtags p = xtagsFor config num) :
    s.tagRefs config p num = some ((List.range num).map (Prod.mk p)) := by
  refine mapM_eq_some fun i hi => ?_
  rw [List.mem_range] at hi
  unfold getTagRef
  split_ifs with hinternal
  · rfl
  · have hnum : config.numInternalTagRefs < num := by omega
    rw [h, xtagsFor, if_pos hnum]
    exact if_pos (by omega)

theorem nodup_range_map (p num : Nat) : ((List.range num).map (Prod.mk p)).Nodup :=
  List.nodup_range.map fun _ _ h => (Prod.mk.inj h).2

namespace Sound

section

variable (h : s.Sound config refs extra)
include h

theorem count_eq (hp : s.linkedByTM p = true) :
    s.count p = (tagNames (s.saved p)).length := by
  rw [← h.names p hp, List.length_map, List.length_range]

theorem count_pos (hp : s.linkedByTM p = true) : 0 < s.count p := by
  rw [h.count_eq hp]
  exact length_tagNames_pos _

theorem mem_refs {r : TagRef} :
    r ∈ refs t ↔ s.linkedByTM r.1 = true ∧ r.2 < s.count r.1 ∧ s.tagOf r = t := by
  rw [h.indexed.mem_iff, h.linked, and_assoc]

theorem room {n : Nat} (hn : n < uintRange) (hroom : s.HasRoom n)
    (t : Nat) : (refs t).length + extra t + n < uintRange := by
  refine h.indexed.room hn fun ht => ?_
  rw [← h.indexed.num t ht]
  exact hroom t ht.1 ht

theorem exists_mem_refs (hp : s.linkedByTM p = true) :
    ∀ r ∈ (List.range (s.count p)).map (Prod.mk p), ∃ t, r ∈ refs t := by
  intro r hr
  obtain ⟨i, hi, rfl⟩ := List.mem_map.mp hr
  exact (h.linked (p, i)).mpr ⟨hp, List.mem_range.mp hi⟩

theorem contains_tagOf (hp : s.linkedByTM p = true)
    (hi : i < s.count p) : s.table.Contains (s.tagOf (p, i)) :=
  h.indexed.contains _ (p, i) (h.mem_refs.mpr ⟨hp, hi, rfl⟩)

theorem nodup_tags (hp : s.linkedByTM p = true) :
    ((List.range (s.count p)).map fun i => s.tagOf (p, i)).Nodup := by
  have hnames := nodup_tagNames (s.saved p)
  rw [← h.names p hp] at hnames
  refine List.Nodup.of_map s.table.name ?_
  simpa [Function.comp_def] using hnames

theorem page_injective {r r' : TagRef} (hr : r ∈ refs t)
    (hr' : r' ∈ refs t) (hpage : r.1 = r'.1) : r = r' := by
  obtain ⟨p, i⟩ := r
  obtain ⟨p', i'⟩ := r'
  obtain rfl : p = p' := hpage
  obtain ⟨hp, hi, htag⟩ := h.mem_refs.mp hr
  obtain ⟨-, hi', htag'⟩ := h.mem_refs.mp hr'
  have hinj := List.inj_on_of_nodup_map (h.nodup_tags hp) (List.mem_range.mpr hi)
    (List.mem_range.mpr hi') (htag.trans htag'.symm)
  exact Prod.ext rfl hinj

theorem nodup_pages (t : Nat) : ((refs t).map Prod.fst).Nodup :=
  List.Nodup.map_on (fun _ hr _ hr' heq => h.page_injective hr hr' heq) (h.indexed.nodup t)

theorem length_refs_le (t : Nat) :
    (refs t).length ≤ (s.pages.filter s.linkedByTM).length := by
  rw [← List.length_map Prod.fst]
  refine ((h.nodup_pages t).subperm fun p hp => ?_).length_le
  obtain ⟨r, hr, rfl⟩ := List.mem_map.mp hp
  have hlinked := (h.mem_refs.mp hr).1
  exact List.mem_filter.mpr ⟨h.exists_of_linked _ hlinked, hlinked⟩

theorem length_refs_le_pages (t : Nat) :
    (refs t).length ≤ s.pages.length :=
  (h.length_refs_le t).trans (List.length_filter_le _ _)

theorem without_eq_dropPage (hp : s.linkedByTM p = true) :
    TagChains.without refs ((List.range (s.count p)).map (Prod.mk p)) = dropPage refs p := by
  funext t
  refine List.filter_congr fun r hr => ?_
  obtain ⟨-, hi, -⟩ := h.mem_refs.mp hr
  obtain ⟨q, i⟩ := r
  by_cases heq : q = p
  · subst heq
    simpa using hi
  · simp [heq, Ne.symm heq]

theorem dropPage_eq_self (hp : s.linkedByTM p = false) :
    dropPage refs p = refs := by
  funext t
  refine List.filter_eq_self.mpr fun r hr => ?_
  obtain ⟨hlinked, -, -⟩ := h.mem_refs.mp hr
  rw [decide_eq_true_eq]
  rintro rfl
  simp [hp] at hlinked

theorem exists_mem_dropPage {r : TagRef} :
    (∃ t, r ∈ dropPage refs p t) ↔ (s.linkedByTM r.1 = true ∧ r.2 < s.count r.1) ∧ r.1 ≠ p := by
  simp only [mem_dropPage, exists_and_right, h.linked]

theorem names_of_keepsNames {c : TagChains}
    (hkeeps : KeepsNames s.toTagChains c) (hp : s.linkedByTM p = true)
    (htagOf : ∀ i, c.tagOf (p, i) = s.tagOf (p, i)) :
    (List.range (s.count p)).map (fun i => c.table.name (c.tagOf (p, i))) =
      tagNames (s.saved p) := by
  rw [← h.names p hp]
  refine List.map_congr_left fun i hi => ?_
  rw [htagOf, hkeeps.name _ (h.contains_tagOf hp (List.mem_range.mp hi)).1]

theorem untaggedName_of_keepsNames {c : TagChains}
    (hkeeps : KeepsNames s.toTagChains c) :
    0 < c.table.numTags ∧ c.table.name untagged = CyberCache.untaggedName := by
  obtain ⟨hpos, hname⟩ := h.untaggedName
  exact ⟨hpos.trans_le hkeeps.numTags, (hkeeps.name _ hpos).trans hname⟩

end

/-! ## Unlinking a page -/

theorem unlinkObjectTags (h : s.Sound config refs extra) (hp : s.linkedByTM p = true) :
    ∃ c, s.unlinkObjectTags config p =
        some { s with toTagChains := c, linkedByTM := update s.linkedByTM p false } ∧
      Sound config
        { s with toTagChains := c, linkedByTM := update s.linkedByTM p false }
        (dropPage refs p) extra ∧ Shrinks extra s.toTagChains c := by
  have hmax : max 1 (s.count p) = s.count p := Nat.max_eq_right (h.count_pos hp)
  obtain ⟨c, hunlink, hindexed, hshrinks⟩ :=
    h.indexed.unlinkTags (nodup_range_map p (s.count p)) (h.exists_mem_refs hp)
  rw [h.without_eq_dropPage hp] at hindexed
  have hlinked (q : Nat) :
      update s.linkedByTM p false q = true ↔ s.linkedByTM q = true ∧ q ≠ p := by
    by_cases heq : q = p <;> simp [heq]
  refine ⟨c, ?_, ⟨hindexed, fun r => ?_, h.counted, h.sized, fun q hq => ?_,
    h.untaggedName_of_keepsNames hshrinks.toKeepsNames, h.nodup, fun q hq => ?_, h.lt_of_exists⟩,
    hshrinks⟩
  · simp [TagIndex.unlinkObjectTags, hmax, tagRefs_eq (h.sized p), hunlink]
  · rw [h.exists_mem_dropPage, hlinked]
    tauto
  · refine h.names_of_keepsNames hshrinks.toKeepsNames ((hlinked q).mp hq).1 fun i => ?_
    rw [hshrinks.tagOf]
  · exact h.exists_of_linked q ((hlinked q).mp hq).1

/-! ## Saving a page -/

theorem unlinkExistingTags (h : s.Sound config refs extra) (p : Nat) :
    ∃ empties c, s.unlinkExistingTags config p = some (empties, c) ∧
      c.Indexed config (dropPage refs p) extra empties ∧ c.table = s.table ∧ c.tagOf = s.tagOf ∧
      empties.Nodup ∧ ∀ t ∈ empties, s.table.Contains t ∧ extra t = 0 ∧ t ≠ untagged := by
  cases hp : s.linkedByTM p with
  | false =>
    refine ⟨[], s.toTagChains, by simp [TagIndex.unlinkExistingTags, hp], ?_, rfl, rfl, by simp,
      by simp⟩
    rw [h.dropPage_eq_self hp]
    exact h.indexed
  | true =>
    have hmax : max 1 (s.count p) = s.count p := Nat.max_eq_right (h.count_pos hp)
    obtain ⟨empties, c, hunlink, hindexed, hrest⟩ :=
      h.indexed.unlinkExistingTags (by simp) (nodup_range_map p (s.count p)) (h.exists_mem_refs hp)
    rw [h.without_eq_dropPage hp] at hindexed
    exact ⟨empties, c,
      by simpa [TagIndex.unlinkExistingTags, hp, hmax, tagRefs_eq (h.sized p)] using hunlink,
      hindexed, hrest⟩

end Sound

theorem setNumTagRefs_eq (hsized : s.xtags p = xtagsFor config (s.count p))
    (hcounted : s.count p < ushortRange) (num : Nat) :
    s.setNumTagRefs config p num = { s with
      xtags := update s.xtags p (xtagsFor config num)
      count := update s.count p (num % ushortRange) } := by
  by_cases hnum : num = s.count p
  · rw [hnum, ← hsized, Nat.mod_eq_of_lt hcounted, update_eq_self, update_eq_self]
    exact if_neg (not_not.mpr rfl)
  · exact if_pos hnum

structure LinksPage (c c' : TagChains) (refs refs' : Nat → List TagRef) (p : Nat)
    (names : List (List UInt8)) : Prop extends Grows c c' where
  tagOf : ∀ r, r.1 ≠ p → c'.tagOf r = c.tagOf r
  linked : ∀ r, (∃ t, r ∈ refs' t) ↔ (∃ t, r ∈ refs t) ∨ r.1 = p ∧ r.2 < (tagNames names).length
  tagNames_eq : (List.range (tagNames names).length).map (fun i => c'.table.name (c'.tagOf (p, i)))
    = tagNames names

theorem linkTags_nil {idle : List Nat} (h : s.Indexed config refs extra idle)
    (hpage : ∀ t r, r ∈ refs t → r.1 ≠ p) (hcontains : s.table.Contains untagged)
    (hname : s.table.name untagged = untaggedName)
    (hroom : (refs untagged).length + extra untagged + 1 < uintRange) :
    ∃ c refs', s.link (p, 0) untagged = some c ∧ c.Indexed config refs' extra idle ∧
      LinksPage s.toTagChains c refs refs' p [] := by
  have hnew (t : Nat) : (p, 0) ∉ refs t := fun hr => hpage t _ hr rfl
  obtain ⟨c, hlink, h', htable, htagOf⟩ :=
    (h.mono fun t ht => List.mem_cons_of_mem untagged ht).link hcontains hnew hroom
  refine ⟨c, _, hlink, h', ⟨⟨⟨?_, ?_⟩, ?_⟩, fun r hr => ?_, fun r => ?_, ?_⟩⟩
  · rw [htable]
  · simp [htable]
  · simp [htable]
  · rw [htagOf, update_of_ne]
    rintro rfl
    exact hr rfl
  · constructor
    · rintro ⟨t, ht⟩
      by_cases heq : t = untagged
      · subst heq
        obtain rfl | hr : r = (p, 0) ∨ r ∈ refs untagged := by simpa using ht
        · exact .inr ⟨rfl, Nat.one_pos⟩
        · exact .inl ⟨_, hr⟩
      · exact .inl ⟨t, by simpa [heq] using ht⟩
    · rintro (⟨t, hr⟩ | ⟨hp, hi⟩)
      · by_cases heq : t = untagged
        · subst heq
          exact ⟨untagged, by simp [hr]⟩
        · exact ⟨t, by simpa [heq] using hr⟩
      · obtain rfl : r = (p, 0) := Prod.ext hp (Nat.lt_one_iff.mp hi)
        exact ⟨untagged, by simp⟩
  · simp [tagNames, htagOf, htable, hname]

theorem linkTags_cons {idle : List Nat} {names : List (List UInt8)}
    (h : s.Indexed config refs extra idle) (hpage : ∀ t r, r ∈ refs t → r.1 ≠ p)
    (hnames : names ≠ []) (hroom : ∀ t, (refs t).length + extra t + 1 < uintRange) :
    ∃ c refs', ((uniqueNames names).zip
        ((List.range (uniqueNames names).length).map (Prod.mk p))).foldlM
          (TagChains.linkTag config) s.toTagChains = some c ∧
      c.Indexed config refs' extra idle ∧ LinksPage s.toTagChains c refs refs' p names := by
  have htagNames : tagNames names = uniqueNames names := if_neg hnames
  have hsnd : ((uniqueNames names).zip
      ((List.range (uniqueNames names).length).map (Prod.mk p))).map Prod.snd =
      (List.range (uniqueNames names).length).map (Prod.mk p) :=
    List.map_snd_zip (by simp)
  have hfst : (((uniqueNames names).zip
      ((List.range (uniqueNames names).length).map (Prod.mk p))).map Prod.fst).Nodup := by
    rw [List.map_fst_zip (by simp)]
    exact nodup_uniqueNames names
  have hmem (r : TagRef) : r ∈ (List.range (uniqueNames names).length).map (Prod.mk p) ↔
      r.1 = p ∧ r.2 < (uniqueNames names).length := by
    obtain ⟨q, i⟩ := r
    simp only [List.mem_map, List.mem_range, Prod.mk.injEq]
    constructor
    · rintro ⟨j, hj, rfl, rfl⟩
      exact ⟨rfl, hj⟩
    · rintro ⟨rfl, hi⟩
      exact ⟨i, hi, rfl, rfl⟩
  have hnodup : (((uniqueNames names).zip
      ((List.range (uniqueNames names).length).map (Prod.mk p))).map Prod.snd).Nodup := by
    rw [hsnd]
    exact nodup_range_map p _
  obtain ⟨c, refs', hfold, h', hgrows, htagOf, hlinks, hlinked⟩ := h.linkTags hfst hnodup
    (fun r hr t hin => hpage t r hin ((hmem r).mp (hsnd ▸ hr)).1) fun t _ _ => hroom t
  refine ⟨c, refs', hfold, h', ⟨hgrows, fun r hr => ?_, fun r => ?_, ?_⟩⟩
  · refine htagOf r fun hin => hr ?_
    rw [hsnd, hmem] at hin
    exact hin.1
  · rw [hlinked, hsnd, hmem, htagNames]
  · rw [htagNames]
    refine List.ext_getElem (by simp) fun i hi hi' => ?_
    rw [List.getElem_map, List.getElem_range]
    refine hlinks ((uniqueNames names)[i], (p, i)) ?_
    refine List.mem_iff_getElem.mpr ⟨i, by simpa using hi', ?_⟩
    simp

theorem linkTags_eq {names : List (List UInt8)} {idle : List Nat}
    (h : s.Indexed config refs extra idle) (hpage : ∀ t r, r ∈ refs t → r.1 ≠ p)
    (hsized : s.xtags p = xtagsFor config (s.count p)) (hcounted : s.count p < ushortRange)
    (huntagged : names = [] → s.table.Contains untagged ∧ s.table.name untagged = untaggedName)
    (hroom : ∀ t, (refs t).length + extra t + 1 < uintRange) :
    ∃ c refs', s.linkTags config p names = some { s with
        toTagChains := c
        xtags := update s.xtags p (xtagsFor config (tagNames names).length)
        count := update s.count p ((tagNames names).length % ushortRange) } ∧
      c.Indexed config refs' extra idle ∧ LinksPage s.toTagChains c refs refs' p names := by
  obtain _ | ⟨name, rest⟩ := names
  · obtain ⟨hcontains, hname⟩ := huntagged rfl
    obtain ⟨c, refs', hlink, h', hlinks⟩ := linkTags_nil h hpage hcontains hname (hroom _)
    refine ⟨c, refs', ?_, h', hlinks⟩
    simp [linkTags, setNumTagRefs_eq hsized hcounted, getTagRef, config.numInternalTagRefs_pos,
      hlink, tagNames]
  · obtain ⟨c, refs', hfold, h', hlinks⟩ := linkTags_cons h hpage (List.cons_ne_nil name rest) hroom
    refine ⟨c, refs', ?_, h', hlinks⟩
    have htagNames : tagNames (name :: rest) = uniqueNames (name :: rest) :=
      if_neg (List.cons_ne_nil name rest)
    have hrefs : (s.setNumTagRefs config p (uniqueNames (name :: rest)).length).tagRefs config p
        (uniqueNames (name :: rest)).length =
        some ((List.range (uniqueNames (name :: rest)).length).map (Prod.mk p)) :=
      tagRefs_eq (by simp [setNumTagRefs_eq hsized hcounted])
    rw [setNumTagRefs_eq hsized hcounted] at hrefs
    simp [linkTags, setNumTagRefs_eq hsized hcounted, hrefs, hfold, htagNames]

def saveResult (config : TagConfiguration) (s : TagIndex) (c : TagChains) (p : Nat)
    (names : List (List UInt8)) : TagIndex :=
  { s with
    toTagChains := c
    xtags := update s.xtags p (xtagsFor config (tagNames names).length)
    count := update s.count p ((tagNames names).length % ushortRange)
    linkedByTM := update s.linkedByTM p true
    saved := update s.saved p names }

namespace Sound

theorem saveResult (h : s.Sound config refs extra) (hp : p ∈ s.pages) {c c₁ c' : TagChains}
    {refs' : Nat → List TagRef} {names : List (List UInt8)} (htable : c.table = s.table)
    (htagOf : c.tagOf = s.tagOf) (hlinks : LinksPage c c₁ (dropPage refs p) refs' p names)
    (hshrinks : Shrinks extra c₁ c') (hindexed : c'.Indexed config refs' extra [])
    (hlength : (tagNames names).length < ushortRange) :
    Sound config (TagIndex.saveResult config s c' p names) refs' extra := by
  have hunlinked : Shrinks extra s.toTagChains c := .of_table_eq htable htagOf
  have hkeeps : KeepsNames s.toTagChains c' :=
    (hunlinked.toKeepsNames.trans hlinks.toKeepsNames).trans hshrinks.toKeepsNames
  have hcount : (TagIndex.saveResult config s c' p names).count p = (tagNames names).length := by
    simp [TagIndex.saveResult, Nat.mod_eq_of_lt hlength]
  have hlinked (r : TagRef) : (∃ t, r ∈ refs' t) ↔
      (s.linkedByTM r.1 = true ∧ r.2 < s.count r.1) ∧ r.1 ≠ p ∨
        r.1 = p ∧ r.2 < (tagNames names).length := by
    rw [hlinks.linked, h.exists_mem_dropPage]
  refine ⟨hindexed, fun r => ?_, fun q => ?_, fun q => ?_, fun q hq => ?_,
    h.untaggedName_of_keepsNames hkeeps, h.nodup, fun q hq => ?_, h.lt_of_exists⟩
  · rw [hlinked]
    by_cases heq : r.1 = p
    · simp [TagIndex.saveResult, heq, Nat.mod_eq_of_lt hlength]
    · simp [TagIndex.saveResult, heq]
  · by_cases heq : q = p
    · rw [heq, hcount]
      exact hlength
    · simpa [TagIndex.saveResult, heq] using h.counted q
  · by_cases heq : q = p
    · rw [heq, hcount]
      simp [TagIndex.saveResult]
    · simpa [TagIndex.saveResult, heq] using h.sized q
  · by_cases heq : q = p
    · subst heq
      rw [hcount]
      simp only [TagIndex.saveResult, update_self]
      refine Eq.trans (List.map_congr_left fun i hi => ?_) hlinks.tagNames_eq
      obtain ⟨t, ht⟩ := (hlinked (q, i)).mpr (.inr ⟨rfl, List.mem_range.mp hi⟩)
      have hcontains := hshrinks.contains t (hindexed.contains t _ ht)
      rw [← hindexed.tagOf t _ ht, hshrinks.tagOf] at hcontains
      rw [hshrinks.tagOf, hshrinks.name _ hcontains.1]
    · have hq : s.linkedByTM q = true := by simpa [TagIndex.saveResult, heq] using hq
      have hnames := h.names_of_keepsNames hkeeps hq fun i => by
        rw [hshrinks.tagOf, hlinks.tagOf (q, i) heq, htagOf]
      simpa [TagIndex.saveResult, heq] using hnames
  · by_cases heq : q = p
    · rw [heq]
      exact hp
    · exact h.exists_of_linked q (by simpa [TagIndex.saveResult, heq] using hq)

theorem processSaveCommand (h : s.Sound config refs extra) (hp : p ∈ s.pages)
    (halive : ¬(s.linkedByTM p = false ∧ s.beingDeleted p = true)) {names : List (List UInt8)}
    (huntagged : names = [] → s.table.Contains untagged) (hroom : s.HasRoom 1) :
    ∃ c refs', s.processSaveCommand config p names = some (TagIndex.saveResult config s c p names) ∧
      ((tagNames names).length < ushortRange →
        Sound config (TagIndex.saveResult config s c p names) refs' extra) ∧
      (s.table.Contains untagged → c.table.Contains untagged) := by
  obtain ⟨empties, c, hunlink, hindexed, htable, htagOf, hnodup, hempties⟩ := h.unlinkExistingTags p
  have hpage : ∀ t r, r ∈ dropPage refs p t → r.1 ≠ p := fun t r hr => (mem_dropPage.mp hr).2
  have hnil : names = [] → c.table.Contains untagged ∧
      c.table.name untagged = CyberCache.untaggedName := by
    rw [htable]
    exact fun hnil => ⟨huntagged hnil, h.untaggedName.2⟩
  have hroom' (t : Nat) : (dropPage refs p t).length + extra t + 1 < uintRange := by
    have hle : (dropPage refs p t).length ≤ (refs t).length := List.length_filter_le _ _
    have hroom := h.room (by decide) hroom t
    omega
  obtain ⟨c₁, refs', hlink, hindexed₁, hlinks⟩ :=
    linkTags_eq (s := { s with toTagChains := c }) hindexed hpage (h.sized p) (h.counted p)
      hnil hroom'
  have hempties₁ : ∀ t ∈ empties, c₁.table.Contains t ∧ extra t = 0 ∧ t ≠ untagged := by
    intro t ht
    obtain ⟨hcontains, hrest⟩ := hempties t ht
    exact ⟨hlinks.keeps t (by rwa [htable]), hrest⟩
  obtain ⟨c', hdispose, hindexed', hshrinks⟩ := hindexed₁.disposeEmpties hnodup hempties₁
  refine ⟨c', refs', ?_, h.saveResult hp htable htagOf hlinks hshrinks
    hindexed', fun hcontains => ?_⟩
  · simp [TagIndex.processSaveCommand, halive, hunlink, hlink, hdispose, TagIndex.saveResult]
  · refine hshrinks.keeps _ (hlinks.keeps _ ?_) (.inl rfl)
    rwa [htable]

end Sound

end TagIndex

end CyberCache
