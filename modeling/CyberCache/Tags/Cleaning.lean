import CyberCache.Tags.PageTags

/-!
# Deleting pages by their tags

Pages are deleted while all pages, or the pages of one chain, are visited. Which pages are selected
does not depend on what has been deleted before, so that a loop can be described by its first state.
-/

namespace CyberCache

namespace TagIndex

open TagChains (Indexed Shrinks Grows KeepsNames)

variable {config : TagConfiguration} {s s' : TagIndex} {refs : Nat → List TagRef}
  {extra : Nat → Nat} {p t : Nat}

variable {names : List (List UInt8)} {e : ExtractedTags}

/-! ## Matching tags -/

theorem matchLoop_iff {minMatches num : Nat} (h : num < minMatches) (bs : List Bool) :
    matchLoop minMatches num bs = true ↔ minMatches ≤ num + bs.count true := by
  induction bs generalizing num with
  | nil => simp [matchLoop, h]
  | cons b bs ih =>
    cases b with
    | false => simp [matchLoop, ih h]
    | true =>
      simp only [matchLoop, List.count_cons_self]
      split_ifs with hmin
      · simp only [true_iff]
        omega
      · rw [ih (by omega)]
        omega

def tagsOf (s : TagIndex) (p : Nat) : List Nat := (List.range (s.count p)).map fun i => s.tagOf
    (p, i)

theorem sum_count_eq_countP (tags : List Nat) {own : List Nat} (h : own.Nodup) :
    (own.map fun t => tags.count t).sum = tags.countP (· ∈ own) := by
  induction own with
  | nil => simp
  | cons t own ih =>
    obtain ⟨ht, hown⟩ := List.nodup_cons.mp h
    rw [List.map_cons, List.sum_cons, ih hown]
    clear ih h
    induction tags with
    | nil => simp
    | cons u tags ih =>
      simp only [List.count_cons, List.countP_cons, List.mem_cons, decide_eq_true_eq,
        beq_iff_eq] at ih ⊢
      rcases eq_or_ne u t with rfl | hne
      · simp only [ht, or_false, if_true, if_false]
        omega
      · simp only [hne, false_or, if_false]
        omega

theorem matchesTags_eq (h : s.xtags p = xtagsFor config (s.count p)) (hpos : 0 < s.count p)
    (minMatches : Nat) (tags : List Nat) :
    s.matchesTags config p minMatches tags = matchLoop minMatches 0
      ((s.tagsOf p).flatMap fun own => tags.map fun t => decide (t = own)) := by
  have hinternal := config.numInternalTagRefs_pos
  by_cases hx : config.numInternalTagRefs < s.count p
  · have hrange : List.range (s.count p) = List.range config.numInternalTagRefs ++
        (List.range (s.count p - config.numInternalTagRefs)).map
        (config.numInternalTagRefs + ·) := by
      rw [← List.range_add]
      congr 1
      omega
    have hmin : min (s.count p) config.numInternalTagRefs = config.numInternalTagRefs := by omega
    have hmax : max 1 config.numInternalTagRefs = config.numInternalTagRefs := by omega
    have hmax' : max 1 (s.count p - config.numInternalTagRefs) =
      s.count p - config.numInternalTagRefs := by omega
    simp only [matchesTags, h, xtagsFor, hx, if_true, tagsOf, List.flatMap_map, hmin, hmax, hmax',
      ← hrange]
  · have hmax : max 1 (min (s.count p) config.numInternalTagRefs) = s.count p := by omega
    simp only [matchesTags, h, xtagsFor, hx, if_false, tagsOf, List.flatMap_map, List.append_nil,
      hmax]

namespace Sound

section

variable (h : s.Sound config refs extra)
include h

theorem matchesTags_iff (hp : s.linkedByTM p = true)
    {minMatches : Nat} (hmin : 0 < minMatches) (tags : List Nat) :
    s.matchesTags config p minMatches tags = true ↔
      minMatches ≤ tags.countP (· ∈ s.tagsOf p) := by
  have hcount (own : Nat) : (tags.map fun t => decide (t = own)).count true = tags.count own := by
    rw [List.count, List.countP_map, List.count]
    refine List.countP_congr fun t _ => ?_
    simp
  rw [matchesTags_eq (h.sized p) (h.count_pos hp), matchLoop_iff hmin, Nat.zero_add,
    List.count_flatMap]
  simp only [Function.comp_def, hcount]
  have hnodup : (s.tagsOf p).Nodup := h.nodup_tags hp
  rw [sum_count_eq_countP tags hnodup]

theorem matchesTags_one (hp : s.linkedByTM p = true)
    (tags : List Nat) :
    s.matchesTags config p 1 tags = true ↔ ∃ t ∈ tags, t ∈ s.tagsOf p := by
  rw [h.matchesTags_iff hp Nat.one_pos, Nat.one_le_iff_ne_zero, Nat.ne_zero_iff_zero_lt,
    List.countP_pos_iff]
  simp

theorem hasAll_iff (hp : s.linkedByTM p = true) (tags : List Nat) :
    s.hasAll config tags p = true ↔ ∀ t ∈ tags, t ∈ s.tagsOf p := by
  obtain _ | ⟨t, tags⟩ := tags
  · simp [hasAll]
  · have hle := List.countP_le_length (p := (· ∈ s.tagsOf p)) (l := t :: tags)
    have heq : (t :: tags).length ≤ (t :: tags).countP (· ∈ s.tagsOf p) ↔
        (t :: tags).countP (· ∈ s.tagsOf p) = (t :: tags).length :=
      ⟨fun h => Nat.le_antisymm hle h, fun h => h.ge⟩
    simp only [hasAll, reduceCtorEq, decide_false, Bool.false_or]
    rw [h.matchesTags_iff hp (by simp), heq, List.countP_eq_length]
    simp

theorem mem_tagsOf (hp : s.linkedByTM p = true) :
    t ∈ s.tagsOf p ↔ s.table.Contains t ∧ s.table.name t ∈ tagNames (s.saved p) := by
  rw [← h.names p hp]
  simp only [tagsOf, List.mem_map, List.mem_range]
  constructor
  · rintro ⟨i, hi, rfl⟩
    exact ⟨h.contains_tagOf hp hi, i, hi, rfl⟩
  · rintro ⟨ht, i, hi, hname⟩
    exact ⟨i, hi, h.indexed.valid.unique _ _ (h.contains_tagOf hp hi) ht hname⟩

theorem exists_of_mem_tagNames (hp : s.linkedByTM p = true)
    {name : List UInt8} (hname : name ∈ tagNames (s.saved p)) :
    ∃ t, s.table.Contains t ∧ s.table.name t = name := by
  rw [← h.names p hp] at hname
  obtain ⟨i, hi, rfl⟩ := List.mem_map.mp hname
  exact ⟨_, h.contains_tagOf hp (List.mem_range.mp hi), rfl⟩

end

end Sound

/-! ## Loops that delete pages -/

/-- Some pages are unlinked and marked. -/
def deleted (s : TagIndex) (c : TagChains) (gone : Nat → Bool) : TagIndex :=
  { s with
    toTagChains := c
    beingDeleted := fun p => s.beingDeleted p || gone p
    linkedByTM := fun p => s.linkedByTM p && !gone p }

def dropPages (refs : Nat → List TagRef) (gone : Nat → Bool) (t : Nat) : List TagRef :=
  (refs t).filter fun r => !gone r.1

variable (config) in
def deleteIf (select : TagIndex → Nat → Bool) (s : TagIndex) (page : Nat) : Option TagIndex :=
  if select s page then s.deletePage config page else some s

/-- The selection of a page depends on its own data only, and pages are not selected twice. -/
structure IsSelection (select : TagIndex → Nat → Bool) : Prop where
  congr : ∀ (s s' : TagIndex) (p : Nat), s'.tagOf = s.tagOf → s'.count = s.count →
    s'.xtags = s.xtags → s'.beingDeleted p = s.beingDeleted p →
    s'.linkedByTM p = s.linkedByTM p → select s' p = select s p
  alive : ∀ (s : TagIndex) (p : Nat), select s p = true → s.beingDeleted p = false

theorem deleted_false (s : TagIndex) : s.deleted s.toTagChains (fun _ => false) = s := by
  simp [deleted]

theorem deleted_deleted (s : TagIndex) (c c' : TagChains) (gone gone' : Nat → Bool) :
    (s.deleted c gone).deleted c' gone' = s.deleted c' fun p => gone p || gone' p := by
  simp only [deleted, Bool.or_assoc, Bool.not_or, Bool.and_assoc]

theorem dropPages_dropPages (refs : Nat → List TagRef) (gone gone' : Nat → Bool) :
    dropPages (dropPages refs gone) gone' = dropPages refs fun p => gone p || gone' p := by
  funext t
  simp only [dropPages, List.filter_filter]
  exact List.filter_congr fun r _ => by simp [Bool.and_comm]

theorem dropPages_false (refs : Nat → List TagRef) : dropPages refs (fun _ => false) = refs := by
  funext t
  simp [dropPages]

namespace Sound

theorem deletePage (h : s.Sound config refs extra) (hp : s.linkedByTM p = true) :
    ∃ c, s.deletePage config p = some (s.deleted c fun q => decide (q = p)) ∧
      Sound config (s.deleted c fun q => decide (q = p)) (dropPages refs fun q => decide (q = p))
        extra ∧ Shrinks extra s.toTagChains c := by
  obtain ⟨c, hunlink, h', hshrinks⟩ := h.unlinkObjectTags hp
  have hlinked : Function.update s.linkedByTM p false =
      fun q => s.linkedByTM q && !decide (q = p) := by
    funext q
    by_cases heq : q = p <;> simp [heq]
  have hdeleted : Function.update s.beingDeleted p true =
      fun q => s.beingDeleted q || decide (q = p) := by
    funext q
    by_cases heq : q = p <;> simp [heq]
  have hrefs : (dropPages refs fun q => decide (q = p)) = dropPage refs p := by
    funext t
    exact List.filter_congr fun r _ => by simp
  rw [hlinked] at hunlink h'
  refine ⟨c, ?_, ?_, hshrinks⟩
  · simp [TagIndex.deletePage, hunlink, hdeleted, deleted]
  · rw [hrefs]
    exact { h' with }

theorem foldlM_deleteIf {select : TagIndex → Nat → Bool} (hselect : IsSelection select)
    {pages : List Nat} (h : s.Sound config refs extra)
    (hlinked : ∀ p ∈ pages, select s p = true → s.linkedByTM p = true) :
    ∃ c, pages.foldlM (deleteIf config select) s =
        some (s.deleted c fun p => decide (p ∈ pages) && select s p) ∧
      Sound config (s.deleted c fun p => decide (p ∈ pages) && select s p)
        (dropPages refs fun p => decide (p ∈ pages) && select s p) extra ∧
      Shrinks extra s.toTagChains c := by
  induction pages generalizing s refs with
  | nil =>
    refine ⟨s.toTagChains, ?_, ?_, .refl _⟩
    · simp [deleted_false]
    · simpa [deleted_false, dropPages_false] using h
  | cons p pages ih =>
    by_cases hp : select s p = true
    · obtain ⟨c, hdelete, h', hshrinks⟩ := h.deletePage (hlinked p (by simp) hp)
      have hother (q : Nat) (hne : q ≠ p) :
          select (s.deleted c fun q => decide (q = p)) q = select s q :=
        hselect.congr _ _ q hshrinks.tagOf rfl rfl (by simp [deleted, hne]) (by simp [deleted, hne])
      have hself : select (s.deleted c fun q => decide (q = p)) p = false := by
        rw [Bool.eq_false_iff]
        intro hsel
        simpa [deleted] using hselect.alive _ p hsel
      have hgone : (fun q => decide (q = p) ||
          (decide (q ∈ pages) && select (s.deleted c fun q => decide (q = p)) q)) =
          fun q => decide (q ∈ p :: pages) && select s q := by
        funext q
        by_cases heq : q = p
        · subst heq
          simp [hp]
        · simp [heq, hother q heq]
      obtain ⟨c', hfold, h'', hshrinks'⟩ := ih h' fun q hq hsel => by
        by_cases heq : q = p
        · subst heq
          simp [hself] at hsel
        · rw [hother q heq] at hsel
          simpa [deleted, heq] using hlinked q (by simp [hq]) hsel
      rw [deleted_deleted, hgone] at hfold h''
      rw [dropPages_dropPages, hgone] at h''
      exact ⟨c', by simpa [deleteIf, hp, hdelete] using hfold, h'', hshrinks.trans hshrinks'⟩
    · have hgone : (fun q => decide (q ∈ pages) && select s q) =
          fun q => decide (q ∈ p :: pages) && select s q := by
        funext q
        by_cases heq : q = p
        · subst heq
          simp [hp]
        · simp [heq]
      obtain ⟨c', hfold, h', hshrinks⟩ := ih h fun q hq => hlinked q (by simp [hq])
      rw [hgone] at hfold h'
      exact ⟨c', by simpa [deleteIf, hp] using hfold, h', hshrinks⟩

end Sound

/-! ## Walks -/

variable (config) in
/-- Pages that `object_unlink_callback()` deletes. -/
def pageSelection (tags : List Nat) (condition : TagSelectCondition) (s : TagIndex) (p : Nat) :
    Bool :=
  !s.beingDeleted p && s.linkedByTM p && s.selects config tags condition p

variable (config) in
def chainSelection (tags : List Nat) (s : TagIndex) (p : Nat) : Bool :=
  !s.beingDeleted p && s.hasAll config tags p

theorem matchesTags_congr (htagOf : s'.tagOf = s.tagOf) (hcount : s'.count = s.count)
    (hxtags : s'.xtags = s.xtags) (minMatches : Nat) (tags : List Nat) :
    s'.matchesTags config p minMatches tags = s.matchesTags config p minMatches tags := by
  simp only [matchesTags, htagOf, hcount, hxtags]

theorem pageSelection_isSelection (tags : List Nat) (condition : TagSelectCondition) :
    IsSelection (pageSelection config tags condition) where
  congr s s' p htagOf hcount hxtags hdeleted hlinked := by
    cases condition <;>
      simp only [pageSelection, selects, matchesTags_congr htagOf hcount hxtags, hdeleted, hlinked]
  alive s p h := by
    simp only [pageSelection, Bool.and_eq_true, Bool.not_eq_true'] at h
    exact h.1.1

theorem chainSelection_isSelection (tags : List Nat) :
    IsSelection (chainSelection config tags) where
  congr s s' p htagOf hcount hxtags hdeleted hlinked := by
    simp only [chainSelection, hasAll, matchesTags_congr htagOf hcount hxtags, hdeleted]
  alive s p h := by
    simp only [chainSelection, Bool.and_eq_true, Bool.not_eq_true'] at h
    exact h.1

namespace Sound

variable {before rest : List TagRef}

section

variable (h : s.Sound config refs extra)
include h

theorem unlinkObjects (tags : List Nat)
    (condition : TagSelectCondition) :
    ∃ c, s.unlinkObjects config tags condition =
        some (s.deleted c (pageSelection config tags condition s)) ∧
      Sound config (s.deleted c (pageSelection config tags condition s))
        (dropPages refs (pageSelection config tags condition s)) extra ∧
      Shrinks extra s.toTagChains c := by
  have hlinked (p : Nat) (hp : pageSelection config tags condition s p = true) :
      s.linkedByTM p = true := by
    simp only [pageSelection, Bool.and_eq_true] at hp
    exact hp.1.2
  have hgone : (fun p => decide (p ∈ s.pages) && pageSelection config tags condition s p) =
      pageSelection config tags condition s := by
    funext p
    cases hp : pageSelection config tags condition s p with
    | false => simp
    | true => simpa using h.exists_of_linked p (hlinked p hp)
  obtain ⟨c, hfold, h', hshrinks⟩ :=
    h.foldlM_deleteIf (pageSelection_isSelection tags condition) fun p _ hp => hlinked p hp
  rw [hgone] at hfold h'
  exact ⟨c, hfold, h', hshrinks⟩

theorem dropPages_of_split {r : TagRef}
    (hrefs : refs t = before ++ r :: rest) :
    dropPages refs (fun q => decide (q = r.1)) t = before ++ rest := by
  have hnodup := h.indexed.nodup t
  have hinj (r' : TagRef) (hr' : r' ∈ refs t) : (!decide (r'.1 = r.1)) = decide (r' ∉ [r]) := by
    have hiff : r'.1 = r.1 ↔ r' = r :=
      ⟨fun hpage => h.page_injective hr' (by simp [hrefs]) hpage, fun heq => by rw [heq]⟩
    simp [hiff]
  rw [dropPages, List.filter_congr hinj]
  exact TagChains.without_of_split hrefs hnodup

/-- The walk over a chain is a loop over its pages, although it deletes from the chain. -/
theorem cleanChain_eq (hextra : 0 < extra t) (tags : List Nat)
    (hrefs : refs t = before ++ rest) {fuel : Nat} (hfuel : rest.length ≤ fuel) :
    cleanChain config tags fuel s rest.head? =
      (rest.map Prod.fst).foldlM (deleteIf config (chainSelection config tags)) s := by
  induction rest generalizing s refs before fuel with
  | nil => simp [cleanChain]
  | cons r rest ih =>
    obtain ⟨fuel, rfl⟩ : ∃ k, fuel = k + 1 := Nat.exists_eq_add_one.mpr (by simp at hfuel; omega)
    have hfuel' : rest.length ≤ fuel := by simpa using hfuel
    have hchain := h.indexed.chain t (h.indexed.referenced t hextra)
    rw [hrefs] at hchain
    have hnext := hchain.next_eq
    obtain ⟨hlinked, -, -⟩ := h.mem_refs.mp (show r ∈ refs t by simp [hrefs])
    rw [List.head?_cons, List.map_cons, List.foldlM_cons, deleteIf, chainSelection, cleanChain,
      hnext]
    by_cases hsel : (!s.beingDeleted r.1 && s.hasAll config tags r.1) = true
    · obtain ⟨c, hdelete, h', -⟩ := h.deletePage hlinked
      rw [if_pos hsel, if_pos hsel, hdelete]
      exact ih h' (h.dropPages_of_split hrefs) hfuel'
    · have hrefs' : refs t = (before ++ [r]) ++ rest := by simp [hrefs]
      rw [if_neg hsel, if_neg hsel]
      exact ih h hrefs' hfuel'

theorem enumChain_eq (ht : s.table.Contains t) (tags : List Nat)
    (hrefs : refs t = before ++ rest) {fuel : Nat} (hfuel : rest.length ≤ fuel) :
    s.enumChain config tags fuel rest.head? =
      some (((rest.map Prod.fst).filter (chainSelection config tags s)).map s.names) := by
  induction rest generalizing before fuel with
  | nil => simp [enumChain]
  | cons r rest ih =>
    obtain ⟨fuel, rfl⟩ : ∃ k, fuel = k + 1 := Nat.exists_eq_add_one.mpr (by simp at hfuel; omega)
    have hchain := h.indexed.chain t ht
    rw [hrefs] at hchain
    have hrefs' : refs t = (before ++ [r]) ++ rest := by simp [hrefs]
    have hrest := ih hrefs' (Nat.le_of_succ_le_succ hfuel)
    by_cases hsel : chainSelection config tags s r.1 = true
    · have hsel' := hsel
      simp only [chainSelection, Bool.and_eq_true] at hsel'
      simp [enumChain, hchain.next_eq, hrest, hsel, hsel']
    · have hsel' := hsel
      simp only [chainSelection] at hsel'
      simp only [List.head?_cons, enumChain, hchain.next_eq, hrest, Option.bind_eq_bind,
        Option.bind_some, if_neg hsel', List.map_cons, List.filter_cons_of_neg hsel]
      rfl

end

end Sound

/-! ## Requested tags -/

/-- What `extract_tag_names()` finds. -/
structure Extracts (s : TagIndex) (names : List (List UInt8)) (e : ExtractedTags) : Prop where
  mem_iff : ∀ t, t ∈ e.tags ∨ e.shortest = some t ↔ s.table.Contains t ∧ s.table.name t ∈ names
  tags_eq_nil : e.shortest = none → e.tags = []
  allTagsFound_iff : e.allTagsFound = true ↔
    ∀ name ∈ names, ∃ t, s.table.Contains t ∧ s.table.name t = name
  /-- A tag can be found twice, as the shortest one is not among the others. -/
  count_le : ∀ t, (e.tags ++ e.shortest.toList).count t ≤ 2

theorem Extracts.of_unknown {name : List UInt8}
    (h : s.Extracts names e) (hname : ∀ t, s.table.Contains t → s.table.name t ≠ name) :
    s.Extracts (names ++ [name]) { e with allTagsFound := false } where
  mem_iff t := by
    rw [h.mem_iff, List.mem_append, List.mem_singleton]
    have := hname t
    tauto
  tags_eq_nil := h.tags_eq_nil
  allTagsFound_iff := by
    simp only [Bool.false_eq_true, false_iff, not_forall]
    refine ⟨name, by simp, ?_⟩
    rintro ⟨t, ht, heq⟩
    exact hname t ht heq
  count_le := h.count_le

theorem Extracts.of_known {name : List UInt8} {e' : ExtractedTags}
    (h : s.Extracts names e) (hvalid : s.table.Valid config) (ht : s.table.Contains t)
    (hname : s.table.name t = name)
    (hmem : ∀ t', t' ∈ e'.tags ∨ e'.shortest = some t' ↔
      (t' ∈ e.tags ∨ e.shortest = some t') ∨ t' = t)
    (hnil : e'.shortest = none → e'.tags = []) (hfound : e'.allTagsFound = e.allTagsFound)
    (hcount : ∀ t', (e'.tags ++ e'.shortest.toList).count t' ≤ 2) :
    s.Extracts (names ++ [name]) e' where
  mem_iff t' := by
    rw [hmem, h.mem_iff, List.mem_append, List.mem_singleton, ← hname]
    constructor
    · rintro (⟨ht', hin⟩ | rfl)
      · exact ⟨ht', .inl hin⟩
      · exact ⟨ht, .inr rfl⟩
    · rintro ⟨ht', hin | heq⟩
      · exact .inl ⟨ht', hin⟩
      · exact .inr (hvalid.unique t' t ht' ht heq)
  tags_eq_nil := hnil
  allTagsFound_iff := by
    rw [hfound, h.allTagsFound_iff]
    constructor
    · intro hall name' hname'
      obtain hin | hin := List.mem_append.mp hname'
      · exact hall name' hin
      · rw [List.mem_singleton.mp hin]
        exact ⟨t, ht, hname⟩
    · intro hall name' hname'
      exact hall name' (List.mem_append_left _ hname')
  count_le := hcount

theorem Extracts.exists_iff (he : s.Extracts names e)
    (h : s.Sound config refs extra) (hp : s.linkedByTM p = true) :
    (∃ t, (t ∈ e.tags ∨ e.shortest = some t) ∧ t ∈ s.tagsOf p) ↔
      ∃ name ∈ names, name ∈ tagNames (s.saved p) := by
  constructor
  · rintro ⟨t, ht, hown⟩
    exact ⟨s.table.name t, ((he.mem_iff t).mp ht).2, ((h.mem_tagsOf hp).mp hown).2⟩
  · rintro ⟨name, hname, hown⟩
    obtain ⟨t, ht, rfl⟩ := h.exists_of_mem_tagNames hp hown
    exact ⟨t, (he.mem_iff t).mpr ⟨ht, hname⟩, (h.mem_tagsOf hp).mpr ⟨ht, hown⟩⟩

theorem Extracts.forall_iff (he : s.Extracts names e)
    (h : s.Sound config refs extra) (hp : s.linkedByTM p = true) :
    (e.allTagsFound = true ∧ ∀ t, t ∈ e.tags ∨ e.shortest = some t → t ∈ s.tagsOf p) ↔
      ∀ name ∈ names, name ∈ tagNames (s.saved p) := by
  rw [he.allTagsFound_iff]
  constructor
  · rintro ⟨hall, hown⟩ name hname
    obtain ⟨t, ht, rfl⟩ := hall name hname
    exact ((h.mem_tagsOf hp).mp (hown t ((he.mem_iff t).mpr ⟨ht, hname⟩))).2
  · intro hall
    refine ⟨fun name hname => h.exists_of_mem_tagNames hp (hall name hname), fun t ht => ?_⟩
    obtain ⟨hcontains, hname⟩ := (he.mem_iff t).mp ht
    exact (h.mem_tagsOf hp).mpr ⟨hcontains, hall _ hname⟩

theorem extractTagName_extracts (hvalid : s.table.Valid config)
    (h : s.Extracts names e) (name : List UInt8) :
    ∃ e', s.extractTagName config e name = some e' ∧ s.Extracts (names ++ [name]) e' := by
  obtain ⟨found, hfind, hfound⟩ := hvalid.find name
  cases found with
  | none =>
    refine ⟨{ e with allTagsFound := false }, by simp [extractTagName, hfind],
      h.of_unknown fun t ht hname => ?_⟩
    simpa using (hfound t).mpr ⟨ht, hname⟩
  | some t =>
    obtain ⟨ht, hname⟩ := (hfound t).mp rfl
    by_cases hmem : t ∈ e.tags
    · refine ⟨e, by simp [extractTagName, hfind, hmem],
        h.of_known hvalid ht hname (fun t' => ?_) h.tags_eq_nil rfl h.count_le⟩
      constructor
      · exact .inl
      · rintro (hin | rfl)
        · exact hin
        · exact .inl hmem
    · cases hshortest : e.shortest with
      | none =>
        refine ⟨{ e with shortest := some t }, by simp [extractTagName, hfind, hmem, hshortest],
          h.of_known hvalid ht hname (fun t' => ?_) (by simp) rfl fun t' => ?_⟩
        · simp [hshortest, eq_comm]
        · have hle : [t].count t' ≤ [t].length := List.count_le_length
          simpa [h.tags_eq_nil hshortest] using hle.trans one_le_two
      | some shortest =>
        have hcount (t' : Nat) : e.tags.count t' + [t].count t' + [shortest].count t' ≤ 2 := by
          have hle := h.count_le t'
          rw [hshortest, Option.toList_some, List.count_append] at hle
          by_cases heq : t' = t
          · have hnone : e.tags.count t = 0 := List.count_eq_zero.mpr hmem
            have hone : [shortest].count t ≤ [shortest].length := List.count_le_length
            rw [heq, hnone, List.count_singleton_self]
            exact Nat.add_le_add_left hone 1
          · have hother : [t].count t' = 0 := List.count_eq_zero.mpr (by simpa using heq)
            rwa [hother]
        by_cases hnum : s.num t < s.num shortest
        · refine ⟨{ e with tags := e.tags ++ [shortest], shortest := some t },
            by simp [extractTagName, hfind, hmem, hshortest, hnum],
            h.of_known hvalid ht hname (fun t' => ?_) (by simp) rfl fun t' => ?_⟩
          · simp [hshortest, eq_comm]
          · have hle := hcount t'
            simp only [Option.toList_some, List.count_append]
            omega
        · refine ⟨{ e with tags := e.tags ++ [t] },
            by simp [extractTagName, hfind, hmem, hshortest, hnum],
            h.of_known hvalid ht hname (fun t' => ?_) (by simp [hshortest]) rfl fun t' => ?_⟩
          · simp only [hshortest, List.mem_append, List.mem_singleton]
            tauto
          · simpa only [hshortest, Option.toList_some, List.count_append] using hcount t'

theorem extractTagNames_extracts (hvalid : s.table.Valid config) (names : List (List UInt8)) :
    ∃ e, s.extractTagNames config names = some e ∧ s.Extracts names e := by
  induction names using List.reverseRecOn with
  | nil => exact ⟨_, rfl, by constructor <;> simp⟩
  | append_singleton names name ih =>
    obtain ⟨e, hextract, h⟩ := ih
    obtain ⟨e', hextract', h'⟩ := extractTagName_extracts hvalid h name
    refine ⟨e', ?_, h'⟩
    rw [extractTagNames] at hextract ⊢
    simp [List.foldlM_append, hextract, hextract']

/-! ## Cleaning -/

theorem Sound.withDummyReferences (h : s.Sound config refs fun _ => 0) {added removed : List Nat}
    (hadded : ∀ t ∈ added, s.table.Contains t) (hperm : removed.Perm added) (hroom : s.HasRoom 2)
    (hcount : ∀ t, removed.count t ≤ 2)
    {body : TagIndex → Option TagIndex} {gone : Nat → Bool}
    (hbody : ∀ c : TagChains, c.table = s.table → c.tagOf = s.tagOf → c.first = s.first →
      Sound config { s with toTagChains := c } refs (fun t => removed.count t) →
      ∃ c', body { s with toTagChains := c } = some (s.deleted c' gone) ∧
        Sound config (s.deleted c' gone) (dropPages refs gone) (fun t => removed.count t) ∧
        Shrinks (fun t => removed.count t) c c') :
    ∃ c, s.withDummyReferences config added removed body = some (s.deleted c gone) ∧
      Sound config (s.deleted c gone) (dropPages refs gone) (fun _ => 0) ∧
      (untagged ∉ added → s.table.Contains untagged → c.table.Contains untagged) := by
  have hroom' (t : Nat) : (refs t).length + 0 + added.count t < uintRange := by
    have hfits := h.room (by decide) hroom t
    have hle := hcount t
    rw [hperm.count_eq] at hle
    omega
  obtain ⟨c, hadd, hindexed, htable, htagOf, hfirst⟩ := h.indexed.addDummyReferences hadded hroom'
  have hextra : (fun t => 0 + added.count t) = fun t => removed.count t := by
    funext t
    rw [hperm.count_eq, Nat.zero_add]
  rw [hextra] at hindexed
  have hsame : Shrinks (fun _ => 0) s.toTagChains c := .of_table_eq htable htagOf
  have h' : Sound config { s with toTagChains := c } refs (fun t => removed.count t) :=
    ⟨hindexed, h.linked, h.counted, h.sized,
      fun p hp => h.names_of_keepsNames hsame.toKeepsNames hp fun i => by rw [htagOf],
      h.untaggedName_of_keepsNames hsame.toKeepsNames, h.nodup, h.exists_of_linked, h.lt_of_exists⟩
  obtain ⟨c', hresult, h'', hshrinks⟩ := hbody c htable htagOf hfirst h'
  obtain ⟨c'', hremove, hindexed', hnames, htagOf', hcontains⟩ :=
    h''.indexed.removeDummyReferences removed
  refine ⟨c'', ?_, ⟨hindexed', h''.linked, h''.counted, h''.sized,
    fun p hp => h''.names_of_keepsNames hnames hp fun i => congrFun htagOf' (p, i),
    h''.untaggedName_of_keepsNames hnames, h''.nodup, h''.exists_of_linked, h''.lt_of_exists⟩,
    fun hnot huntagged => ?_⟩
  · have hremove' : (s.deleted c' gone).removeDummyReferences config removed = some c'' := hremove
    simp only [TagIndex.withDummyReferences, hadd, hresult, hremove', Option.bind_eq_bind,
      Option.bind_some]
    rfl
  · have hnot' : untagged ∉ removed := fun hin => hnot (hperm.mem_iff.mp hin)
    refine (hcontains untagged hnot').mpr (hshrinks.keeps untagged ?_ (.inl rfl))
    rwa [htable]

/-- The pages that a mode is about, by the names of their tags. -/
def CleanMode.Selects (mode : CleanMode) (names own : List (List UInt8)) : Prop :=
  match mode with
  | .all => True
  | .old => False
  | .matchingAllTags => names ≠ [] ∧ ∀ name ∈ names, name ∈ own
  | .notMatchingAnyTag => ∀ name ∈ names, name ∉ own
  | .matchingAnyTag => ∃ name ∈ names, name ∈ own

/-- A page that a mode is about and that can be deleted. -/
def IsCleaned (s : TagIndex) (mode : CleanMode) (names : List (List UInt8)) (p : Nat) : Prop :=
  s.linkedByTM p = true ∧ s.beingDeleted p = false ∧ mode.Selects names (tagNames (s.saved p))

namespace Sound

variable {names : List (List UInt8)} {e : ExtractedTags} {shortest : Nat}

theorem pageSelection_always_iff (s : TagIndex) (names : List (List UInt8)) (p : Nat) :
    pageSelection config [] .always s p = true ↔ s.IsCleaned .all names p := by
  simp only [pageSelection, selects, IsCleaned, CleanMode.Selects, Bool.and_eq_true,
    Bool.not_eq_true']
  tauto

section

variable (h : s.Sound config refs extra)
include h

theorem matchesTags_extracted (he : s.Extracts names e)
    (hshortest : e.shortest = some shortest) (hp : s.linkedByTM p = true) :
    s.matchesTags config p 1 (e.tags ++ [shortest]) = true ↔
      ∃ name ∈ names, name ∈ tagNames (s.saved p) := by
  rw [h.matchesTags_one hp, ← he.exists_iff h hp, hshortest]
  simp only [List.mem_append, List.mem_singleton, Option.some.injEq, eq_comm]

theorem pageSelection_doesMatch_iff (he : s.Extracts names e)
    (hshortest : e.shortest = some shortest) (p : Nat) :
    pageSelection config (e.tags ++ [shortest]) .doesMatch s p = true ↔
      s.IsCleaned .matchingAnyTag names p := by
  cases hp : s.linkedByTM p with
  | false => simp [pageSelection, IsCleaned, hp]
  | true =>
    have hmatches := h.matchesTags_extracted he hshortest hp
    simp [pageSelection, selects, IsCleaned, CleanMode.Selects, hp, hmatches]

theorem pageSelection_doesNotMatch_iff (he : s.Extracts names e)
    (hshortest : e.shortest = some shortest) (p : Nat) :
    pageSelection config (e.tags ++ [shortest]) .doesNotMatch s p = true ↔
      s.IsCleaned .notMatchingAnyTag names p := by
  cases hp : s.linkedByTM p with
  | false => simp [pageSelection, IsCleaned, hp]
  | true =>
    have hmatches : s.matchesTags config p 1 (e.tags ++ [shortest]) = false ↔
        ¬∃ name ∈ names, name ∈ tagNames (s.saved p) := by
      rw [← h.matchesTags_extracted he hshortest hp, Bool.not_eq_true]
    simp [pageSelection, selects, IsCleaned, CleanMode.Selects, hp, hmatches]

theorem not_mem_of_shortest_eq_none
    (he : s.Extracts names e) (hshortest : e.shortest = none)
    (hp : s.linkedByTM p = true) : ¬∃ name ∈ names, name ∈ tagNames (s.saved p) := by
  rw [← he.exists_iff h hp]
  rintro ⟨t, ht, -⟩
  simp [hshortest, he.tags_eq_nil hshortest] at ht

theorem mem_chain_iff :
    p ∈ (refs t).map Prod.fst ↔ s.linkedByTM p = true ∧ t ∈ s.tagsOf p := by
  simp only [List.mem_map, tagsOf, List.mem_range]
  constructor
  · rintro ⟨⟨q, i⟩, hr, rfl⟩
    obtain ⟨hlinked, hi, htag⟩ := h.mem_refs.mp hr
    exact ⟨hlinked, i, hi, htag⟩
  · rintro ⟨hlinked, i, hi, htag⟩
    exact ⟨(p, i), h.mem_refs.mpr ⟨hlinked, hi, htag⟩, rfl⟩

theorem chainSelection_iff (he : s.Extracts names e)
    (hshortest : e.shortest = some shortest) (hfound : e.allTagsFound = true) (p : Nat) :
    (decide (p ∈ (refs shortest).map Prod.fst) && chainSelection config e.tags s p) = true ↔
      s.IsCleaned .matchingAllTags names p := by
  have hnames : names ≠ [] := by
    rintro rfl
    simpa using ((he.mem_iff shortest).mp (.inr hshortest)).2
  rw [Bool.and_eq_true, decide_eq_true_iff, h.mem_chain_iff]
  cases hp : s.linkedByTM p with
  | false => simp [IsCleaned, hp]
  | true =>
    have hall := he.forall_iff h hp
    rw [hshortest] at hall
    have htags : (∀ t, t ∈ e.tags ∨ some shortest = some t → t ∈ s.tagsOf p) ↔
        shortest ∈ s.tagsOf p ∧ ∀ t ∈ e.tags, t ∈ s.tagsOf p := by
      simp only [or_imp, forall_and, Option.some.injEq, forall_eq']
      exact and_comm
    simp only [hfound, true_and, htags] at hall
    simp only [chainSelection, IsCleaned, CleanMode.Selects, hp, hnames, ← hall, Bool.and_eq_true,
      Bool.not_eq_true', h.hasAll_iff hp, ne_eq, not_false_iff, true_and]
    tauto

end

theorem cleanTags (h : s.Sound config refs fun _ => 0) {tags : List Nat}
    (htags : ∀ t ∈ tags, s.table.Contains t) (hroom : s.HasRoom 2) (hcount : ∀ t, tags.count t ≤ 2)
    (condition : TagSelectCondition) :
    ∃ c, s.withDummyReferences config tags tags (fun s => s.unlinkObjects config tags condition) =
        some (s.deleted c (pageSelection config tags condition s)) ∧
      Sound config (s.deleted c (pageSelection config tags condition s))
        (dropPages refs (pageSelection config tags condition s)) (fun _ => 0) ∧
      (untagged ∉ tags → s.table.Contains untagged → c.table.Contains untagged) := by
  refine h.withDummyReferences htags (List.Perm.refl _) hroom hcount fun c htable htagOf hfirst
    h' => ?_
  have hgone : pageSelection config tags condition { s with toTagChains := c } =
      pageSelection config tags condition s := by
    funext p
    exact (pageSelection_isSelection tags condition).congr _ _ p htagOf rfl rfl rfl rfl
  have hunlink := h'.unlinkObjects tags condition
  rw [hgone] at hunlink
  exact hunlink

theorem cleanMatchingAll (h : s.Sound config refs fun _ => 0) {tags : List Nat}
    (htags : ∀ t ∈ shortest :: tags, s.table.Contains t) (hroom : s.HasRoom 2)
    (hcount : ∀ t, (tags ++ [shortest]).count t ≤ 2) :
    ∃ c, s.withDummyReferences config (shortest :: tags) (tags ++ [shortest])
          (fun s => cleanChain config tags s.pages.length s (s.first shortest)) =
        some (s.deleted c fun p =>
          decide (p ∈ (refs shortest).map Prod.fst) && chainSelection config tags s p) ∧
      Sound config (s.deleted c fun p =>
          decide (p ∈ (refs shortest).map Prod.fst) && chainSelection config tags s p)
        (dropPages refs fun p =>
          decide (p ∈ (refs shortest).map Prod.fst) && chainSelection config tags s p)
        (fun _ => 0) ∧
      (untagged ∉ shortest :: tags → s.table.Contains untagged → c.table.Contains untagged) := by
  refine h.withDummyReferences htags (List.perm_append_singleton _ _) hroom hcount
    fun c htable htagOf hfirst h' => ?_
  have hcontains : c.table.Contains shortest := by
    rw [htable]
    exact htags shortest (by simp)
  have hextra : 0 < (tags ++ [shortest]).count shortest := by simp
  have hhead : c.first shortest = (refs shortest).head? :=
    (h'.indexed.chain shortest hcontains).first_eq
  have hselection : IsSelection (chainSelection config tags) := chainSelection_isSelection tags
  have hgone : chainSelection config tags { s with toTagChains := c } =
      chainSelection config tags s := by
    funext p
    exact hselection.congr _ _ p htagOf rfl rfl rfl rfl
  have hlinked : ∀ p ∈ (refs shortest).map Prod.fst,
      chainSelection config tags { s with toTagChains := c } p = true → s.linkedByTM p = true :=
    fun p hp _ => (h'.mem_chain_iff.mp hp).1
  have hdelete := h'.foldlM_deleteIf hselection hlinked
  rw [hgone, ← h'.cleanChain_eq hextra tags (List.nil_append _).symm (h.length_refs_le_pages _),
    ← hhead] at hdelete
  exact hdelete

end Sound

variable (config) in
/-- The pages that a mode is about have been deleted, and the tag for untagged pages is still there
if it was not requested. -/
def Cleans (s : TagIndex) (refs : Nat → List TagRef) (mode : CleanMode) (names : List (List UInt8))
    (result : Option TagIndex) : Prop :=
  ∃ c gone, result = some (s.deleted c gone) ∧
    Sound config (s.deleted c gone) (dropPages refs gone) (fun _ => 0) ∧
    (untaggedName ∉ names → s.table.Contains untagged → c.table.Contains untagged) ∧
    ∀ p, gone p = true ↔ s.IsCleaned mode names p

namespace Sound

variable {mode : CleanMode} {names : List (List UInt8)} {e : ExtractedTags}

theorem cleans_nothing (h : s.Sound config refs fun _ => 0)
    (hmode : ∀ p, ¬s.IsCleaned mode names p) :
    s.Cleans config refs mode names (some s) := by
  refine ⟨s.toTagChains, fun _ => false, by rw [deleted_false], ?_, fun _ => id, ?_⟩
  · rw [deleted_false, dropPages_false]
    exact h
  · simpa using hmode

theorem cleans_all (h : s.Sound config refs fun _ => 0)
    (hmode : ∀ p, s.IsCleaned .all names p ↔ s.IsCleaned mode names p) :
    s.Cleans config refs mode names (s.unlinkObjects config [] .always) := by
  obtain ⟨c, hunlink, h', hshrinks⟩ := h.unlinkObjects [] .always
  exact ⟨c, _, hunlink, h', fun _ huntagged => hshrinks.keeps _ huntagged (.inl rfl),
    fun p => (pageSelection_always_iff s names p).trans (hmode p)⟩

theorem untagged_not_extracted (h : s.Sound config refs extra) (he : s.Extracts names e)
    (hnames : CyberCache.untaggedName ∉ names) :
    ¬(untagged ∈ e.tags ∨ e.shortest = some untagged) := by
  intro ht
  rw [← h.untaggedName.2] at hnames
  exact hnames ((he.mem_iff untagged).mp ht).2

theorem cleans_tags (h : s.Sound config refs fun _ => 0) (he : s.Extracts names e) {shortest : Nat}
    (hroom : s.HasRoom 2) (hshortest : e.shortest = some shortest) {condition : TagSelectCondition}
    (hmode : ∀ p, pageSelection config (e.tags ++ [shortest]) condition s p = true ↔
      s.IsCleaned mode names p) :
    s.Cleans config refs mode names
      (s.withDummyReferences config (e.tags ++ [shortest]) (e.tags ++ [shortest])
        fun s => s.unlinkObjects config (e.tags ++ [shortest]) condition) := by
  have hmem (t : Nat) : t ∈ e.tags ++ [shortest] ↔ t ∈ e.tags ∨ e.shortest = some t := by
    rw [hshortest]
    simp [eq_comm]
  have hcount := he.count_le
  rw [hshortest] at hcount
  obtain ⟨c, hclean, h', huntagged⟩ := h.cleanTags
    (fun t ht => ((he.mem_iff t).mp ((hmem t).mp ht)).1) hroom hcount condition
  refine ⟨c, _, hclean, h', fun hnames => huntagged ?_, hmode⟩
  rw [hmem]
  exact h.untagged_not_extracted he hnames

theorem cleans_matchingAll (h : s.Sound config refs fun _ => 0) (he : s.Extracts names e)
    {shortest : Nat} (hroom : s.HasRoom 2) (hshortest : e.shortest = some shortest)
    (hfound : e.allTagsFound = true) :
    s.Cleans config refs .matchingAllTags names
      (s.withDummyReferences config (shortest :: e.tags) (e.tags ++ [shortest])
        fun s => cleanChain config e.tags s.pages.length s (s.first shortest)) := by
  have hmem (t : Nat) : t ∈ shortest :: e.tags ↔ t ∈ e.tags ∨ e.shortest = some t := by
    rw [hshortest, List.mem_cons, Option.some.injEq, eq_comm]
    exact or_comm
  have hcount := he.count_le
  rw [hshortest] at hcount
  obtain ⟨c, hclean, h', huntagged⟩ := h.cleanMatchingAll
    (fun t ht => ((he.mem_iff t).mp ((hmem t).mp ht)).1) hroom hcount
  refine ⟨c, _, hclean, h', fun hnames => huntagged ?_, h.chainSelection_iff he hshortest hfound⟩
  rw [hmem]
  exact h.untagged_not_extracted he hnames

theorem cleans_processCleanCommand (h : s.Sound config refs fun _ => 0) (hroom : s.HasRoom 2)
    (mode : CleanMode) (names : List (List UInt8)) :
    s.Cleans config refs mode names (s.processCleanCommand config mode names) := by
  obtain ⟨e, hextract, he⟩ := extractTagNames_extracts h.indexed.valid names
  cases mode with
  | all => exact h.cleans_all fun p => Iff.rfl
  | old => exact h.cleans_nothing fun p hp => hp.2.2
  | matchingAllTags =>
    simp only [TagIndex.processCleanCommand, hextract, Option.bind_eq_bind, Option.bind_some]
    cases hshortest : e.shortest with
    | none =>
      refine h.cleans_nothing ?_
      rintro p ⟨hp, -, hne, hnames⟩
      obtain ⟨name, hname⟩ := List.exists_mem_of_ne_nil names hne
      exact h.not_mem_of_shortest_eq_none he hshortest hp ⟨name, hname, hnames name hname⟩
    | some shortest =>
      cases hfound : e.allTagsFound with
      | true => simpa using h.cleans_matchingAll he hroom hshortest hfound
      | false =>
        -- a page would need a tag that does not exist
        refine h.cleans_nothing ?_
        rintro p ⟨hp, -, -, hnames⟩
        have hall := ((he.forall_iff h hp).mpr hnames).1
        simp [hfound] at hall
  | notMatchingAnyTag =>
    simp only [TagIndex.processCleanCommand, hextract, Option.bind_eq_bind, Option.bind_some]
    cases hshortest : e.shortest with
    | none =>
      refine h.cleans_all fun p => ?_
      constructor
      · rintro ⟨hp, halive, -⟩
        refine ⟨hp, halive, fun name hname hown => ?_⟩
        exact h.not_mem_of_shortest_eq_none he hshortest hp ⟨name, hname, hown⟩
      · rintro ⟨hp, halive, -⟩
        exact ⟨hp, halive, trivial⟩
    | some shortest =>
      exact h.cleans_tags he hroom hshortest (h.pageSelection_doesNotMatch_iff he hshortest)
  | matchingAnyTag =>
    simp only [TagIndex.processCleanCommand, hextract, Option.bind_eq_bind, Option.bind_some]
    cases hshortest : e.shortest with
    | none =>
      refine h.cleans_nothing ?_
      rintro p ⟨hp, -, hnames⟩
      exact h.not_mem_of_shortest_eq_none he hshortest hp hnames
    | some shortest =>
      exact h.cleans_tags he hroom hshortest (h.pageSelection_doesMatch_iff he hshortest)

end Sound

end TagIndex

end CyberCache
