import CyberCache.Tags.IndexInvariant

/-!
# Queries are exact

The three queries list the pages that have all requested tags, none of them, or at least one of
them; what is compared is the names that pages were saved with. Cleaning with the same request marks
exactly the same pages.
-/

namespace CyberCache

open Function (update)

namespace TagIndex

variable {config : TagConfiguration} {s s' : TagIndex} {refs : Nat → List TagRef} {p : Nat}
  {names : List (List UInt8)}

/-- What a query asks for, by the names that a page was saved with. -/
def TagQuery.Selects (query : TagQuery) (names own : List (List UInt8)) : Prop :=
  match query with
  | .idsMatchingTags => ∀ name ∈ names, name ∈ own
  | .idsNotMatchingTags => ∀ name ∈ names, name ∉ own
  | .idsMatchingAnyTags => ∃ name ∈ names, name ∈ own

instance (query : TagQuery) (names own : List (List UInt8)) : Decidable (query.Selects names own) :=
  match query with
  | .idsMatchingTags => inferInstanceAs (Decidable (∀ _ ∈ _, _))
  | .idsNotMatchingTags => inferInstanceAs (Decidable (∀ _ ∈ _, _))
  | .idsMatchingAnyTags => inferInstanceAs (Decidable (∃ _ ∈ _, _))

def TagQuery.mode : TagQuery → CleanMode
  | .idsMatchingTags => .matchingAllTags
  | .idsNotMatchingTags => .notMatchingAnyTag
  | .idsMatchingAnyTags => .matchingAnyTag

/-- A linked page that is not being deleted and that the query asks for. -/
def IsFound (s : TagIndex) (query : TagQuery) (names : List (List UInt8)) (p : Nat) : Prop :=
  s.linkedByTM p = true ∧ s.beingDeleted p = false ∧ query.Selects names (s.saved p)

instance (s : TagIndex) (query : TagQuery) (names : List (List UInt8)) :
    DecidablePred (s.IsFound query names) :=
  fun _ => inferInstanceAs (Decidable (_ ∧ _))

theorem isCleaned_iff (huntagged : untaggedName ∉ names) (query : TagQuery)
    (hnames : query = .idsMatchingTags → names ≠ []) :
    s.IsCleaned query.mode names p ↔ s.IsFound query names p := by
  have hmem (name : List UInt8) (hname : name ∈ names) :
      name ∈ tagNames (s.saved p) ↔ name ∈ s.saved p :=
    mem_tagNames (ne_of_mem_of_not_mem hname huntagged)
  refine and_congr_right fun _ => and_congr_right fun _ => ?_
  cases query with
  | idsMatchingTags =>
    constructor
    · rintro ⟨-, h⟩ name hname
      exact (hmem name hname).mp (h name hname)
    · intro h
      exact ⟨hnames rfl, fun name hname => (hmem name hname).mpr (h name hname)⟩
  | idsNotMatchingTags =>
    exact forall₂_congr fun name hname => not_congr (hmem name hname)
  | idsMatchingAnyTags =>
    exact exists_congr fun name => and_congr_right fun hname => hmem name hname

namespace Sound

theorem enumObjects_eq {condition : TagSelectCondition} {tags : List Nat} {query : TagQuery}
    (h : ∀ p, pageSelection config tags condition s p = true ↔ s.IsFound query names p) :
    s.enumObjects config tags condition = (s.pages.filter (s.IsFound query names)).map s.names := by
  have hfilter : s.pages.filter (pageSelection config tags condition s) =
      s.pages.filter (s.IsFound query names) :=
    List.filter_congr fun p _ => by rw [Bool.eq_iff_iff, h p, decide_eq_true_iff]
  rw [← hfilter]
  rfl

theorem filter_pages_eq_nil {query : TagQuery} (h : ∀ p, ¬s.IsFound query names p) :
    s.pages.filter (s.IsFound query names) = [] :=
  List.filter_eq_nil_iff.mpr fun p _ => by simpa using h p

theorem enumChain_perm (h : s.Sound config refs fun _ => 0) {query : TagQuery} {tags : List Nat}
    {shortest : Nat} (ht : s.table.Contains shortest)
    (hfound : ∀ p, (decide (p ∈ (refs shortest).map Prod.fst) &&
      chainSelection config tags s p) = true ↔ s.IsFound query names p) :
    ∃ ids, s.enumChain config tags s.pages.length (s.first shortest) = some ids ∧
      ids.Perm ((s.pages.filter (s.IsFound query names)).map s.names) := by
  have hperm : (((refs shortest).map Prod.fst).filter (chainSelection config tags s)).Perm
      (s.pages.filter (s.IsFound query names)) := by
    refine (List.perm_ext_iff_of_nodup ((h.nodup_pages shortest).filter _)
      (h.nodup.filter _)).mpr fun p => ?_
    have hp := hfound p
    simp only [Bool.and_eq_true, decide_eq_true_iff] at hp
    rw [List.mem_filter, List.mem_filter, hp, decide_eq_true_iff]
    exact ⟨fun hfound => ⟨h.exists_of_linked p hfound.1, hfound⟩, And.right⟩
  refine ⟨_, ?_, hperm.map s.names⟩
  rw [(h.indexed.chain shortest ht).first_eq,
    h.enumChain_eq ht tags (List.nil_append _).symm (h.length_refs_le_pages shortest)]

theorem processGetmatchingidsCommand (h : s.Sound config refs fun _ => 0)
    (huntagged : CyberCache.untaggedName ∉ names) (query : TagQuery)
    (hnames : query = .idsMatchingTags → names ≠ []) :
    ∃ ids, s.processGetmatchingidsCommand config query names = some ids ∧
      ids.Perm ((s.pages.filter (s.IsFound query names)).map s.names) := by
  obtain ⟨e, hextract, he⟩ := extractTagNames_extracts h.indexed.valid names
  have hclean (p : Nat) := isCleaned_iff (s := s) (p := p) huntagged query hnames
  simp only [TagIndex.processGetmatchingidsCommand, hextract, Option.bind_eq_bind, Option.bind_some]
  cases hshortest : e.shortest with
  | none =>
    have hnone (p : Nat) (hp : s.linkedByTM p = true) :=
      h.not_mem_of_shortest_eq_none he hshortest hp
    cases query with
    | idsMatchingTags =>
      have hnot : ∀ p, ¬s.IsFound .idsMatchingTags names p := by
        intro p hp
        obtain ⟨hlinked, -, hne, hall⟩ := (hclean p).mpr hp
        obtain ⟨name, hname⟩ := List.exists_mem_of_ne_nil names hne
        exact hnone p hlinked ⟨name, hname, hall name hname⟩
      exact ⟨[], rfl, by rw [filter_pages_eq_nil hnot]; rfl⟩
    | idsNotMatchingTags =>
      refine ⟨_, rfl, List.Perm.of_eq (enumObjects_eq fun p => ?_)⟩
      rw [pageSelection_always_iff s names, ← hclean]
      refine and_congr_right fun hp => and_congr_right fun _ => ?_
      simp only [CleanMode.Selects, TagQuery.mode, true_iff]
      exact fun name hname hown => hnone p hp ⟨name, hname, hown⟩
    | idsMatchingAnyTags =>
      have hnot : ∀ p, ¬s.IsFound .idsMatchingAnyTags names p := by
        intro p hp
        obtain ⟨hlinked, -, hany⟩ := (hclean p).mpr hp
        exact hnone p hlinked hany
      exact ⟨[], rfl, by rw [filter_pages_eq_nil hnot]; rfl⟩
  | some shortest =>
    cases query with
    | idsMatchingTags =>
      cases hfound : e.allTagsFound with
      | false =>
        have hnot : ∀ p, ¬s.IsFound .idsMatchingTags names p := by
          intro p hp
          obtain ⟨hlinked, -, -, hall⟩ := (hclean p).mpr hp
          simpa [hfound] using ((he.forall_iff h hlinked).mpr hall).1
        exact ⟨[], rfl, by rw [filter_pages_eq_nil hnot]; rfl⟩
      | true =>
        exact h.enumChain_perm ((he.mem_iff shortest).mp (.inr hshortest)).1 fun p =>
          (h.chainSelection_iff he hshortest hfound p).trans (hclean p)
    | idsNotMatchingTags =>
      exact ⟨_, rfl, List.Perm.of_eq (enumObjects_eq fun p =>
        (h.pageSelection_doesNotMatch_iff he hshortest p).trans (hclean p))⟩
    | idsMatchingAnyTags =>
      exact ⟨_, rfl, List.Perm.of_eq (enumObjects_eq fun p =>
        (h.pageSelection_doesMatch_iff he hshortest p).trans (hclean p))⟩

end Sound

theorem Sound.hasRoom (h : s.Sound config refs fun _ => 0) {n : Nat}
    (hn : (s.pages.filter s.linkedByTM).length + n < uintRange) : s.HasRoom n := by
  intro t _ ht
  rw [h.indexed.num t ht]
  exact (Nat.add_le_add_right (h.length_refs_le t) n).trans_lt hn

/-! ## A tag that is lost -/

/-- As many pages, all of them saved with one and the same tag. -/
structure IsFull (n : Nat) (s : TagIndex) : Prop where
  reached : ∃ actions, Reaches (step oneTagTable) Fits (create oneTagTable) actions s
  length : s.pages.length = n
  linked : ∀ p ∈ s.pages, s.linkedByTM p = true ∧ s.beingDeleted p = false ∧ s.saved p = [[97]]

theorem IsFull.succ {n : Nat} (h : IsFull n s) (hn : n + 1 < uintRange) :
    ∃ s', IsFull (n + 1) s' := by
  obtain ⟨actions, hrun⟩ := h.reached
  obtain ⟨refs, hsound⟩ := reaches_sound_of_fits hrun
  obtain ⟨s₁, hcreate⟩ : ∃ s₁, s.step oneTagTable (.createPage [112]) = some s₁ := ⟨_, rfl⟩
  obtain ⟨hsound₁, -, -⟩ := hsound.createPage [112] hcreate
  cases hcreate
  have hroom := hsound₁.hasRoom (n := 1) (by
    rw [List.filter_cons_of_neg (by simp)]
    refine (Nat.add_le_add_right (List.length_filter_le _ _) 1).trans_lt ?_
    rwa [h.length])
  obtain ⟨c, refs', hsave, -⟩ := hsound₁.processSaveCommand (p := s.numPages)
    (by simp) (by simp) (fun hnil : [[97]] = [] => by cases hnil) hroom
  have hrun₁ := hrun.snoc (i := TagAction.createPage [112]) trivial rfl
  refine ⟨_, ⟨_, hrun₁.snoc (i := TagAction.save s.numPages [[97]]) ⟨by decide, hroom⟩
    ((if_pos (by simp)).trans hsave)⟩, ?_, fun p hp => ?_⟩
  · simp [saveResult, h.length]
  · obtain rfl | hp := List.mem_cons.mp hp
    · simp [saveResult]
    · have hne : p ≠ s.numPages := (hsound.lt_of_exists p hp).ne
      simpa [saveResult, hne] using h.linked p hp

theorem exists_isFull (n : Nat) (hn : n < uintRange) : ∃ s, IsFull n s := by
  induction n with
  | zero => exact ⟨create oneTagTable, ⟨[], .nil⟩, rfl, by simp [create]⟩
  | succ n ih =>
    obtain ⟨s, h⟩ := ih (by omega)
    exact h.succ hn

theorem IsFull.exists_tag {n : Nat} (h : IsFull n s) (hsound : s.Sound oneTagTable refs fun _ => 0)
    (hp : p ∈ s.pages) :
    ∃ t, s.table.Contains t ∧ s.table.name t = [97] ∧ s.num t = n ∧
      ∀ p ∈ s.pages, s.count p = 1 ∧ s.tagOf (p, 0) = t := by
  have hown : ∀ p ∈ s.pages, [97] ∈ tagNames (s.saved p) := by
    intro p hp
    simp [(h.linked p hp).2.2, tagNames]
  obtain ⟨t, ht, hname⟩ := hsound.exists_of_mem_tagNames (h.linked p hp).1 (hown p hp)
  have htags : ∀ p ∈ s.pages, t ∈ s.tagsOf p := fun p hp =>
    (hsound.mem_tagsOf (h.linked p hp).1).mpr ⟨ht, hname ▸ hown p hp⟩
  have hperm : ((refs t).map Prod.fst).Perm s.pages := by
    refine (List.perm_ext_iff_of_nodup (hsound.nodup_pages t) hsound.nodup).mpr fun p => ?_
    rw [hsound.mem_chain_iff]
    exact ⟨fun hp => hsound.exists_of_linked p hp.1, fun hp => ⟨(h.linked p hp).1, htags p hp⟩⟩
  have hlength := hperm.length_eq
  rw [List.length_map, h.length] at hlength
  refine ⟨t, ht, hname, by simpa [hlength] using hsound.indexed.num t ht, fun p hp => ?_⟩
  have hcount : s.count p = 1 := by
    rw [hsound.count_eq (h.linked p hp).1, (h.linked p hp).2.2]
    rfl
  refine ⟨hcount, ?_⟩
  have htag := htags p hp
  simpa [tagsOf, hcount, eq_comm] using htag

theorem unlinkTag_of_num_eq_one (config : TagConfiguration) {c : TagChains} {r : TagRef}
    (ht : c.table.Contains (c.tagOf r))
    (hnum : c.num (c.tagOf r) = 1) (hne : c.tagOf r ≠ untagged) :
    ∃ c', c.unlinkTag config r = some c' ∧ c'.tagOf = c.tagOf ∧ ¬c'.table.Contains (c.tagOf r) := by
  have hempty : uintSub (c.num (c.tagOf r)) 1 = 0 ∧ c.tagOf r ≠ untagged := by
    rw [hnum]
    exact ⟨by decide, hne⟩
  have hunlink := TagChains.unlink_of_contains ht
  rw [if_pos hempty] at hunlink
  have hgone : ¬(c.table.dispose config (c.tagOf r)).Contains (c.tagOf r) :=
    fun hin => ((TagTable.contains_dispose _ _ _).mp hin).2 rfl
  simp [TagChains.unlinkTag, hunlink, TagChains.disposeTag, ht, hgone]

theorem deletePage_of_count_eq_one (config : TagConfiguration) (h : s.count p = 1) :
    s.deletePage config p =
      (s.unlinkTag config (p, 0)).map fun c => s.deleted c fun q => decide (q = p) := by
  have hrefs : s.tagRefs config p (max 1 (s.count p)) = some [(p, 0)] := by
    simp [h, tagRefs, getTagRef, config.numInternalTagRefs_pos]
  rw [TagIndex.deletePage, unlinkObjectTags, hrefs]
  cases hunlink : s.unlinkTag config (p, 0) with
  | none => simp [hunlink]
  | some c =>
    simp only [Option.bind_eq_bind, Option.bind_some, List.foldlM_cons, List.foldlM_nil, hunlink]
    simp only [Option.pure_def, Option.bind_some, Option.map_some, deleted]
    congr <;> funext q <;> by_cases heq : q = p <;> simp [heq]

/-- A tag whose counter is 1 is disposed with the first page, although the second refers to it. -/
theorem unlinkObjects_of_num_eq_one (config : TagConfiguration) {t q : Nat} {tags rest : List Nat}
    {condition : TagSelectCondition} (hpages : s.pages = p :: q :: rest) (hpq : q ≠ p)
    (ht : s.table.Contains t) (hne : t ≠ untagged) (hnum : s.num t = 1)
    (hpage : ∀ p ∈ s.pages, s.count p = 1 ∧ s.tagOf (p, 0) = t)
    (hselected : ∀ p ∈ s.pages, pageSelection config tags condition s p = true) :
    s.unlinkObjects config tags condition = none := by
  obtain ⟨hcount, htag⟩ := hpage p (by simp [hpages])
  obtain ⟨hcount', htag'⟩ := hpage q (by simp [hpages])
  obtain ⟨c, hunlink, htagOf, hgone⟩ := unlinkTag_of_num_eq_one config (c := s.toTagChains)
    (r := (p, 0)) (htag ▸ ht) (htag ▸ hnum) (htag ▸ hne)
  rw [htag] at hgone
  set s₁ := s.deleted c fun q => decide (q = p) with hs₁
  have hfirst : objectUnlinkCallback config tags condition s p = some s₁ := by
    have hdelete := deletePage_of_count_eq_one config hcount
    rw [hunlink] at hdelete
    exact (if_pos (hselected p (by simp [hpages]))).trans hdelete
  have hsecond : objectUnlinkCallback config tags condition s₁ q = none := by
    have hselect : pageSelection config tags condition s₁ q = true :=
      ((pageSelection_isSelection tags condition).congr s s₁ q htagOf rfl rfl
        (by simp [hs₁, deleted, hpq]) (by simp [hs₁, deleted, hpq])).trans
        (hselected q (by simp [hpages]))
    have hstuck : s₁.unlinkTag config (q, 0) = none := by
      have htq : s₁.tagOf (q, 0) = t := (congrFun htagOf _).trans htag'
      have hgone' : ¬s₁.table.Contains t := hgone
      simp [TagChains.unlinkTag, TagChains.unlink, htq, hgone']
    have hdelete := deletePage_of_count_eq_one (s := s₁) config hcount'
    rw [hstuck] at hdelete
    exact (if_pos hselect).trans hdelete
  simp [unlinkObjects, hpages, hfirst, hsecond]

/-- `enumerate_all()` with `tag_enum_callback()`. -/
def processGettagsCommand (config : TagConfiguration) (s : TagIndex) : Option (List (List UInt8)) :=
    do
  let tags ← (List.range config.numTables).mapM fun i => (s.table.tables i).enumerate
  return (tags.flatten.filter fun t => 0 < s.num t ∧ t ≠ untagged).map s.table.name

theorem Sound.enumerateAll (h : s.Sound config refs fun _ => 0) (hpos : 0 < config.numTables) :
    ∃ tags, (List.range config.numTables).mapM (fun i => (s.table.tables i).enumerate) = some tags ∧
      tags.flatten.Nodup ∧ ∀ t, t ∈ tags.flatten ↔ s.table.Contains t := by
  choose recent old hrepresents hmem using h.indexed.valid.tables
  refine ⟨_, mapM_eq_some fun i _ => (hrepresents i).enumerate, ?_, fun t => ?_⟩
  · rw [← List.flatMap_def, List.nodup_flatMap]
    refine ⟨fun i _ => (hrepresents i).nodup, List.nodup_range.imp fun hne t ht ht' => ?_⟩
    exact hne (((hmem _ t).mp ht).2.symm.trans ((hmem _ t).mp ht').2)
  · simp only [← List.flatMap_def, List.mem_flatMap, List.mem_range, hmem]
    refine ⟨fun ⟨i, _, ht, _⟩ => ht, fun ht => ⟨_, ?_, ht, rfl⟩⟩
    exact Nat.lt_of_le_of_lt Nat.and_le_right (Nat.sub_one_lt_of_lt hpos)

end TagIndex

end CyberCache
