import CyberCache.Lib.Runs
import CyberCache.Tags.Cleaning

/-!
# The invariant of the tag index

Every message keeps `Sound`. There are two ways to break the index. A page with 65536 different tags
has a reference count of zero, as the count has 16 bits. And the tag for untagged pages is stored
under the first seven bytes of its name: a request that names these bytes protects it by a dummy
reference, and the tag is disposed when this is its last one.
-/

namespace CyberCache

namespace TagIndex

variable {config : TagConfiguration} {s s' : TagIndex} {refs : Nat → List TagRef} {p : Nat}

variable {a : TagAction} {actions : List TagAction}

/-! ## Steps -/

theorem create_sound (config : TagConfiguration) :
    (create config).Sound config (fun _ => []) (fun _ => 0) ∧
      (create config).table.Contains untagged := by
  have hempty : (TagTable.empty config).Valid config := TagTable.empty_valid
  have hname : ∀ t, (TagTable.empty config).Contains t →
      (TagTable.empty config).name t ≠ untaggedName := fun t ht => absurd ht.1 (Nat.not_lt_zero _)
  obtain ⟨table, hcreate, hvalid, hnumTags, hdisposed, hkeys⟩ := hempty.create hname
  have htable : (create config).table = table := by simp [create, hcreate]
  have hcontains (t : Nat) : table.Contains t ↔ t = untagged := by
    simp [TagTable.Contains, hnumTags, hdisposed, TagTable.empty, untagged]
  refine ⟨⟨⟨by rwa [htable], by simp, by simp, by simp, by simp, fun t _ => ⟨none, rfl, rfl⟩,
    fun t _ => rfl, by simp [uintRange], fun t ht => ?_⟩, by simp [create], by simp [create,
    ushortRange],
    by simp [create, xtagsFor], by simp [create], ?_, List.nodup_nil, by simp [create],
    by simp [create]⟩, ?_⟩
  · rw [htable, hcontains] at ht
    exact .inl ht
  · rw [htable, hnumTags]
    refine ⟨Nat.succ_pos _, ?_⟩
    rw [TagTable.name, hkeys]
    rfl
  · rw [htable, hcontains]

namespace Sound

section

variable (h : s.Sound config refs fun _ => 0)
include h

theorem createPage (name : List UInt8)
    (hstep : s.step config (.createPage name) = some s') :
    s'.Sound config refs (fun _ => 0) ∧ s'.table = s.table ∧ s'.saved = s.saved := by
  cases hstep
  have hfresh : s.linkedByTM s.numPages = false := by
    rw [Bool.eq_false_iff]
    intro hlinked
    exact absurd (h.lt_of_exists _ (h.exists_of_linked _ hlinked)) (Nat.lt_irrefl _)
  have hsame : Function.update s.linkedByTM s.numPages false = s.linkedByTM := by
    rw [← hfresh, Function.update_eq_self]
  have hne (q : Nat) (hq : s.linkedByTM q = true) : q ≠ s.numPages := by
    rintro rfl
    simp [hfresh] at hq
  refine ⟨⟨h.indexed, fun r => ?_, fun q => ?_, fun q => ?_, fun q hq => ?_, h.untaggedName, ?_,
    fun q hq => ?_, fun q hq => ?_⟩, rfl, rfl⟩
  · simp only [hsame, h.linked]
    constructor
    · rintro ⟨hlinked, hi⟩
      exact ⟨hlinked, by simpa [hne _ hlinked] using hi⟩
    · rintro ⟨hlinked, hi⟩
      exact ⟨hlinked, by simpa [hne _ hlinked] using hi⟩
  · by_cases heq : q = s.numPages
    · simp [heq, ushortRange]
    · simpa [heq] using h.counted q
  · by_cases heq : q = s.numPages
    · simp [heq, xtagsFor]
    · simpa [heq] using h.sized q
  · simp only [hsame] at hq
    simpa [hne q hq] using h.names q hq
  · exact List.nodup_cons.mpr
      ⟨fun hmem => absurd (h.lt_of_exists _ hmem) (Nat.lt_irrefl _), h.nodup⟩
  · simp only [hsame] at hq
    exact List.mem_cons_of_mem _ (h.exists_of_linked q hq)
  · obtain rfl | hmem := List.mem_cons.mp hq
    · exact Nat.lt_succ_self _
    · exact (h.lt_of_exists q hmem).trans (Nat.lt_succ_self _)

theorem disposePage
    (hstep : s.step config (.disposePage p) = some s') :
    s'.Sound config refs (fun _ => 0) ∧ s'.table = s.table ∧ s'.saved = s.saved := by
  obtain ⟨⟨-, -, hlinked⟩, hs'⟩ := Option.ite_none_right_eq_some.mp hstep
  cases hs'
  refine ⟨{ h with
    nodup := h.nodup.erase p
    exists_of_linked := fun q hq => ?_
    lt_of_exists := fun q hq => h.lt_of_exists q (List.mem_of_mem_erase hq) }, rfl, rfl⟩
  refine (List.mem_erase_of_ne ?_).mpr (h.exists_of_linked q hq)
  rintro rfl
  simp [hlinked] at hq

theorem arrangePages {pages : List Nat}
    (hstep : s.step config (.arrangePages pages) = some s') :
    s'.Sound config refs (fun _ => 0) ∧ s'.table = s.table ∧ s'.saved = s.saved := by
  obtain ⟨hperm, hs'⟩ := Option.ite_none_right_eq_some.mp hstep
  cases hs'
  exact ⟨{ h with
    nodup := hperm.nodup_iff.mpr h.nodup
    exists_of_linked := fun q hq => hperm.mem_iff.mpr (h.exists_of_linked q hq)
    lt_of_exists := fun q hq => h.lt_of_exists q (hperm.mem_iff.mp hq) }, rfl, rfl⟩

theorem unlinkIfLinked (p : Nat) :
    ∃ s' refs', s.unlinkIfLinked config p = some s' ∧ s'.Sound config refs' (fun _ => 0) ∧
      (s.table.Contains untagged → s'.table.Contains untagged) ∧ s'.saved = s.saved := by
  cases hp : s.linkedByTM p with
  | false => exact ⟨s, refs, by simp [TagIndex.unlinkIfLinked, hp], h, id, rfl⟩
  | true =>
    obtain ⟨c, hunlink, h', hshrinks⟩ := h.unlinkObjectTags hp
    exact ⟨_, _, by simpa [TagIndex.unlinkIfLinked, hp] using hunlink, h',
      fun huntagged => hshrinks.keeps _ huntagged (.inl rfl), rfl⟩

theorem save (hp : p ∈ s.pages) {names : List (List UInt8)}
    (hfits : names.toFinset.card < ushortRange) (hroom : s.HasRoom 1)
    (huntagged : names = [] → s.table.Contains untagged) :
    ∃ s' refs', s.processSaveCommand config p names = some s' ∧ s'.Sound config refs' (fun _ => 0) ∧
      (s.table.Contains untagged → s'.table.Contains untagged) ∧
      ∀ q, s'.saved q = s.saved q ∨ q = p ∧ s'.saved q = names := by
  by_cases hgone : s.linkedByTM p = false ∧ s.beingDeleted p = true
  · exact ⟨s, refs, if_pos hgone, h, id, fun _ => .inl rfl⟩
  · obtain ⟨c, refs', hsave, h', hcontains⟩ := h.processSaveCommand hp hgone huntagged hroom
    refine ⟨_, refs', hsave, h' ?_, hcontains, fun q => ?_⟩
    swap
    · by_cases heq : q = p <;> simp [TagIndex.saveResult, heq]
    rw [length_tagNames]
    split_ifs
    · simp [ushortRange]
    · exact hfits

end

end Sound

theorem Sound.contains_untagged_of_save (h : s.Sound config refs fun _ => 0)
    (halive : ¬(s.linkedByTM p = false ∧ s.beingDeleted p = true))
    (hsave : s.processSaveCommand config p [] = some s') : s.table.Contains untagged := by
  obtain ⟨empties, c, hunlink, -, htable, -⟩ := h.unlinkExistingTags p
  by_contra hnot
  rw [← htable] at hnot
  have hnum := setNumTagRefs_eq (s := { s with toTagChains := c }) (h.sized p) (h.counted p) 1
  simp [TagIndex.processSaveCommand, halive, hunlink, TagIndex.linkTags, hnum, getTagRef,
    config.numInternalTagRefs_pos, TagChains.link, hnot] at hsave

/-- A page has fewer different tags than its reference count can tell, and the numbers of references
can tell how many pages and dummy references a tag has; a request adds two of them at most. -/
def Fits (s : TagIndex) : TagAction → Prop
  | .save _ names => names.toFinset.card < ushortRange ∧ s.HasRoom 1
  | .clean _ _ => s.HasRoom 2
  | _ => True

/-- Messages that do not request the tag for untagged pages. -/
def TagAction.SparesUntagged : TagAction → Prop
  | .clean _ names => untaggedName ∉ names
  | _ => True

/-- Messages that the index can stand. -/
def IsAdmitted (s : TagIndex) (a : TagAction) : Prop := s.Fits a ∧ a.SparesUntagged

/-- Messages about pages that exist, and changes of pages that the others make. -/
def IsPossible (s : TagIndex) : TagAction → Prop
  | .createPage _ => True
  | .flagPage page => page ∈ s.pages
  | .disposePage page => page ∈ s.pages ∧ s.beingDeleted page ∧ s.linkedByTM page = false
  | .arrangePages pages => pages.Perm s.pages
  | .save page _ => page ∈ s.pages
  | .remove page => page ∈ s.pages
  | .unlink page => page ∈ s.pages
  | .clean _ _ => True

theorem Sound.step (h : s.Sound config refs fun _ => 0) (hfits : s.Fits a)
    (hstep : s.step config a = some s') :
    ∃ refs', s'.Sound config refs' (fun _ => 0) ∧
      (a.SparesUntagged → s.table.Contains untagged → s'.table.Contains untagged) ∧
      ∀ q, s'.saved q = s.saved q ∨ a = .save q (s'.saved q) := by
  cases a with
  | createPage name =>
    obtain ⟨h', htable, hsaved⟩ := h.createPage name hstep
    exact ⟨refs, h', fun _ huntagged => htable ▸ huntagged, fun q => .inl (congrFun hsaved q)⟩
  | flagPage page =>
    obtain ⟨-, hs'⟩ := Option.ite_none_right_eq_some.mp hstep
    cases hs'
    exact ⟨refs, { h with }, fun _ huntagged => huntagged, fun q => .inl rfl⟩
  | disposePage page =>
    obtain ⟨h', htable, hsaved⟩ := h.disposePage hstep
    exact ⟨refs, h', fun _ huntagged => htable ▸ huntagged, fun q => .inl (congrFun hsaved q)⟩
  | arrangePages pages =>
    obtain ⟨h', htable, hsaved⟩ := h.arrangePages hstep
    exact ⟨refs, h', fun _ huntagged => htable ▸ huntagged, fun q => .inl (congrFun hsaved q)⟩
  | save page names =>
    obtain ⟨hpage, hs'⟩ := Option.ite_none_right_eq_some.mp hstep
    by_cases hgone : s.linkedByTM page = false ∧ s.beingDeleted page = true
    · rw [TagIndex.processSaveCommand, if_pos hgone, Option.some.injEq] at hs'
      exact ⟨refs, hs' ▸ h, fun _ huntagged => hs' ▸ huntagged, fun q => .inl (by rw [hs'])⟩
    · have huntagged : names = [] → s.table.Contains untagged := by
        rintro rfl
        exact h.contains_untagged_of_save hgone hs'
      obtain ⟨s'', refs', hsave, h', hcontains, hsaved⟩ := h.save hpage hfits.1 hfits.2 huntagged
      obtain rfl := Option.some.inj (hs'.symm.trans hsave)
      refine ⟨refs', h', fun _ => hcontains, fun q => ?_⟩
      obtain hold | ⟨rfl, hnew⟩ := hsaved q
      · exact .inl hold
      · exact .inr (by rw [hnew])
  | remove page =>
    obtain ⟨-, hs'⟩ := Option.ite_none_right_eq_some.mp hstep
    obtain ⟨s'', refs', hremove, h', hcontains, hsaved⟩ := h.unlinkIfLinked page
    obtain rfl := Option.some.inj (hs'.symm.trans hremove)
    exact ⟨refs', h', fun _ => hcontains, fun q => .inl (congrFun hsaved q)⟩
  | unlink page =>
    obtain ⟨-, hs'⟩ := Option.ite_none_right_eq_some.mp hstep
    obtain ⟨s'', refs', hunlink, h', hcontains, hsaved⟩ := h.unlinkIfLinked page
    obtain rfl := Option.some.inj (hs'.symm.trans hunlink)
    exact ⟨refs', h', fun _ => hcontains, fun q => .inl (congrFun hsaved q)⟩
  | clean mode names =>
    obtain ⟨c, gone, hclean, h', hcontains, -⟩ := h.cleans_processCleanCommand hfits mode names
    obtain rfl := Option.some.inj (hstep.symm.trans hclean)
    exact ⟨_, h', hcontains, fun q => .inl rfl⟩

/-- No message that can come is stuck: chains end, and no tag is used after it was disposed. -/
theorem Sound.step_isSome (h : s.Sound config refs fun _ => 0)
    (huntagged : s.table.Contains untagged) (hpossible : s.IsPossible a)
    (hadmitted : s.IsAdmitted a) : (s.step config a).isSome = true := by
  cases a with
  | createPage name => rfl
  | flagPage page =>
    have hpage : page ∈ s.pages := hpossible
    simp [TagIndex.step, hpage]
  | disposePage page =>
    have hpage : page ∈ s.pages ∧ s.beingDeleted page ∧ s.linkedByTM page = false := hpossible
    simp [TagIndex.step, hpage]
  | arrangePages pages =>
    have hperm : pages.Perm s.pages := hpossible
    simp [TagIndex.step, hperm]
  | save page names =>
    have hpage : page ∈ s.pages := hpossible
    obtain ⟨s', refs', hsave, -⟩ := h.save hpage hadmitted.1.1 hadmitted.1.2 fun _ => huntagged
    simp [TagIndex.step, hpage, hsave]
  | remove page =>
    have hpage : page ∈ s.pages := hpossible
    obtain ⟨s', refs', hremove, -⟩ := h.unlinkIfLinked page
    simp [TagIndex.step, hpage, processRemoveCommand, hremove]
  | unlink page =>
    have hpage : page ∈ s.pages := hpossible
    obtain ⟨s', refs', hunlink, -⟩ := h.unlinkIfLinked page
    simp [TagIndex.step, hpage, unlinkObject, hunlink]
  | clean mode names =>
    obtain ⟨c, gone, hclean, -⟩ := h.cleans_processCleanCommand hadmitted.1 mode names
    simp [TagIndex.step, hclean]

/-! ## Runs -/

theorem reaches_sound
    (hrun : Reaches (step config) IsAdmitted (create config) actions s) :
    ∃ refs, s.Sound config refs (fun _ => 0) ∧ s.table.Contains untagged := by
  refine hrun.invariant (P := fun s => ∃ refs, s.Sound config refs (fun _ => 0) ∧
    s.table.Contains untagged) ⟨_, create_sound config⟩ ?_
  rintro s a s' ⟨refs, h, huntagged⟩ hadmitted hstep
  obtain ⟨refs', h', hcontains, -⟩ := h.step hadmitted.1 hstep
  exact ⟨refs', h', hcontains hadmitted.2 huntagged⟩

theorem reaches_sound_of_fits
    (hrun : Reaches (step config) Fits (create config) actions s) :
    ∃ refs, s.Sound config refs (fun _ => 0) := by
  refine hrun.invariant (P := fun s => ∃ refs, s.Sound config refs (fun _ => 0))
    ⟨_, (create_sound config).1⟩ ?_
  rintro s a s' ⟨refs, h⟩ hfits hstep
  obtain ⟨refs', h', -⟩ := h.step hfits hstep
  exact ⟨refs', h'⟩

/-- The index as it should be, with the chains of all tags. -/
structure WellFormed (s : TagIndex) (refs : Nat → List TagRef) : Prop where
  chain : ∀ t, s.table.IsListed t → s.links.IsChain (s.first t) (refs t) ∧ (refs t).Nodup
  num : ∀ t, s.table.IsListed t → s.num t = (refs t).length
  used : ∀ t, s.table.IsListed t → t ≠ untagged → refs t ≠ []
  count : ∀ p, s.linkedByTM p = true →
    1 ≤ s.count p ∧ s.count p = if s.saved p = [] then 1 else (s.saved p).toFinset.card
  tags : ∀ p, s.linkedByTM p = true → (s.tagsOf p).Nodup ∧ ∀ t ∈ s.tagsOf p, s.table.IsListed t
  linked : ∀ p t, s.linkedByTM p = true → s.table.IsListed t →
    ((refs t).map Prod.fst).count p = if t ∈ s.tagsOf p then 1 else 0
  notLinked : ∀ p t, s.linkedByTM p = false → s.table.IsListed t → p ∉ (refs t).map Prod.fst
  untagged : ∀ p, s.linkedByTM p = true → s.saved p = [] → s.tagsOf p = [CyberCache.untagged]
  untaggedListed : s.table.IsListed CyberCache.untagged

namespace Sound

theorem wellFormed (h : s.Sound config refs fun _ => 0) (huntagged : s.table.Contains untagged) :
    s.WellFormed refs := by
  have hlisted (t : Nat) : s.table.IsListed t ↔ s.table.Contains t := h.indexed.valid.isListed_iff
  constructor
  case chain =>
    intro t ht
    exact ⟨h.indexed.chain t ((hlisted t).mp ht), h.indexed.nodup t⟩
  case num =>
    intro t ht
    simpa using h.indexed.num t ((hlisted t).mp ht)
  case used =>
    intro t ht hne
    simpa [hne] using h.indexed.used t ((hlisted t).mp ht)
  case count =>
    intro p hp
    exact ⟨h.count_pos hp, by rw [h.count_eq hp, length_tagNames]⟩
  case tags =>
    intro p hp
    refine ⟨h.nodup_tags hp, fun t ht => (hlisted t).mpr ?_⟩
    exact ((h.mem_tagsOf hp).mp ht).1
  case linked =>
    intro p t hp _
    have hmem : p ∈ (refs t).map Prod.fst ↔ t ∈ s.tagsOf p := by simp [h.mem_chain_iff, hp]
    split_ifs with ht
    · exact List.count_eq_one_of_mem (h.nodup_pages t) (hmem.mpr ht)
    · exact List.count_eq_zero.mpr (mt hmem.mp ht)
  case notLinked =>
    intro p t hp _ hmem
    have hlinked := (h.mem_chain_iff.mp hmem).1
    simp [hp] at hlinked
  case untagged =>
    intro p hp hsaved
    have hnames := h.names p hp
    have hcount : s.count p = 1 := by simp [h.count_eq hp, hsaved, tagNames]
    have hname : s.table.name (s.tagOf (p, 0)) = s.table.name CyberCache.untagged := by
      simpa [hcount, hsaved, tagNames, h.untaggedName.2] using hnames
    have htag := h.indexed.valid.unique _ _ (h.contains_tagOf hp (by simp [hcount])) huntagged hname
    simp [tagsOf, hcount, htag]
  case untaggedListed => exact (hlisted _).mpr huntagged

end Sound

theorem index_wellFormed
    (hrun : Reaches (step config) IsAdmitted (create config) actions s) :
    (∃ refs, s.WellFormed refs) ∧
      ∀ a, s.IsPossible a → s.IsAdmitted a → (s.step config a).isSome = true := by
  obtain ⟨refs, h, huntagged⟩ := reaches_sound hrun
  exact ⟨⟨refs, h.wellFormed huntagged⟩, fun a => h.step_isSome huntagged⟩

def oneTagTable : TagConfiguration :=
  ⟨1, ⟨0, fun n => n / 2⟩, 0, fun name => UInt64.ofNat (name.map UInt8.toNat).sum, 1, Nat.one_pos⟩

instance (s : TagIndex) (n : Nat) : Decidable (s.HasRoom n) :=
  inferInstanceAs (Decidable (∀ t < s.table.numTags, _))

instance (s : TagIndex) (a : TagAction) : Decidable (s.Fits a) :=
  match a with
  | .save _ _ => inferInstanceAs (Decidable (_ ∧ _))
  | .clean _ _ => inferInstanceAs (Decidable (s.HasRoom 2))
  | .createPage _ | .flagPage _ | .disposePage _ | .arrangePages _ | .remove _ | .unlink _ =>
    .isTrue trivial

instance (a : TagAction) : Decidable a.SparesUntagged :=
  match a with
  | .clean _ _ => inferInstanceAs (Decidable (¬_))
  | .createPage _ | .flagPage _ | .disposePage _ | .arrangePages _ | .save _ _ | .remove _
  | .unlink _ => .isTrue trivial

instance (s : TagIndex) (a : TagAction) : Decidable (s.IsAdmitted a) :=
  inferInstanceAs (Decidable (_ ∧ _))

theorem index_wellFormed_of_two_pages :
    ∃ s, Reaches (step oneTagTable) IsAdmitted (create oneTagTable)
        [.createPage [112], .createPage [113], .save 0 [[97], [98], [97]], .save 1 [],
          .save 1 [[98]], .save 0 [], .clean .matchingAllTags [[98]]] s ∧
      s.tagsOf 0 = [untagged] ∧ s.beingDeleted 1 = true ∧ (∃ refs, s.WellFormed refs) :=
  ⟨_, Reaches.get_foldlM rfl, rfl, rfl, (index_wellFormed (Reaches.get_foldlM rfl)).1⟩

/-! ## What breaks the index -/

def manyNames : List (List UInt8) :=
  (List.range ushortRange).map fun i => [UInt8.ofNat (i / 256), UInt8.ofNat i]

theorem card_manyNames : manyNames.toFinset.card = ushortRange := by
  have hnodup : manyNames.Nodup := by
    refine List.Nodup.map_on (fun i hi j hj heq => ?_) List.nodup_range
    simp only [List.mem_range, ushortRange] at hi hj
    simp only [List.cons.injEq, ← UInt8.toNat_inj, UInt8.toNat_ofNat', and_true] at heq
    omega
  rw [List.toFinset_card_of_nodup hnodup, manyNames, List.length_map, List.length_range]

theorem length_tagNames_manyNames : (tagNames manyNames).length = ushortRange := by
  have hnil : manyNames ≠ [] := by
    intro hnil
    simpa [hnil, ushortRange] using card_manyNames
  rw [length_tagNames, if_neg hnil, card_manyNames]

theorem index_broken :
    (∃ s, Reaches (step oneTagTable) (fun _ _ => True) (create oneTagTable)
        [.createPage [112], .save 0 manyNames] s ∧
      s.linkedByTM 0 = true ∧ s.count 0 = 0 ∧ ¬∃ refs, s.WellFormed refs) ∧
    ∃ s, Reaches (step oneTagTable) (fun _ _ => True) (create oneTagTable)
        [.createPage [112], .clean .matchingAnyTag [untaggedName]] s ∧
      s.step oneTagTable (.save 0 []) = none ∧ ¬∃ refs, s.WellFormed refs := by
  constructor
  · obtain ⟨s, hs⟩ : ∃ s, (create oneTagTable).step oneTagTable (.createPage [112]) = some s :=
      ⟨_, rfl⟩
    have hpages : 0 ∈ s.pages ∧ s.beingDeleted 0 = false := by
      cases hs
      exact ⟨by decide, rfl⟩
    obtain ⟨h, -, -⟩ := (create_sound oneTagTable).1.createPage [112] hs
    have hnil : manyNames = [] → s.table.Contains untagged := by
      intro hnil
      simpa [hnil, ushortRange] using card_manyNames
    have hroom : s.HasRoom 1 := by
      cases hs
      decide
    obtain ⟨c, refs, hsave, -⟩ := h.processSaveCommand hpages.1 (by simp [hpages]) hnil hroom
    have hcount : (saveResult oneTagTable s c 0 manyNames).count 0 = 0 := by
      simp [saveResult, length_tagNames_manyNames]
    have hlinked : (saveResult oneTagTable s c 0 manyNames).linkedByTM 0 = true := by
      simp [saveResult]
    refine ⟨_, .snoc (.snoc .nil trivial hs) trivial ?_, hlinked, hcount, ?_⟩
    · rw [step, if_pos hpages.1, hsave]
    · rintro ⟨refs, hwell⟩
      have hpos := (hwell.count 0 hlinked).1
      omega
  · obtain ⟨s, hrun, hfits, hstuck, hgone⟩ : ∃ s,
        Reaches (step oneTagTable) (fun _ _ => True) (create oneTagTable)
          [.createPage [112], .clean .matchingAnyTag [untaggedName]] s ∧
        Reaches (step oneTagTable) Fits (create oneTagTable)
          [.createPage [112], .clean .matchingAnyTag [untaggedName]] s ∧
        s.step oneTagTable (.save 0 []) = none ∧ ¬s.table.Contains untagged :=
      ⟨_, Reaches.get_foldlM rfl, .snoc (.snoc .nil trivial rfl) (by decide) rfl, rfl, by decide⟩
    refine ⟨s, hrun, hstuck, ?_⟩
    rintro ⟨refs, hwell⟩
    obtain ⟨refs', h⟩ := reaches_sound_of_fits hfits
    exact hgone (h.indexed.valid.isListed_iff.mp hwell.untaggedListed)

end TagIndex

end CyberCache
