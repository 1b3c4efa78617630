import CyberCache.Tags.IndexInvariant

/-!
# The tag for untagged pages

The tag for untagged pages lives in the same table as all others, under a name of seven bytes.
Requests and pages that use these bytes meet it; all others do not.
-/

namespace CyberCache

namespace TagIndex

variable {config : TagConfiguration} {s s' : TagIndex} {refs : Nat → List TagRef} {p : Nat}

/-- Messages that do not use the name under which the tag for untagged pages is stored. -/
def TagAction.AvoidsUntagged : TagAction → Prop
  | .save _ names | .clean _ names => untaggedName ∉ names
  | _ => True

/-- Such messages that the index can stand. -/
def IsSeparate (s : TagIndex) (a : TagAction) : Prop := s.Fits a ∧ a.AvoidsUntagged

theorem TagAction.AvoidsUntagged.spares {a : TagAction} (h : a.AvoidsUntagged) :
    a.SparesUntagged := by
  cases a with
  | clean mode names => exact h
  | _ => trivial

theorem reaches_saved {actions : List TagAction}
    (hrun : Reaches (step config) IsSeparate (create config) actions s) :
    ∃ refs, s.Sound config refs (fun _ => 0) ∧ s.table.Contains untagged ∧
      ∀ p, untaggedName ∉ s.saved p := by
  refine hrun.invariant (P := fun s => ∃ refs, s.Sound config refs (fun _ => 0) ∧
    s.table.Contains untagged ∧ ∀ p, untaggedName ∉ s.saved p)
    ⟨_, (create_sound config).1, (create_sound config).2, by simp [create]⟩ ?_
  rintro s a s' ⟨refs, h, huntagged, hsaved⟩ ⟨hfits, havoids⟩ hstep
  obtain ⟨refs', h', hcontains, hsaved'⟩ := h.step hfits hstep
  refine ⟨refs', h', hcontains havoids.spares huntagged, fun p => ?_⟩
  rcases hsaved' p with hold | rfl
  · rw [hold]
    exact hsaved p
  · exact havoids

namespace Sound

section

variable (h : s.Sound config refs fun _ => 0)
include h

theorem untagged_not_mem (hp : s.linkedByTM p = true)
    (hne : s.saved p ≠ []) (hsaved : CyberCache.untaggedName ∉ s.saved p) :
    untagged ∉ s.tagsOf p := by
  intro hmem
  obtain ⟨-, hname⟩ := (h.mem_tagsOf hp).mp hmem
  rw [h.untaggedName.2, tagNames, if_neg hne, mem_uniqueNames] at hname
  exact hsaved hname

theorem processGetmetadatasCommand
    (hp : s.linkedByTM p = true) (halive : s.beingDeleted p = false) :
    s.processGetmetadatasCommand config p =
      some (some (((s.tagsOf p).filter (· ≠ untagged)).map s.table.name)) := by
  have htags : ((List.range (s.count p)).map (Prod.mk p)).map s.tagOf = s.tagsOf p := by
    simp [tagsOf]
  have hcontains : ∀ t ∈ s.tagsOf p, s.table.Contains t :=
    fun t ht => ((h.mem_tagsOf hp).mp ht).1
  simp only [TagIndex.processGetmetadatasCommand, halive, hp, tagRefs_eq (h.sized p), htags,
    Option.bind_eq_bind, Option.bind_some, if_pos hcontains, Bool.not_false, Bool.and_self, if_true]
  rfl

theorem map_name_tagsOf (hp : s.linkedByTM p = true) :
    (s.tagsOf p).map s.table.name = tagNames (s.saved p) := by
  rw [← h.names p hp, tagsOf, List.map_map]
  rfl

theorem mem_reported (huntagged : s.table.Contains untagged)
    (hp : s.linkedByTM p = true) (hsaved : CyberCache.untaggedName ∉ s.saved p)
    (name : List UInt8) :
    name ∈ ((s.tagsOf p).filter (· ≠ untagged)).map s.table.name ↔ name ∈ s.saved p := by
  by_cases hne : s.saved p = []
  · simp [(h.wellFormed huntagged).untagged p hp hne, hne]
  · have hfilter : (s.tagsOf p).filter (· ≠ untagged) = s.tagsOf p :=
      List.filter_eq_self.mpr fun t ht => by
        simpa using ne_of_mem_of_not_mem ht (h.untagged_not_mem hp hne hsaved)
    rw [hfilter, h.map_name_tagsOf hp, tagNames, if_neg hne, mem_uniqueNames]

theorem nodup_reported (hp : s.linkedByTM p = true) :
    (((s.tagsOf p).filter (· ≠ untagged)).map s.table.name).Nodup := by
  have hnodup := nodup_tagNames (s.saved p)
  rw [← h.map_name_tagsOf hp] at hnodup
  exact hnodup.sublist (List.filter_sublist.map _)

end

end Sound

theorem untagged_separate {actions : List TagAction}
    (hrun : Reaches (step config) IsSeparate (create config) actions s) :
    s.table.Contains untagged ∧ s.table.IsListed untagged ∧
    (∀ p, s.linkedByTM p = true → s.saved p ≠ [] → untagged ∉ s.tagsOf p) ∧
    ∀ p, s.linkedByTM p = true → s.beingDeleted p = false →
      ∃ reported, s.processGetmetadatasCommand config p = some (some reported) ∧
        reported.Nodup ∧ ∀ name, name ∈ reported ↔ name ∈ s.saved p := by
  obtain ⟨refs, h, huntagged, hsaved⟩ := reaches_saved hrun
  refine ⟨huntagged, h.indexed.valid.isListed_iff.mpr huntagged,
    fun p hp hne => h.untagged_not_mem hp hne (hsaved p), fun p hp halive => ?_⟩
  exact ⟨_, h.processGetmetadatasCommand hp halive, h.nodup_reported hp,
    h.mem_reported huntagged hp (hsaved p)⟩

instance (a : TagAction) : Decidable a.AvoidsUntagged :=
  match a with
  | .save _ _ | .clean _ _ => inferInstanceAs (Decidable (¬_))
  | .createPage _ | .flagPage _ | .disposePage _ | .arrangePages _ | .remove _ | .unlink _ =>
    .isTrue trivial

instance (s : TagIndex) (a : TagAction) : Decidable (s.IsSeparate a) :=
  inferInstanceAs (Decidable (_ ∧ _))

theorem untagged_separate_of_two_pages :
    ∃ s, Reaches (step oneTagTable) IsSeparate (create oneTagTable)
        [.createPage [112], .createPage [113], .save 0 [], .save 1 [[98]], .save 0 [[97]],
          .save 1 []] s ∧
      s.saved 0 = [[97]] ∧ s.linkedByTM 0 = true ∧
      (∀ p, s.linkedByTM p = true → s.saved p ≠ [] → untagged ∉ s.tagsOf p) :=
  ⟨_, Reaches.get_foldlM rfl, rfl, rfl, (untagged_separate (Reaches.get_foldlM rfl)).2.2.1⟩

/-- The first bytes of the reserved name are not reserved, but they are the name of the tag. -/
theorem untagged_shared :
    untaggedName ≠ nameOfTagForUntaggedPages ∧
    ∃ s, Reaches (step oneTagTable) (fun _ _ => True) (create oneTagTable)
        [.createPage [112], .save 0 [untaggedName]] s ∧
      s.linkedByTM 0 = true ∧ s.saved 0 = [untaggedName] ∧ s.tagsOf 0 = [untagged] ∧
      s.processGetmetadatasCommand oneTagTable 0 = some (some []) ∧
      ∃ s', s.step oneTagTable (.clean .matchingAnyTag [untaggedName]) = some s' ∧
        ¬s'.table.Contains untagged :=
  ⟨by decide, _, Reaches.get_foldlM rfl, rfl, rfl, rfl, rfl, _, rfl, by decide⟩

end TagIndex

end CyberCache
