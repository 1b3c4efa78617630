import CyberCache.Lib.Printf

/-!
# Templates of rotated logs

`LogUtils::get_log_rotation_type()` looks for the only placeholder of a template. The `break` behind
a placeholder or a doubled percent sign leaves the inner `switch` only, so that control falls
through to `default:` and the character behind is passed over without being examined; at the end of
the template it is the terminating zero that is passed over. `withoutFollowers` is what the function
gets to see.
-/

namespace CyberCache

open Printf

/-- `MAX_FILE_PATH_LENGTH`. -/
def maxFilePathLength : Nat := 4096

/-- `MAX_FILE_PATH_LENGTH - TIMER_FORMAT_STRING_LENGTH - PRECISION_TIMER_STRING_LENGTH - 6`. -/
def maxTemplateLength : Nat := maxFilePathLength - 20 - 20 - 6

inductive RotationType where
  | invalid
  | timestamp
  | datetime
deriving DecidableEq, Repr

namespace LogUtils

variable {found : List Conversion} {path : List UInt8}

/-- The loop of `get_log_rotation_type()`. The flag tells that `default:` is reached by falling
through, and another character will be passed over; `none` if a character behind the terminating
zero is examined. -/
def scanTemplate : Bool → RotationType → List UInt8 → Option RotationType
  | true, _, [] => none
  | true, type, _ :: path => scanTemplate false type path
  | false, type, [] => some type
  | false, type, [c] => some (if c = percent then .invalid else type)
  | false, type, c :: e :: path =>
    if c = percent then
      if e = percent then scanTemplate true type path
      else if e = 'd'.toUInt8 then
        if type = .invalid then scanTemplate true .timestamp path else some .invalid
      else if e = 's'.toUInt8 then
        if type = .invalid then scanTemplate true .datetime path else some .invalid
      else some .invalid
    else scanTemplate false type (e :: path)

def getLogRotationType : Option CString → Option RotationType
  | none => some .invalid
  | some path =>
    if path.chars ≠ [] ∧ path.chars.length < maxTemplateLength then
      scanTemplate false .invalid path.chars
    else some .invalid

/-! ## What the templates mean -/

def typeOf : List Conversion → RotationType
  | [.d] => .timestamp
  | [.s] => .datetime
  | _ => .invalid

/-- The type of a template, read as a format of `printf()`: it has one conversion, and all other
percent signs are doubled. -/
def templateType (path : List UInt8) : RotationType :=
  (conversions path).elim .invalid typeOf

/-! ## What the function sees of them -/

def isPair (c e : UInt8) : Bool :=
  c = percent ∧ (e = percent ∨ (conversionOf e).isSome)

/-- The template without the characters that stand directly behind a placeholder or a doubled
percent sign. -/
def withoutFollowers : Bool → List UInt8 → List UInt8
  | true, [] => []
  | true, _ :: path => withoutFollowers false path
  | false, [] => []
  | false, [c] => [c]
  | false, c :: e :: path =>
    if isPair c e then c :: e :: withoutFollowers true path
    else c :: withoutFollowers false (e :: path)

/-- The template ends with a placeholder or a doubled percent sign. -/
def lacksFollower : Bool → List UInt8 → Bool
  | true, [] => true
  | true, _ :: path => lacksFollower false path
  | false, [] => false
  | false, [_] => false
  | false, c :: e :: path =>
    if isPair c e then lacksFollower true path else lacksFollower false (e :: path)

def outcome (found : List Conversion) (lacks : Bool) : Option (List Conversion) →
    Option RotationType
  | none => some .invalid
  | some l =>
    if (found ++ l).length ≤ 1 then if lacks then none else some (typeOf (found ++ l))
    else some .invalid

theorem outcome_cons (found : List Conversion) (lacks : Bool) (k : Conversion)
    (l : Option (List Conversion)) :
    outcome found lacks (l.map (k :: ·)) = outcome (found ++ [k]) lacks l := by
  cases l with
  | none => rfl
  | some l => simp [outcome]

theorem outcome_of_two (k k' : Conversion) (lacks : Bool) (l : Option (List Conversion)) :
    outcome ([k] ++ [k']) lacks l = some .invalid := by
  cases l with
  | none => rfl
  | some l => simp [outcome]

theorem withoutFollowers_cons (e : UInt8) (path : List UInt8) :
    ∃ rest, withoutFollowers false (e :: path) = e :: rest := by
  cases path with
  | nil => exact ⟨[], rfl⟩
  | cons c path =>
    rw [withoutFollowers]
    split_ifs
    · exact ⟨_, rfl⟩
    · exact ⟨_, rfl⟩

theorem typeOf_eq_invalid (hfound : found.length ≤ 1) :
    typeOf found = .invalid ↔ found = [] := by
  match found, hfound with
  | [], _ => simp [typeOf]
  | [.d], _ => simp [typeOf]
  | [.s], _ => simp [typeOf]

theorem scan_conversion (hfound : found.length ≤ 1) {e : UInt8}
    {k : Conversion} (he : conversionOf e = some k)
    (ih : ∀ found : List Conversion, found.length ≤ 1 → scanTemplate true (typeOf found) path =
      outcome found (lacksFollower true path) (conversions (withoutFollowers true path))) :
    (if typeOf found = .invalid then scanTemplate true (typeOf [k]) path else some .invalid) =
      outcome found (lacksFollower true path)
        (conversions (percent :: e :: withoutFollowers true path)) := by
  rw [conversions_percent he, outcome_cons]
  split_ifs with hnone
  · obtain rfl := (typeOf_eq_invalid hfound).mp hnone
    exact ih [k] (Nat.le_refl _)
  · obtain ⟨k', rfl⟩ : ∃ k', found = [k'] := by
      rw [typeOf_eq_invalid hfound] at hnone
      exact List.length_eq_one_iff.mp (by have := List.length_pos_iff.mpr hnone; omega)
    rw [outcome_of_two]

/-- The function judges the template by the characters that it sees. -/
theorem scanTemplate_eq (skip : Bool) (path : List UInt8) (hfound : found.length ≤ 1) :
    scanTemplate skip (typeOf found) path =
      outcome found (lacksFollower skip path) (conversions (withoutFollowers skip path)) := by
  induction skip, path using withoutFollowers.induct generalizing found with
  | case1 => simp [scanTemplate, lacksFollower, withoutFollowers, conversions, outcome, hfound]
  | case2 c path ih =>
    rw [scanTemplate, lacksFollower, withoutFollowers]
    exact ih hfound
  | case3 => simp [scanTemplate, lacksFollower, withoutFollowers, conversions, outcome, hfound]
  | case4 c =>
    rw [scanTemplate, lacksFollower, withoutFollowers, conversions]
    split_ifs <;> simp [outcome, hfound]
  | case5 c e path hpair ih =>
    obtain ⟨rfl, he⟩ : c = percent ∧ (e = percent ∨ (conversionOf e).isSome) := by
      simpa [isPair] using hpair
    rw [scanTemplate, lacksFollower, withoutFollowers, if_pos rfl, if_pos hpair, if_pos hpair]
    by_cases hpercent : e = percent
    · subst hpercent
      rw [if_pos rfl, conversions_percent_percent]
      exact ih hfound
    · rw [if_neg hpercent]
      obtain ⟨k, hk⟩ := Option.isSome_iff_exists.mp (he.resolve_left hpercent)
      have hstep := scan_conversion hfound hk fun found hle => ih hle
      unfold conversionOf at hk
      split_ifs at hk with hd hs
      · cases hk
        rw [if_pos hd]
        exact hstep
      · cases hk
        rw [if_neg hd, if_pos hs]
        exact hstep
  | case6 c e path hpair ih =>
    rw [scanTemplate, lacksFollower, withoutFollowers, if_neg hpair, if_neg hpair]
    by_cases hc : c = percent
    · subst hc
      obtain ⟨hne, hnone⟩ : e ≠ percent ∧ conversionOf e = none := by
        simpa [isPair] using hpair
      obtain ⟨rest, hrest⟩ := withoutFollowers_cons e path
      have hletters : e ≠ 'd'.toUInt8 ∧ e ≠ 's'.toUInt8 := by
        unfold conversionOf at hnone
        split_ifs at hnone with hd hs
        exact ⟨hd, hs⟩
      rw [if_pos rfl, if_neg hne, if_neg hletters.1, if_neg hletters.2, hrest,
        conversions_percent_none hne hnone]
      rfl
    · rw [if_neg hc, conversions_cons_of_ne hc]
      exact ih hfound

/-- What the function sees is enough: it does not look for a character behind a template that could
be valid, and what it passes over makes no difference. -/
structure ReadsRight (path : List UInt8) : Prop where
  follower : lacksFollower false path = true →
    (conversions (withoutFollowers false path)).all (fun l => 1 < l.length) = true
  type_eq : templateType (withoutFollowers false path) = templateType path

instance (path : List UInt8) : Decidable (ReadsRight path) :=
  decidable_of_iff (_ ∧ _) ⟨fun h => ⟨h.1, h.2⟩, fun h => ⟨h.1, h.2⟩⟩

theorem typeOf_of_two {l : List Conversion} (hl : 1 < l.length) : typeOf l = .invalid := by
  match l, hl with
  | _ :: _ :: _, _ => simp [typeOf]

theorem outcome_eq_iff (path : List UInt8) :
    outcome [] (lacksFollower false path) (conversions (withoutFollowers false path)) =
      some (templateType path) ↔ ReadsRight path := by
  have hreads : ReadsRight path ↔ _ ∧ _ := ⟨fun h => ⟨h.1, h.2⟩, fun h => ⟨h.1, h.2⟩⟩
  have hseen : templateType (withoutFollowers false path) =
      (conversions (withoutFollowers false path)).elim .invalid typeOf := rfl
  rw [hreads, hseen]
  cases conversions (withoutFollowers false path) with
  | none => simp [outcome]
  | some l =>
    simp only [outcome, List.nil_append, Option.all_some, decide_eq_true_eq, Option.elim_some]
    obtain hle | hlt := Nat.lt_or_ge 1 l.length
    · rw [if_neg (Nat.not_le.mpr hle), typeOf_of_two hle, Option.some.injEq]
      exact ⟨fun h => ⟨fun _ => hle, h⟩, fun h => h.2⟩
    · rw [if_pos hlt]
      cases lacksFollower false path with
      | false => simp
      | true => simp [hlt]

theorem scanTemplate_eq_outcome (path : List UInt8) :
    scanTemplate false .invalid path =
      outcome [] (lacksFollower false path) (conversions (withoutFollowers false path)) := by
  have hnone : ([] : List Conversion).length ≤ 1 := Nat.zero_le 1
  exact scanTemplate_eq false path hnone

/-- Behind every placeholder and every doubled percent sign there is a character other than a
percent sign. -/
def plainFollowers : Bool → List UInt8 → Bool
  | true, [] => false
  | true, c :: path => c ≠ percent && plainFollowers false path
  | false, [] => true
  | false, [_] => true
  | false, c :: e :: path =>
    if isPair c e then plainFollowers true path else plainFollowers false (e :: path)

theorem conversions_withoutFollowers {skip : Bool} (h : plainFollowers skip path = true) :
    conversions (withoutFollowers skip path) = conversions path ∧
    lacksFollower skip path = false := by
  induction skip, path using withoutFollowers.induct with
  | case1 => simp [plainFollowers] at h
  | case2 c path ih =>
    rw [plainFollowers, Bool.and_eq_true, decide_eq_true_eq] at h
    rw [withoutFollowers, lacksFollower, conversions_cons_of_ne h.1]
    exact ih h.2
  | case3 => exact ⟨rfl, rfl⟩
  | case4 c => exact ⟨rfl, rfl⟩
  | case5 c e path hpair ih =>
    rw [plainFollowers, if_pos hpair] at h
    obtain ⟨hconversions, hlacks⟩ := ih h
    obtain ⟨rfl, he⟩ : c = percent ∧ (e = percent ∨ (conversionOf e).isSome) := by
      simpa [isPair] using hpair
    rw [withoutFollowers, lacksFollower, if_pos hpair, if_pos hpair, conversions, conversions,
      hconversions]
    exact ⟨rfl, hlacks⟩
  | case6 c e path hpair ih =>
    rw [plainFollowers, if_neg hpair] at h
    obtain ⟨hconversions, hlacks⟩ := ih h
    rw [withoutFollowers, lacksFollower, if_neg hpair, if_neg hpair]
    refine ⟨?_, hlacks⟩
    by_cases hc : c = percent
    · subst hc
      obtain ⟨hne, hnone⟩ : e ≠ percent ∧ conversionOf e = none := by
        simpa [isPair] using hpair
      obtain ⟨rest, hrest⟩ := withoutFollowers_cons e path
      rw [hrest, conversions_percent_none hne hnone, conversions_percent_none hne hnone]
    · rw [conversions_cons_of_ne hc, conversions_cons_of_ne hc, hconversions]

/-- Templates of the usual form are judged right. -/
theorem readsRight_of_plainFollowers (h : plainFollowers false path = true) :
    ReadsRight path := by
  obtain ⟨hconversions, hlacks⟩ := conversions_withoutFollowers h
  refine ⟨fun hfollower => ?_, ?_⟩
  · rw [hlacks] at hfollower
    cases hfollower
  · rw [templateType, templateType, hconversions]

/-- A format goes with the argument that `rotate_log()` passes for the type. -/
def FitsArgument (path : List UInt8) (type : RotationType) : Prop :=
  (type = .timestamp → conversions path = some [.d]) ∧
  (type = .datetime → conversions path = some [.s])

theorem fitsArgument_templateType (path : List UInt8) : FitsArgument path (templateType path) := by
  unfold FitsArgument templateType
  cases conversions path with
  | none => simp
  | some l =>
    match l with
    | [] => simp [typeOf]
    | [.d] => simp [typeOf]
    | [.s] => simp [typeOf]
    | _ :: _ :: _ => simp [typeOf]

/-- A template is judged by what it means, and `rotate_log()` gets a format for its argument,
exactly if what is passed over makes no difference. -/
theorem getLogRotationType_exact_iff {path : CString}
    (hlength : path.chars.length < maxTemplateLength) :
    (getLogRotationType (some path) = some (templateType path.chars) ∧
      ∀ type, getLogRotationType (some path) = some type → FitsArgument path.chars type) ↔
      ReadsRight path.chars := by
  have htype : getLogRotationType (some path) = scanTemplate false .invalid path.chars := by
    rw [getLogRotationType]
    split_ifs with h
    · rfl
    · have hempty : path.chars = [] := by_contra fun hne => h ⟨hne, hlength⟩
      rw [hempty]
      rfl
  rw [htype, scanTemplate_eq_outcome, outcome_eq_iff]
  constructor
  · exact fun h => h.1
  · intro h
    refine ⟨h, fun type heq => ?_⟩
    rw [(outcome_eq_iff path.chars).mpr h, Option.some.injEq] at heq
    exact heq ▸ fitsArgument_templateType path.chars

def text (s : String) : List UInt8 := s.toList.map Char.toUInt8

theorem getLogRotationType_of_log_file :
    getLogRotationType (some ⟨text "c3-%d.log", by decide⟩) = some .timestamp := by
  have hreads : ReadsRight (text "c3-%d.log") := readsRight_of_plainFollowers (by decide)
  have hlength : (⟨text "c3-%d.log", by decide⟩ : CString).chars.length < maxTemplateLength := by
    decide
  rw [((getLogRotationType_exact_iff hlength).mpr hreads).1]
  decide

/-- Two placeholders are taken for one, and a template that ends with its placeholder is read on
behind its end. -/
theorem template_misjudged :
    getLogRotationType (some ⟨text "%d%s", by decide⟩) = some .timestamp ∧
      conversions (text "%d%s") = some [.d, .s] ∧
      getLogRotationType (some ⟨text "c3.%d", by decide⟩) = none ∧
      conversions (text "c3.%d") = some [.d] := by
  decide

end LogUtils

end CyberCache
