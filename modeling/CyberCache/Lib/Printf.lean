import CyberCache.Lib.CStrings

/-!
# Formats of `printf()`

A format is read from left to right: two percent signs stand for one, and a percent sign with a
letter is a conversion that takes the next argument. Only the conversions `%d` and `%s` are
considered; everything else is undefined.
-/

namespace Printf

inductive Conversion where
  | d
  | s
deriving DecidableEq, Repr

def percent : UInt8 := '%'.toUInt8

def conversionOf (c : UInt8) : Option Conversion :=
  if c = 'd'.toUInt8 then some .d else if c = 's'.toUInt8 then some .s else none

/-- The conversions of a format; `none` if a percent sign belongs to nothing else. -/
def conversions : List UInt8 → Option (List Conversion)
  | [] => some []
  | [c] => if c = percent then none else some []
  | c :: e :: rest =>
    if c = percent then
      if e = percent then conversions rest
      else (conversionOf e).bind fun k => (conversions rest).map (k :: ·)
    else conversions (e :: rest)

theorem conversions_cons_of_ne {c : UInt8} (hc : c ≠ percent) (rest : List UInt8) :
    conversions (c :: rest) = conversions rest := by
  cases rest with
  | nil => simp [conversions, hc]
  | cons e rest => rw [conversions, if_neg hc]

theorem conversions_percent_percent (rest : List UInt8) :
    conversions (percent :: percent :: rest) = conversions rest := by
  rw [conversions, if_pos rfl, if_pos rfl]

theorem conversionOf_percent : conversionOf percent = none := by decide

theorem conversions_percent {e : UInt8} {k : Conversion} (he : conversionOf e = some k)
    (rest : List UInt8) :
    conversions (percent :: e :: rest) = (conversions rest).map (k :: ·) := by
  have hne : e ≠ percent := by
    rintro rfl
    rw [conversionOf_percent] at he
    cases he
  rw [conversions, if_pos rfl, if_neg hne, he]
  rfl

theorem conversions_percent_none {e : UInt8} (hne : e ≠ percent) (he : conversionOf e = none)
    (rest : List UInt8) : conversions (percent :: e :: rest) = none := by
  rw [conversions, if_pos rfl, if_neg hne, he]
  rfl

end Printf
