import CyberCache.Lib.ByteMemory
import CyberCache.Types

/-!
# Line input of the console

The line editor and the password entry share one buffer, whose text is given twice: by a length and
by a terminating zero. A call ends with its end key, and what is pressed before that key is a list
here.
-/

namespace CyberCache

inductive Key where
  | char (c : UInt8)
  | escape
  | backspace
  /-- All other keys; they are ignored. -/
  | other
deriving DecidableEq, Repr

def isprint (c : UInt8) : Bool := 0x20 ≤ c && c ≤ 0x7E

/-- The object, with the part of it that is initialized or not. -/
structure LineInput where
  buffer : ByteMemory
  size : Nat

namespace LineInput

def bufferSize : Nat := 4096

/-! ## Passwords -/

def passwordKey (li : LineInput) : Key → LineInput
  | .backspace => if 0 < li.size then ⟨li.buffer.write li.size [0], li.size - 1⟩ else li
  | .escape => if 0 < li.size then ⟨li.buffer.write 0 [0], 0⟩ else li
  | .char c =>
    if isprint c ∧ c ≠ ' '.toUInt8 ∧ li.size < bufferSize - 1 then
      ⟨(li.buffer.write li.size [c]).write (li.size + 1) [0], li.size + 1⟩
    else li
  | _ => li

def passwordKeys (li : LineInput) (keys : List Key) : LineInput :=
  keys.foldl passwordKey { li with buffer := li.buffer.write 0 [0] }

/-- What is returned when ENTER follows the keys: a pointer to the buffer, or null. -/
def getPassword (li : LineInput) (keys : List Key) : Option ByteMemory :=
  let li := li.passwordKeys keys
  if 0 < li.size then some li.buffer else none

/-- A text that is being edited, and whether the last change was the removal of a character. -/
structure EditedText where
  text : List UInt8 := []
  erased : Bool := false

def EditedText.press (e : EditedText) : Key → EditedText
  | .backspace => if e.text = [] then e else ⟨e.text.dropLast, true⟩
  | .escape => if e.text = [] then e else ⟨[], false⟩
  | .char c =>
    if isprint c ∧ c ≠ ' '.toUInt8 ∧ e.text.length < bufferSize - 1 then ⟨e.text ++ [c], false⟩
      else e
  | _ => e

def edited (keys : List Key) : EditedText := keys.foldl EditedText.press {}

def HoldsString (m : ByteMemory) (text : List UInt8) : Prop :=
  m.slice 0 text.length = text ∧ m text.length = 0 ∧ 0 ∉ text

def Returns (result : Option ByteMemory) (text : List UInt8) : Prop :=
  match result with
  | none => text = []
  | some m => text ≠ [] ∧ HoldsString m text

/-- The length has been zero at some time, so that it is the length of what was typed since. -/
def Emptied (li : LineInput) (keys : List Key) : Prop :=
  ∃ p, p <+: keys ∧ (li.passwordKeys p).size = 0

theorem passwordKeys_concat (li : LineInput) (keys : List Key) (key : Key) :
    li.passwordKeys (keys ++ [key]) = (li.passwordKeys keys).passwordKey key :=
  List.foldl_concat ..

theorem edited_concat (keys : List Key) (key : Key) :
    edited (keys ++ [key]) = (edited keys).press key :=
  List.foldl_concat ..

theorem emptied_concat_iff {li : LineInput} {keys : List Key} {key : Key} :
    li.Emptied (keys ++ [key]) ↔ li.Emptied keys ∨ (li.passwordKeys (keys ++ [key])).size = 0 := by
  constructor
  · rintro ⟨p, hp, hsize⟩
    obtain rfl | hp := List.prefix_concat_iff.mp hp
    · exact .inr hsize
    · exact .inl ⟨p, hp, hsize⟩
  · rintro (⟨p, hp, hsize⟩ | hsize)
    · exact ⟨p, hp.trans (List.prefix_append ..), hsize⟩
    · exact ⟨_, List.prefix_rfl, hsize⟩

/-- The length is that of the text. A character removed by BACKSPACE stays in the buffer. -/
structure Synced (li : LineInput) (e : EditedText) : Prop where
  size : li.size = e.text.length
  text : li.buffer.slice 0 e.text.length = e.text
  zero_notMem : 0 ∉ e.text
  terminated : e.text ≠ [] → (li.buffer e.text.length = 0 ↔ e.erased = false)

/-- The length still counts what an earlier call has left. -/
structure Stale (li : LineInput) (e : EditedText) : Prop where
  size : 0 < li.size
  zero : li.buffer 0 = 0
  text : e.text.length ≤ li.size

theorem Synced.returns_iff {li : LineInput} {e : EditedText} (h : li.Synced e) :
    Returns (if 0 < li.size then some li.buffer else none) e.text ↔
      e.text = [] ∨ e.erased = false := by
  by_cases hnil : e.text = []
  · simp [h.size, hnil, Returns]
  · have hsize : 0 < li.size := h.size ▸ List.length_pos_iff.mpr hnil
    simp [hsize, Returns, hnil, HoldsString, h.text, h.zero_notMem, h.terminated hnil]

theorem Stale.not_returns {li : LineInput} {e : EditedText} (h : li.Stale e) :
    ¬Returns (if 0 < li.size then some li.buffer else none) e.text := by
  rw [if_pos h.size]
  rintro ⟨hne, htext, -, hzero⟩
  obtain ⟨c, text, heq⟩ := List.exists_cons_of_ne_nil hne
  rw [heq] at htext hzero
  rw [List.length_cons, ByteMemory.slice_succ, h.zero] at htext
  exact hzero ((List.cons.inj htext).1 ▸ List.mem_cons_self)

theorem Synced.press {li : LineInput} {e : EditedText} (h : li.Synced e) (key : Key) :
    (li.passwordKey key).Synced (e.press key) := by
  obtain ⟨text, erased⟩ := e
  obtain ⟨hsize, htext, hzero, hterminated⟩ := h
  cases key with
  | backspace =>
    rcases text.eq_nil_or_concat with rfl | ⟨xs, x, rfl⟩
    · simpa [passwordKey, EditedText.press, hsize] using ⟨hsize, htext, hzero, hterminated⟩
    · rw [List.concat_eq_append] at *
      rw [List.length_append, ByteMemory.slice_add] at htext
      obtain ⟨hxs, hx⟩ := List.append_inj htext (by simp)
      simp only [List.length_append, List.length_singleton] at hsize
      simp only [passwordKey, EditedText.press, hsize, Nat.succ_pos, if_true]
      simp only [List.mem_append, not_or] at hzero
      have hlast : li.buffer xs.length = x := by simpa [ByteMemory.slice] using hx
      refine ⟨by simp, ?_, by simpa using hzero.1, ?_⟩
      · simpa [ByteMemory.slice_write_of_lt] using hxs
      · have hne : x ≠ 0 := by
          rintro rfl
          exact hzero.2 (List.mem_singleton_self 0)
        simp [ByteMemory.write_of_lt, hlast, hne]
  | escape =>
    by_cases hnil : text = []
    · subst hnil
      simpa [passwordKey, EditedText.press, hsize] using ⟨hsize, htext, hzero, hterminated⟩
    · simp only [passwordKey, EditedText.press, hnil, hsize, List.length_pos_iff.mpr hnil, if_true,
        if_false]
      exact ⟨rfl, rfl, List.not_mem_nil, fun hne => absurd rfl hne⟩
  | char c =>
    simp only [passwordKey, EditedText.press, hsize]
    split_ifs with hcond
    · have hc : (0 : UInt8) ≠ c := by
        rintro rfl
        exact absurd hcond.1 (by decide)
      rw [← List.length_singleton (a := c), ByteMemory.write_append, List.length_singleton]
      refine ⟨by simp, ?_, by simp [hzero, hc], ?_⟩
      · rw [List.length_append, ByteMemory.slice_add, ByteMemory.slice_write_of_lt _ _ (by simp),
          htext]
        simp [ByteMemory.slice, ByteMemory.write]
      · simp [ByteMemory.write]
    · exact ⟨hsize, htext, hzero, hterminated⟩
  | _ => exact ⟨hsize, htext, hzero, hterminated⟩

theorem Stale.press {li : LineInput} {e : EditedText} (h : li.Stale e) (key : Key) :
    (li.passwordKey key).Stale (e.press key) ∨
      (li.passwordKey key).size = 0 ∧ (li.passwordKey key).Synced (e.press key) := by
  obtain ⟨hsize, hzero, htext⟩ := h
  have hempty (m : ByteMemory) {e : EditedText} (hnil : e.text = []) : Synced ⟨m, 0⟩ e := by
    refine ⟨?_, ?_, ?_, fun hne => absurd hnil hne⟩ <;> simp [hnil, ByteMemory.slice]
  cases key with
  | backspace =>
    have hlength : (e.press .backspace).text.length ≤ li.size - 1 := by
      unfold EditedText.press
      split_ifs with hnil
      · simp [hnil]
      · simpa using Nat.sub_le_sub_right htext 1
    simp only [passwordKey, hsize, if_true]
    rcases Nat.eq_zero_or_pos (li.size - 1) with hone | hpos
    · rw [hone] at hlength ⊢
      exact .inr ⟨rfl, hempty _ (List.eq_nil_of_length_eq_zero (Nat.le_zero.mp hlength))⟩
    · exact .inl ⟨hpos, by simp [ByteMemory.write_of_lt, hsize, hzero], hlength⟩
  | escape =>
    refine .inr ?_
    simp only [passwordKey, hsize, if_true, true_and]
    refine hempty _ ?_
    unfold EditedText.press
    split_ifs with hnil
    · exact hnil
    · rfl
  | char c =>
    refine .inl ?_
    have hbuffer : ((li.buffer.write li.size [c]).write (li.size + 1) [0]) 0 = 0 := by
      rw [ByteMemory.write_of_lt _ _ (Nat.succ_pos _), ByteMemory.write_of_lt _ _ hsize, hzero]
    simp only [passwordKey, EditedText.press]
    split_ifs with hcond hcond' hcond'
    · exact ⟨Nat.succ_pos _, hbuffer, by simpa using htext⟩
    · exact ⟨Nat.succ_pos _, hbuffer, Nat.le_succ_of_le htext⟩
    · simp only [not_and, Nat.not_lt] at hcond
      have hfull := hcond hcond'.1 hcond'.2.1
      exact ⟨hsize, hzero, by simpa using Nat.lt_of_lt_of_le hcond'.2.2 hfull⟩
    · exact ⟨hsize, hzero, htext⟩
  | _ => exact .inl ⟨hsize, hzero, htext⟩

/-- A password is returned as it was typed if and only if the length was zero at some time of the
call and no removed character is left behind the text. -/
theorem getPassword_returns_iff (li : LineInput) (keys : List Key) :
    Returns (li.getPassword keys) (edited keys).text ↔
      li.Emptied keys ∧ ((edited keys).text = [] ∨ (edited keys).erased = false) := by
  have hphase : li.Emptied keys ∧ (li.passwordKeys keys).Synced (edited keys) ∨
      ¬li.Emptied keys ∧ (li.passwordKeys keys).Stale (edited keys) := by
    induction keys using List.reverseRecOn with
    | nil =>
      rcases Nat.eq_zero_or_pos li.size with hsize | hsize
      · exact .inl ⟨⟨[], List.prefix_rfl, hsize⟩, hsize, rfl, List.not_mem_nil, fun hne => absurd
          rfl hne⟩
      · refine .inr ⟨?_, hsize, rfl, Nat.zero_le _⟩
        rintro ⟨p, hp, hzero⟩
        obtain rfl := List.prefix_nil.mp hp
        exact hsize.ne' hzero
    | append_singleton keys key ih =>
      rw [emptied_concat_iff, edited_concat, passwordKeys_concat]
      rcases ih with ⟨hemptied, hsynced⟩ | ⟨hemptied, hstale⟩
      · exact .inl ⟨.inl hemptied, hsynced.press key⟩
      · rcases hstale.press key with hstale | ⟨hsize, hsynced⟩
        · exact .inr ⟨not_or.mpr ⟨hemptied, hstale.size.ne'⟩, hstale⟩
        · exact .inl ⟨.inr hsize, hsynced⟩
  rcases hphase with ⟨hemptied, hsynced⟩ | ⟨hemptied, hstale⟩
  · exact hsynced.returns_iff.trans (and_iff_right hemptied).symm
  · exact iff_of_false hstale.not_returns fun h => hemptied h.1

/-- The letter b is still there after BACKSPACE, and a second password is lost behind the length of
the first one. -/
theorem getPassword_keeps_old_text :
    ¬Returns (getPassword ⟨fun _ => 0, 0⟩ [.char 97, .char 98, .backspace])
        (edited [.char 97, .char 98, .backspace]).text ∧
      ¬Returns ((passwordKeys ⟨fun _ => 0, 0⟩ [.char 97]).getPassword [.char 98])
        (edited [.char 98]).text := by
  refine ⟨fun h => ?_, fun h => ?_⟩
  · exact absurd h.2.2.1 (by decide)
  · exact absurd h.2.1 (by decide)

end LineInput

end CyberCache
