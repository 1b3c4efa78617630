import CyberCache.Threads.ObjectLock
import CyberCache.Types

/-!
# Counting the readers of an object

A `QuickSemaphore` keeps the number of readers in the low 24 bits of a word. A thread that wants to
write puts its index into the high bits and waits for its event; the last reader triggers it. The
thread waits once, does not look at the number again, and stores zero. The count is therefore right
as long as the wait ends for this reason alone. A wait that returns without a trigger, which a futex
may do at any time, makes the word forget all readers.
-/

namespace CyberCache

def readersCountMask : Nat := 0x00FFFFFF

def writerThreadIndexMask : Nat := 0xFF000000

variable (pool : ThreadPool)

/-- Where a thread is in the methods of the semaphore. -/
inductive ReaderState where
  | outside
  | waiting
  /-- The wait is over, and the event is not yet idle again. -/
  | woken
  | clearing
  /-- In `unregister_reader()`, about to trigger the event of the thread that waits. -/
  | triggering (i : pool.Id)
deriving DecidableEq

structure QuickSemaphore where
  fsState : Nat
  events : pool.Id → QuickEvent
  places : pool.Id → ReaderState pool
  holder : Option pool.Id
  /-- How many readers are registered; this is not stored anywhere. -/
  registered : Nat

inductive SemaphoreAction where
  | lock (t : pool.Id)
  | unlock (t : pool.Id)
  | registerReader (t : pool.Id)
  | unregisterReader (t : pool.Id)
  | trigger (t : pool.Id)
  | waitUntilNoReaders (t : pool.Id)
  /-- The futex wait returns, for whatever reason. -/
  | wake (t : pool.Id)
  | reset (t : pool.Id)
  | clear (t : pool.Id)
  /-- The event of the thread is triggered for another purpose, and consumed. -/
  | notify (t : pool.Id)
  | consume (t : pool.Id)

variable {pool}

def ThreadPool.threadAt (pool : ThreadPool) (index : Nat) : Option pool.Id :=
  if h : index < pool.maxNumThreads then some ⟨index, h⟩ else none

theorem ThreadPool.threadAt_index (t : pool.Id) : pool.threadAt t.index = some t :=
  dif_pos (Fin.isLt t)

namespace QuickSemaphore

def create : QuickSemaphore pool where
  fsState := 0
  events := fun _ => .idle
  places := fun _ => .outside
  holder := none
  registered := 0

section Updates

variable (s : QuickSemaphore pool) (t u : pool.Id) (place : ReaderState pool) (event : QuickEvent)

def goto : QuickSemaphore pool := { s with places := Function.update s.places t place }

def setEvent : QuickSemaphore pool := { s with events := Function.update s.events t event }

@[simp, grind =]
theorem places_goto : (s.goto t place).places u = if u = t then place else s.places u :=
  Function.update_apply ..

@[simp, grind =]
theorem events_goto : (s.goto t place).events u = s.events u := rfl

@[simp, grind =]
theorem fsState_goto : (s.goto t place).fsState = s.fsState := rfl

@[simp, grind =]
theorem registered_goto : (s.goto t place).registered = s.registered := rfl

@[simp, grind =]
theorem events_setEvent : (s.setEvent t event).events u = if u = t then event else s.events u :=
  Function.update_apply ..

@[simp, grind =]
theorem places_setEvent : (s.setEvent t event).places u = s.places u := rfl

@[simp, grind =]
theorem registered_setEvent : (s.setEvent t event).registered = s.registered := rfl

end Updates

def registerReader (s : QuickSemaphore pool) : QuickSemaphore pool :=
  { s with fsState := uintAdd s.fsState 1, registered := s.registered + 1 }

def unregisterReader (s : QuickSemaphore pool) (t : pool.Id) : QuickSemaphore pool :=
  let state := s.fsState
  let s' := { s with fsState := uintSub state 1, registered := s.registered - 1 }
  if state &&& readersCountMask = 1 ∧ state &&& writerThreadIndexMask ≠ 0 then
    match pool.threadAt ((state >>> 24) - 1) with
    | some i => s'.goto t (.triggering i)
    | none => s'
  else s'

def waitUntilNoReaders (s : QuickSemaphore pool) (t : pool.Id) : QuickSemaphore pool :=
  let state := s.fsState
  let s' := { s with fsState := state ||| (t.index + 1) <<< 24 }
  if state &&& readersCountMask ≠ 0 then s'.goto t .waiting else s'.goto t .clearing

/-- Readers are registered, and waited for, by the thread that has locked the object. -/
def step (s : QuickSemaphore pool) : SemaphoreAction pool → Option (QuickSemaphore pool)
  | .lock t =>
    if s.places t = .outside ∧ s.holder = none then some { s with holder := some t } else none
  | .unlock t =>
    if s.places t = .outside ∧ s.holder = some t then some { s with holder := none } else none
  | .registerReader t =>
    if s.places t = .outside ∧ s.holder = some t then some s.registerReader else none
  | .unregisterReader t =>
    if s.places t = .outside ∧ 0 < s.registered then some (s.unregisterReader t) else none
  | .trigger t =>
    match s.places t with
    | .triggering i => some ((s.setEvent i .triggered).goto t .outside)
    | _ => none
  | .waitUntilNoReaders t =>
    if s.places t = .outside ∧ s.holder = some t then some (s.waitUntilNoReaders t) else none
  | .wake t => if s.places t = .waiting then some (s.goto t .woken) else none
  | .reset t => if s.places t = .woken then some ((s.setEvent t .idle).goto t .clearing) else none
  | .clear t =>
    if s.places t = .clearing then some ({ s with fsState := 0 }.goto t .outside) else none
  | .notify t => some (s.setEvent t .triggered)
  | .consume t => if s.places t = .outside then some (s.setEvent t .idle) else none

/-- A wait ends with a trigger, which comes from the last reader; the number of readers has to
fit. -/
def Admits (s : QuickSemaphore pool) : SemaphoreAction pool → Prop
  | .registerReader _ => s.registered + 1 < 2 ^ 24
  | .waitUntilNoReaders t => s.events t = .idle
  | .wake t => s.events t = .triggered
  | .notify t => s.places t ≠ .waiting
  | .lock _ | .unlock _ | .unregisterReader _ | .trigger _ | .reset _ | .clear _ | .consume _ =>
    True

instance (s : QuickSemaphore pool) : (action : SemaphoreAction pool) → Decidable (s.Admits action)
  | .registerReader _ => inferInstanceAs (Decidable (_ < _))
  | .waitUntilNoReaders _ | .wake _ => inferInstanceAs (Decidable (_ = _))
  | .notify _ => inferInstanceAs (Decidable (_ ≠ _))
  | .lock _ | .unlock _ | .unregisterReader _ | .trigger _ | .reset _ | .clear _ | .consume _ =>
    .isTrue trivial

/-! ## The word -/

/-- The index of the thread that waits plus one, and the number of readers. -/
def word (writer readers : Nat) : Nat := writer * 2 ^ 24 + readers

section Word

variable {writer readers : Nat}

theorem word_and_readersCountMask (h : readers < 2 ^ 24) :
    word writer readers &&& readersCountMask = readers := by
  have hmask : readersCountMask = 2 ^ 24 - 1 := rfl
  rw [hmask, Nat.and_two_pow_sub_one_eq_mod, word, Nat.mul_add_mod_of_lt h]

theorem word_eq_or (h : readers < 2 ^ 24) : word writer readers = writer <<< 24 ||| readers := by
  rw [word, ← Nat.shiftLeft_add_eq_or_of_lt h, Nat.shiftLeft_eq]

theorem word_and_writerThreadIndexMask (hwriter : writer < 2 ^ 8) (h : readers < 2 ^ 24) :
    word writer readers &&& writerThreadIndexMask = writer <<< 24 := by
  have hmask : writerThreadIndexMask = (2 ^ 8 - 1) <<< 24 := by decide
  have hreaders : readers &&& (2 ^ 8 - 1) <<< 24 = 0 := by
    apply Nat.eq_of_testBit_eq
    intro i
    by_cases hi : 24 ≤ i
    · have hlow := Nat.testBit_lt_two_pow (h.trans_le (Nat.pow_le_pow_right (by decide) hi))
      simp [hlow]
    · simp only [Nat.testBit_and, Nat.testBit_shiftLeft, hi, decide_false, Bool.false_and,
        Bool.and_false, Nat.zero_testBit]
  rw [word_eq_or h, hmask, Nat.and_or_distrib_right, ← Nat.shiftLeft_and_distrib,
    Nat.and_two_pow_sub_one_eq_mod, Nat.mod_eq_of_lt hwriter, hreaders, Nat.or_zero]

theorem word_shiftRight (h : readers < 2 ^ 24) : word writer readers >>> 24 = writer := by
  rw [word, Nat.shiftRight_eq_div_pow]
  omega

theorem or_word (h : readers < 2 ^ 24) :
    word 0 readers ||| writer <<< 24 = word writer readers := by
  rw [word_eq_or h, word_eq_or h, Nat.zero_shiftLeft, Nat.zero_or, Nat.lor_comm]

theorem uintAdd_word (hwriter : writer < 2 ^ 8) (h : readers + 1 < 2 ^ 24) :
    uintAdd (word writer readers) 1 = word writer (readers + 1) := by
  rw [uintAdd_eq (by simp only [word, uintRange]; omega), word, word, Nat.add_assoc]

theorem uintSub_word (hwriter : writer < 2 ^ 8) (h : readers < 2 ^ 24) (hpos : 0 < readers) :
    uintSub (word writer readers) 1 = word writer (readers - 1) := by
  rw [uintSub_eq (by simp only [word, uintRange]; omega) (by simp only [word]; omega), word, word]
  omega

end Word

/-! ## What the word says -/

end QuickSemaphore

def ReaderState.Waits : ReaderState pool → Prop
  | .waiting | .woken | .clearing => True
  | .outside | .triggering _ => False

namespace QuickSemaphore

open ReaderState

structure Sound (s : QuickSemaphore pool) : Prop where
  fits : s.registered < 2 ^ 24
  free : (∀ t, ¬ (s.places t).Waits) → s.fsState = word 0 s.registered
  taken : ∀ t, (s.places t).Waits → s.fsState = word (t.index + 1) s.registered ∧ s.holder = some t
  cleared : ∀ t, s.places t = .woken ∨ s.places t = .clearing → s.registered = 0
  triggered : ∀ t, s.places t = .waiting → s.events t = .triggered → s.registered = 0
  triggering : ∀ u i, s.places u = .triggering i →
    s.places i = .waiting ∧ s.registered = 0 ∧ s.events i = .idle
  triggering_once : ∀ u v i j, s.places u = .triggering i → s.places v = .triggering j → u = v

theorem create_sound : (create : QuickSemaphore pool).Sound := by
  constructor <;> simp [create, Waits, word]

namespace Sound

variable {s s' : QuickSemaphore pool} {t : pool.Id}

theorem not_waits (h : s.Sound) (ht : s.places t = .outside)
    (hholder : s.holder = none ∨ s.holder = some t) (u : pool.Id) : ¬ (s.places u).Waits := by
  intro hu
  have hholder' := (h.taken u hu).2
  rcases hholder with hnone | hsome
  · simp [hnone] at hholder'
  · obtain rfl : t = u := by simpa [hsome] using hholder'
    simp [ht, Waits] at hu

theorem not_triggering (h : s.Sound) (hnone : ∀ u, ¬ (s.places u).Waits) (u i : pool.Id) :
    s.places u ≠ .triggering i := by
  intro hu
  exact hnone i (by simp [(h.triggering u i hu).1, Waits])

theorem of_free (hfits : s.registered < 2 ^ 24) (hword : s.fsState = word 0 s.registered)
    (hnone : ∀ u, ¬ (s.places u).Waits) (hno : ∀ u i, s.places u ≠ .triggering i) : s.Sound := by
  constructor
  case fits => exact hfits
  case free => exact fun _ => hword
  case taken => exact fun u hu => absurd hu (hnone u)
  case cleared =>
    intro u hu
    exact absurd (by rcases hu with hu | hu <;> simp [hu, Waits]) (hnone u)
  case triggered => exact fun u hu => absurd (by simp [hu, Waits]) (hnone u)
  case triggering => exact fun u i hu => absurd hu (hno u i)
  case triggering_once => exact fun u _ i _ hu => absurd hu (hno u i)

theorem of_taken {i : pool.Id} (hfits : s.registered < 2 ^ 24) (hi : (s.places i).Waits)
    (honly : ∀ u, (s.places u).Waits → u = i) (hholder : s.holder = some i)
    (hword : s.fsState = word (i.index + 1) s.registered)
    (hzero : s.places i ≠ .waiting ∨ s.events i = .triggered → s.registered = 0)
    (hno : ∀ u j, s.places u = .triggering j →
      j = i ∧ s.places i = .waiting ∧ s.registered = 0 ∧ s.events i = .idle)
    (honce : ∀ u v j k, s.places u = .triggering j → s.places v = .triggering k → u = v) :
    s.Sound := by
  constructor
  case fits => exact hfits
  case free => exact fun hnone => absurd hi (hnone i)
  case taken =>
    intro u hu
    obtain rfl := honly u hu
    exact ⟨hword, hholder⟩
  case cleared =>
    intro u hu
    obtain rfl := honly u (by rcases hu with hu | hu <;> simp [hu, Waits])
    exact hzero (.inl (by rcases hu with hu | hu <;> simp [hu]))
  case triggered =>
    intro u hu hevent
    obtain rfl := honly u (by simp [hu, Waits])
    exact hzero (.inr hevent)
  case triggering =>
    intro u j hu
    obtain ⟨rfl, hfacts⟩ := hno u j hu
    exact hfacts
  case triggering_once => exact honce

section

variable (h : s.Sound)
include h

theorem only {i u : pool.Id} (hi : (s.places i).Waits) (hu : (s.places u).Waits) :
    u = i :=
  Option.some.inj ((h.taken u hu).2.symm.trans (h.taken i hi).2)

theorem setHolder (holder : Option pool.Id) (ht : s.places t = .outside)
    (hholder : s.holder = none ∨ s.holder = some t) :
    ({ s with holder } : QuickSemaphore pool).Sound := by
  have hnone := h.not_waits ht hholder
  exact of_free h.fits (h.free hnone) hnone (h.not_triggering hnone)

theorem registerReader (ht : s.places t = .outside) (hholder : s.holder = some t)
    (hfits : s.registered + 1 < 2 ^ 24) : s.registerReader.Sound := by
  have hnone := h.not_waits ht (.inr hholder)
  refine of_free hfits ?_ hnone (h.not_triggering hnone)
  simp only [QuickSemaphore.registerReader]
  rw [h.free hnone, uintAdd_word (by decide) hfits]

theorem trigger {i : pool.Id} (ht : s.places t = .triggering i) :
    ((s.setEvent i .triggered).goto t .outside).Sound := by
  obtain ⟨hi, hzero, -⟩ := h.triggering t i ht
  have hwaits : (s.places i).Waits := by simp [hi, Waits]
  have hne : i ≠ t := by grind
  obtain ⟨hword, hholder⟩ := h.taken i hwaits
  refine of_taken (i := i) h.fits (by simpa [hne] using hwaits) ?_ hholder hword (fun _ => hzero) ?_
    ?_
  · intro u hu
    exact h.only hwaits (by grind [Waits])
  · grind [h.triggering_once]
  · grind [h.triggering_once]

theorem waitUntilNoReaders (ht : s.places t = .outside)
    (hholder : s.holder = some t) (hidle : s.events t = .idle) :
    (s.waitUntilNoReaders t).Sound := by
  have hnone := h.not_waits ht (.inr hholder)
  have hno := h.not_triggering hnone
  have hword := h.free hnone
  have hlow : s.fsState &&& readersCountMask = s.registered := by
    rw [hword, word_and_readersCountMask h.fits]
  have hor : s.fsState ||| (t.index + 1) <<< 24 = word (t.index + 1) s.registered := by
    rw [hword, or_word h.fits]
  simp only [QuickSemaphore.waitUntilNoReaders, hlow, hor]
  split_ifs with hreaders
  · exact of_taken (i := t) h.fits (by simp [Waits]) (by grind) hholder rfl (by simp [hidle])
      (by grind) (by grind)
  · exact of_taken (i := t) h.fits (by simp [Waits]) (by grind) hholder rfl
      (fun _ => not_not.mp hreaders) (by grind) (by grind)

theorem unregisterReader (ht : s.places t = .outside) (hpos : 0 < s.registered) :
    (s.unregisterReader t).Sound := by
  have hfits : s.registered - 1 < 2 ^ 24 := by have := h.fits; omega
  have hno (u i : pool.Id) : s.places u ≠ .triggering i := by
    intro hu
    have := (h.triggering u i hu).2.1
    omega
  by_cases hwaits : ∃ i, (s.places i).Waits
  · obtain ⟨i, hi⟩ := hwaits
    obtain ⟨hword, hholder⟩ := h.taken i hi
    have hwriter : i.index + 1 < 2 ^ 8 := by have := i.index_lt; omega
    have hmask : s.fsState &&& writerThreadIndexMask ≠ 0 := by
      rw [hword, word_and_writerThreadIndexMask hwriter h.fits, Nat.shiftLeft_eq]
      omega
    have hthread : pool.threadAt ((s.fsState >>> 24) - 1) = some i := by
      rw [hword, word_shiftRight h.fits, Nat.add_sub_cancel, ThreadPool.threadAt_index]
    have hlow : s.fsState &&& readersCountMask = s.registered := by
      rw [hword, word_and_readersCountMask h.fits]
    have hsub : uintSub s.fsState 1 = word (i.index + 1) (s.registered - 1) := by
      rw [hword, uintSub_word hwriter h.fits hpos]
    have hne : i ≠ t := by
      rintro rfl
      simp [ht, Waits] at hi
    -- there is a reader, so that the thread still waits and has not been triggered
    have hwaiting : s.places i = .waiting := by
      cases hplace : s.places i with
      | waiting => rfl
      | woken | clearing => grind [h.cleared i]
      | outside | triggering => simp [hplace, Waits] at hi
    have hidle : s.events i = .idle := by
      cases hevent : s.events i with
      | idle => rfl
      | triggered => grind [h.triggered i hwaiting hevent]
    simp only [QuickSemaphore.unregisterReader, hmask, hthread, hlow, hsub, ne_eq,
      not_false_eq_true, and_true]
    split_ifs with hone
    · refine of_taken (i := i) hfits (by simpa [hne] using hi) ?_ hholder rfl (by simp [hone]) ?_ ?_
      · intro u hu
        exact h.only hi (by grind [Waits])
      · grind
      · grind
    · exact of_taken (i := i) hfits hi (fun u hu => h.only hi hu) hholder rfl
        (by simp [hwaiting, hidle]) (fun u j hu => absurd hu (hno u j))
        (fun u _ j _ hu => absurd hu (hno u j))
  · have hnone (u : pool.Id) : ¬ (s.places u).Waits := fun hu => hwaits ⟨u, hu⟩
    have hword := h.free hnone
    have hnobody : s.fsState &&& writerThreadIndexMask = 0 := by
      rw [hword, word_and_writerThreadIndexMask (by decide) h.fits, Nat.zero_shiftLeft]
    simp only [QuickSemaphore.unregisterReader, hnobody, ne_eq, not_true_eq_false, and_false,
      if_false]
    exact of_free hfits (by rw [hword, uintSub_word (by decide) h.fits hpos]) hnone hno

theorem not_triggering_of_waits (hwaits : (s.places t).Waits)
    (hnot : s.places t ≠ .waiting ∨ s.events t ≠ .idle) (u i : pool.Id) :
    s.places u ≠ .triggering i := by
  intro hu
  obtain ⟨hi, -, hidle⟩ := h.triggering u i hu
  obtain rfl := h.only hwaits (u := i) (by simp [hi, Waits])
  exact hnot.elim (· hi) (· hidle)

theorem wake (ht : s.places t = .waiting) (htriggered : s.events t = .triggered) :
    (s.goto t .woken).Sound := by
  have hwaits : (s.places t).Waits := by simp [ht, Waits]
  obtain ⟨hword, hholder⟩ := h.taken t hwaits
  have hzero := h.triggered t ht htriggered
  have hno := h.not_triggering_of_waits hwaits (.inr (by simp [htriggered]))
  refine of_taken (i := t) h.fits (by simp [Waits]) ?_ hholder hword (fun _ => hzero) ?_ ?_
  · intro u hu
    exact h.only hwaits (by grind)
  · grind
  · grind

theorem reset (ht : s.places t = .woken) :
    ((s.setEvent t .idle).goto t .clearing).Sound := by
  have hwaits : (s.places t).Waits := by simp [ht, Waits]
  obtain ⟨hword, hholder⟩ := h.taken t hwaits
  have hno := h.not_triggering_of_waits hwaits (.inl (by simp [ht]))
  refine of_taken (i := t) h.fits (by simp [Waits]) ?_ hholder hword
    (fun _ => h.cleared t (.inl ht)) ?_ ?_
  · intro u hu
    exact h.only hwaits (by grind)
  · grind
  · grind

theorem clear (ht : s.places t = .clearing) :
    ({ s with fsState := 0 }.goto t .outside).Sound := by
  have hwaits : (s.places t).Waits := by simp [ht, Waits]
  have hzero := h.cleared t (.inr ht)
  have hno := h.not_triggering_of_waits hwaits (.inl (by simp [ht]))
  refine of_free h.fits (by simp [hzero, word]) ?_ ?_
  · intro u hu
    have hne : u ≠ t := by
      rintro rfl
      simp [Waits] at hu
    exact hne (h.only hwaits (by simpa [hne] using hu))
  · grind

theorem setEvent (event : QuickEvent) (ht : s.places t ≠ .waiting) :
    (s.setEvent t event).Sound := by
  constructor
  case fits => exact h.fits
  case free => exact h.free
  case taken => exact h.taken
  case cleared => exact h.cleared
  case triggered => grind [h.triggered]
  case triggering => grind [h.triggering]
  case triggering_once => exact h.triggering_once

theorem step {action : SemaphoreAction pool} (hadmits : s.Admits action)
    (hstep : s.step action = some s') : s'.Sound := by
  cases action with
  | lock t =>
    obtain ⟨⟨ht, hholder⟩, hs'⟩ := Option.ite_none_right_eq_some.mp hstep
    cases hs'
    exact h.setHolder (some t) ht (.inl hholder)
  | unlock t =>
    obtain ⟨⟨ht, hholder⟩, hs'⟩ := Option.ite_none_right_eq_some.mp hstep
    cases hs'
    exact h.setHolder none ht (.inr hholder)
  | registerReader t =>
    obtain ⟨⟨ht, hholder⟩, hs'⟩ := Option.ite_none_right_eq_some.mp hstep
    cases hs'
    exact h.registerReader ht hholder hadmits
  | unregisterReader t =>
    obtain ⟨⟨ht, hpos⟩, hs'⟩ := Option.ite_none_right_eq_some.mp hstep
    cases hs'
    exact h.unregisterReader ht hpos
  | trigger t =>
    cases ht : s.places t with
    | triggering i =>
      obtain rfl : (s.setEvent i .triggered).goto t .outside = s' := by
        simpa [QuickSemaphore.step, ht] using hstep
      exact h.trigger ht
    | _ => simp [QuickSemaphore.step, ht] at hstep
  | waitUntilNoReaders t =>
    obtain ⟨⟨ht, hholder⟩, hs'⟩ := Option.ite_none_right_eq_some.mp hstep
    cases hs'
    exact h.waitUntilNoReaders ht hholder hadmits
  | wake t =>
    obtain ⟨ht, hs'⟩ := Option.ite_none_right_eq_some.mp hstep
    cases hs'
    exact h.wake ht hadmits
  | reset t =>
    obtain ⟨ht, hs'⟩ := Option.ite_none_right_eq_some.mp hstep
    cases hs'
    exact h.reset ht
  | clear t =>
    obtain ⟨ht, hs'⟩ := Option.ite_none_right_eq_some.mp hstep
    cases hs'
    exact h.clear ht
  | notify t =>
    cases hstep
    exact h.setEvent .triggered hadmits
  | consume t =>
    obtain ⟨ht, hs'⟩ := Option.ite_none_right_eq_some.mp hstep
    cases hs'
    exact h.setEvent .idle (by simp [ht])

theorem low_eq : s.fsState &&& readersCountMask = s.registered := by
  by_cases hwaits : ∃ i, (s.places i).Waits
  · obtain ⟨i, hi⟩ := hwaits
    rw [(h.taken i hi).1, word_and_readersCountMask h.fits]
  · rw [h.free fun u hu => hwaits ⟨u, hu⟩, word_and_readersCountMask h.fits]

end

end Sound

/-- The word counts the registered readers, and there are none when `wait_until_no_readers()`
returns. -/
structure Counts (s : QuickSemaphore pool) : Prop where
  low : s.fsState &&& readersCountMask = s.registered
  found : ∀ t s', s.step (.unregisterReader t) = some s' → s.fsState &&& readersCountMask ≠ 0
  returned : ∀ t s', s.step (.clear t) = some s' → s'.registered = 0

theorem Sound.counts {s : QuickSemaphore pool} (h : s.Sound) : s.Counts where
  low := h.low_eq
  found t s' hstep := by
    obtain ⟨⟨-, hpos⟩, -⟩ := Option.ite_none_right_eq_some.mp hstep
    rw [h.low_eq]
    exact Nat.ne_of_gt hpos
  returned t s' hstep := by
    obtain ⟨ht, hs'⟩ := Option.ite_none_right_eq_some.mp hstep
    cases hs'
    exact h.cleared t (.inr ht)

theorem readers_counted {actions : List (SemaphoreAction pool)} {s : QuickSemaphore pool}
    (h : Reaches step Admits create actions s) : s.Counts :=
  (h.invariant create_sound fun _ _ _ hs hadmits hstep => hs.step hadmits hstep).counts

def twoThreads : ThreadPool := ⟨2, by decide⟩

def ofTwo (i : Fin 2) : twoThreads.Id := i

/-- A thread waits until another one has finished reading. -/
theorem readers_counted_of_wait : ∃ s, Reaches step Admits create
    [.lock (ofTwo 0), .registerReader (ofTwo 0), .waitUntilNoReaders (ofTwo 0),
      .unregisterReader (ofTwo 1), .trigger (ofTwo 1), .wake (ofTwo 0), .reset (ofTwo 0)] s ∧
    (s.step (.clear (ofTwo 0))).isSome = true ∧ s.Counts :=
  ⟨_, Reaches.get_foldlM rfl, rfl, readers_counted (Reaches.get_foldlM rfl)⟩

/-- The wait returns without a trigger, and `wait_until_no_readers()` with a reader left, which then
finds no readers in the word. -/
theorem readers_forgotten : ∃ s s', Reaches step (fun _ _ => True) create
    [.lock (ofTwo 0), .registerReader (ofTwo 0), .waitUntilNoReaders (ofTwo 0), .wake (ofTwo 0),
      .reset (ofTwo 0)] s ∧
    s.step (.clear (ofTwo 0)) = some s' ∧ s'.registered = 1 ∧
    s'.fsState &&& readersCountMask = 0 ∧ (s'.step (.unregisterReader (ofTwo 1))).isSome = true ∧
    ¬ s.Counts := by
  refine ⟨_, _, Reaches.get_foldlM rfl, rfl, rfl, rfl, rfl, fun h => ?_⟩
  exact absurd (h.returned (ofTwo 0) _ rfl) (by decide)

end QuickSemaphore

end CyberCache
