import CyberCache.Optimizer.Lifetimes

/-!
# Expiration times of pages

A page gets the lifetime that was requested when it was saved, up to the maximum for its user agent.
A page can be touched, which adds to the time that it still has. Pages that never expire stay so
until they are saved again.
-/

namespace CyberCache

namespace Lifetimes

structure PageOptimizer where
  evictionMode : EvictionPass.EvictionMode
  defaultLifetimes : Nat → Duration
  readExtraLifetimes : Nat → Duration
  maxLifetimes : Nat → Duration

namespace PageOptimizer

/-- A lifetime is at most the maximum. -/
def clip (maxLifetime lifetime : UInt32) : UInt32 :=
  if maxLifetime < lifetime then maxLifetime else lifetime

variable (po : PageOptimizer)

def onWrite (o : TimedObject) (lifetime : UInt32) : TimedObject :=
  if lifetime ≠ 0 then
    let lifetime :=
      if lifetime = maxTime then (po.defaultLifetimes o.userAgent).seconds else lifetime
    let lifetime := clip (po.maxLifetimes o.userAgent).seconds lifetime
    { o with expirationTime := o.modificationTime + lifetime }
  else { o with expirationTime := maxTime }

def onRead (o : TimedObject) (currentTime : UInt32) : TimedObject :=
  if o.expirationTime ≠ maxTime then o.extend po.evictionMode po.readExtraLifetimes currentTime
  else o

def processFpcTouchMessage (o : TimedObject) (currentTime lifetime : UInt32) : TimedObject :=
  if o.isBeingDeleted = false then
    if o.isLinked then
      if o.expirationTime ≠ maxTime then
        let lifetime :=
          if currentTime < o.expirationTime then lifetime + (o.expirationTime - currentTime)
          else lifetime
        let lifetime := clip (po.maxLifetimes o.userAgent).seconds lifetime
        { o with expirationTime := currentTime + lifetime }
      else o
    else o
  else o

inductive Message where
  | save (time : UInt32) (ua : Fin numUserAgents) (lifetime : UInt32)
  | touch (time lifetime : UInt32)
  | read (time : UInt32) (ua : Fin numUserAgents)
deriving DecidableEq

namespace Message

def time : Message → UInt32
  | save time _ _ | touch time _ | read time _ => time

def isSave : Message → Bool
  | save _ _ _ => true
  | touch _ _ | read _ _ => false

def isFinite : Message → Bool
  | save _ _ lifetime => lifetime ≠ 0
  | touch _ _ | read _ _ => true

end Message

def process (o : TimedObject) : Message → TimedObject
  | .save time ua lifetime => o.processWriteMessage po.onWrite time ua lifetime
  | .touch time lifetime => po.processFpcTouchMessage o time lifetime
  | .read time ua => o.processReadMessage po.onRead time ua

/-! ## Single messages -/

def IsEarly (time : UInt32) : Prop := time.toNat < 2 ^ 31 - 1 - maxDuration.toNat

variable {po} {o : TimedObject} {time lifetime : UInt32}

theorem toNat_add_clip (htime : IsEarly time) (d : Duration) (lifetime : UInt32) :
    (time + clip d.seconds lifetime).toNat =
      time.toNat + min d.seconds.toNat lifetime.toNat := by
  have hd := d.toNat_le
  have hearly : time.toNat < 2 ^ 31 - 1 - 31536000 := htime
  have hmin : (clip d.seconds lifetime).toNat = min d.seconds.toNat lifetime.toNat := by
    unfold clip
    split_ifs with hlt <;> rw [UInt32.lt_iff_toNat_lt] at hlt <;> omega
  rw [UInt32.toNat_add, hmin, Nat.mod_eq_of_lt (by omega)]

theorem add_clip_ne (htime : IsEarly time) (d : Duration) (lifetime : UInt32) :
    time + clip d.seconds lifetime ≠ maxTime := by
  intro heq
  have hsum := toNat_add_clip htime d lifetime
  have hd := d.toNat_le
  have hearly : time.toNat < 2 ^ 31 - 1 - 31536000 := htime
  have hmax : maxTime.toNat = 2147483647 := rfl
  rw [heq] at hsum
  omega

theorem touch_eq (po : PageOptimizer) (halive : o.isBeingDeleted = false)
    (hlinked : o.isLinked = true) (hfinite : o.expirationTime ≠ maxTime) (htime : IsEarly time)
    (lifetime : UInt32) :
    (po.process o (.touch time lifetime)).expirationTime.toNat =
      time.toNat + min (po.maxLifetimes o.userAgent).seconds.toNat
        ((lifetime.toNat + (o.expirationTime.toNat - time.toNat)) % 2 ^ 32) := by
  rw [process, processFpcTouchMessage, if_pos halive, if_pos hlinked, if_pos hfinite]
  simp only
  rw [toNat_add_clip htime]
  congr 2
  split_ifs with hlater <;> rw [UInt32.lt_iff_toNat_lt] at hlater
  · rw [UInt32.toNat_add, UInt32.toNat_sub_of_le _ _ (UInt32.le_iff_toNat_le.mpr hlater.le)]
  · rw [Nat.sub_eq_zero_of_le (Nat.le_of_not_lt hlater), Nat.add_zero]
    exact (Nat.mod_eq_of_lt lifetime.toNat_lt).symm

theorem save_eq (halive : o.isBeingDeleted = false) (htime : IsEarly time) (ua : Fin numUserAgents)
    (hne : lifetime ≠ 0) (hrequested : lifetime ≠ maxTime) :
    (po.process o (.save time ua lifetime)).expirationTime.toNat = time.toNat +
      min (po.maxLifetimes (po.process o (.save time ua lifetime)).userAgent).seconds.toNat
        lifetime.toNat := by
  rw [process, TimedObject.processWriteMessage, if_pos halive]
  simp only [onWrite, if_pos hne, if_neg hrequested]
  exact toNat_add_clip htime _ lifetime

/-! ## Messages one after the other -/

/-- No message makes a finite expiration infinite, and no message but SAVE makes an infinite one
finite. -/
def KeepsFiniteness (po : PageOptimizer) : Prop :=
  ∀ (o : TimedObject) (messages : List Message),
    (∀ m ∈ messages, IsEarly m.time ∧ m.isFinite = true) →
      (o.expirationTime ≠ maxTime → (messages.foldl po.process o).expirationTime ≠ maxTime) ∧
        ((∀ m ∈ messages, m.isSave = false) → o.expirationTime = maxTime →
          (messages.foldl po.process o).expirationTime = maxTime)

theorem IsEarly.ne (htime : IsEarly time) : time ≠ maxTime := by
  rintro rfl
  have hlt : maxTime.toNat < 2 ^ 31 - 1 - maxDuration.toNat := htime
  exact absurd hlt (by decide)

theorem onWrite_ne (htime : IsEarly o.modificationTime) (hne : lifetime ≠ 0) :
    (po.onWrite o lifetime).expirationTime ≠ maxTime := by
  rw [onWrite, if_pos hne]
  exact add_clip_ne htime _ _

theorem extend_ne (hfinite : o.expirationTime ≠ maxTime) (htime : IsEarly time)
    (mode : EvictionPass.EvictionMode) (extra : Nat → Duration) :
    (o.extend mode extra time).expirationTime ≠ maxTime := by
  have hnew : time + (extra o.userAgent).seconds ≠ maxTime := by
    have hclip := add_clip_ne htime (extra o.userAgent) (extra o.userAgent).seconds
    rwa [clip, ite_self] at hclip
  unfold TimedObject.extend
  cases mode <;> simp only <;> split_ifs <;> assumption

theorem onRead_ne (hfinite : o.expirationTime ≠ maxTime) (htime : IsEarly time) :
    (po.onRead o time).expirationTime ≠ maxTime := by
  rw [onRead, if_pos hfinite]
  exact extend_ne hfinite htime _ _

theorem process_ne (hfinite : o.expirationTime ≠ maxTime) {m : Message} (htime : IsEarly m.time)
    (hm : m.isFinite = true) : (po.process o m).expirationTime ≠ maxTime := by
  cases m with
  | save time ua lifetime =>
    have hne : lifetime ≠ 0 := by simpa [Message.isFinite] using hm
    rw [process, TimedObject.processWriteMessage]
    by_cases halive : o.isBeingDeleted = false
    · rw [if_pos halive]
      exact onWrite_ne htime hne
    · rw [if_neg halive]
      split_ifs
      · exact htime.ne
      · exact hfinite
  | touch time lifetime =>
    rw [process, processFpcTouchMessage, if_pos hfinite]
    by_cases hin : o.isBeingDeleted = false ∧ o.isLinked = true
    · rw [if_pos hin.1, if_pos hin.2]
      exact add_clip_ne htime _ _
    · rw [← ite_and, if_neg hin]
      exact hfinite
  | read time ua =>
    rw [process, TimedObject.processReadMessage]
    split_ifs
    · exact onRead_ne hfinite htime
    · exact onRead_ne hfinite htime
    · exact hfinite
    · exact hfinite

theorem process_infinite (hinfinite : o.expirationTime = maxTime) {m : Message}
    (hm : m.isSave = false) : (po.process o m).expirationTime = maxTime := by
  cases m with
  | save time ua lifetime => cases hm
  | touch time lifetime =>
    rw [process, processFpcTouchMessage, if_neg (not_not.mpr hinfinite)]
    split_ifs <;> exact hinfinite
  | read time ua =>
    rw [process, TimedObject.processReadMessage]
    split_ifs
    · rw [onRead, if_neg (not_not.mpr hinfinite)]
      exact hinfinite
    · rw [onRead, if_neg (not_not.mpr hinfinite)]
      exact hinfinite
    · exact hinfinite
    · exact hinfinite

theorem keepsFiniteness (po : PageOptimizer) : po.KeepsFiniteness := by
  intro o messages
  induction messages generalizing o with
  | nil => exact fun _ => ⟨fun h => h, fun _ h => h⟩
  | cons m messages ih =>
    intro hall
    obtain ⟨htime, hm⟩ := hall m List.mem_cons_self
    obtain ⟨hfinite, hinfinite⟩ :=
      ih (po.process o m) fun m' hm' => hall m' (List.mem_cons_of_mem m hm')
    constructor
    · exact fun hne => hfinite (process_ne hne htime hm)
    · intro hsave heq
      exact hinfinite (fun m' hm' => hsave m' (List.mem_cons_of_mem m hm'))
        (process_infinite heq (hsave m List.mem_cons_self))

/-- Whether expiration times are what they should be over the integers. -/
theorem expiration_exact_iff (po : PageOptimizer) (o : TimedObject)
    (halive : o.isBeingDeleted = false) (hlinked : o.isLinked = true)
    (hfinite : o.expirationTime ≠ maxTime) (time : UInt32) (htime : IsEarly time)
    (lifetime : UInt32) :
    let max := (po.maxLifetimes o.userAgent).seconds.toNat
    let sum := lifetime.toNat + (o.expirationTime.toNat - time.toNat)
    ((po.process o (.touch time lifetime)).expirationTime.toNat = time.toNat + min max sum ∧
      (∀ ua, lifetime ≠ 0 → lifetime ≠ maxTime →
        (po.process o (.save time ua lifetime)).expirationTime.toNat = time.toNat +
          min (po.maxLifetimes (po.process o (.save time ua lifetime)).userAgent).seconds.toNat
            lifetime.toNat) ∧
      po.KeepsFiniteness) ↔ sum < 2 ^ 32 ∨ max + 2 ^ 32 ≤ sum := by
  intro max sum
  have htouch := touch_eq po halive hlinked hfinite htime lifetime
  have hmax : max ≤ 31536000 := (po.maxLifetimes o.userAgent).toNat_le
  have hsum : sum < 2 ^ 33 := by
    have h1 := lifetime.toNat_lt
    have h2 := o.expirationTime.toNat_lt
    omega
  rw [and_iff_left ⟨fun ua hne hrequested => save_eq halive htime ua hne hrequested,
    keepsFiniteness po⟩, htouch]
  change time.toNat + min max (sum % 2 ^ 32) = time.toNat + min max sum ↔ _
  omega

def uniform (maximum : Duration) : PageOptimizer where
  evictionMode := .lru
  defaultLifetimes _ := maximum
  readExtraLifetimes _ := maximum
  maxLifetimes _ := maximum

def pageUntil (expirationTime : UInt32) : TimedObject := ⟨3, true, false, 0, expirationTime, 0⟩

/-- A page that expires in 10 seconds is touched for 100 seconds. -/
theorem expiration_exact_of_touch :
    ((uniform ⟨5184000, by decide⟩).process (pageUntil 1010)
      (.touch 1000 100)).expirationTime.toNat = 1000 + min 5184000 (100 + (1010 - 1000)) :=
  ((expiration_exact_iff (uniform ⟨5184000, by decide⟩) (pageUntil 1010) rfl rfl (by decide) 1000
    (by unfold IsEarly; decide) 100).mpr (by decide)).1

/-- A page that is touched for 4294967295 seconds gets 9 seconds instead of 60 days. -/
theorem touch_wraps :
    ((uniform ⟨5184000, by decide⟩).process (pageUntil 1010)
      (.touch 1000 4294967295)).expirationTime.toNat = 1009 ∧
      1009 ≠ 1000 + min 5184000 (4294967295 + (1010 - 1000)) := by
  decide

end PageOptimizer

end Lifetimes

end CyberCache
