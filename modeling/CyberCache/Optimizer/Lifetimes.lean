import CyberCache.Optimizer.EvictionPasses

/-!
# Expiration times of sessions

The optimizers decide when an object expires. A message about a written object has a lifetime, and
one value of it stands for the default lifetime, which is configured for each kind of user agent.
The same value, as a time, stands for an infinite lifetime.

Sessions get short lifetimes at first and longer ones with each write, until some number of writes
is reached. A lifetime that was requested for the session of a regular user is taken as it is.

All times and lifetimes have 32 bits.
-/

namespace CyberCache

namespace Lifetimes

def maxTime : UInt32 := 2147483647

def maxDuration : UInt32 := 365 * 24 * 60 * 60

structure Duration where
  seconds : UInt32
  isAccepted : seconds ≤ maxDuration

namespace Duration

theorem toNat_le (d : Duration) : d.seconds.toNat ≤ 31536000 :=
  UInt32.le_iff_toNat_le.mp d.isAccepted

end Duration

def userAgentUser : Nat := 3

structure TimedObject where
  userAgent : Nat
  isLinked : Bool
  isBeingDeleted : Bool
  modificationTime : UInt32
  expirationTime : UInt32
  /-- `pho_count`, which a session uses. -/
  numWrites : UInt16

namespace TimedObject

def create (time : UInt32) : TimedObject := ⟨numUserAgents, false, false, time, maxTime, 0⟩

def incrementNumWrites (o : TimedObject) : TimedObject :=
  if o.numWrites < 65535 then { o with numWrites := o.numWrites + 1 } else o

/-- `process_write_message()`; what a write means is up to the optimizer. -/
def processWriteMessage (onWrite : TimedObject → UInt32 → TimedObject) (o : TimedObject)
    (time : UInt32) (ua : Nat) (lifetime : UInt32) : TimedObject :=
  if o.isBeingDeleted = false then
    let o :=
      if o.isLinked = false then { o with userAgent := ua, isLinked := true }
      else if o.userAgent < ua then { o with userAgent := ua }
      else o
    onWrite { o with modificationTime := time } lifetime
  else if o.isLinked = false then
    { o with userAgent := ua, isLinked := true, modificationTime := time, expirationTime := time }
  else o

def processReadMessage (onRead : TimedObject → UInt32 → TimedObject) (o : TimedObject)
    (time : UInt32) (ua : Nat) : TimedObject :=
  if o.isBeingDeleted = false then
    if o.isLinked then
      onRead (if o.userAgent < ua then { o with userAgent := ua } else o) time
    else o
  else o

/-- An object that has expired gets some more time when it is read, and in modes without expiration
every object does. -/
def extend (evictionMode : EvictionPass.EvictionMode) (extra : Nat → Duration) (o : TimedObject)
    (currentTime : UInt32) : TimedObject :=
  let extended :=
    let newExpirationTime := currentTime + (extra o.userAgent).seconds
    if o.expirationTime < newExpirationTime then { o with expirationTime := newExpirationTime }
      else o
  match evictionMode with
  | .lru | .strictLru => extended
  | .strictExpirationLru | .expirationLru => if currentTime < o.expirationTime then o else extended

end TimedObject

/-! ## Sessions -/

structure SessionOptimizer where
  evictionMode : EvictionPass.EvictionMode
  firstWriteLifetimes : Nat → Duration
  firstWriteNums : Nat → UInt32
  defaultLifetimes : Nat → Duration
  readExtraLifetimes : Nat → Duration

namespace SessionOptimizer

variable (so : SessionOptimizer)

def lifetimeAfter (ua : Nat) (numWrites : UInt16) : UInt32 :=
  let firstWriteLifetime := (so.firstWriteLifetimes ua).seconds
  if numWrites = 0 then firstWriteLifetime
  else
    let defaultLifetime := (so.defaultLifetimes ua).seconds
    let firstNumWrites := if so.firstWriteNums ua = 0 then 1 else so.firstWriteNums ua
    if numWrites.toUInt32 < firstNumWrites then
      let defaultLifetime :=
        if defaultLifetime < firstWriteLifetime then firstWriteLifetime else defaultLifetime
      firstWriteLifetime + (defaultLifetime - firstWriteLifetime) * numWrites.toUInt32 /
        firstNumWrites
    else defaultLifetime

/-- The sum of a requested lifetime has 64 bits. -/
def onWrite (o : TimedObject) (lifetime : UInt32) : TimedObject :=
  if o.userAgent = userAgentUser ∧ lifetime ≠ maxTime then
    if lifetime ≠ 0 then
      let newExpirationTime := o.modificationTime.toUInt64 + lifetime.toUInt64
      let newExpirationTime :=
        if maxTime.toUInt64 ≤ newExpirationTime then maxTime.toUInt64 - 1 else newExpirationTime
      { o with expirationTime := newExpirationTime.toUInt32 }
    else { o with expirationTime := maxTime }
  else
    let lifetime := so.lifetimeAfter o.userAgent o.numWrites
    { o with expirationTime := o.modificationTime + lifetime }.incrementNumWrites

/-- A requested lifetime is not extended; there are no writes then. -/
def onRead (o : TimedObject) (currentTime : UInt32) : TimedObject :=
  if 0 < o.numWrites then o.extend so.evictionMode so.readExtraLifetimes currentTime else o

/-! ### The ramp of default lifetimes -/

def written (created : UInt32) (ua : Nat) (times lifetimes : Nat → UInt32) : Nat → TimedObject
  | 0 => .create created
  | n + 1 =>
    (written created ua times lifetimes n).processWriteMessage so.onWrite (times n) ua (lifetimes n)

/-- The lifetime that the write with this number is granted. -/
def granted (created : UInt32) (ua : Nat) (times lifetimes : Nat → UInt32) (n : Nat) : Nat :=
  let o := so.written created ua times lifetimes (n + 1)
  (o.expirationTime - o.modificationTime).toNat

end SessionOptimizer

/-- The ramp over natural numbers: from the lifetime `f` on, it reaches `d` at the number `n`. The
product has 32 bits. -/
def ramp (f d n count : Nat) : Nat :=
  if count = 0 then f
  else if count < n then f + (max f d - f) * count % 2 ^ 32 / n
  else d

/-- The ramp goes up from the first lifetime to the longer one, with a counter that has 16 bits. -/
structure GoesUp (f d n : Nat) (lifetimes : Nat → Nat) : Prop where
  monotone : Monotone lifetimes
  first_le : ∀ k, f ≤ lifetimes k
  le_max : ∀ k, lifetimes k ≤ max f d
  end_eq : ∀ k, n ≤ k → lifetimes k = max f d

section Ramp

variable {f d n : Nat}

theorem ramp_of_le (h : d ≤ f) {count : Nat} (hcount : count < n) : ramp f d n count = f := by
  have hzero : max f d - f = 0 := by omega
  simp only [ramp, hzero, Nat.zero_mul, Nat.zero_mod, Nat.zero_div, Nat.add_zero, if_pos hcount]
  exact ite_self f

theorem ramp_of_lt (h : f ≤ d) {count : Nat} (hcount : count < n)
    (hfits : (d - f) * count < 2 ^ 32) :
    ramp f d n count = f + (d - f) * count / n := by
  rw [ramp, max_eq_right h, Nat.mod_eq_of_lt hfits, if_pos hcount]
  split_ifs with hzero
  · rw [hzero, Nat.mul_zero, Nat.zero_div, Nat.add_zero]
  · rfl

theorem goesUp_const {lifetimes : Nat → Nat} (h : ∀ k, lifetimes k = max f d) :
    GoesUp f d n lifetimes where
  monotone := monotone_nat_of_le_succ fun k => ((h k).trans (h (k + 1)).symm).le
  first_le k := (h k).symm ▸ le_max_left f d
  le_max k := (h k).le
  end_eq k _ := h k

theorem goesUp_of_fits (hlt : f < d) (hn : 1 ≤ n) (hshort : n ≤ 65535)
    (hfits : (d - f) * (n - 1) < 2 ^ 32) : GoesUp f d n fun k => ramp f d n (min k 65535) := by
  have hbefore : ∀ c < n, ramp f d n c = f + (d - f) * c / n := fun c hc =>
    ramp_of_lt hlt.le hc ((Nat.mul_le_mul_left _ (Nat.le_sub_one_of_lt hc)).trans_lt hfits)
  have hafter : ∀ c, n ≤ c → ramp f d n c = d := fun c hc => by
    rw [ramp, if_neg (by omega), if_neg (by omega)]
  have hle : ∀ c < n, (d - f) * c / n ≤ d - f := fun c hc =>
    Nat.div_le_of_le_mul (by rw [Nat.mul_comm]; exact Nat.mul_le_mul_right _ hc.le)
  constructor
  case monotone =>
    intro k k' hk
    have hmin : min k 65535 ≤ min k' 65535 := by omega
    change ramp f d n (min k 65535) ≤ ramp f d n (min k' 65535)
    generalize min k 65535 = c at hmin ⊢
    generalize min k' 65535 = c' at hmin ⊢
    rcases Nat.lt_or_ge c' n with hc' | hc'
    · rw [hbefore c (by omega), hbefore c' hc']
      exact Nat.add_le_add_left (Nat.div_le_div_right (Nat.mul_le_mul_left _ hmin)) f
    · rw [hafter c' hc']
      rcases Nat.lt_or_ge c n with hc | hc
      · rw [hbefore c hc]
        have := hle c hc
        omega
      · rw [hafter c hc]
  case first_le =>
    intro k
    rcases Nat.lt_or_ge (min k 65535) n with hc | hc
    · simp only [hbefore _ hc]
      exact Nat.le_add_right _ _
    · simp only [hafter _ hc]
      exact hlt.le
  case le_max =>
    intro k
    rcases Nat.lt_or_ge (min k 65535) n with hc | hc
    · have := hle _ hc
      simp only [hbefore _ hc]
      omega
    · simp only [hafter _ hc]
      omega
  case end_eq =>
    intro k hk
    rw [hafter _ (by omega)]
    omega

theorem not_goesUp_of_long (hlt : f < d) (hlong : 65535 < n) :
    ¬GoesUp f d n fun k => ramp f d n (min k 65535) := by
  intro h
  have hend := h.end_eq n le_rfl
  have hmin : min n 65535 = 65535 := by omega
  have hquotient : (d - f) * 65535 % 2 ^ 32 / n < d - f := by
    refine Nat.div_lt_of_lt_mul ((Nat.mod_le _ _).trans_lt ?_)
    rw [Nat.mul_comm]
    exact Nat.mul_lt_mul_of_pos_right hlong (by omega)
  rw [hmin, ramp, if_neg (by omega), if_pos hlong, max_eq_right hlt.le] at hend
  omega

theorem not_goesUp_of_wraps (hlt : f < d) (hd : d ≤ 31536000) (hshort : n ≤ 65535)
    (hwraps : 2 ^ 32 ≤ (d - f) * (n - 1)) : ¬GoesUp f d n fun k => ramp f d n (min k 65535) := by
  intro h
  have hexists : ∃ c, 2 ^ 32 ≤ (d - f) * c := ⟨n - 1, hwraps⟩
  have hspec := Nat.find_spec hexists
  have hmin := Nat.find_min' hexists hwraps
  generalize hc : Nat.find hexists = c at hspec hmin
  obtain ⟨c, rfl⟩ : ∃ b, c = b + 1 := Nat.exists_eq_succ_of_ne_zero (by rintro rfl; omega)
  have hbefore : (d - f) * c < 2 ^ 32 := Nat.lt_of_not_le (Nat.find_min hexists (by omega))
  have hsum : (d - f) * (c + 1) = (d - f) * c + (d - f) := Nat.mul_succ _ _
  have hmod : (d - f) * (c + 1) % 2 ^ 32 = (d - f) * c + (d - f) - 2 ^ 32 := by
    rw [hsum, Nat.mod_eq_sub_mod (by omega), Nat.mod_eq_of_lt (by omega)]
  have hup := h.monotone (Nat.le_succ c)
  have hleft : ramp f d n (min c 65535) = f + (d - f) * c / n := by
    rw [Nat.min_eq_left (by omega)]
    exact ramp_of_lt hlt.le (by omega) hbefore
  have hright : ramp f d n (min (c + 1) 65535) = f + ((d - f) * c + (d - f) - 2 ^ 32) / n := by
    rw [Nat.min_eq_left (by omega), ramp, if_neg (by omega), if_pos (by omega), max_eq_right hlt.le,
      hmod]
  have hdown : ((d - f) * c + (d - f) - 2 ^ 32) / n + 1 ≤ (d - f) * c / n := by
    rw [← Nat.add_div_right _ (by omega)]
    exact Nat.div_le_div_right (by omega)
  simp only [Nat.succ_eq_add_one, hleft, hright] at hup
  omega

theorem goesUp_iff (hn : 1 ≤ n) (hd : d ≤ 31536000) :
    GoesUp f d n (fun k => ramp f d n (min k 65535)) ↔
      f = d ∨ d < f ∧ 65535 < n ∨ f < d ∧ n ≤ 65535 ∧ (d - f) * (n - 1) < 2 ^ 32 := by
  rcases Nat.lt_trichotomy f d with hlt | rfl | hgt
  · rcases Nat.lt_or_ge 65535 n with hlong | hshort
    · exact iff_of_false (not_goesUp_of_long hlt hlong) (by omega)
    · rcases Nat.lt_or_ge ((d - f) * (n - 1)) (2 ^ 32) with hfits | hwraps
      · exact iff_of_true (goesUp_of_fits hlt hn hshort hfits) (.inr (.inr ⟨hlt, hshort, hfits⟩))
      · exact iff_of_false (not_goesUp_of_wraps hlt hd hshort hwraps) (by omega)
  · refine iff_of_true (goesUp_const fun k => ?_) (.inl rfl)
    rcases Nat.lt_or_ge (min k 65535) n with hc | hc
    · rw [ramp_of_le le_rfl hc, max_self]
    · rw [ramp, if_neg (by omega), if_neg (by omega), max_self]
  · rcases Nat.lt_or_ge 65535 n with hlong | hshort
    · refine iff_of_true (goesUp_const fun k => ?_) (.inr (.inl ⟨hgt, hlong⟩))
      rw [ramp_of_le hgt.le (by omega), max_eq_left hgt.le]
    · refine iff_of_false (fun h => ?_) (by omega)
      have hend := h.end_eq n le_rfl
      rw [Nat.min_eq_left hshort, ramp, if_neg (by omega), if_neg (by omega)] at hend
      omega

end Ramp

namespace SessionOptimizer

variable {so : SessionOptimizer} {ua : Nat}

def rampLength (so : SessionOptimizer) (ua : Nat) : Nat := max 1 (so.firstWriteNums ua).toNat

theorem toNat_rampLength (so : SessionOptimizer) (ua : Nat) :
    (if so.firstWriteNums ua = 0 then 1 else so.firstWriteNums ua).toNat = so.rampLength ua := by
  unfold rampLength
  split_ifs with hzero
  · simp [hzero]
  · have hne : (so.firstWriteNums ua).toNat ≠ 0 := fun h => hzero (UInt32.toNat_inj.mp h)
    omega

theorem toNat_lifetimeAfter (numWrites : UInt16) :
    (so.lifetimeAfter ua numWrites).toNat =
      ramp (so.firstWriteLifetimes ua).seconds.toNat (so.defaultLifetimes ua).seconds.toNat
        (so.rampLength ua) numWrites.toNat := by
  have hf := (so.firstWriteLifetimes ua).toNat_le
  have hlength := toNat_rampLength so ua
  have hc : numWrites.toUInt32.toNat = numWrites.toNat := UInt16.toNat_toUInt32 _
  have hzero : numWrites = 0 ↔ numWrites.toNat = 0 := UInt16.toNat_inj.symm
  simp only [lifetimeAfter, ramp]
  generalize (so.firstWriteLifetimes ua).seconds = f at hf ⊢
  generalize (so.defaultLifetimes ua).seconds = d
  generalize (if so.firstWriteNums ua = 0 then 1 else so.firstWriteNums ua) = n at hlength ⊢
  have hmax : (if d < f then f else d).toNat = max f.toNat d.toNat := by
    split_ifs with hlt <;> rw [UInt32.lt_iff_toNat_lt] at hlt <;> omega
  generalize (if d < f then f else d) = best at hmax ⊢
  have hlt : numWrites.toUInt32 < n ↔ numWrites.toNat < so.rampLength ua := by
    rw [UInt32.lt_iff_toNat_lt, hc, hlength]
  simp only [hzero, hlt]
  split_ifs with hnone hramp
  · rfl
  · have hle : f ≤ best := by
      rw [UInt32.le_iff_toNat_le, hmax]
      exact le_max_left _ _
    have hquotient : (max f.toNat d.toNat - f.toNat) * numWrites.toNat % 2 ^ 32 / so.rampLength ua ≤
        2 ^ 31 := by
      refine Nat.div_le_of_le_mul ((Nat.mod_lt _ (Nat.two_pow_pos 32)).le.trans ?_)
      have htwo : 2 * 2 ^ 31 ≤ so.rampLength ua * 2 ^ 31 := Nat.mul_le_mul_right _ (by omega)
      omega
    rw [UInt32.toNat_add, UInt32.toNat_div, UInt32.toNat_mul, UInt32.toNat_sub_of_le _ _ hle, hmax,
      hc, hlength, Nat.mod_eq_of_lt (by omega)]
  · rfl

def IsDefault (ua : Nat) (lifetime : UInt32) : Prop := ua ≠ userAgentUser ∨ lifetime = maxTime

theorem onWrite_of_isDefault {o : TimedObject} {lifetime : UInt32}
    (h : IsDefault o.userAgent lifetime) : so.onWrite o lifetime =
      { o with expirationTime := o.modificationTime + so.lifetimeAfter o.userAgent o.numWrites
        }.incrementNumWrites := by
  refine if_neg ?_
  rintro ⟨hua, hlifetime⟩
  exact h.elim (fun hne => hne hua) hlifetime

theorem toNat_incrementNumWrites (o : TimedObject) :
    o.incrementNumWrites.numWrites.toNat = min (o.numWrites.toNat + 1) 65535 := by
  have hlt := o.numWrites.toNat_lt
  unfold TimedObject.incrementNumWrites
  split_ifs with hsmall <;> rw [UInt16.lt_iff_toNat_lt] at hsmall
  · have hsum : (o.numWrites + 1).toNat = o.numWrites.toNat + 1 := by
      rw [UInt16.toNat_add]
      exact Nat.mod_eq_of_lt (Nat.succ_lt_succ hsmall)
    have hless : o.numWrites.toNat < 65535 := hsmall
    exact hsum.trans (by omega)
  · have hless : ¬o.numWrites.toNat < 65535 := hsmall
    have hlt : o.numWrites.toNat < 65536 := hlt
    omega

theorem processWriteMessage_eq {onWrite : TimedObject → UInt32 → TimedObject} {o : TimedObject}
    (halive : o.isBeingDeleted = false) (hua : o.isLinked → o.userAgent = ua)
    (time lifetime : UInt32) :
    o.processWriteMessage onWrite time ua lifetime =
      onWrite { o with userAgent := ua, isLinked := true, modificationTime := time } lifetime := by
  rw [TimedObject.processWriteMessage, if_pos halive]
  cases hlinked : o.isLinked with
  | false => rfl
  | true =>
    have hsame : o = { o with userAgent := ua, isLinked := true } := by
      rw [← hua hlinked, ← hlinked]
    simp only [Bool.true_eq_false, if_false, hua hlinked, lt_irrefl]
    rw [hsame]

/-- What all sessions have in common that were written with default lifetimes only. -/
structure IsWritten (o : TimedObject) (ua n : Nat) : Prop where
  alive : o.isBeingDeleted = false
  userAgent : o.isLinked → o.userAgent = ua
  numWrites : o.numWrites.toNat = min n 65535

theorem IsWritten.write {o : TimedObject} {n : Nat} (h : IsWritten o ua n) (so : SessionOptimizer)
    {lifetime : UInt32} (hdefault : IsDefault ua lifetime) (time : UInt32) :
    IsWritten (o.processWriteMessage so.onWrite time ua lifetime) ua (n + 1) ∧
      (o.processWriteMessage so.onWrite time ua lifetime).expirationTime =
        time + so.lifetimeAfter ua o.numWrites ∧
      (o.processWriteMessage so.onWrite time ua lifetime).modificationTime = time := by
  rw [processWriteMessage_eq h.alive h.userAgent, onWrite_of_isDefault hdefault]
  have hwrites := toNat_incrementNumWrites { o with
    userAgent := ua
    isLinked := true
    modificationTime := time
    expirationTime := time + so.lifetimeAfter ua o.numWrites }
  refine ⟨⟨?_, ?_, hwrites.trans ?_⟩, ?_, ?_⟩
  · unfold TimedObject.incrementNumWrites
    split_ifs <;> exact h.alive
  · unfold TimedObject.incrementNumWrites
    split_ifs <;> exact fun _ => rfl
  · rw [h.numWrites]
    omega
  · unfold TimedObject.incrementNumWrites
    split_ifs <;> rfl
  · unfold TimedObject.incrementNumWrites
    split_ifs <;> rfl

theorem written_isWritten (so : SessionOptimizer) (created : UInt32) (times : Nat → UInt32)
    {lifetimes : Nat → UInt32} (hdefault : ∀ n, IsDefault ua (lifetimes n)) (n : Nat) :
    IsWritten (so.written created ua times lifetimes n) ua n := by
  induction n with
  | zero => exact ⟨rfl, fun hlinked => absurd hlinked (by simp [written, TimedObject.create]), rfl⟩
  | succ n ih => exact (ih.write so (hdefault n) (times n)).1

theorem granted_eq {created : UInt32} {times lifetimes : Nat → UInt32}
    (hdefault : ∀ n, IsDefault ua (lifetimes n)) (n : Nat) :
    so.granted created ua times lifetimes n =
      ramp (so.firstWriteLifetimes ua).seconds.toNat (so.defaultLifetimes ua).seconds.toNat
        (so.rampLength ua) (min n 65535) := by
  have hwritten := written_isWritten so created times hdefault n
  obtain ⟨-, hexpiration, hmodification⟩ := hwritten.write so (hdefault n) (times n)
  rw [granted, written]
  simp only [hexpiration, hmodification]
  rw [UInt32.add_comm, UInt32.add_sub_cancel, toNat_lifetimeAfter, hwritten.numWrites]

theorem granted_goesUp_iff (so : SessionOptimizer) (created : UInt32) (ua : Nat)
    (times lifetimes : Nat → UInt32) (hdefault : ∀ n, IsDefault ua (lifetimes n)) :
    let first := (so.firstWriteLifetimes ua).seconds.toNat
    let default := (so.defaultLifetimes ua).seconds.toNat
    let num := (so.firstWriteNums ua).toNat
    GoesUp first default (max 1 num) (so.granted created ua times lifetimes) ↔
      first = default ∨ default < first ∧ 65535 < num ∨
        first < default ∧ num ≤ 65535 ∧ (default - first) * (num - 1) < 2 ^ 32 := by
  intro first default num
  have hgranted : so.granted created ua times lifetimes =
      fun n => ramp first default (so.rampLength ua) (min n 65535) :=
    funext fun n => granted_eq hdefault n
  have hlength : so.rampLength ua = max 1 num := rfl
  have hpred : max 1 num - 1 = num - 1 := by omega
  have hlong : 65535 < max 1 num ↔ 65535 < num := by omega
  have hshort : max 1 num ≤ 65535 ↔ num ≤ 65535 := by omega
  rw [hgranted, hlength, goesUp_iff (le_max_left 1 num) (so.defaultLifetimes ua).toNat_le, hpred,
    hlong, hshort]

def uniform (first default : Duration) (num : UInt32) : SessionOptimizer where
  evictionMode := .expirationLru
  firstWriteLifetimes _ := first
  firstWriteNums _ := num
  defaultLifetimes _ := default
  readExtraLifetimes _ := default

def regularUser : SessionOptimizer := uniform ⟨600, by decide⟩ ⟨1209600, by decide⟩ 10

theorem granted_goesUp_of_regular_user :
    GoesUp 600 1209600 10
      (regularUser.granted 0 userAgentUser (fun n => n.toUInt32) fun _ => maxTime) :=
  (granted_goesUp_iff regularUser 0 userAgentUser (fun n => n.toUInt32) (fun _ => maxTime)
    fun _ => .inr rfl).mpr (by decide)

def steep : SessionOptimizer := uniform ⟨60, by decide⟩ ⟨31536000, by decide⟩ 1000

/-- The write with number 137 gets less than the one before. -/
theorem granted_goes_down :
    steep.granted 0 userAgentUser (fun _ => 0) (fun _ => maxTime) 136 = 4288947 ∧
      steep.granted 0 userAgentUser (fun _ => 0) (fun _ => maxTime) 137 = 25516 ∧
      ¬GoesUp 60 31536000 1000 (steep.granted 0 userAgentUser (fun _ => 0) fun _ => maxTime) := by
  have hbefore : steep.granted 0 userAgentUser (fun _ => 0) (fun _ => maxTime) 136 = 4288947 := by
    rw [granted_eq fun _ => .inr rfl]
    decide
  have hafter : steep.granted 0 userAgentUser (fun _ => 0) (fun _ => maxTime) 137 = 25516 := by
    rw [granted_eq fun _ => .inr rfl]
    decide
  refine ⟨hbefore, hafter, fun h => ?_⟩
  have hle := h.monotone (Nat.le_succ 136)
  rw [hbefore, hafter] at hle
  omega

/-! ### Requested lifetimes -/

inductive Message where
  | write (time : UInt32) (ua : Fin numUserAgents) (lifetime : UInt32)
  | read (time : UInt32) (ua : Fin numUserAgents)
deriving DecidableEq

def process (so : SessionOptimizer) (o : TimedObject) : Message → TimedObject
  | .write time ua lifetime => o.processWriteMessage so.onWrite time ua lifetime
  | .read time ua => o.processReadMessage so.onRead time ua

def run (so : SessionOptimizer) (created : UInt32) (messages : List Message) : TimedObject :=
  messages.foldl so.process (.create created)

/-- A read at this time extends the lifetime of a regular user's session that expires at
`expiration`, unless the session is one with a requested lifetime. -/
def Extends (so : SessionOptimizer) (expiration time : UInt32) : Prop :=
  (so.evictionMode = .lru ∨ so.evictionMode = .strictLru ∨ expiration ≤ time) ∧
    expiration < time + (so.readExtraLifetimes userAgentUser).seconds

/-- Every write was one of a regular user, with a requested lifetime. -/
def AllRequested (so : SessionOptimizer) (created : UInt32) (history : List Message) : Prop :=
  ∀ before time ua lifetime after, history = before ++ .write time ua lifetime :: after →
    ¬IsDefault (so.run created (before ++ [.write time ua lifetime])).userAgent lifetime

section Requested

variable {created : UInt32} {o : TimedObject} {history : List Message}

theorem run_concat (message : Message) :
    so.run created (history ++ [message]) = so.process (so.run created history) message := by
  rw [run, List.foldl_append]
  rfl

theorem numWrites_incrementNumWrites : o.incrementNumWrites.numWrites ≠ 0 := by
  have h := toNat_incrementNumWrites o
  intro hzero
  rw [hzero, UInt16.toNat_zero] at h
  omega

theorem extend_eq (so : SessionOptimizer) (hua : o.userAgent = userAgentUser) (time : UInt32) :
    (so.Extends o.expirationTime time ∧ o.extend so.evictionMode so.readExtraLifetimes time =
        { o with expirationTime := time + (so.readExtraLifetimes userAgentUser).seconds }) ∨
      ¬so.Extends o.expirationTime time ∧
        o.extend so.evictionMode so.readExtraLifetimes time = o := by
  unfold Extends TimedObject.extend
  rw [hua]
  have hlt : time < o.expirationTime ↔ ¬o.expirationTime ≤ time := UInt32.not_le.symm
  cases so.evictionMode <;> simp only [reduceCtorEq, true_or, or_true, false_or, true_and, hlt]
  all_goals split_ifs <;> simp_all

theorem numWrites_onWrite (lifetime : UInt32) :
    (so.onWrite o lifetime).numWrites = 0 ↔ ¬IsDefault o.userAgent lifetime ∧ o.numWrites = 0 := by
  by_cases hdefault : IsDefault o.userAgent lifetime
  · rw [onWrite_of_isDefault hdefault]
    exact iff_of_false numWrites_incrementNumWrites fun h => h.1 hdefault
  · have hrequested : o.userAgent = userAgentUser ∧ lifetime ≠ maxTime := by
      simpa [IsDefault, not_or] using hdefault
    rw [onWrite, if_pos hrequested, and_iff_right hdefault]
    split_ifs <;> rfl

theorem onWrite_kept (lifetime : UInt32) :
    (so.onWrite o lifetime).isBeingDeleted = o.isBeingDeleted ∧
    (so.onWrite o lifetime).userAgent = o.userAgent ∧
      (so.onWrite o lifetime).isLinked = o.isLinked := by
  simp only [onWrite, TimedObject.incrementNumWrites]
  split_ifs <;> exact ⟨rfl, rfl, rfl⟩

theorem onRead_kept (time : UInt32) : (so.onRead o time).isBeingDeleted = o.isBeingDeleted ∧
    (so.onRead o time).numWrites = o.numWrites := by
  unfold onRead TimedObject.extend
  cases so.evictionMode <;> simp only <;> split_ifs <;> exact ⟨rfl, rfl⟩

theorem process_write_alive (so : SessionOptimizer) (halive : o.isBeingDeleted = false)
    (time : UInt32) (ua : Fin numUserAgents) (lifetime : UInt32) :
    ∃ o', so.process o (.write time ua lifetime) = so.onWrite o' lifetime ∧
      o'.isBeingDeleted = false ∧ o'.isLinked = true ∧ o'.numWrites = o.numWrites := by
  rw [process, TimedObject.processWriteMessage, if_pos halive]
  refine ⟨_, rfl, ?_⟩
  split_ifs with hnew hbetter
  · exact ⟨halive, rfl, rfl⟩
  · exact ⟨halive, by simpa using hnew, rfl⟩
  · exact ⟨halive, by simpa using hnew, rfl⟩

theorem process_read (time : UInt32) (ua : Fin numUserAgents) :
    (so.process o (.read time ua)).isBeingDeleted = o.isBeingDeleted ∧
      (so.process o (.read time ua)).numWrites = o.numWrites := by
  rw [process, TimedObject.processReadMessage]
  split_ifs
  · exact onRead_kept time
  · exact onRead_kept time
  · exact ⟨rfl, rfl⟩
  · exact ⟨rfl, rfl⟩

theorem run_alive (so : SessionOptimizer) (created : UInt32) (history : List Message) :
    (so.run created history).isBeingDeleted = false := by
  induction history using List.reverseRecOn with
  | nil => rfl
  | append_singleton history message ih =>
    rw [run_concat]
    cases message with
    | write time ua lifetime =>
      obtain ⟨o', heq, halive, -, -⟩ := process_write_alive so ih time ua lifetime
      rw [heq, (onWrite_kept lifetime).1]
      exact halive
    | read time ua => rw [(process_read time ua).1, ih]

theorem allRequested_concat (message : Message) : so.AllRequested created (history ++ [message]) ↔
    so.AllRequested created history ∧ ∀ time ua lifetime, message = .write time ua lifetime →
      ¬IsDefault (so.run created (history ++ [message])).userAgent lifetime := by
  constructor
  · intro h
    refine ⟨fun before time ua lifetime after heq => ?_, fun time ua lifetime heq => ?_⟩
    · exact h before time ua lifetime (after ++ [message]) (by simp [heq])
    · subst heq
      exact h history time ua lifetime [] rfl
  · rintro ⟨hbefore, hlast⟩ before time ua lifetime after heq
    rcases List.eq_nil_or_concat after with rfl | ⟨after, last, rfl⟩
    · obtain ⟨rfl, hmessage⟩ := List.append_inj' heq rfl
      obtain rfl := List.singleton_inj.mp hmessage
      exact hlast time ua lifetime rfl
    · have hsplit : history ++ [message] = before ++ .write time ua lifetime :: after ++
          [last] := by
        simpa using heq
      obtain ⟨rfl, -⟩ := List.append_inj' hsplit rfl
      exact hbefore before time ua lifetime after rfl

/-- The number of writes tells whether there was a default lifetime. -/
theorem numWrites_run (so : SessionOptimizer) (created : UInt32) (history : List Message) :
    (so.run created history).numWrites = 0 ↔ so.AllRequested created history := by
  induction history using List.reverseRecOn with
  | nil =>
    refine iff_of_true rfl fun before time ua lifetime after heq => ?_
    simp at heq
  | append_singleton history message ih =>
    rw [allRequested_concat, run_concat, ← ih]
    cases message with
    | write time ua lifetime =>
      obtain ⟨o', heq, -, -, hwrites⟩ :=
        process_write_alive so (run_alive so created history) time ua lifetime
      rw [heq, numWrites_onWrite, hwrites, (onWrite_kept lifetime).2.1, and_comm]
      refine and_congr_right fun _ => ⟨fun h time' ua' lifetime' hmessage => ?_, fun h => ?_⟩
      · obtain ⟨rfl, rfl, rfl⟩ := Message.write.inj hmessage
        exact h
      · exact h time ua lifetime rfl
    | read time ua =>
      rw [(process_read time ua).2]
      exact (and_iff_left fun _ _ _ hmessage => nomatch hmessage).symm

theorem process_read_eq (so : SessionOptimizer) (halive : o.isBeingDeleted = false)
    (hlinked : o.isLinked = true) (hua : o.userAgent = userAgentUser) (time : UInt32)
    (ua : Fin numUserAgents) :
    (o.numWrites ≠ 0 ∧ so.Extends o.expirationTime time ∧ so.process o (.read time ua) =
        { o with expirationTime := time + (so.readExtraLifetimes userAgentUser).seconds }) ∨
      (o.numWrites = 0 ∨ ¬so.Extends o.expirationTime time) ∧
        so.process o (.read time ua) = o := by
  have hnot : ¬o.userAgent < ua := by
    rw [hua]
    exact Nat.not_lt.mpr (Nat.lt_succ_iff.mp ua.isLt)
  have hpos : 0 < o.numWrites ↔ o.numWrites ≠ 0 := UInt16.pos_iff_ne_zero
  rw [process, TimedObject.processReadMessage, if_pos halive, if_pos hlinked, if_neg hnot, onRead]
  by_cases hzero : o.numWrites = 0
  · right
    exact ⟨.inl hzero, if_neg fun h => hpos.mp h hzero⟩
  · rw [if_pos (hpos.mpr hzero)]
    rcases extend_eq so hua time with ⟨hextends, heq⟩ | ⟨hnot, heq⟩
    · exact .inl ⟨hzero, hextends, heq⟩
    · exact .inr ⟨.inr hnot, heq⟩

def Message.ofRead (r : UInt32 × Fin numUserAgents) : Message := .read r.1 r.2

/-- Reads leave the expiration time alone if none of them extends it, or if no write has counted. -/
theorem reads_keep_iff (halive : o.isBeingDeleted = false) (hlinked : o.isLinked = true)
    (hua : o.userAgent = userAgentUser) (reads : List (UInt32 × Fin numUserAgents)) :
    (∀ k, (((reads.take k).map Message.ofRead).foldl so.process o).expirationTime =
        o.expirationTime) ↔
      o.numWrites = 0 ∨ ∀ r ∈ reads, ¬so.Extends o.expirationTime r.1 := by
  induction reads with
  | nil => simp
  | cons r reads ih =>
    rcases process_read_eq so halive hlinked hua r.1 r.2 with
      ⟨hcounts, hextends, heq⟩ | ⟨hkept, heq⟩
    · refine iff_of_false (fun h => ?_) ?_
      · have hone := h 1
        simp only [List.take_succ_cons, List.take_zero, List.map_cons, List.map_nil,
          List.foldl_cons, List.foldl_nil, Message.ofRead, heq] at hone
        exact absurd (hone ▸ hextends.2) (UInt32.lt_irrefl _)
      · rintro (hzero | hnone)
        · exact hcounts hzero
        · exact hnone r List.mem_cons_self hextends
    · have hshift : (∀ k, ((((r :: reads).take k).map Message.ofRead).foldl so.process
          o).expirationTime = o.expirationTime) ↔
          ∀ k, (((reads.take k).map Message.ofRead).foldl so.process o).expirationTime =
            o.expirationTime := by
        constructor
        · intro h k
          have hnext := h (k + 1)
          rwa [List.take_succ_cons, List.map_cons, List.foldl_cons, Message.ofRead, heq] at hnext
        · intro h k
          cases k with
          | zero => rfl
          | succ k =>
            rw [List.take_succ_cons, List.map_cons, List.foldl_cons, Message.ofRead, heq]
            exact h k
      rw [hshift, ih]
      constructor
      · rintro (hzero | hnone)
        · exact .inl hzero
        · refine hkept.imp_right fun hnot z hz => ?_
          rcases List.mem_cons.mp hz with rfl | hz
          · exact hnot
          · exact hnone z hz
      · exact Or.imp_right fun hnone z hz => hnone z (List.mem_cons_of_mem r hz)

end Requested

/-- Whether reads leave a requested lifetime alone. -/
theorem requested_kept_iff (so : SessionOptimizer) (created : UInt32) (history : List Message)
    (time : UInt32) (ua : Fin numUserAgents) (lifetime : UInt32) (hrequested : lifetime ≠ maxTime)
    (huser : (so.run created (history ++ [.write time ua lifetime])).userAgent = userAgentUser)
    (reads : List (UInt32 × Fin numUserAgents)) :
    (∀ k, (so.run created
        (history ++ [.write time ua lifetime] ++ (reads.take k).map Message.ofRead)).expirationTime
        = (so.run created (history ++ [.write time ua lifetime])).expirationTime) ↔
      so.AllRequested created history ∨ ∀ r ∈ reads, ¬so.Extends
        (so.run created (history ++ [.write time ua lifetime])).expirationTime r.1 := by
  have halive := run_alive so created (history ++ [.write time ua lifetime])
  have hlinked : (so.run created (history ++ [.write time ua lifetime])).isLinked = true := by
    obtain ⟨o', heq, -, hlinked, -⟩ :=
      process_write_alive so (run_alive so created history) time ua lifetime
    rw [run_concat, heq, (onWrite_kept lifetime).2.2]
    exact hlinked
  have hwrites : (so.run created (history ++ [.write time ua lifetime])).numWrites = 0 ↔
      so.AllRequested created history := by
    rw [numWrites_run, allRequested_concat]
    refine and_iff_left fun time' ua' lifetime' hmessage => ?_
    obtain ⟨rfl, rfl, rfl⟩ := Message.write.inj hmessage
    exact not_or.mpr ⟨not_not.mpr huser, hrequested⟩
  rw [← hwrites, ← reads_keep_iff halive hlinked huser]
  simp only [run, List.foldl_append]

def lruUser : SessionOptimizer := { regularUser with evictionMode := .lru }

/-- The first write of a session requests 100 seconds; a read before their end does not extend
them. -/
theorem requested_kept_of_first_write :
    (lruUser.run 0 ([] ++ [.write 10 3 100] ++
      ([(60, 3)].take 1).map Message.ofRead)).expirationTime = 110 :=
  ((requested_kept_iff lruUser 0 [] 10 3 100 (by decide) (by decide) [(60, 3)]).mpr
    (.inl fun before _ _ _ _ heq => by simp at heq) 1).trans (by decide)

/-- The same after a write with the default lifetime: the read gives the session two more weeks. -/
theorem requested_extended :
    (lruUser.run 0 [.write 0 3 maxTime, .write 10 3 100]).expirationTime = 110 ∧
      (lruUser.run 0 [.write 0 3 maxTime, .write 10 3 100, .read 60 3]).expirationTime =
        1209660 := by
  decide

end SessionOptimizer

end Lifetimes

end CyberCache
