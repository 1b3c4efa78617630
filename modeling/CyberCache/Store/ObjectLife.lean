import CyberCache.Store.PayloadStore

/-!
# The life of one object

What can happen to an object of a store depends only on its flags and on what the queues say about
it. A `Life` is all of that, with messages counted. An object that is being deleted is carried by
exactly one message at a time, from the store to the tag manager and on to the optimizer or the
other way around, until it is in the queue of deleted objects, unless somebody drops the message
that carries it.
-/

namespace CyberCache

structure Life where
  created : Bool
  disposed : Bool
  flags : ObjectFlags
  /-- `WRITE` and `READ` messages in the queue of the optimizer. -/
  accesses : Nat
  deletes : Nat
  saves : Nat
  removes : Nat
  unlinks : Nat
  /-- How often the object was put into the queue of deleted objects. -/
  posted : Nat
  queued : Nat

inductive LifeEvent where
  | create
  | write
  | read
  | destroy
  /-- Messages of the optimizer. -/
  | link
  | skipRead
  | unlink
  | giveUp
  | purge
  /-- Messages of the tag manager. -/
  | tag
  | skipSave
  | untag
  | skipRemove
  | untagPurged
  | clean
  | dispose
deriving DecidableEq, Repr

namespace Life

def initial : Life := ⟨false, false, ⟨false, false, false, false⟩, 0, 0, 0, 0, 0, 0, 0⟩

def InUse (l : Life) : Prop := l.created = true ∧ l.disposed = false

structure Alive (l : Life) : Prop where
  inUse : l.InUse
  flag : l.flags.beingDeleted = false

def post (l : Life) : Life :=
  { l with
    flags := { l.flags with deleted := true }
    posted := l.posted + 1
    queued := l.queued + 1 }

inductive Next (l : Life) : Domain → LifeEvent → Life → Prop
  | create {domain : Domain} (h : l.created = false) :
      Next l domain .create { l with created := true }
  | writeSession (h : l.Alive) : Next l .session .write { l with accesses := l.accesses + 1 }
  | writePage (h : l.Alive) : Next l .page .write { l with saves := l.saves + 1 }
  | read {domain : Domain} (h : l.Alive) :
      Next l domain .read { l with accesses := l.accesses + 1 }
  | destroySession (h : l.Alive) :
      Next l .session .destroy
        { l with flags := { l.flags with beingDeleted := true }, deletes := l.deletes + 1 }
  | destroyPage (h : l.Alive) :
      Next l .page .destroy
        { l with flags := { l.flags with beingDeleted := true }, removes := l.removes + 1 }
  | link {domain : Domain} {n : Nat} (h : l.InUse) (hmessage : l.accesses = n + 1) :
      Next l domain .link
        { l with flags := { l.flags with linkedByOptimizer := true }, accesses := n }
  | skipRead {domain : Domain} {n : Nat} (h : l.InUse) (hmessage : l.accesses = n + 1) :
      Next l domain .skipRead { l with accesses := n }
  | unlink {domain : Domain} {n : Nat} (h : l.InUse) (hmessage : l.deletes = n + 1)
      (hlinked : l.flags.linkedByOptimizer = true) :
      Next l domain .unlink
        { l with flags := { l.flags with linkedByOptimizer := false }, deletes := n }.post
  | giveUp {domain : Domain} {n : Nat} (h : l.InUse) (hmessage : l.deletes = n + 1)
      (hlinked : l.flags.linkedByOptimizer = false) :
      Next l domain .giveUp { l with deletes := n }
  | purgeSession (h : l.Alive) (hlinked : l.flags.linkedByOptimizer = true) :
      Next l .session .purge
        { l with flags := { l.flags with beingDeleted := true, linkedByOptimizer := false } }.post
  | purgePage (h : l.Alive) (hlinked : l.flags.linkedByOptimizer = true) :
      Next l .page .purge
        { l with
          flags := { l.flags with beingDeleted := true, linkedByOptimizer := false }
          unlinks := l.unlinks + 1 }
  | tag {domain : Domain} {n : Nat} (h : l.InUse) (hmessage : l.saves = n + 1)
      (htagged : l.flags.linkedByTM = true ∨ l.flags.beingDeleted = false) :
      Next l domain .tag
        { l with
          flags := { l.flags with linkedByTM := true }
          saves := n
          accesses := l.accesses + 1 }
  | skipSave {domain : Domain} {n : Nat} (h : l.InUse) (hmessage : l.saves = n + 1) :
      Next l domain .skipSave { l with saves := n }
  | untag {domain : Domain} {n : Nat} (h : l.InUse) (hmessage : l.removes = n + 1)
      (htagged : l.flags.linkedByTM = true) :
      Next l domain .untag
        { l with
          flags := { l.flags with linkedByTM := false }
          removes := n
          deletes := l.deletes + 1 }
  | skipRemove {domain : Domain} {n : Nat} (h : l.InUse) (hmessage : l.removes = n + 1)
      (htagged : l.flags.linkedByTM = false) :
      Next l domain .skipRemove { l with removes := n }
  | untagPurged {domain : Domain} {n : Nat} (h : l.InUse) (hmessage : l.unlinks = n + 1) :
      Next l domain .untagPurged
        { l with flags := { l.flags with linkedByTM := false }, unlinks := n }.post
  | clean {domain : Domain} (h : l.Alive) (htagged : l.flags.linkedByTM = true) :
      Next l domain .clean
        { l with
          flags := { l.flags with beingDeleted := true, linkedByTM := false }
          deletes := l.deletes + 1 }
  | dispose {domain : Domain} {n : Nat} (h : l.InUse) (hqueued : l.queued = n + 1) :
      Next l domain .dispose { l with queued := n, disposed := true }

/-- The messages that carry the object, and the queue of deleted objects. -/
def carriers (l : Life) : Nat := l.deletes + l.removes + l.unlinks + l.flags.deleted.toNat

structure Valid (domain : Domain) (l : Life) : Prop where
  initial : l.created = false → l = initial
  carriers : l.carriers ≤ l.flags.beingDeleted.toNat
  posted : l.posted = l.flags.deleted.toNat
  queued : l.queued + l.disposed.toNat = l.posted
  untagged : 0 < l.deletes + l.posted → l.flags.linkedByTM = false
  session : domain = .session →
    l.flags.linkedByTM = false ∧ l.saves = 0 ∧ l.removes = 0 ∧ l.unlinks = 0

variable {domain : Domain} {l l' : Life} {e : LifeEvent}

theorem initial_valid (domain : Domain) : initial.Valid domain := by
  constructor <;> simp [initial, Life.carriers]

theorem Next.created (hnext : Next l domain e l') : l'.created = true := by
  cases hnext with
  | create h => rfl
  | writeSession h | writePage h | read h | destroySession h | destroyPage h | purgeSession h
  | purgePage h | clean h => exact h.inUse.1
  | link h | skipRead h | unlink h | giveUp h | tag h | skipSave h | untag h | skipRemove h
  | untagPurged h | dispose h => exact h.1

theorem Next.of_dispose (hnext : Next l domain .dispose l') :
    l.InUse ∧ 0 < l.queued ∧ l'.disposed = true := by
  cases hnext with
  | dispose h hqueued => exact ⟨h, by omega, rfl⟩

theorem Next.of_purge (hnext : Next l domain .purge l') : l.Alive ∧ ¬l'.Alive := by
  cases hnext with
  | purgeSession halive | purgePage halive => exact ⟨halive, fun h => by simpa [post] using h.flag⟩

theorem Next.of_clean (hnext : Next l domain .clean l') : l.Alive ∧ ¬l'.Alive := by
  cases hnext with
  | clean halive => exact ⟨halive, fun h => by simpa using h.flag⟩

theorem Next.of_unlink (hnext : Next l domain .unlink l') : l.flags.linkedByOptimizer = true := by
  cases hnext with
  | unlink _ _ hlinked => exact hlinked

theorem Next.of_giveUp (hnext : Next l domain .giveUp l') : l.flags.linkedByOptimizer = false := by
  cases hnext with
  | giveUp _ _ hlinked => exact hlinked

theorem Next.of_skipRemove (hnext : Next l domain .skipRemove l') :
    l.flags.linkedByTM = false := by
  cases hnext with
  | skipRemove _ _ htagged => exact htagged

theorem Next.beingDeleted_eq (hnext : Next l domain e l') (hdestroy : e ≠ .destroy)
    (hpurge : e ≠ .purge) (hclean : e ≠ .clean) :
    l'.flags.beingDeleted = l.flags.beingDeleted := by
  cases hnext <;> first | rfl | contradiction

theorem Next.linkedByOptimizer (hnext : Next l domain e l') (hunlink : e ≠ .unlink)
    (hpurge : e ≠ .purge) (hlinked : l.flags.linkedByOptimizer = true) :
    l'.flags.linkedByOptimizer = true := by
  cases hnext <;> first | exact hlinked | rfl | contradiction

section

variable (h : l.Valid domain)
include h

theorem Valid.of_alive (halive : l.Alive) :
    l.deletes = 0 ∧ l.removes = 0 ∧ l.unlinks = 0 ∧ l.flags.deleted = false := by
  have hcarriers := h.carriers
  rw [halive.flag, Life.carriers, Bool.toNat_false] at hcarriers
  cases hdeleted : l.flags.deleted <;> simp_all

theorem Valid.of_carried (hcarried : 0 < l.deletes + l.removes + l.unlinks) :
    l.flags.beingDeleted = true ∧ l.deletes + l.removes + l.unlinks = 1 ∧
      l.flags.deleted = false := by
  have hcarriers := h.carriers
  rw [Life.carriers] at hcarriers
  cases hdeleted : l.flags.deleted <;> cases hflag : l.flags.beingDeleted <;> simp_all; omega

theorem Valid.carriers_next (hnext : Next l domain e l') :
    l'.carriers + l.flags.beingDeleted.toNat + (if e = .giveUp ∨ e = .skipRemove then 1 else 0) =
      l.carriers + l'.flags.beingDeleted.toNat := by
  cases hnext with
  | destroySession halive | destroyPage halive | purgeSession halive | purgePage halive
  | clean halive =>
    simp [Life.carriers, post, halive.flag, h.of_alive halive]
  | unlink _ hmessage | untagPurged _ hmessage | giveUp _ hmessage | untag _ hmessage
  | skipRemove _ hmessage =>
    obtain ⟨hflag, hone, hdeleted⟩ := h.of_carried (by omega)
    simp [Life.carriers, post, hflag, hdeleted, hmessage] at hone ⊢
    omega
  | create | writeSession | writePage | read | link | skipRead | tag | skipSave | dispose =>
    simp [Life.carriers]

theorem Valid.posted_next (hnext : Next l domain e l') :
    l'.posted = l'.flags.deleted.toNat ∧ l'.queued + l'.disposed.toNat = l'.posted := by
  have hposted := h.posted
  have hqueued := h.queued
  cases hnext with
  | purgeSession halive =>
    rw [(h.of_alive halive).2.2.2] at hposted
    simp_all [post, halive.inUse.2]
  | unlink hinUse hmessage | untagPurged hinUse hmessage =>
    obtain ⟨-, -, hdeleted⟩ := h.of_carried (by omega)
    rw [hdeleted] at hposted
    simp_all [post, hinUse.2]
  | dispose hinUse hn =>
    rw [hn, hinUse.2] at hqueued
    exact ⟨hposted, hqueued⟩
  | _ => exact ⟨hposted, hqueued⟩

theorem Valid.untagged_next (hnext : Next l domain e l') :
    0 < l'.deletes + l'.posted → l'.flags.linkedByTM = false := by
  have huntagged := h.untagged
  cases hnext with
  | destroySession | purgeSession => exact fun _ => (h.session rfl).1
  | untag | untagPurged | clean => exact fun _ => rfl
  | unlink _ hmessage | giveUp _ hmessage => exact fun _ => huntagged (by omega)
  | tag _ _ htagged =>
    intro hlater
    obtain htagged | hflag := htagged
    · exact absurd (huntagged hlater) (by simp [htagged])
    · have hcarriers := h.carriers
      have hposted := h.posted
      rw [Life.carriers, hflag] at hcarriers
      simp only [Bool.toNat_false] at hcarriers hlater
      omega
  | _ => exact huntagged

theorem Valid.session_next (hnext : Next l domain e l')
    (hdomain : domain = .session) :
    l'.flags.linkedByTM = false ∧ l'.saves = 0 ∧ l'.removes = 0 ∧ l'.unlinks = 0 := by
  have hsession := h.session hdomain
  cases hnext <;> first | exact hsession | simp_all

theorem Valid.next (hnext : Next l domain e l') : l'.Valid domain where
  initial hcreated := absurd hnext.created (by simp [hcreated])
  carriers := by
    have hcarriers := h.carriers
    have hnext := h.carriers_next hnext
    omega
  posted := (h.posted_next hnext).1
  queued := (h.posted_next hnext).2
  untagged := h.untagged_next hnext
  session := h.session_next hnext

theorem Valid.alive_of_linked (hdisposed : l.disposed = false)
    (hflag : l.flags.beingDeleted = false)
    (hlinked : l.flags.linkedByOptimizer = true ∨ l.flags.linkedByTM = true) : l.Alive := by
  refine ⟨⟨?_, hdisposed⟩, hflag⟩
  by_contra hcreated
  simp [h.initial (by simpa using hcreated), Life.initial] at hlinked

theorem Valid.inUse_of_message (hdisposed : l.disposed = false)
    (hmessage : 0 < l.accesses + l.deletes + l.saves + l.removes + l.unlinks) : l.InUse := by
  refine ⟨?_, hdisposed⟩
  by_contra hcreated
  simp [h.initial (by simpa using hcreated), Life.initial] at hmessage

theorem Valid.inUse_of_queued (hqueued : 0 < l.queued) : l.InUse := by
  have hposted := h.posted
  have hsum := h.queued
  constructor
  · by_contra hcreated
    simp [h.initial (by simpa using hcreated), Life.initial] at hqueued
  · have hle := Bool.toNat_le l.flags.deleted
    cases hdisposed : l.disposed with
    | false => rfl
    | true =>
      rw [hdisposed, Bool.toNat_true] at hsum
      omega

end

/-! ## Deleted objects are forgotten -/

/-- When the object is put into the queue of deleted objects, the optimizer does not know it, and
will not hear of it. -/
def Forgets (domain : Domain) (l : Life) : LifeEvent → Prop
  | .unlink => l.accesses = 0
  | .purge => domain = .session → l.accesses = 0
  | .untagPurged => l.flags.linkedByOptimizer = false ∧ l.accesses = 0
  | _ => True

def Forgotten (l : Life) : Prop :=
  l.flags.deleted = true → l.flags.linkedByOptimizer = false ∧ l.accesses = 0

theorem Forgotten.next (hforgotten : l.Forgotten) (h : l.Valid domain)
    (hnext : Next l domain e l') (hforgets : l.Forgets domain e) : l'.Forgotten := by
  cases hnext with
  | writeSession halive | read halive =>
    intro hdeleted
    exact absurd (h.of_alive halive).2.2.2 (by simpa using hdeleted)
  | link _ hmessage | skipRead _ hmessage =>
    intro hdeleted
    have := (hforgotten hdeleted).2
    omega
  | unlink => exact fun _ => ⟨rfl, hforgets⟩
  | purgeSession => exact fun _ => ⟨rfl, hforgets rfl⟩
  | purgePage halive =>
    intro hdeleted
    exact absurd (h.of_alive halive).2.2.2 (by simpa using hdeleted)
  | tag _ _ htagged =>
    intro hdeleted
    have hposted : l.posted = 1 := by rw [h.posted, hdeleted]; rfl
    have hcarriers := h.carriers
    rw [Life.carriers, hdeleted, Bool.toNat_true] at hcarriers
    obtain htagged | hflag := htagged
    · exact absurd (h.untagged (by omega)) (by simp [htagged])
    · rw [hflag, Bool.toNat_false] at hcarriers
      omega
  | untagPurged => exact fun _ => hforgets
  | _ => exact hforgotten

theorem Forgotten.of_disposed (hforgotten : l.Forgotten) (h : l.Valid domain)
    (hdisposed : l.disposed = true) :
    l.flags.linkedByOptimizer = false ∧ l.accesses = 0 ∧ l.deletes = 0 := by
  have hposted := h.posted
  have hqueued := h.queued
  have hdeleted : l.flags.deleted = true := by
    by_contra hdeleted
    rw [hposted, hdisposed, eq_false_of_ne_true hdeleted] at hqueued
    simp at hqueued
  have hcarriers := h.carriers
  have hle := Bool.toNat_le l.flags.beingDeleted
  rw [Life.carriers, hdeleted, Bool.toNat_true] at hcarriers
  exact ⟨(hforgotten hdeleted).1, (hforgotten hdeleted).2, by omega⟩

/-! ## Objects that are being deleted are carried -/

def Carried (l : Life) : Prop := l.carriers = l.flags.beingDeleted.toNat

theorem Carried.next (hcarried : l.Carried) (h : l.Valid domain) (hnext : Next l domain e l')
    (hkeeps : e ≠ .giveUp ∧ e ≠ .skipRemove) : l'.Carried := by
  have hcarriers := h.carriers_next hnext
  rw [if_neg (by tauto), hcarried] at hcarriers
  rw [Carried]
  omega

end Life

end CyberCache
