import CyberCache.Types

/-!
# Descriptors and watched objects

Sockets are known by their descriptors. The system hands out any descriptor that is not open, so
that numbers are used again. An `epoll` instance keeps one object for each watched descriptor: a
second one is refused, and closing a descriptor ends the watch.
-/

namespace CyberCache

/-- The cases of `io_result_t` that pipelines tell apart: the end of a file is an error like
others. -/
inductive IoOutcome where
  | ok
  | retry
  | error
deriving DecidableEq, Repr

/-- The flags of an event that pipelines look at. -/
structure EventFlags where
  read : Bool
  hup : Bool
  error : Bool
deriving DecidableEq, Repr

/-- The open descriptors of a pipeline, and the objects that are reported when something happens. -/
structure Descriptors (ω : Type) where
  opened : List Nat
  watched : List (Nat × ω)
  closedTwice : Bool
  nodup : opened.Nodup
  isOpen : ∀ w ∈ watched, w.1 ∈ opened
  distinct : (watched.map Prod.fst).Nodup

namespace Descriptors

variable {ω : Type} (d : Descriptors ω)

def empty : Descriptors ω := ⟨[], [], false, by simp, by simp, by simp⟩

/-- The system decides; every descriptor that is not open can be the one. -/
def fresh (wish : Nat) : Nat :=
  if 0 < wish ∧ wish ∉ d.opened then wish else d.opened.foldr max 0 + 1

theorem fresh_not_mem (wish : Nat) : d.fresh wish ∉ d.opened := by
  unfold fresh
  split_ifs with h
  · exact h.2
  · intro hmem
    have : d.opened.foldr max 0 + 1 ≤ d.opened.foldr max 0 := List.le_max_of_le hmem le_rfl
    omega

def openSocket (wish : Nat) : Descriptors ω where
  opened := d.fresh wish :: d.opened
  watched := d.watched
  closedTwice := d.closedTwice
  nodup := List.nodup_cons.mpr ⟨d.fresh_not_mem wish, d.nodup⟩
  isOpen w hw := List.mem_cons_of_mem _ (d.isOpen w hw)
  distinct := d.distinct

def closeSocket (fd : Nat) : Descriptors ω where
  opened := d.opened.filter (· ≠ fd)
  watched := d.watched.filter (·.1 ≠ fd)
  closedTwice := d.closedTwice || decide (fd ∉ d.opened)
  nodup := d.nodup.filter _
  isOpen w hw := by
    simp only [List.mem_filter] at hw ⊢
    exact ⟨d.isOpen w hw.1, hw.2⟩
  distinct := d.distinct.sublist (List.filter_sublist.map _)

/-- `EPOLL_CTL_ADD`: an error if the descriptor is watched already or not open. -/
def watch (fd : Nat) (object : ω) : Descriptors ω :=
  if h : fd ∈ d.opened ∧ fd ∉ d.watched.map Prod.fst then
    { d with
      watched := (fd, object) :: d.watched
      isOpen := by
        intro w hw
        obtain rfl | hw := List.mem_cons.mp hw
        · exact h.1
        · exact d.isOpen w hw
      distinct := List.nodup_cons.mpr ⟨h.2, d.distinct⟩ }
  else d

/-- `EPOLL_CTL_MOD`: an error if the descriptor is not watched. -/
def replaceWatched (fd : Nat) (object : ω) : Descriptors ω where
  opened := d.opened
  watched := d.watched.map fun w => if w.1 = fd then (fd, object) else w
  closedTwice := d.closedTwice
  nodup := d.nodup
  isOpen w hw := by
    obtain ⟨w', hw', rfl⟩ := List.mem_map.mp hw
    split_ifs with h
    · exact h ▸ d.isOpen w' hw'
    · exact d.isOpen w' hw'
  distinct := by
    have hfst : (fun w : Nat × ω => (if w.1 = fd then (fd, object) else w).1) = Prod.fst := by
      funext w
      split_ifs with h
      · exact h.symm
      · rfl
    rw [List.map_map, Function.comp_def, hfst]
    exact d.distinct

def unwatch (fd : Nat) : Descriptors ω where
  opened := d.opened
  watched := d.watched.filter (·.1 ≠ fd)
  closedTwice := d.closedTwice
  nodup := d.nodup
  isOpen w hw := d.isOpen w (List.mem_of_mem_filter hw)
  distinct := d.distinct.sublist (List.filter_sublist.map _)

@[simp]
theorem opened_watch (fd : Nat) (object : ω) : (d.watch fd object).opened = d.opened := by
  unfold watch
  split_ifs <;> rfl

@[simp]
theorem closedTwice_watch (fd : Nat) (object : ω) :
    (d.watch fd object).closedTwice = d.closedTwice := by
  unfold watch
  split_ifs <;> rfl

@[simp]
theorem opened_unwatch (fd : Nat) : (d.unwatch fd).opened = d.opened := rfl

@[simp]
theorem opened_replaceWatched (fd : Nat) (object : ω) :
    (d.replaceWatched fd object).opened = d.opened := rfl

@[simp]
theorem opened_openSocket (wish : Nat) :
    (d.openSocket wish).opened = d.fresh wish :: d.opened := rfl

@[simp]
theorem watched_openSocket (wish : Nat) : (d.openSocket wish).watched = d.watched := rfl

@[simp]
theorem mem_opened_closeSocket {fd fd' : Nat} :
    fd' ∈ (d.closeSocket fd).opened ↔ fd' ∈ d.opened ∧ fd' ≠ fd := by
  simp [closeSocket]

theorem fresh_not_watched (wish : Nat) : d.fresh wish ∉ d.watched.map Prod.fst := by
  intro hmem
  obtain ⟨w, hw, hfd⟩ := List.mem_map.mp hmem
  exact d.fresh_not_mem wish (hfd ▸ d.isOpen w hw)

theorem watched_watch_fresh (wish : Nat) (object : ω) :
    ((d.openSocket wish).watch (d.fresh wish) object).watched =
      (d.fresh wish, object) :: d.watched := by
  rw [watch, dif_pos ⟨List.mem_cons_self, d.fresh_not_watched wish⟩]
  rfl

theorem watched_watch {fd : Nat} (hopened : fd ∈ d.opened) (hwatched : fd ∉ d.watched.map Prod.fst)
    (object : ω) : (d.watch fd object).watched = (fd, object) :: d.watched := by
  rw [watch, dif_pos ⟨hopened, hwatched⟩]

@[simp]
theorem map_fst_replaceWatched (fd : Nat) (object : ω) :
    (d.replaceWatched fd object).watched.map Prod.fst = d.watched.map Prod.fst := by
  rw [replaceWatched, List.map_map]
  refine List.map_congr_left fun w _ => ?_
  dsimp only [Function.comp_apply]
  split_ifs with h
  · exact h.symm
  · rfl

theorem perm_unwatch {fd : Nat} (h : fd ∈ d.watched.map Prod.fst) :
    (d.watched.map Prod.fst).Perm (fd :: (d.unwatch fd).watched.map Prod.fst) := by
  have hmap : (d.unwatch fd).watched.map Prod.fst = (d.watched.map Prod.fst).erase fd := by
    rw [d.distinct.erase_eq_filter, List.filter_map]
    simp only [unwatch, ne_eq, decide_not]
    rfl
  rw [hmap]
  exact List.perm_cons_erase h

theorem perm_closeSocket {fd : Nat} (h : fd ∈ d.opened) :
    d.opened.Perm (fd :: (d.closeSocket fd).opened) := by
  have hopened : (d.closeSocket fd).opened = d.opened.erase fd := by
    rw [d.nodup.erase_eq_filter]
    simp only [closeSocket, ne_eq, decide_not]
    rfl
  rw [hopened]
  exact List.perm_cons_erase h

theorem watched_closeSocket {fd : Nat} (h : fd ∉ d.watched.map Prod.fst) :
    (d.closeSocket fd).watched = d.watched := by
  refine List.filter_eq_self.mpr fun w hw => decide_eq_true fun hfd => h ?_
  exact hfd ▸ List.mem_map_of_mem hw

@[simp]
theorem closeSocket_openSocket (wish : Nat) :
    (d.openSocket wish).closeSocket (d.fresh wish) = d := by
  have hopened : d.opened.filter (· ≠ d.fresh wish) = d.opened := by
    refine List.filter_eq_self.mpr fun fd hfd => decide_eq_true ?_
    rintro rfl
    exact d.fresh_not_mem wish hfd
  have hwatched : d.watched.filter (·.1 ≠ d.fresh wish) = d.watched := by
    refine List.filter_eq_self.mpr fun w hw => decide_eq_true fun hfd => ?_
    exact d.fresh_not_watched wish (hfd ▸ List.mem_map_of_mem hw)
  obtain ⟨opened, watched, closedTwice, nodup, isOpen, distinct⟩ := d
  simp_all [closeSocket, openSocket]

end Descriptors

end CyberCache
