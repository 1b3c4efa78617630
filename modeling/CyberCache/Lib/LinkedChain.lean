import Mathlib

/-!
# Doubly linked chains

Every node has a forward and a backward link. A chain is the list of nodes that the forward links
visit from a first node on; its backward links lead back the same way. Several chains may live in
the same links, and what is done to one of them leaves the others alone as long as they have no
nodes in common.

`Segment` is a part of a chain with what comes before and after it, so that chains can be cut and
put together; a chain is a segment with nothing before and nothing after.
-/

variable {ν : Type*}

/-- The links of all nodes. -/
structure Links (ν : Type*) where
  next : ν → Option ν
  prev : ν → Option ν

namespace Links

/-- The nodes `xs`, entered from `before` through the link `first`, and left from `last` through the
link `after`. -/
def Segment (l : Links ν) : Option ν → Option ν → List ν → Option ν → Option ν → Prop
  | before, first, [], last, after => last = before ∧ after = first
  | before, first, x :: xs, last, after =>
    first = some x ∧ l.prev x = before ∧ l.Segment (some x) (l.next x) xs last after

def IsChain (l : Links ν) (first : Option ν) (xs : List ν) : Prop :=
  ∃ last, l.Segment none first xs last none

variable {l l' : Links ν} {before first last after : Option ν} {x y : ν} {xs ys : List ν}

/-! ## Segments -/

theorem segment_nil : l.Segment before first [] last after ↔ last = before ∧ after = first :=
  Iff.rfl

theorem segment_cons :
    l.Segment before first (x :: xs) last after ↔
      first = some x ∧ l.prev x = before ∧ l.Segment (some x) (l.next x) xs last after :=
  Iff.rfl

theorem segment_append :
    l.Segment before first (xs ++ ys) last after ↔
      ∃ p n, l.Segment before first xs p n ∧ l.Segment p n ys last after := by
  induction xs generalizing before first with
  | nil => simp [Segment]
  | cons x xs ih => simp only [List.cons_append, segment_cons, ih, and_assoc, exists_and_left]

theorem Segment.congr (h : l.Segment before first xs last after)
    (hnext : ∀ z ∈ xs, l'.next z = l.next z) (hprev : ∀ z ∈ xs, l'.prev z = l.prev z) :
    l'.Segment before first xs last after := by
  induction xs generalizing before first with
  | nil => exact h
  | cons x xs ih =>
    obtain ⟨hfirst, hx, hrest⟩ := h
    refine ⟨hfirst, (hprev x (by simp)).trans hx, ?_⟩
    rw [hnext x (by simp)]
    exact ih hrest (fun z hz => hnext z (by simp [hz])) fun z hz => hprev z (by simp [hz])

theorem Segment.first_eq (h : l.Segment before first xs last after) :
    first = xs.head?.or after := by
  cases xs with
  | nil => simp [h.2]
  | cons x xs => simp [h.1]

theorem Segment.last_eq (h : l.Segment before first xs last after) :
    last = xs.getLast?.or before := by
  induction xs generalizing before first with
  | nil => simp [h.1]
  | cons x xs ih =>
    rw [ih h.2.2, List.getLast?_cons]
    cases xs.getLast? <;> simp

theorem IsChain.first_eq (h : l.IsChain first xs) : first = xs.head? := by
  obtain ⟨last, h⟩ := h
  simpa using h.first_eq

theorem IsChain.prev_eq (h : l.IsChain first (xs ++ x :: ys)) : l.prev x = xs.getLast? := by
  obtain ⟨last, h⟩ := h
  obtain ⟨p, n, hxs, -, hp, -⟩ := segment_append.mp h
  rw [hp, hxs.last_eq, Option.or_none]

theorem IsChain.prev_mem (h : l.IsChain first (xs ++ x :: ys)) : ∀ p ∈ l.prev x, p ∈ xs := by
  intro p hp
  rw [h.prev_eq] at hp
  exact List.mem_of_getLast? hp

theorem IsChain.next_eq (h : l.IsChain first (xs ++ x :: ys)) : l.next x = ys.head? := by
  obtain ⟨last, h⟩ := h
  obtain ⟨p, n, -, -, -, hys⟩ := segment_append.mp h
  simpa using hys.first_eq

theorem IsChain.next_mem (h : l.IsChain first (xs ++ x :: ys)) : ∀ n ∈ l.next x, n ∈ ys := by
  intro n hn
  rw [h.next_eq] at hn
  exact List.mem_of_head? hn

theorem IsChain.mem_of_next (h : l.IsChain first xs) (hx : x ∈ xs) (hnext : l.next x = some y) :
    y ∈ xs := by
  obtain ⟨us, vs, rfl⟩ := List.append_of_mem hx
  have hmem := h.next_mem y hnext
  simp [hmem]

theorem IsChain.mem_of_prev (h : l.IsChain first xs) (hx : x ∈ xs) (hprev : l.prev x = some y) :
    y ∈ xs := by
  obtain ⟨us, vs, rfl⟩ := List.append_of_mem hx
  have hmem := h.prev_mem y hprev
  simp [hmem]

theorem IsChain.next_eq_iff (h : l.IsChain first xs) (hx : x ∈ xs) (hy : y ∈ xs) :
    l.next x = some y ↔ l.prev y = some x := by
  obtain ⟨last, h⟩ := h
  constructor
  · intro hnext
    obtain ⟨us, vs, rfl⟩ := List.append_of_mem hx
    obtain ⟨p, n, -, -, -, hvs⟩ := segment_append.mp h
    cases vs with
    | nil => simp [segment_nil, hnext] at hvs
    | cons z vs =>
      obtain ⟨hz, hprev, -⟩ := hvs
      rw [hnext, Option.some.injEq] at hz
      rw [hz, hprev]
  · intro hprev
    obtain ⟨us, vs, rfl⟩ := List.append_of_mem hy
    obtain ⟨p, n, hus, hn, hp, -⟩ := segment_append.mp h
    rw [hprev] at hp
    obtain rfl | ⟨zs, z, rfl⟩ := List.eq_nil_or_concat' us
    · simp [segment_nil, ← hp] at hus
    · obtain ⟨q, k, -, -, -, hlast, hnext⟩ := segment_append.mp hus
      rw [← hp, Option.some.injEq] at hlast
      rw [hlast, ← hnext, hn]

/-! ## Single links -/

section Update

variable [DecidableEq ν]

def setNext (l : Links ν) (x : ν) (y : Option ν) : Links ν :=
  { l with next := Function.update l.next x y }

def setPrev (l : Links ν) (x : ν) (y : Option ν) : Links ν :=
  { l with prev := Function.update l.prev x y }

@[simp]
theorem next_setNext (l : Links ν) (x : ν) (y : Option ν) : (l.setNext x y).next x = y := by
  simp [setNext]

theorem next_setNext_of_ne (l : Links ν) {x z : ν} (h : z ≠ x) (y : Option ν) :
    (l.setNext x y).next z = l.next z := by
  simp [setNext, h]

@[simp]
theorem prev_setNext (l : Links ν) (x : ν) (y : Option ν) : (l.setNext x y).prev = l.prev := rfl

@[simp]
theorem prev_setPrev (l : Links ν) (x : ν) (y : Option ν) : (l.setPrev x y).prev x = y := by
  simp [setPrev]

theorem prev_setPrev_of_ne (l : Links ν) {x z : ν} (h : z ≠ x) (y : Option ν) :
    (l.setPrev x y).prev z = l.prev z := by
  simp [setPrev, h]

@[simp]
theorem next_setPrev (l : Links ν) (x : ν) (y : Option ν) : (l.setPrev x y).next = l.next := rfl

def setPrevOf (l : Links ν) (x y : Option ν) : Links ν :=
  match x with
  | some x => l.setPrev x y
  | none => l

@[simp]
theorem next_setPrevOf (l : Links ν) (x y : Option ν) : (l.setPrevOf x y).next = l.next := by
  cases x <;> rfl

theorem Segment.setNext (h : l.Segment before first xs last after) (hx : x ∉ xs) (y : Option ν) :
    (l.setNext x y).Segment before first xs last after :=
  h.congr (fun _ hz => next_setNext_of_ne l (ne_of_mem_of_not_mem hz hx) y) fun _ _ => rfl

theorem Segment.setPrev (h : l.Segment before first xs last after) (hx : x ∉ xs) (y : Option ν) :
    (l.setPrev x y).Segment before first xs last after :=
  h.congr (fun _ _ => rfl) fun _ hz => prev_setPrev_of_ne l (ne_of_mem_of_not_mem hz hx) y

theorem Segment.setPrevOf (h : l.Segment before first xs last after) {n : Option ν}
    (hn : ∀ z ∈ n, z ∉ xs) (y : Option ν) : (l.setPrevOf n y).Segment before first xs last
    after := by
  cases n with
  | none => exact h
  | some z => exact h.setPrev (hn z rfl) y

theorem Segment.setNext_last (h : l.Segment before first (xs ++ [x]) last after) (hx : x ∉ xs)
    (y : Option ν) : (l.setNext x y).Segment before first (xs ++ [x]) (some x) y := by
  obtain ⟨p, n, hxs, hn, hp, -⟩ := segment_append.mp h
  refine segment_append.mpr ⟨p, n, hxs.setNext hx y, hn, hp, ?_⟩
  simp [segment_nil]

theorem Segment.setPrev_first (h : l.Segment before first (x :: xs) last after) (hx : x ∉ xs)
    (y : Option ν) : (l.setPrev x y).Segment y first (x :: xs) last after := by
  obtain ⟨hfirst, -, hrest⟩ := h
  exact ⟨hfirst, prev_setPrev l x y, hrest.setPrev hx y⟩

/-! ## Putting a node in front of a chain -/

def pushFront (l : Links ν) (first : Option ν) (x : ν) : Links ν :=
  ((l.setPrev x none).setNext x first).setPrevOf first (some x)

theorem IsChain.pushFront (h : l.IsChain first xs) (hnodup : (x :: xs).Nodup) :
    (l.pushFront first x).IsChain (some x) (x :: xs) := by
  obtain ⟨last, h⟩ := h
  have hx : x ∉ xs := (List.nodup_cons.mp hnodup).1
  have hrest : ((l.setPrev x none).setNext x first).Segment none first xs last none :=
    (h.setPrev hx none).setNext hx first
  cases xs with
  | nil =>
    obtain ⟨-, rfl⟩ := h
    exact ⟨some x, rfl, by simp [Links.pushFront, setPrevOf],
      by simp [Links.pushFront, setPrevOf, segment_nil]⟩
  | cons y ys =>
    obtain rfl : first = some y := h.1
    have hxy : x ≠ y := fun heq => hx (by simp [heq])
    have hy : y ∉ ys := (List.nodup_cons.mp (List.nodup_cons.mp hnodup).2).1
    refine ⟨last, rfl, ?_, ?_⟩
    · simp [Links.pushFront, setPrevOf, prev_setPrev_of_ne _ hxy]
    · have hnext : (l.pushFront (some y) x).next x = some y := by
        simp [Links.pushFront, setPrevOf]
      rw [hnext]
      exact hrest.setPrev_first hy (some x)

/-- Chains that have no node in common with the changed chain stay as they are. -/
theorem IsChain.pushFront_frame {start : Option ν} (h : l.IsChain start ys)
    (hchain : l.IsChain first xs) (hdisjoint : ∀ z ∈ x :: xs, z ∉ ys) :
    (l.pushFront first x).IsChain start ys := by
  obtain ⟨last, h⟩ := h
  have hx : x ∉ ys := hdisjoint x (by simp)
  refine ⟨last, ((h.setPrev hx none).setNext hx first).setPrevOf (fun z hz => ?_) (some x)⟩
  rw [hchain.first_eq] at hz
  exact hdisjoint z (List.mem_cons_of_mem x (List.mem_of_head? hz))

/-! ## Putting a node behind a chain -/

def pushBack (l : Links ν) (last : Option ν) (x : ν) : Links ν :=
  (match last with
    | some y => (l.setNext y (some x)).setPrev x (some y)
    | none => l.setPrev x none).setNext x none

theorem IsChain.pushBack (h : l.IsChain first xs) (hnodup : xs.Nodup) (hx : x ∉ xs) :
    (l.pushBack xs.getLast? x).IsChain (xs ++ [x]).head? (xs ++ [x]) := by
  obtain ⟨last, h⟩ := h
  obtain rfl | ⟨zs, z, rfl⟩ := List.eq_nil_or_concat' xs
  · exact ⟨some x, rfl, by simp [Links.pushBack], by simp [Links.pushBack, segment_nil]⟩
  · have hz : z ∉ zs := fun hmem => (List.nodup_append.mp hnodup).2.2 z hmem z (by simp) rfl
    have hfirst : first = (zs ++ [z] ++ [x]).head? := by
      rw [h.first_eq]
      simp
    have hrest := ((h.setNext_last hz (some x)).setPrev hx (some z)).setNext hx none
    rw [← hfirst, List.getLast?_concat]
    refine ⟨some x, segment_append.mpr ⟨some z, some x, hrest, rfl, ?_, ?_⟩⟩
    · simp [Links.pushBack]
    · simp [Links.pushBack, segment_nil]

theorem IsChain.pushBack_frame {start : Option ν} (h : l.IsChain start ys) (hx : x ∉ ys)
    (hdisjoint : ∀ z ∈ xs, z ∉ ys) : (l.pushBack xs.getLast? x).IsChain start ys := by
  obtain ⟨last, h⟩ := h
  refine ⟨last, ?_⟩
  cases hlast : xs.getLast? with
  | none => exact (h.setPrev hx none).setNext hx none
  | some z =>
    have hz := hdisjoint z (List.mem_of_getLast? hlast)
    exact ((h.setNext hz (some x)).setPrev hx (some z)).setNext hx none

/-! ## Taking a node out of a chain -/

/-- Unlink `x` from the chain that starts at `first`; the second component is its new first node. -/
def unlink (l : Links ν) (first : Option ν) (x : ν) : Links ν × Option ν :=
  let (l, first) :=
    match l.prev x with
    | some p => (l.setNext p (l.next x), first)
    | none => (l, l.next x)
  (l.setPrevOf (l.next x) (l.prev x), first)

theorem next_setNext_next (l : Links ν) (p x : ν) :
    (l.setNext p (l.next x)).next x = l.next x := by
  by_cases h : x = p
  · rw [h, next_setNext]
  · exact next_setNext_of_ne l h _

theorem unlink_of_first (h : l.prev x = none) :
    l.unlink first x = (l.setPrevOf (l.next x) none, l.next x) := by
  simp [unlink, h]

theorem unlink_of_behind {p : ν} (h : l.prev x = some p) :
    l.unlink first x = ((l.setNext p (l.next x)).setPrevOf (l.next x) (some p), first) := by
  simp [unlink, h, next_setNext_next]

theorem IsChain.unlink (h : l.IsChain first (xs ++ x :: ys)) (hnodup : (xs ++ x :: ys).Nodup) :
    (l.unlink first x).1.IsChain (l.unlink first x).2 (xs ++ ys) := by
  obtain ⟨last, h⟩ := h
  obtain ⟨p, n, hxs, hn, hp, hys⟩ := segment_append.mp h
  obtain ⟨hxsNodup, hxysNodup, hdisjoint⟩ := List.nodup_append.mp hnodup
  obtain ⟨hx, hysNodup⟩ := List.nodup_cons.mp hxysNodup
  obtain rfl | ⟨zs, z, rfl⟩ := List.eq_nil_or_concat' xs
  · -- the first node
    obtain ⟨rfl, -⟩ := hxs
    rw [unlink_of_first hp]
    cases ys with
    | nil =>
      have hnext : l.next x = none := hys.2.symm
      rw [hnext]
      exact ⟨none, rfl, rfl⟩
    | cons y ys =>
      have hnext : l.next x = some y := hys.1
      rw [hnext] at hys ⊢
      exact ⟨last, hys.setPrev_first (List.nodup_cons.mp hysNodup).1 none⟩
  · -- a node behind another one
    have hz : z ∉ zs := fun hmem => (List.nodup_append.mp hxsNodup).2.2 z hmem z (by simp) rfl
    obtain rfl : p = some z := by simpa using hxs.last_eq
    have hskip := hxs.setNext_last hz (l.next x)
    rw [unlink_of_behind hp]
    cases ys with
    | nil =>
      have hnext : l.next x = none := hys.2.symm
      rw [hnext] at hskip ⊢
      rw [List.append_nil]
      exact ⟨some z, hskip⟩
    | cons y ys =>
      have hnext : l.next x = some y := hys.1
      have hzy : z ∉ y :: ys := fun hmem =>
        hdisjoint z (by simp) z (List.mem_cons_of_mem x hmem) rfl
      have hy : y ∉ zs ++ [z] := fun hmem => hdisjoint y hmem y (by simp) rfl
      have hrest := (hys.setNext hzy (l.next x)).setPrev_first
        (List.nodup_cons.mp hysNodup).1 (some z)
      rw [hnext] at hskip hrest ⊢
      exact ⟨last, segment_append.mpr ⟨some z, some y, hskip.setPrev hy (some z), hrest⟩⟩

theorem IsChain.next_unlink (hchain : l.IsChain first (xs ++ x :: ys)) (hy : y ∉ xs) :
    (l.unlink first x).1.next y = l.next y := by
  cases hprev : l.prev x with
  | none =>
    rw [unlink_of_first hprev, next_setPrevOf]
  | some p =>
    have hp := hchain.prev_mem p hprev
    rw [unlink_of_behind hprev, next_setPrevOf]
    exact next_setNext_of_ne l (ne_of_mem_of_not_mem hp hy).symm _

theorem IsChain.unlink_frame {start : Option ν} {zs : List ν} (h : l.IsChain start zs)
    (hchain : l.IsChain first (xs ++ x :: ys)) (hdisjoint : ∀ z ∈ xs ++ x :: ys, z ∉ zs) :
    (l.unlink first x).1.IsChain start zs := by
  obtain ⟨last, h⟩ := h
  have hnext : ∀ n ∈ l.next x, n ∉ zs := fun n hn =>
    hdisjoint n (by simp [hchain.next_mem n hn])
  refine ⟨last, ?_⟩
  cases hprev : l.prev x with
  | none =>
    rw [unlink_of_first hprev]
    exact h.setPrevOf hnext none
  | some p =>
    have hp := hdisjoint p (by simp [hchain.prev_mem p hprev])
    rw [unlink_of_behind hprev]
    exact (h.setNext hp (l.next x)).setPrevOf hnext (some p)

end Update

end Links
