import CyberCache.Pipeline.OutputOrder

/-!
# Sockets of replicators

Sockets are closed through the table in which persistent connections are remembered. A socket that
is opened for a single command does not get into that table, so nothing ever closes it. As long as
no such socket is opened, the open sockets are those in the table.
-/

namespace CyberCache

namespace SocketOutputPipeline

/-- Without transfers, the open sockets are remembered ones, and there is none with connections for
single commands. Nothing is closed twice. -/
def ReleasesSockets (s : SocketOutputPipeline) : Prop :=
  (s.numConnections = 0 →
    (∀ fd ∈ s.descriptors.opened, some fd ∈ s.sockets) ∧
      (s.persistent = false → s.descriptors.opened = [])) ∧
    s.descriptors.closedTwice = false

/-- No connection is established for the command. -/
def ConnectsNowhere (s : SocketOutputPipeline) (outcomes : Outcomes) : Prop :=
  s.sockets ≠ [] →
    (outcomes.connect 0 0).isConnected = false ∧ (outcomes.connect 0 1).isConnected = false

/-- Only persistent connections are established. -/
def OpensPersistent (s : SocketOutputPipeline) : OutputInput → Prop
  | .command outcomes => s.persistent = false → s.ConnectsNowhere outcomes
  | .object flags io outcomes =>
    (∃ closeConnection, transferStatus s.persistent flags io = .finished closeConnection) →
      s.persistent = false → 0 < s.deferred.count → s.ConnectsNowhere outcomes
  | _ => True

instance (s : SocketOutputPipeline) (outcomes : Outcomes) :
    Decidable (s.ConnectsNowhere outcomes) :=
  inferInstanceAs (Decidable (_ → _))

instance (s : SocketOutputPipeline) : ∀ input, Decidable (s.OpensPersistent input)
  | .command _ => inferInstanceAs (Decidable (_ → _))
  | .object _ _ _ => inferInstanceAs (Decidable (_ → _ → _ → _))
  | .setPersistent _ | .waitForEvents _ => .isTrue trivial

/-! ## Remembered sockets -/

/-- Exactly the remembered sockets are open, and each is remembered once. -/
structure Remembers (s : SocketOutputPipeline) : Prop where
  opened : ∀ fd, fd ∈ s.descriptors.opened ↔ ∃ i, s.getFd i = some fd
  distinct : ∀ i k fd, s.getFd i = some fd → s.getFd k = some fd → i = k
  once : s.descriptors.closedTwice = false

/-- Moreover, connections for single commands leave nothing. -/
structure Tidy (s : SocketOutputPipeline) : Prop extends Remembers s where
  none_of_single : s.persistent = false → ∀ i, s.getFd i = none

variable {outcomes : Outcomes} {s s' : SocketOutputPipeline} {rw : IoObject} {i j : Nat}

theorem Remembers.congr (h : s.Remembers) (hsockets : s'.sockets = s.sockets)
    (hopened : s'.descriptors.opened = s.descriptors.opened)
    (honce : s'.descriptors.closedTwice = s.descriptors.closedTwice) : s'.Remembers where
  opened fd := by
    rw [hopened, h.opened]
    simp only [getFd, hsockets]
  distinct := by
    simp only [getFd, hsockets]
    exact h.distinct
  once := honce.trans h.once

theorem Tidy.congr (h : s.Tidy) (hpersistent : s'.persistent = s.persistent)
    (hsockets : s'.sockets = s.sockets) (hopened : s'.descriptors.opened = s.descriptors.opened)
    (honce : s'.descriptors.closedTwice = s.descriptors.closedTwice) : s'.Tidy where
  toRemembers := h.toRemembers.congr hsockets hopened honce
  none_of_single hsingle := by
    simp only [getFd, hsockets]
    exact h.none_of_single (hpersistent ▸ hsingle)

theorem Tidy.record (h : s.Tidy) (action : OutputAction) : (s.record action).Tidy :=
  h.congr rfl rfl rfl rfl

theorem getD_set (sockets : List (Option Nat)) (i k : Nat) (socket : Option Nat) :
    (sockets.set i socket).getD k none =
      if i = k ∧ k < sockets.length then socket else sockets.getD k none := by
  simp only [List.getD_eq_getElem?_getD, List.getElem?_set]
  grind

theorem lt_length_of_getFd {fd : Nat} (h : s.getFd i = some fd) : i < s.sockets.length := by
  by_contra hle
  rw [getFd, List.getD_eq_default _ _ (by omega)] at h
  simp at h

theorem Remembers.closeConnectionSocket (h : s.Remembers) (i : Nat) :
    (s.closeConnectionSocket i).Remembers := by
  cases hfd : s.getFd i with
  | none => simpa [SocketOutputPipeline.closeConnectionSocket, hfd] using h
  | some fd =>
    have hlt := lt_length_of_getFd hfd
    have hopen : fd ∈ s.descriptors.opened := (h.opened fd).mpr ⟨i, hfd⟩
    have hget (k : Nat) : (s.closeConnectionSocket i).getFd k =
        if i = k then none else s.getFd k := by
      simp only [SocketOutputPipeline.closeConnectionSocket, hfd]
      simp only [getFd, getD_set]
      grind
    have hdescriptors : (s.closeConnectionSocket i).descriptors = s.descriptors.closeSocket fd := by
      simp only [SocketOutputPipeline.closeConnectionSocket, hfd]
    refine ⟨fun fd' => ?_, fun k l fd' hk hl => ?_, ?_⟩
    · rw [hdescriptors, Descriptors.mem_opened_closeSocket, h.opened]
      constructor
      · rintro ⟨⟨k, hk⟩, hne⟩
        refine ⟨k, ?_⟩
        rw [hget, if_neg ?_]
        · exact hk
        · rintro rfl
          exact hne (Option.some.inj (hk.symm.trans hfd))
      · rintro ⟨k, hk⟩
        rw [hget] at hk
        split_ifs at hk with hik
        refine ⟨⟨k, hk⟩, ?_⟩
        rintro rfl
        exact hik (h.distinct i k fd' hfd hk)
    · rw [hget] at hk hl
      split_ifs at hk hl
      exact h.distinct k l fd' hk hl
    · rw [hdescriptors]
      simp [Descriptors.closeSocket, h.once, hopen]

theorem Tidy.closeConnectionSocket (h : s.Tidy) (i : Nat) : (s.closeConnectionSocket i).Tidy where
  toRemembers := h.toRemembers.closeConnectionSocket i
  none_of_single hsingle k := by
    rw [(s.closeConnectionSocket_same i).persistent] at hsingle
    have hnone := h.none_of_single hsingle
    simp [SocketOutputPipeline.closeConnectionSocket, hnone]

theorem Tidy.closeConnectionSocketByFd (h : s.Tidy) (fd : Nat) :
    (s.closeConnectionSocketByFd fd).Tidy := by
  unfold SocketOutputPipeline.closeConnectionSocketByFd
  split
  · exact h.closeConnectionSocket _
  · exact h

theorem Tidy.connectSocket {outcome : ConnectOutcome} (h : s.Tidy) (hi : i < s.sockets.length)
    (hfd : s.getFd i = none) (hmode : s.persistent = false → outcome.isConnected = false) :
    (s.connectSocket i outcome).2.Tidy := by
  cases outcome with
  | noSocket => exact h
  | refused wish => simpa [SocketOutputPipeline.connectSocket] using h
  | connected wish =>
    have hpersistent : s.persistent = true := by
      by_contra hsingle
      simp [ConnectOutcome.isConnected] at hmode
      exact hsingle hmode
    have hfresh := s.descriptors.fresh_not_mem wish
    simp only [SocketOutputPipeline.connectSocket, hpersistent, if_true]
    have hget (k : Nat) : (s.sockets.set i (some (s.descriptors.fresh wish))).getD k none =
        if i = k then some (s.descriptors.fresh wish) else s.getFd k := by
      rw [getD_set, getFd]
      grind
    refine ⟨⟨fun fd => ?_, fun k l fd hk hl => ?_, h.once⟩, fun hsingle => ?_⟩
    · simp only [Descriptors.opened_openSocket, List.mem_cons, h.opened, getFd, hget]
      constructor
      · rintro (rfl | ⟨k, hk⟩)
        · exact ⟨i, by simp⟩
        · refine ⟨k, ?_⟩
          rw [if_neg ?_]
          · exact hk
          · rintro rfl
            exact Option.some_ne_none _ (hk.symm.trans hfd)
      · rintro ⟨k, hk⟩
        split_ifs at hk with hik
        · exact .inl (Option.some.inj hk).symm
        · exact .inr ⟨k, hk⟩
    · simp only [getFd, hget] at hk hl
      have hopened (l : Nat) (hl : s.getFd l = some (s.descriptors.fresh wish)) : False :=
        hfresh ((h.opened _).mpr ⟨l, hl⟩)
      split_ifs at hk hl with hik hil hil
      · exact hik.symm.trans hil
      · exact (hopened l (hk ▸ hl)).elim
      · exact (hopened k (hl ▸ hk)).elim
      · exact h.distinct k l fd hk hl
    · simp at hsingle

theorem Tidy.createConnectionSocket {outcome : ConnectOutcome} (h : s.Tidy)
    (hi : i < s.sockets.length) (hmode : s.persistent = false → outcome.isConnected = false) :
    (s.createConnectionSocket i outcome).2.Tidy := by
  unfold SocketOutputPipeline.createConnectionSocket
  split
  · rename_i fd hfd
    by_cases hpersistent : s.persistent = true
    · simpa [hpersistent] using h
    · have hnone := h.none_of_single (by simpa using hpersistent) i
      simp [hnone] at hfd
  · rename_i hfd
    exact h.connectSocket hi hfd hmode

/-! ## Commands and events -/

theorem Tidy.watchObject (h : s.Tidy) (i : Nat) (rw : IoObject) : (s.watchObject i rw).Tidy :=
  h.congr rfl rfl (Descriptors.opened_watch ..) (Descriptors.closedTwice_watch ..)

theorem Tidy.afterWrite (h : s.Tidy) (result : IoOutcome) :
    (s.afterWrite i j rw result).2.Tidy := by
  cases result with
  | ok =>
    have hreader : (s.newReader rw.command rw.fd).2.Tidy := h.congr rfl rfl rfl rfl
    exact hreader.watchObject i _
  | retry =>
    simp only [SocketOutputPipeline.afterWrite]
    split_ifs
    · have hclone : (s.clone rw).2.Tidy := h.congr rfl rfl rfl rfl
      exact hclone.watchObject i rw
    · exact h.watchObject i rw
  | error =>
    simp only [SocketOutputPipeline.afterWrite]
    split_ifs
    · exact h.closeConnectionSocket i
    · exact (h.record _).closeConnectionSocket i

theorem Tidy.attempt {object left : Option IoObject} (h : s.Tidy) (hi : i < s.sockets.length)
    (hmode : s.persistent = false → (outcomes.connect i j).isConnected = false)
    (hs' : s.attempt outcomes i j object = some (left, s')) : s'.Tidy := by
  have hcreated := h.createConnectionSocket hi hmode
  unfold SocketOutputPipeline.attempt at hs'
  generalize s.createConnectionSocket i (outcomes.connect i j) = created at hs' hcreated
  obtain ⟨fd, s₁⟩ := created
  cases fd with
  | none =>
    obtain ⟨-, rfl⟩ := Prod.mk.inj (Option.some.inj hs')
    exact (hcreated.record _).record _
  | some fd =>
    cases object with
    | none => simp at hs'
    | some rw =>
      obtain rfl : _ = s' := congrArg Prod.snd (Option.some.inj hs')
      exact Tidy.afterWrite ((hcreated.record _).record _) _

theorem Tidy.processInputQueueObject (h : s.Tidy)
    (hmode : s.persistent = false → s.ConnectsNowhere outcomes)
    (hs' : s.processInputQueueObject outcomes rw = some s') : s'.Tidy := by
  by_cases hdefer : s.isDeferring = true
  · rw [SocketOutputPipeline.processInputQueueObject, if_pos hdefer] at hs'
    split at hs' <;> obtain rfl := Option.some.inj hs' <;> exact h.congr rfl rfl rfl rfl
  · have hdefer : s.isDeferring = false := by simpa using hdefer
    by_cases hn : s.sockets = []
    · simp only [SocketOutputPipeline.processInputQueueObject, hdefer, Bool.false_eq_true, if_false,
        hn, List.length_nil, List.range_zero, sendToReplicas] at hs'
      cases hs'
      exact (h.record _).record _
    · rw [processInputQueueObject_of_not_deferring hdefer hn, attempts_eq] at hs'
      simp only [Option.bind_eq_some_iff, Option.some.injEq] at hs'
      obtain ⟨⟨left, s₂⟩, ⟨⟨left₁, s₁⟩, h₁, h₂⟩, rfl⟩ := hs'
      have hpos := List.length_pos_of_ne_nil hn
      have hsame := (attempt_effect h₁).1
      have htidy₁ := Tidy.attempt (h.record _) hpos (fun hsingle => (hmode hsingle hn).1) h₁
      have htidy₂ := htidy₁.attempt (hsame.length ▸ hpos)
        (fun hsingle => (hmode (hsame.persistent ▸ hsingle) hn).2) h₂
      cases left with
      | none => exact htidy₂
      | some rw => exact htidy₂.record _

theorem Tidy.endTransfer (h : s.Tidy) (rw : IoObject) (closeConnection : Bool) :
    (s.endTransfer rw closeConnection).Tidy := by
  have hcounted : { s with
      numConnections := uintSub s.numConnections 1
      descriptors := s.descriptors.unwatch rw.fd }.Tidy := h.congr rfl rfl rfl rfl
  cases closeConnection with
  | false => exact hcounted.record _
  | true => exact (hcounted.closeConnectionSocketByFd rw.fd).record _

theorem count_pos_of_get {deferred deferred' : Queue IoObject} {object : Option IoObject}
    (h : deferred.get = (object, deferred')) (hobject : object ≠ none) : 0 < deferred.count := by
  by_contra hzero
  simp only [Queue.get, show deferred.count = 0 by omega, if_true, Prod.mk.injEq] at h
  exact hobject h.1.symm

theorem Tidy.processDeferred (h : s.Tidy)
    (hmode : s.persistent = false → 0 < s.deferred.count → s.ConnectsNowhere outcomes)
    (hs' : s.processDeferred outcomes = some s') : s'.Tidy := by
  unfold SocketOutputPipeline.processDeferred at hs'
  split at hs'
  · rename_i rw deferred hget
    refine Tidy.processInputQueueObject (s := { s with deferred := deferred })
      (h.congr rfl rfl rfl rfl) (fun hsingle => ?_) hs'
    exact hmode hsingle (count_pos_of_get hget (by simp))
  · cases hs'
    exact h.congr rfl rfl rfl rfl

theorem getFd_closeConnectionSocket_of_none {k : Nat} (h : s.getFd k = none) :
    (s.closeConnectionSocket i).getFd k = none := by
  unfold SocketOutputPipeline.closeConnectionSocket
  split
  · simp only [getFd, getD_set] at h ⊢
    split_ifs
    · rfl
    · exact h
  · exact h

theorem foldl_closeConnectionSocket (is : List Nat) (h : s.Remembers) :
    (is.foldl SocketOutputPipeline.closeConnectionSocket s).Remembers ∧
      (is.foldl SocketOutputPipeline.closeConnectionSocket s).persistent = s.persistent ∧
      ∀ k, (k ∈ is ∨ s.getFd k = none) →
        (is.foldl SocketOutputPipeline.closeConnectionSocket s).getFd k = none := by
  induction is generalizing s with
  | nil => exact ⟨h, rfl, by simp⟩
  | cons i is ih =>
    obtain ⟨hrest, hpersistent, hnone⟩ := ih (h.closeConnectionSocket i)
    refine ⟨hrest, hpersistent.trans (s.closeConnectionSocket_same i).persistent, fun k hk => ?_⟩
    refine hnone k ?_
    obtain hmem | hnone' := hk
    · obtain rfl | hmem := List.mem_cons.mp hmem
      · exact .inr (s.getFd_closeConnectionSocket k)
      · exact .inl hmem
    · exact .inr (getFd_closeConnectionSocket_of_none hnone')

theorem Tidy.processPersistentConnectionsChange (h : s.Tidy) (persistent : Bool) :
    (s.processPersistentConnectionsChange persistent).Tidy := by
  have hremembers : { s with persistent := persistent }.Remembers :=
    h.toRemembers.congr rfl rfl rfl
  cases persistent with
  | true => exact ⟨hremembers, fun hsingle => Bool.noConfusion hsingle⟩
  | false =>
    obtain ⟨hclosed, -, hnone⟩ :=
      foldl_closeConnectionSocket (List.range s.sockets.length) hremembers
    refine ⟨hclosed, fun _ k => hnone k ?_⟩
    by_cases hk : k < s.sockets.length
    · exact .inl (List.mem_range.mpr hk)
    · exact .inr (List.getD_eq_default _ _ (by simpa using hk))

theorem Tidy.step {input : OutputInput} (h : s.Tidy) (hadmits : s.OpensPersistent input)
    (hs' : s.step input = some s') : s'.Tidy := by
  cases input with
  | command outcomes =>
    have htidy : { s with arrived := s.arrived + 1, nextId := s.nextId + 1 }.Tidy :=
      h.congr rfl rfl rfl rfl
    exact htidy.processInputQueueObject hadmits hs'
  | setPersistent persistent =>
    cases hs'
    exact h.processPersistentConnectionsChange persistent
  | waitForEvents batch =>
    simp only [SocketOutputPipeline.step] at hs'
    split_ifs at hs'
    cases hs'
    exact h.congr rfl rfl rfl rfl
  | object flags io outcomes =>
    cases hevents : s.events with
    | nil => simp [SocketOutputPipeline.step, hevents] at hs'
    | cons rw events =>
      simp only [SocketOutputPipeline.step, hevents, processObjectEvent] at hs'
      split at hs'
      · cases hs'
        exact h.congr rfl rfl rfl rfl
      · cases hs'
        exact h.congr rfl rfl rfl rfl
      · rename_i closeConnection hstatus
        have htidy : { s with events := events }.Tidy := h.congr rfl rfl rfl rfl
        obtain ⟨hsame, -, -⟩ :=
          endTransfer_effect rw (s := { s with events := events }) closeConnection
        refine (htidy.endTransfer rw closeConnection).processDeferred
          (fun hsingle hcount hn => ?_) hs'
        rw [hsame.persistent] at hsingle
        rw [hsame.deferred] at hcount
        refine hadmits ⟨closeConnection, hstatus⟩ hsingle hcount ?_
        rwa [← List.length_pos_iff, hsame.length, List.length_pos_iff] at hn

theorem create_tidy (n : Nat) (persistent : Bool) : (create n persistent).Tidy := by
  have hnone (i : Nat) : (create n persistent).getFd i = none := by
    simp [create, getFd, List.getD_eq_getElem?_getD, List.getElem?_replicate]
    grind
  refine ⟨⟨fun fd => ?_, fun i k fd hfd => ?_, rfl⟩, fun _ => hnone⟩
  · have hopened : (create n persistent).descriptors.opened = [] := rfl
    simp [hnone, hopened]
  · simp [hnone] at hfd

theorem Tidy.releasesSockets (h : s.Tidy) : s.ReleasesSockets := by
  have hmem (fd : Nat) (hfd : fd ∈ s.descriptors.opened) : some fd ∈ s.sockets := by
    obtain ⟨i, hi⟩ := (h.opened fd).mp hfd
    have hlt := lt_length_of_getFd hi
    rw [getFd, List.getD_eq_getElem _ _ hlt] at hi
    exact hi ▸ List.getElem_mem hlt
  refine ⟨fun _ => ⟨hmem, fun hsingle => List.eq_nil_iff_forall_not_mem.mpr fun fd hfd => ?_⟩,
    h.once⟩
  obtain ⟨i, hi⟩ := (h.opened fd).mp hfd
  exact Option.some_ne_none _ (hi.symm.trans (h.none_of_single hsingle i))

/-- Sockets are released in every run in which no connection is established for a single command. -/
theorem releases_sockets {n : Nat} {persistent : Bool} {inputs : List OutputInput}
    (h : Reaches step OpensPersistent (create n persistent) inputs s) : ReleasesSockets s := by
  have htidy : s.Tidy :=
    h.invariant (create_tidy n persistent) fun _ _ _ hs hadmits hstep => hs.step hadmits hstep
  exact htidy.releasesSockets

/-- A command is sent over a persistent connection, the response is read, and then connections are
not persistent any more. -/
theorem releases_sockets_of_switch :
    ∃ s, Reaches step OpensPersistent (create 2 true)
        [.command ⟨fun _ j => if j = 0 then .noSocket else .connected 5, fun _ _ => .ok⟩,
          .waitForEvents [⟨1, 0, true, 5⟩],
          .object ⟨true, false, false⟩ .ok ⟨fun _ _ => .noSocket, fun _ _ => .error⟩,
          .setPersistent false] s ∧ s.numConnections = 0 ∧ s.ReleasesSockets :=
  ⟨_, Reaches.get_foldlM rfl, rfl, releases_sockets (Reaches.get_foldlM rfl)⟩

/-- Nothing fails, and two sockets stay open. -/
theorem single_command_leaks :
    ∃ s, Reaches step (fun _ _ => True) (create 1 false)
        [.command ⟨fun _ _ => .connected 5, fun _ _ => .ok⟩,
          .waitForEvents [⟨1, 0, true, 5⟩, ⟨2, 0, true, 6⟩],
          .object ⟨true, true, false⟩ .ok ⟨fun _ _ => .noSocket, fun _ _ => .error⟩,
          .object ⟨true, true, false⟩ .ok ⟨fun _ _ => .noSocket, fun _ _ => .error⟩] s ∧
      s.numConnections = 0 ∧ s.descriptors.opened = [6, 5] ∧ s.sockets = [none] ∧
      ¬s.ReleasesSockets := by
  refine ⟨_, Reaches.get_foldlM rfl, rfl, rfl, rfl, fun h => ?_⟩
  exact absurd ((h.1 rfl).2 rfl) (by decide)

end SocketOutputPipeline

end CyberCache
