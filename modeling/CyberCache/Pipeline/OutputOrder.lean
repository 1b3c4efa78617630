import CyberCache.Lib.Runs
import CyberCache.Pipeline.Delivery

/-!
# The order of commands

With persistent connections a command waits while another one is being transferred. Commands are
started in their order of arrival as long as the command that is taken from the queue of deferred
commands is indeed sent: if it is put back, it stands behind the others; if it gets lost, nobody
looks for the next one.
-/

namespace CyberCache

namespace SocketOutputPipeline

def startedCommands (actions : List OutputAction) : List Nat :=
  actions.filterMap fun
    | .start command => some command
    | _ => none

/-- Commands are started in their order of arrival, and none of them waits in vain. -/
def StartsInOrder (s : SocketOutputPipeline) : Prop :=
  ∃ waiting, s.deferred.Holds waiting ∧
    startedCommands s.log ++ waiting.map IoObject.command = List.range s.arrived ∧
    (s.numConnections = 0 → waiting = [])

/-- Connections stay persistent, and commands can be deferred. -/
def CanDefer (s : SocketOutputPipeline) : OutputInput → Prop
  | .command _ => s.isDeferring = true → s.deferred.count < s.deferred.maxCapacity
  | .setPersistent persistent => persistent = true
  | _ => True

/-- One of the two attempts on the first replica succeeds; a socket may be `remembered`. -/
def CanSend (outcomes : Outcomes) (remembered : Prop) : Prop :=
  ((remembered ∨ (outcomes.connect 0 0).isConnected = true) ∧ outcomes.write 0 0 ≠ .error) ∨
    ((outcomes.connect 0 1).isConnected = true ∧ outcomes.write 0 1 ≠ .error)

/-- If commands are left behind the one that a finished transfer takes from the queue, then it was
the only transfer, and that command can be sent. -/
def SendsNext (s : SocketOutputPipeline) (outcomes : Outcomes) :
    Option IoObject → TransferStatus → Prop
  | some rw, .finished closeConnection =>
    2 ≤ s.deferred.count → s.numConnections = 1 ∧ s.sockets ≠ [] ∧ CanSend outcomes
      (s.getFd 0 ≠ none ∧ ¬(closeConnection = true ∧ s.getFd 0 = some rw.fd))
  | _, _ => True

def TakesNext (s : SocketOutputPipeline) : OutputInput → Prop
  | .object flags io outcomes =>
    s.SendsNext outcomes s.events.head? (transferStatus s.persistent flags io)
  | _ => True

instance (outcomes : Outcomes) (remembered : Prop) [Decidable remembered] :
    Decidable (CanSend outcomes remembered) :=
  inferInstanceAs (Decidable (_ ∨ _))

instance (s : SocketOutputPipeline) : ∀ input, Decidable (s.CanDefer input)
  | .command _ => inferInstanceAs (Decidable (_ → _))
  | .setPersistent _ => inferInstanceAs (Decidable (_ = _))
  | .waitForEvents _ | .object _ _ _ => .isTrue trivial

instance (s : SocketOutputPipeline) (outcomes : Outcomes) :
    ∀ rw status, Decidable (s.SendsNext outcomes rw status)
  | some _, .finished _ => inferInstanceAs (Decidable (_ → _))
  | some _, .unfinished | some _, .response | none, _ => .isTrue trivial

instance (s : SocketOutputPipeline) : ∀ input, Decidable (s.TakesNext input)
  | .object _ _ _ => inferInstanceAs (Decidable (SendsNext _ _ _ _))
  | .command _ | .setPersistent _ | .waitForEvents _ => .isTrue trivial

variable {outcomes : Outcomes} {s s' : SocketOutputPipeline} {rw : IoObject} {i j : Nat}

/-! ## What sending leaves alone -/

structure KeepsOrder (s s' : SocketOutputPipeline) : Prop where
  persistent : s'.persistent = s.persistent
  length : s'.sockets.length = s.sockets.length
  deferred : s'.deferred = s.deferred
  arrived : s'.arrived = s.arrived
  started : startedCommands s'.log = startedCommands s.log

theorem KeepsOrder.trans {s'' : SocketOutputPipeline} (h : s.KeepsOrder s')
    (h' : s'.KeepsOrder s'') : s.KeepsOrder s'' where
  persistent := h'.persistent.trans h.persistent
  length := h'.length.trans h.length
  deferred := h'.deferred.trans h.deferred
  arrived := h'.arrived.trans h.arrived
  started := h'.started.trans h.started

theorem SameButSockets.keepsOrder (h : s.SameButSockets s') : s.KeepsOrder s' :=
  ⟨h.persistent, h.length, h.deferred, h.arrived, by rw [h.log]⟩

theorem startedCommands_append (actions actions' : List OutputAction) :
    startedCommands (actions ++ actions') = startedCommands actions ++ startedCommands actions' :=
  List.filterMap_append

theorem startedCommands_start (actions : List OutputAction) (command : Nat) :
    startedCommands (actions ++ [.start command]) = startedCommands actions ++ [command] :=
  startedCommands_append actions _

theorem keepsOrder_record {action : OutputAction} (h : startedCommands [action] = []) :
    s.KeepsOrder (s.record action) :=
  ⟨rfl, rfl, rfl, rfl, by simp [startedCommands_append, h]⟩

theorem afterWrite_keepsOrder (result : IoOutcome) :
    s.KeepsOrder (s.afterWrite i j rw result).2 := by
  cases result with
  | ok => exact ⟨rfl, rfl, rfl, rfl, by simp [afterWrite, newReader, watchObject, startedCommands]⟩
  | retry =>
    simp only [afterWrite]
    split_ifs
    · exact ⟨rfl, rfl, rfl, rfl, by simp [clone, watchObject, startedCommands]⟩
    · exact ⟨rfl, rfl, rfl, rfl, by simp [watchObject, startedCommands]⟩
  | error =>
    simp only [afterWrite]
    split_ifs
    · exact (closeConnectionSocket_same s i).keepsOrder
    · exact (keepsOrder_record rfl).trans (closeConnectionSocket_same _ i).keepsOrder

theorem numConnections_afterWrite (result : IoOutcome) :
    (s.afterWrite i j rw result).2.numConnections =
      if result = .error then s.numConnections else uintAdd s.numConnections 1 := by
  cases result with
  | ok => rfl
  | retry =>
    simp only [afterWrite, reduceCtorEq, if_false]
    split_ifs <;> rfl
  | error =>
    simp only [afterWrite, if_true]
    split_ifs
    · exact (closeConnectionSocket_same s i).numConnections
    · exact (closeConnectionSocket_same _ i).numConnections

theorem attempt_effect {object left : Option IoObject}
    (h : s.attempt outcomes i j object = some (left, s')) :
    s.KeepsOrder s' ∧ s'.numConnections =
      if (s.createConnectionSocket i (outcomes.connect i j)).1 = none ∨ outcomes.write i j = .error
      then s.numConnections else uintAdd s.numConnections 1 := by
  have hsame := s.createConnectionSocket_same i (outcomes.connect i j)
  unfold attempt at h
  generalize s.createConnectionSocket i (outcomes.connect i j) = created at h hsame
  obtain ⟨fd, s₁⟩ := created
  dsimp only at h hsame ⊢
  cases fd with
  | none =>
    obtain ⟨-, rfl⟩ := Prod.mk.inj (Option.some.inj h)
    exact ⟨hsame.keepsOrder.trans ((keepsOrder_record rfl).trans (keepsOrder_record rfl)),
      by simp [hsame.numConnections]⟩
  | some fd =>
    cases object with
    | none => simp at h
    | some rw =>
      obtain rfl : _ = s' := congrArg Prod.snd (Option.some.inj h)
      refine ⟨hsame.keepsOrder.trans ((keepsOrder_record rfl).trans
        ((keepsOrder_record rfl).trans (afterWrite_keepsOrder _))), ?_⟩
      rw [numConnections_afterWrite]
      simp [hsame.numConnections]

theorem createConnectionSocket_eq_none_iff {outcome : ConnectOutcome}
    (hpersistent : s.persistent = true) :
    (s.createConnectionSocket i outcome).1 = none ↔
      s.getFd i = none ∧ outcome.isConnected = false := by
  constructor
  · exact getFd_eq_none_of_createConnectionSocket hpersistent
  · rintro ⟨hfd, houtcome⟩
    rw [createConnectionSocket_unconnected hfd houtcome]

theorem attempts_effect {left : Option IoObject} (hpersistent : s.persistent = true)
    (hnum : s.numConnections = 0) (h : s.attempts outcomes 0 (some rw) = some (left, s')) :
    s.KeepsOrder s' ∧ s'.numConnections ≤ 2 ∧
      (s'.numConnections ≠ 0 ↔ CanSend outcomes (s.getFd 0 ≠ none)) := by
  rw [attempts_eq] at h
  obtain ⟨⟨left₁, s₁⟩, h₁, h₂⟩ := Option.bind_eq_some_iff.mp h
  dsimp only at h₂
  obtain ⟨horder₁, hnum₁⟩ := attempt_effect h₁
  obtain ⟨horder₂, hnum₂⟩ := attempt_effect h₂
  refine ⟨horder₁.trans horder₂, ?_⟩
  have hpersistent₁ : s₁.persistent = true := horder₁.persistent.trans hpersistent
  simp only [createConnectionSocket_eq_none_iff hpersistent₁] at hnum₂
  simp only [createConnectionSocket_eq_none_iff hpersistent, hnum] at hnum₁
  by_cases hfails : FirstAttemptFails outcomes s
  · obtain ⟨-, -, rw', s₂, hfirst, -, -, -, hfd, -, -, hzero, -⟩ :=
      attempt_of_firstAttemptFails rw hpersistent hfails
    obtain ⟨-, rfl⟩ := Prod.mk.inj (Option.some.inj (hfirst.symm.trans h₁))
    rw [hzero, hnum] at hnum₂
    have hno : ¬((s.getFd 0 ≠ none ∨ (outcomes.connect 0 0).isConnected = true) ∧
        outcomes.write 0 0 ≠ .error) := by
      rintro ⟨hconnected, hwrite⟩
      obtain herror | ⟨hnone, hrefused⟩ := hfails
      · exact hwrite herror
      · simp [hnone, hrefused] at hconnected
    rw [hnum₂, CanSend, or_iff_right hno]
    split_ifs with hsecond
    · grind
    · simp only [uintAdd, uintRange]
      grind
  · have hfirst : ¬((s.getFd 0 = none ∧ (outcomes.connect 0 0).isConnected = false) ∨
        outcomes.write 0 0 = .error) := fun h => hfails h.symm
    rw [if_neg hfirst] at hnum₁
    have hcan : CanSend outcomes (s.getFd 0 ≠ none) := by
      refine .inl ⟨?_, fun h => hfails (.inl h)⟩
      grind
    have hone : s₁.numConnections = 1 := hnum₁
    rw [hnum₂, hone]
    split_ifs <;> simp [uintAdd, uintRange, hcan]

theorem disposeLeft_effect (left : Option IoObject) :
    s.KeepsOrder (s.disposeLeft left) ∧ (s.disposeLeft left).numConnections = s.numConnections := by
  cases left with
  | none => exact ⟨⟨rfl, rfl, rfl, rfl, rfl⟩, rfl⟩
  | some rw => exact ⟨keepsOrder_record rfl, rfl⟩

theorem start_effect (hpersistent : s.persistent = true) (hnum : s.numConnections = 0)
    (h : s.processInputQueueObject outcomes rw = some s') :
    (s.record (.start rw.command)).KeepsOrder s' ∧ s'.numConnections ≤ 2 ∧
      (s'.numConnections ≠ 0 ↔ s.sockets ≠ [] ∧ CanSend outcomes (s.getFd 0 ≠ none)) := by
  have hdefer : s.isDeferring = false := by simp [isDeferring, hnum]
  by_cases hn : s.sockets = []
  · simp only [processInputQueueObject, hdefer, Bool.false_eq_true, if_false, hn, List.length_nil,
      List.range_zero, sendToReplicas] at h
    cases h
    obtain ⟨horder, hsame⟩ := disposeLeft_effect (s := s.record (.start rw.command)) (some rw)
    refine ⟨horder, ?_⟩
    rw [hsame]
    simp [hn, hnum]
  · rw [processInputQueueObject_of_not_deferring hdefer hn] at h
    obtain ⟨⟨left, s₁⟩, hattempts, hs'⟩ := Option.bind_eq_some_iff.mp h
    cases hs'
    obtain ⟨horder, hle, hcan⟩ :=
      attempts_effect (s := s.record (.start rw.command)) hpersistent hnum hattempts
    obtain ⟨hdispose, hsame⟩ := disposeLeft_effect (s := s₁) left
    refine ⟨horder.trans hdispose, ?_⟩
    rw [hsame]
    exact ⟨hle, hcan.trans (and_iff_right hn).symm⟩

theorem getFd_closeConnectionSocket_succ (k : Nat) :
    (s.closeConnectionSocket (k + 1)).getFd 0 = s.getFd 0 := by
  unfold closeConnectionSocket
  split
  · simp [getFd, List.getD_eq_getElem?_getD]
  · rfl

theorem getFd_closeConnectionSocketByFd (fd : Nat) :
    (s.closeConnectionSocketByFd fd).getFd 0 =
      if s.getFd 0 = some fd then none else s.getFd 0 := by
  unfold closeConnectionSocketByFd
  cases hsockets : s.sockets with
  | nil => simp [getFd, hsockets]
  | cons first rest =>
    have hfirst : s.getFd 0 = first := by simp [getFd, hsockets]
    by_cases heq : first = some fd
    · simp [List.idxOf?_cons, hfirst, heq, getFd_closeConnectionSocket]
    · simp only [List.idxOf?_cons, beq_iff_eq, heq, if_false, hfirst]
      cases rest.idxOf? (some fd) with
      | none => exact hfirst
      | some k => exact (getFd_closeConnectionSocket_succ k).trans hfirst

theorem closeConnectionSocketByFd_same (fd : Nat) :
    s.SameButSockets (s.closeConnectionSocketByFd fd) := by
  unfold closeConnectionSocketByFd
  split
  · exact s.closeConnectionSocket_same _
  · exact .refl s

variable (rw) in
theorem endTransfer_effect (closeConnection : Bool) :
    s.KeepsOrder (s.endTransfer rw closeConnection) ∧
      (s.endTransfer rw closeConnection).numConnections = uintSub s.numConnections 1 ∧
      ((s.endTransfer rw closeConnection).getFd 0 ≠ none ↔
        s.getFd 0 ≠ none ∧ ¬(closeConnection = true ∧ s.getFd 0 = some rw.fd)) := by
  simp only [endTransfer, disposeObject]
  generalize hnum : uintSub s.numConnections 1 = num
  generalize hs₁ : { s with
    numConnections := num, descriptors := s.descriptors.unwatch rw.fd } = s₁
  have horder : s.KeepsOrder s₁ := by subst hs₁; exact ⟨rfl, rfl, rfl, rfl, rfl⟩
  have hsockets : s₁.sockets = s.sockets := by rw [← hs₁]
  have hfd : s₁.getFd 0 = s.getFd 0 := by rw [getFd, hsockets, getFd]
  have hnum₁ : s₁.numConnections = num := by rw [← hs₁]
  cases closeConnection with
  | false =>
    exact ⟨horder.trans (keepsOrder_record rfl), hnum₁, by simp [getFd, hsockets]⟩
  | true =>
    have hsame := closeConnectionSocketByFd_same (s := s₁) rw.fd
    have hclosed := getFd_closeConnectionSocketByFd (s := s₁) rw.fd
    refine ⟨horder.trans (hsame.keepsOrder.trans (keepsOrder_record rfl)),
      hsame.numConnections.trans hnum₁, ?_⟩
    rw [hfd] at hclosed
    simp only [if_true]
    rw [show ((s₁.closeConnectionSocketByFd rw.fd).record (.dispose rw.id)).getFd 0 =
      _ from hclosed]
    split_ifs with heq <;> simp [heq]

/-! ## One step -/

theorem processInputQueueObject_of_deferring {deferred : Queue IoObject}
    (hdefer : s.isDeferring = true) (hput : s.deferred.put rw = (true, deferred)) :
    s.processInputQueueObject outcomes rw = some { s with deferred := deferred } := by
  rw [processInputQueueObject, if_pos hdefer, hput]

theorem startsInOrder_of_keepsOrder (h : StartsInOrder s) (horder : s.KeepsOrder s')
    (hnum : s'.numConnections = s.numConnections) : StartsInOrder s' := by
  obtain ⟨waiting, hholds, hrange, hzero⟩ := h
  exact ⟨waiting, horder.deferred ▸ hholds, by rw [horder.started, horder.arrived, hrange],
    hnum ▸ hzero⟩

theorem startsInOrder_iff {waiting : List IoObject} (h : s.deferred.Holds waiting) :
    StartsInOrder s ↔
      startedCommands s.log ++ waiting.map IoObject.command = List.range s.arrived ∧
        (s.numConnections = 0 → waiting = []) := by
  constructor
  · rintro ⟨waiting', h', hrest⟩
    exact h'.unique h ▸ hrest
  · intro hrest
    exact ⟨waiting, h, hrest⟩

theorem map_rotate_iff {started : List Nat} {first : IoObject} {rest : List IoObject}
    {n : Nat} (h : started ++ (first :: rest).map IoObject.command = List.range n) :
    started ++ (rest ++ [first]).map IoObject.command = List.range n ↔ rest = [] := by
  refine ⟨fun h' => ?_, fun hrest => by simpa [hrest] using h⟩
  have hnodup : (started ++ (first :: rest).map IoObject.command).Nodup :=
    h ▸ List.nodup_range
  have hmap := List.append_cancel_left (h.trans h'.symm)
  cases rest with
  | nil => rfl
  | cons second rest =>
    have hsame : first.command = second.command := by
      simpa using (List.cons.inj hmap).1
    have hne := (List.nodup_append.mp hnodup).2.1
    simp [hsame] at hne

theorem processDeferred_iff {closeConnection : Bool} (hpersistent : s.persistent = true)
    (hbound : s.numConnections < uintRange) (hs : StartsInOrder s)
    (h : (s.endTransfer rw closeConnection).processDeferred outcomes = some s') :
    s'.persistent = true ∧ s'.numConnections < uintRange ∧
      (StartsInOrder s' ↔ (2 ≤ s.deferred.count → s.numConnections = 1 ∧ s.sockets ≠ [] ∧
        CanSend outcomes (s.getFd 0 ≠ none ∧
          ¬(closeConnection = true ∧ s.getFd 0 = some rw.fd)))) := by
  obtain ⟨waiting, hholds, hrange, hzero⟩ := hs
  obtain ⟨horder, hnum, hfd⟩ := endTransfer_effect rw (s := s) closeConnection
  generalize s.endTransfer rw closeConnection = s₁ at h horder hnum hfd
  rw [← horder.deferred] at hholds
  have hcount : s.deferred.count = waiting.length := horder.deferred ▸ hholds.count
  rw [hcount, ← hfd, ← List.length_pos_iff, ← horder.length, List.length_pos_iff]
  cases waiting with
  | nil =>
    rw [processDeferred, hholds.get_nil] at h
    cases h
    have hlt : s₁.numConnections < uintRange := by
      rw [hnum]
      exact uintSub_lt _ _
    refine ⟨horder.persistent.trans hpersistent, hlt, ?_⟩
    refine iff_of_true ?_ (by simp)
    exact ⟨[], hholds, by rw [horder.started, horder.arrived, hrange], fun _ => rfl⟩
  | cons first rest =>
    have hpos : s.numConnections ≠ 0 := fun h => List.cons_ne_nil first rest (hzero h)
    rw [uintSub_eq hbound (by omega)] at hnum
    obtain ⟨deferred, hget, hrest, hmax⟩ := hholds.get_cons
    rw [processDeferred, hget] at h
    dsimp only at h
    by_cases hone : s.numConnections = 1
    · obtain ⟨horder', hle, hcan⟩ := start_effect (s := { s₁ with deferred := deferred })
        (horder.persistent.trans hpersistent) (by rw [hnum, hone]) h
      refine ⟨horder'.persistent.trans (horder.persistent.trans hpersistent),
        hle.trans_lt (by norm_num [uintRange]), ?_⟩
      have hrange' : startedCommands s'.log ++ rest.map IoObject.command =
          List.range s'.arrived := by
        rw [horder'.started, horder'.arrived]
        simpa [startedCommands_start, horder.started, horder.arrived] using hrange
      have hholds' : s'.deferred.Holds rest := by
        rw [horder'.deferred]
        exact hrest
      rw [startsInOrder_iff hholds', and_iff_right hrange']
      constructor
      · intro hempty hlen
        refine ⟨hone, hcan.mp fun hzero' => ?_⟩
        simp [hempty hzero'] at hlen
      · intro hsend hzero'
        by_contra hne
        have hlen : 2 ≤ (first :: rest).length := by
          have := List.length_pos_of_ne_nil hne
          rw [List.length_cons]
          omega
        exact hcan.mpr (hsend hlen).2 hzero'
    · have hdefer : { s₁ with deferred := deferred }.isDeferring = true := by
        simp only [isDeferring, horder.persistent, hpersistent, hnum, Bool.true_and]
        exact decide_eq_true (by omega)
      have hspace : rest.length < deferred.maxCapacity := by
        rw [hmax]
        exact (Nat.lt_of_succ_le hholds.fits).trans_le hholds.le
      obtain ⟨deferred', hput, hholds', -⟩ := (if_pos hspace).mp (hrest.put first)
      obtain rfl := Option.some.inj ((processInputQueueObject_of_deferring hdefer hput).symm.trans
        h)
      refine ⟨horder.persistent.trans hpersistent, by simp only [hnum]; omega, ?_⟩
      have hrotate := map_rotate_iff hrange
      rw [startsInOrder_iff hholds', horder.started, horder.arrived, hrotate]
      have hnum' : ¬s₁.numConnections = 0 := by omega
      simp [hnum', hone]

theorem command_startsInOrder (hpersistent : s.persistent = true)
    (hbound : s.numConnections < uintRange) (hs : StartsInOrder s)
    (hspace : s.CanDefer (.command outcomes)) (h : s.step (.command outcomes) = some s') :
    s'.persistent = true ∧ s'.numConnections < uintRange ∧ StartsInOrder s' := by
  obtain ⟨waiting, hholds, hrange, hzero⟩ := hs
  simp only [step] at h
  let s₁ := { s with arrived := s.arrived + 1, nextId := s.nextId + 1 }
  by_cases hdefer : s.isDeferring = true
  · have hspace' := hspace hdefer
    rw [hholds.count] at hspace'
    obtain ⟨deferred, hput, hholds', -⟩ := (if_pos hspace').mp (hholds.put _)
    obtain rfl := Option.some.inj
      ((processInputQueueObject_of_deferring (s := s₁) hdefer hput).symm.trans h)
    refine ⟨hpersistent, hbound, _, hholds', ?_, ?_⟩
    · simp [s₁, List.range_succ, ← hrange]
    · intro hnum
      have hnum' : s.numConnections = 0 := hnum
      simp [isDeferring, hnum'] at hdefer
  · have hnum : s.numConnections = 0 := by simpa [isDeferring, hpersistent] using hdefer
    obtain ⟨horder, hle, -⟩ := start_effect (s := s₁) hpersistent hnum h
    obtain rfl := hzero hnum
    refine ⟨horder.persistent.trans hpersistent, hle.trans_lt (by norm_num [uintRange]), [], ?_, ?_,
      fun _ => rfl⟩
    · rw [horder.deferred]
      exact hholds
    · rw [horder.started, horder.arrived]
      simpa [s₁, startedCommands_start, List.range_succ] using hrange

/-- Exactly the steps that take the next command keep the order. -/
theorem step_iff {input : OutputInput} (hpersistent : s.persistent = true)
    (hbound : s.numConnections < uintRange) (hs : StartsInOrder s) (hdefer : s.CanDefer input)
    (h : s.step input = some s') :
    s'.persistent = true ∧ s'.numConnections < uintRange ∧
      (StartsInOrder s' ↔ s.TakesNext input) := by
  cases input with
  | command outcomes =>
    obtain ⟨hpersistent', hbound', hs'⟩ := command_startsInOrder hpersistent hbound hs hdefer h
    exact ⟨hpersistent', hbound', iff_of_true hs' trivial⟩
  | setPersistent persistent =>
    obtain rfl : persistent = true := hdefer
    cases h
    exact ⟨rfl, hbound, iff_of_true hs trivial⟩
  | waitForEvents batch =>
    simp only [step] at h
    split_ifs at h
    cases h
    exact ⟨hpersistent, hbound, iff_of_true hs trivial⟩
  | object flags io outcomes =>
    cases hevents : s.events with
    | nil => simp [step, hevents] at h
    | cons rw events =>
      simp only [step, hevents, processObjectEvent] at h
      simp only [TakesNext, hevents, List.head?_cons]
      cases hstatus : transferStatus s.persistent flags io with
      | unfinished =>
        rw [hstatus] at h
        cases h
        exact ⟨hpersistent, hbound, iff_of_true hs trivial⟩
      | response =>
        rw [hstatus] at h
        cases h
        refine ⟨hpersistent, hbound, iff_of_true ?_ trivial⟩
        refine startsInOrder_of_keepsOrder hs ⟨rfl, rfl, rfl, rfl, ?_⟩ rfl
        simp [newReader, disposeObject, startedCommands]
      | finished closeConnection =>
        rw [hstatus] at h
        obtain ⟨hpersistent', hbound', hiff⟩ :=
          processDeferred_iff (s := { s with events := events }) hpersistent hbound hs h
        exact ⟨hpersistent', hbound', hiff⟩

/-! ## Runs -/

theorem create_startsInOrder (n : Nat) : StartsInOrder (create n true) := by
  have hholds : (create n true).deferred.Holds [] :=
    Queue.create_holds defaultQueueCapacity maxQueueCapacity
  exact ⟨[], hholds, rfl, fun _ => rfl⟩

/-- Commands are started in their order of arrival, and none is left behind, as long as every
finished transfer that leaves several commands waiting was the only one and the next command can be
sent. -/
theorem starts_in_order {n : Nat} {inputs : List OutputInput}
    (h : Reaches step (fun s input => s.CanDefer input ∧ s.TakesNext input) (create n true)
      inputs s) : StartsInOrder s := by
  have hinv : s.persistent = true ∧ s.numConnections < uintRange ∧ StartsInOrder s := by
    refine h.invariant (P := fun s => s.persistent = true ∧ s.numConnections < uintRange ∧
      StartsInOrder s) ⟨rfl, by norm_num [create, uintRange], create_startsInOrder n⟩ ?_
    rintro s input s' ⟨hpersistent, hbound, hs⟩ ⟨hdefer, htakes⟩ hstep
    obtain ⟨hpersistent', hbound', hiff⟩ := step_iff hpersistent hbound hs hdefer hstep
    exact ⟨hpersistent', hbound', hiff.mpr htakes⟩
  exact hinv.2.2

/-- The connection is established at the second attempt, so that there is one transfer; of the two
commands that wait, the first one is sent when the response has been read. -/
theorem starts_in_order_of_three :
    ∃ s, Reaches step (fun s input => s.CanDefer input ∧ s.TakesNext input) (create 1 true)
        [.command ⟨fun _ j => if j = 0 then .noSocket else .connected 5, fun _ _ => .ok⟩,
          .command ⟨fun _ _ => .noSocket, fun _ _ => .error⟩,
          .command ⟨fun _ _ => .noSocket, fun _ _ => .error⟩,
          .waitForEvents [⟨1, 0, true, 5⟩],
          .object ⟨true, false, false⟩ .ok ⟨fun _ _ => .noSocket, fun _ _ => .ok⟩] s ∧
      startedCommands s.log = [0, 1] ∧ s.deferred.count = 1 ∧ StartsInOrder s := by
  refine ⟨_, Reaches.get_foldlM rfl, rfl, rfl, starts_in_order (Reaches.get_foldlM rfl)⟩

/-- A deferred command cannot be sent, nobody looks for the next one, and a command that arrives
later overtakes it. -/
theorem deferred_command_overtaken :
    ∃ s, Reaches step CanDefer (create 1 true)
        [.command ⟨fun _ j => if j = 0 then .noSocket else .connected 5, fun _ _ => .ok⟩,
          .command ⟨fun _ _ => .noSocket, fun _ _ => .error⟩,
          .command ⟨fun _ _ => .noSocket, fun _ _ => .error⟩,
          .waitForEvents [⟨1, 0, true, 5⟩],
          .object ⟨true, false, false⟩ .ok ⟨fun _ _ => .noSocket, fun _ _ => .error⟩,
          .command ⟨fun _ _ => .noSocket, fun _ _ => .error⟩] s ∧
      startedCommands s.log = [0, 1, 3] ∧ s.numConnections = 0 ∧ s.deferred.count = 1 ∧
      ¬StartsInOrder s := by
  refine ⟨_, Reaches.get_foldlM rfl, rfl, rfl, rfl, ?_⟩
  rintro ⟨waiting, -, hrange, -⟩
  have hlist : [0, 1, 3] ++ waiting.map IoObject.command = [0, 1, 2, 3] := hrange
  simp at hlist

end SocketOutputPipeline

end CyberCache
