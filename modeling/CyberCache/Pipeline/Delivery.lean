import CyberCache.Pipeline.SocketOutput

/-!
# One command, all replicas

A command that is not deferred should be sent once to each replica, with a second attempt where a
persistent connection turned out to be broken. The loops do something else: only the first replica
is served, and it is always served twice.
-/

namespace CyberCache

namespace SocketOutputPipeline

/-- What may be done before what when a command is sent to its replicas. -/
def MayPrecede (persistent : Bool) : OutputAction → OutputAction → Prop
  -- the command is written to a replica at most once, now or at a later event
  | .write i _ r, .write k _ r' => i = k → r = .error ∨ r' = .error
  -- a second attempt is made for persistent connections only, and only if the first one failed
  | .connect i _, .connect k _ => i = k → persistent = true
  | .write i _ r, .connect k _ => i = k → r = .error
  -- an object that was handed to the event processor is not touched any more
  | .watch _ id, .write _ id' _ => id ≠ id'
  | .watch _ id, .watch _ id' => id ≠ id'
  | .watch _ id, .dispose id' => id ≠ id'
  | _, _ => True

/-- Delivery to every replica is attempted, and nothing is done too often. -/
def ServesReplicas (n : Nat) (persistent : Bool) (actions : List OutputAction) : Prop :=
  (∀ i < n, ∃ fd, OutputAction.connect i fd ∈ actions) ∧ actions.Pairwise (MayPrecede persistent)

def servedReplicas (actions : List OutputAction) (s : SocketOutputPipeline) : List Nat :=
  (List.range s.sockets.length).filter fun i =>
    s.descriptors.watched.any fun w => decide (.watch i w.2.id ∈ actions)

/-- The command reaches every replica as it should, and the counter says how many transfers there
are. -/
def Delivers (outcomes : Outcomes) (rw : IoObject) (s : SocketOutputPipeline) : Prop :=
  ∃ s' actions, s.processInputQueueObject outcomes rw = some s' ∧
    s'.log = s.log ++ .start rw.command :: actions ∧
    ServesReplicas s.sockets.length s.persistent actions ∧
    s'.numConnections =
      (s.numConnections + (servedReplicas actions s').length) % uintRange

def FirstAttemptFails (outcomes : Outcomes) (s : SocketOutputPipeline) : Prop :=
  outcomes.write 0 0 = .error ∨
    (s.getFd 0 = none ∧ (outcomes.connect 0 0).isConnected = false)

instance (outcomes : Outcomes) (s : SocketOutputPipeline) :
    Decidable (FirstAttemptFails outcomes s) :=
  inferInstanceAs (Decidable (_ ∨ _))

variable {outcomes : Outcomes} {s s' : SocketOutputPipeline} {rw : IoObject} {i j : Nat}

theorem processInputQueueObject_of_not_deferring (h : s.isDeferring = false) (hn : s.sockets ≠ []) :
    s.processInputQueueObject outcomes rw =
      ((s.record (.start rw.command)).attempts outcomes 0 (some rw)).bind fun (left, s) =>
        some (s.disposeLeft left) := by
  have hrange : List.range s.sockets.length =
      0 :: (List.range (s.sockets.length - 1)).map (· + 1) := by
    rw [← List.range_succ_eq_map, Nat.sub_add_cancel (List.length_pos_of_ne_nil hn)]
  simp only [processInputQueueObject, h, hrange, sendToReplicas, Bool.false_eq_true, if_false]
  rfl

theorem getFd_eq_none_of_createConnectionSocket {outcome : ConnectOutcome}
    (hpersistent : s.persistent = true) (h : (s.createConnectionSocket i outcome).1 = none) :
    s.getFd i = none ∧ outcome.isConnected = false := by
  unfold createConnectionSocket at h
  split at h
  · simp [hpersistent] at h
  · refine ⟨by assumption, ?_⟩
    cases outcome with
    | noSocket => rfl
    | refused wish => rfl
    | connected wish => simp [connectSocket] at h

def actionsAfterWrite (i j : Nat) (persistent : Bool) (nextId : Nat) (rw : IoObject) :
    IoOutcome → List OutputAction
  | .ok => [.watch i nextId]
  | .retry => [.watch i rw.id]
  | .error => if persistent ∧ j = 0 then [] else [.logError "could not send data [Q]"]

theorem log_afterWrite (result : IoOutcome) :
    (s.afterWrite i j rw result).2.log =
      s.log ++ actionsAfterWrite i j s.persistent s.nextId rw result := by
  cases result with
  | ok => simp [afterWrite, newReader, watchObject, actionsAfterWrite]
  | retry =>
    simp only [afterWrite]
    split_ifs <;> simp [clone, watchObject, actionsAfterWrite]
  | error =>
    simp only [afterWrite]
    split_ifs with h <;> simp [actionsAfterWrite, h, (closeConnectionSocket_same _ i).log]

theorem attempt_log {object left : Option IoObject}
    (h : s.attempt outcomes i j object = some (left, s')) :
    (∃ fd rw nextId, (s.createConnectionSocket i (outcomes.connect i j)).1 = some fd ∧
      object = some rw ∧
      s'.log = s.log ++ .connect i (some fd) :: .write i rw.id (outcomes.write i j) ::
        actionsAfterWrite i j s.persistent nextId rw (outcomes.write i j)) ∨
    ((s.createConnectionSocket i (outcomes.connect i j)).1 = none ∧
      s'.log = s.log ++ [.connect i none,
        .logError "%s: could not connect to %s to send a command"]) := by
  have hsame := s.createConnectionSocket_same i (outcomes.connect i j)
  unfold attempt at h
  generalize s.createConnectionSocket i (outcomes.connect i j) = created at h hsame
  obtain ⟨fd, s₁⟩ := created
  dsimp only at h hsame
  cases fd with
  | none =>
    obtain ⟨-, rfl⟩ := Prod.mk.inj (Option.some.inj h)
    exact .inr ⟨rfl, by simp [hsame.log]⟩
  | some fd =>
    cases object with
    | none => simp at h
    | some rw =>
      refine .inl ⟨fd, rw, s₁.nextId, rfl, rfl, ?_⟩
      have hs' := congrArg (fun r => r.2.log) (Option.some.inj h)
      dsimp only at hs'
      rw [← hs', log_afterWrite]
      simp [hsame.log, hsame.persistent, actionsAfterWrite]

theorem attempts_eq (object : Option IoObject) :
    s.attempts outcomes i object =
      (s.attempt outcomes i 0 object).bind fun state => state.2.attempt outcomes i 1 state.1 := by
  simp only [attempts, List.foldlM_cons, List.foldlM_nil, Option.bind_eq_bind, Option.pure_def,
    Option.bind_fun_some]

theorem not_connect_of_mem_actionsAfterWrite {a : OutputAction} {persistent : Bool} {nextId : Nat}
    {result : IoOutcome} (h : a ∈ actionsAfterWrite i j persistent nextId rw result) (k : Nat)
    (fd : Option Nat) : a ≠ .connect k fd := by
  rintro rfl
  cases result with
  | ok | retry => simp [actionsAfterWrite] at h
  | error =>
    simp only [actionsAfterWrite] at h
    split_ifs at h <;> simp at h

theorem attempt_actions {object left : Option IoObject}
    (h : s.attempt outcomes i j object = some (left, s')) :
    ∃ fd tail, s'.log = s.log ++ .connect i fd :: tail ∧ (∀ a ∈ tail, ∀ k fd', a ≠ .connect k fd') ∧
      (s.createConnectionSocket i (outcomes.connect i j)).1 = fd ∧
      ∀ rw, object = some rw → fd ≠ none → .write i rw.id (outcomes.write i j) ∈ tail := by
  obtain ⟨fd, rw, nextId, hfd, rfl, hlog⟩ | ⟨hfd, hlog⟩ := attempt_log h
  · refine ⟨some fd, _, hlog, ?_, hfd, ?_⟩
    · intro a ha
      obtain rfl | ha := List.mem_cons.mp ha
      · simp
      · exact not_connect_of_mem_actionsAfterWrite ha
    · rintro rw' hrw -
      cases hrw
      exact List.mem_cons_self
  · exact ⟨none, _, hlog, by simp, hfd, by simp⟩

theorem processInputQueueObject_actions (hdefer : s.isDeferring = false) (hn : s.sockets ≠ [])
    (h : s.processInputQueueObject outcomes rw = some s') :
    ∃ fd fd' between after,
      s'.log = s.log ++ .start rw.command ::
        (.connect 0 fd :: between ++ .connect 0 fd' :: after) ∧
      (∀ a ∈ between ++ after, ∀ k fd, a ≠ .connect k fd) ∧
      ((s.record (.start rw.command)).createConnectionSocket 0 (outcomes.connect 0 0)).1 = fd ∧
      (fd ≠ none → .write 0 rw.id (outcomes.write 0 0) ∈ between) := by
  rw [processInputQueueObject_of_not_deferring hdefer hn, attempts_eq] at h
  simp only [Option.bind_eq_some_iff, Option.some.injEq] at h
  obtain ⟨⟨left, s₂⟩, ⟨⟨left₁, s₁⟩, h₁, h₂⟩, rfl⟩ := h
  obtain ⟨fd, between, hlog₁, hbetween, hfd, hwrite⟩ := attempt_actions h₁
  obtain ⟨fd', after, hlog₂, hafter, -, -⟩ := attempt_actions h₂
  have hdispose : ∃ last, (s₂.disposeLeft left).log = s₂.log ++ last ∧
      ∀ a ∈ last, ∀ k fd, a ≠ .connect k fd := by
    cases left with
    | none => exact ⟨[], by simp [disposeLeft], by simp⟩
    | some rw => exact ⟨[.dispose rw.id], rfl, by simp⟩
  obtain ⟨last, hlast, hlast'⟩ := hdispose
  refine ⟨fd, fd', between, after ++ last, ?_, ?_, hfd, hwrite rw rfl⟩
  · simp [hlast, hlog₂, hlog₁]
  · simp only [List.mem_append]
    rintro a (ha | ha | ha)
    · exact hbetween a ha
    · exact hafter a ha
    · exact hlast' a ha

theorem Delivers.firstAttemptFails (h : Delivers outcomes rw s) (hdefer : s.isDeferring = false)
    (hn : s.sockets ≠ []) :
    s.sockets.length = 1 ∧ s.persistent = true ∧ FirstAttemptFails outcomes s := by
  obtain ⟨s', actions, hprocess, hlog, ⟨htried, hpairs⟩, -⟩ := h
  obtain ⟨fd, fd', between, after, hlog', hother, hfd, hwrite⟩ :=
    processInputQueueObject_actions hdefer hn hprocess
  obtain rfl : actions = .connect 0 fd :: between ++ .connect 0 fd' :: after := by
    simpa [hlog] using hlog'
  rw [List.cons_append, List.pairwise_cons, List.pairwise_append] at hpairs
  have hpersistent : s.persistent = true := by
    have hmay := hpairs.1 (.connect 0 fd') (by simp)
    exact hmay rfl
  refine ⟨?_, hpersistent, ?_⟩
  · -- nobody ever connects to a second replica
    by_contra hlength
    have hpos := List.length_pos_of_ne_nil hn
    obtain ⟨fd'', hmem⟩ := htried 1 (by omega)
    have hnot : OutputAction.connect 1 fd'' ∈ between ++ after := by simpa using hmem
    exact hother _ hnot 1 fd'' rfl
  · cases hfd' : fd with
    | none =>
      have hnone := hfd.trans hfd'
      exact .inr (getFd_eq_none_of_createConnectionSocket
        (s := s.record (.start rw.command)) hpersistent hnone)
    | some _ =>
      have hmem := hwrite (by simp [hfd'])
      have hmay := hpairs.2.2.2 _ hmem (.connect 0 fd') List.mem_cons_self
      exact .inl (hmay rfl)

/-! ## When it works -/

theorem createConnectionSocket_unconnected {outcome : ConnectOutcome} (hfd : s.getFd i = none)
    (h : outcome.isConnected = false) : s.createConnectionSocket i outcome = (none, s) := by
  cases outcome with
  | noSocket => simp [createConnectionSocket, hfd, connectSocket]
  | refused wish => simp [createConnectionSocket, hfd, connectSocket]
  | connected wish => simp [ConnectOutcome.isConnected] at h

theorem attempt_unconnected {object : Option IoObject} (hfd : s.getFd i = none)
    (h : (outcomes.connect i j).isConnected = false) :
    s.attempt outcomes i j object = some (object, (s.record (.connect i none)).record
      (.logError "%s: could not connect to %s to send a command")) := by
  simp [attempt, createConnectionSocket_unconnected hfd h]

variable (rw) in
theorem attempt_of_firstAttemptFails (hpersistent : s.persistent = true)
    (h : FirstAttemptFails outcomes s) :
    ∃ fd tail rw' s₁, s.attempt outcomes 0 0 (some rw) = some (some rw', s₁) ∧ rw'.id = rw.id ∧
      s₁.log = s.log ++ .connect 0 fd :: tail ∧ (tail = [.write 0 rw.id .error] ∨
        tail = [.logError "%s: could not connect to %s to send a command"]) ∧
      s₁.getFd 0 = none ∧ s₁.persistent = true ∧ s₁.sockets.length = s.sockets.length ∧
      s₁.numConnections = s.numConnections ∧ s₁.nextId = s.nextId := by
  cases hfd : (s.createConnectionSocket 0 (outcomes.connect 0 0)).1 with
  | none =>
    obtain ⟨hnone, hconnect⟩ := getFd_eq_none_of_createConnectionSocket hpersistent hfd
    exact ⟨none, _, rw, _, attempt_unconnected hnone hconnect, rfl, by simp, .inr rfl, hnone,
      hpersistent, rfl, rfl, rfl⟩
  | some fd =>
    have hwrite : outcomes.write 0 0 = .error := by
      obtain hwrite | ⟨hnone, hconnect⟩ := h
      · exact hwrite
      · simp [createConnectionSocket_unconnected hnone hconnect] at hfd
    have hsame := s.createConnectionSocket_same 0 (outcomes.connect 0 0)
    generalize hcreated : s.createConnectionSocket 0 (outcomes.connect 0 0) = created at hfd hsame
    obtain ⟨fd', s₁⟩ := created
    dsimp only at hfd hsame
    subst hfd
    have hpersistent₁ : s₁.persistent = true := hsame.persistent.trans hpersistent
    let s₂ := (s₁.record (.connect 0 (some fd))).record (.write 0 rw.id .error)
    have hclose := s₂.closeConnectionSocket_same 0
    refine ⟨some fd, [.write 0 rw.id .error], { rw with fd := fd }, s₂.closeConnectionSocket 0, ?_,
      rfl, ?_, .inl rfl, s₂.getFd_closeConnectionSocket 0, ?_⟩
    · simp only [attempt, hcreated, hwrite, afterWrite, record_persistent, hpersistent₁, and_self,
        if_true, s₂]
    · simp [hclose.log, hsame.log, s₂]
    · exact ⟨hclose.persistent.trans hpersistent₁, hclose.length.trans hsame.length,
        hclose.numConnections.trans hsame.numConnections, hclose.nextId.trans hsame.nextId⟩

theorem createConnectionSocket_connected {wish : Nat} (hfd : s.getFd i = none)
    (hpersistent : s.persistent = true) (h : outcomes.connect i j = .connected wish) :
    s.createConnectionSocket i (outcomes.connect i j) =
      (some (s.descriptors.fresh wish),
        { s with
          descriptors := s.descriptors.openSocket wish
          sockets := s.sockets.set i (some (s.descriptors.fresh wish)) }) := by
  simp [createConnectionSocket, hfd, connectSocket, h, hpersistent]

theorem servedReplicas_eq_nil {actions : List OutputAction}
    (h : ∀ i id, .watch i id ∉ actions) : servedReplicas actions s = [] := by
  simp [servedReplicas, h]

theorem servedReplicas_eq_singleton {actions : List OutputAction} {w : Nat × IoObject}
    (hlength : s.sockets.length = 1) (hw : w ∈ s.descriptors.watched)
    (h : .watch 0 w.2.id ∈ actions) : servedReplicas actions s = [0] := by
  have hany : (s.descriptors.watched.any fun w => decide (.watch 0 w.2.id ∈ actions)) = true :=
    List.any_eq_true.mpr ⟨w, hw, decide_eq_true h⟩
  simp only [servedReplicas, hlength, List.range_one, List.filter_cons, hany, if_true,
    List.filter_nil]

/-- Either no transfer was started, or one was, and its object is being watched. -/
def Counted (actions : List OutputAction) (s : SocketOutputPipeline) : Prop :=
  s.sockets.length = 1 ∧
    ((s.numConnections = 0 ∧ ∀ i id, .watch i id ∉ actions) ∨
      (s.numConnections = 1 ∧ ∃ w ∈ s.descriptors.watched, .watch 0 w.2.id ∈ actions))

variable (outcomes) in
theorem attempt_again (hfd : s.getFd 0 = none) (hpersistent : s.persistent = true)
    (hlength : s.sockets.length = 1) (hid : rw.id < s.nextId) (hnum : s.numConnections = 0) :
    ∃ left s' actions, s.attempt outcomes 0 1 (some rw) = some (left, s') ∧
      (s'.disposeLeft left).log = s.log ++ actions ∧ actions.Pairwise (MayPrecede true) ∧
      Counted actions (s'.disposeLeft left) := by
  by_cases hconnected : (outcomes.connect 0 1).isConnected = false
  · refine ⟨_, _, [.connect 0 none, .logError "%s: could not connect to %s to send a command",
      .dispose rw.id], attempt_unconnected hfd hconnected, ?_, ?_, ?_⟩
    · simp [disposeLeft, disposeObject]
    · simp [MayPrecede]
    · exact ⟨hlength, .inl ⟨hnum, by simp⟩⟩
  · obtain ⟨wish, hconnect⟩ : ∃ wish, outcomes.connect 0 1 = .connected wish := by
      cases hconnect : outcomes.connect 0 1 <;> simp_all [ConnectOutcome.isConnected]
    have hcreated := createConnectionSocket_connected hfd hpersistent hconnect
    have hwatched := s.descriptors.watched_watch_fresh wish
    cases hwrite : outcomes.write 0 1 with
    | ok =>
      refine ⟨_, _, [.connect 0 (some (s.descriptors.fresh wish)), .write 0 rw.id .ok,
        .watch 0 s.nextId, .dispose rw.id],
        by simp only [attempt, hcreated, hwrite, afterWrite]; rfl, ?_, ?_, ?_⟩
      · simp [newReader, watchObject, disposeLeft, disposeObject]
      · simp [MayPrecede, hid.ne']
      · refine ⟨by simpa [newReader, watchObject, disposeLeft, disposeObject] using hlength,
          .inr ?_⟩
        simp [newReader, watchObject, disposeLeft, disposeObject, hnum, hwatched, uintAdd,
          uintRange]
    | retry =>
      refine ⟨none, _, [.connect 0 (some (s.descriptors.fresh wish)), .write 0 rw.id .retry,
        .watch 0 rw.id],
        by simp only [attempt, hcreated, hwrite, afterWrite, record_sockets, List.length_set,
          hlength]; rfl, ?_, ?_, ?_⟩
      · simp [watchObject, disposeLeft]
      · simp [MayPrecede]
      · refine ⟨by simpa [watchObject, disposeLeft] using hlength, .inr ?_⟩
        simp [watchObject, disposeLeft, hnum, hwatched, uintAdd, uintRange]
    | error =>
      refine ⟨some { rw with fd := s.descriptors.fresh wish }, _,
        [.connect 0 (some (s.descriptors.fresh wish)), .write 0 rw.id .error,
          .logError "could not send data [Q]", .dispose rw.id],
        by simp only [attempt, hcreated, hwrite, afterWrite, one_ne_zero, and_false, if_false]; rfl,
        ?_, ?_, ?_⟩
      · simp [disposeLeft, disposeObject, (closeConnectionSocket_same _ 0).log]
      · simp [MayPrecede]
      · refine ⟨?_, .inl ⟨?_, by simp⟩⟩
        · simpa [disposeLeft, disposeObject, (closeConnectionSocket_same _ 0).length] using hlength
        · simpa [disposeLeft, disposeObject, (closeConnectionSocket_same _ 0).numConnections]
            using hnum

theorem mayPrecede_connect (fd : Option Nat) (a : OutputAction) :
    MayPrecede true (.connect i fd) a := by
  cases a <;> simp [MayPrecede]

theorem mayPrecede_error (id : Nat) (a : OutputAction) :
    MayPrecede true (.write i id .error) a := by
  cases a <;> simp [MayPrecede]

theorem mayPrecede_logError (text : String) (a : OutputAction) :
    MayPrecede true (.logError text) a := by
  cases a <;> simp [MayPrecede]

theorem delivers_of_firstAttemptFails (hdefer : s.isDeferring = false)
    (hlength : s.sockets.length = 1) (hid : rw.id < s.nextId) (hpersistent : s.persistent = true)
    (h : FirstAttemptFails outcomes s) : Delivers outcomes rw s := by
  have hnum : s.numConnections = 0 := by simpa [isDeferring, hpersistent] using hdefer
  have hn : s.sockets ≠ [] := List.ne_nil_of_length_eq_add_one hlength
  obtain ⟨fd, tail, rw', s₁, hfirst, hid', hlog, htail, hfd, hpersistent', hlength', hnum',
      hnext⟩ :=
    attempt_of_firstAttemptFails rw (s := s.record (.start rw.command)) hpersistent h
  obtain ⟨left, s₂, actions, hsecond, hlog', hpairs, hcounted⟩ :=
    attempt_again outcomes hfd hpersistent' (hlength'.trans hlength)
      (hid'.trans_lt (hid.trans_eq hnext.symm)) (hnum'.trans hnum)
  have hfront : ∀ a ∈ .connect 0 fd :: tail, (∀ b, MayPrecede true a b) ∧
      ∀ i id, a ≠ .watch i id := by
    obtain rfl | rfl := htail
    · simp [mayPrecede_connect, mayPrecede_error]
    · simp [mayPrecede_connect, mayPrecede_logError]
  refine ⟨s₂.disposeLeft left, .connect 0 fd :: tail ++ actions, ?_, ?_, ⟨?_, ?_⟩, ?_⟩
  · rw [processInputQueueObject_of_not_deferring hdefer hn, attempts_eq, hfirst]
    simp [hsecond]
  · simp [hlog', hlog]
  · rw [hlength]
    intro i hi
    obtain rfl : i = 0 := by omega
    exact ⟨fd, by simp⟩
  · rw [hpersistent, List.pairwise_append]
    refine ⟨?_, hpairs, fun a ha b _ => (hfront a ha).1 b⟩
    exact List.pairwise_of_forall_mem_list fun a ha b _ => (hfront a ha).1 b
  · obtain ⟨hone, ⟨hzero, hwatch⟩ | ⟨hcount, w, hw, hwatch⟩⟩ := hcounted
    · rw [servedReplicas_eq_nil, hzero, hnum]
      · rfl
      · intro i id hmem
        obtain hmem | hmem := List.mem_append.mp hmem
        · exact (hfront _ hmem).2 i id rfl
        · exact hwatch i id hmem
    · rw [servedReplicas_eq_singleton hone hw (List.mem_append_right _ hwatch), hcount, hnum]
      rfl

/-- A command that is not deferred is delivered as it should be in exactly one situation: there is
one replica, connections are persistent, and the first attempt fails. -/
theorem delivers_iff (hdefer : s.isDeferring = false) (hn : s.sockets ≠ [])
    (hid : rw.id < s.nextId) :
    Delivers outcomes rw s ↔
      s.sockets.length = 1 ∧ s.persistent = true ∧ FirstAttemptFails outcomes s := by
  constructor
  · intro h
    exact h.firstAttemptFails hdefer hn
  · rintro ⟨hlength, hpersistent, h⟩
    exact delivers_of_firstAttemptFails hdefer hlength hid hpersistent h

/-- The first attempt to connect fails, the second one does not. -/
theorem delivers_at_second_attempt :
    Delivers ⟨fun _ j => if j = 0 then .noSocket else .connected 5, fun _ _ => .ok⟩
      ⟨0, 0, false, 0⟩ { create 1 true with nextId := 1 } :=
  (delivers_iff rfl (by decide) (by decide)).mpr ⟨rfl, rfl, .inr ⟨rfl, rfl⟩⟩

/-- Nothing fails, and the command is sent twice to the first of two replicas and not at all to the
second one. -/
theorem second_replica_gets_nothing :
    (∃ s', { create 2 true with nextId := 1 }.processInputQueueObject
        ⟨fun _ _ => .connected 5, fun _ _ => .ok⟩ ⟨0, 0, false, 0⟩ = some s' ∧
      s'.log = [.start 0, .connect 0 (some 5), .write 0 0 .ok, .watch 0 1,
        .connect 0 (some 5), .write 0 0 .ok, .watch 0 2, .dispose 0] ∧
      s'.numConnections = 2) ∧
    ¬Delivers ⟨fun _ _ => .connected 5, fun _ _ => .ok⟩ ⟨0, 0, false, 0⟩
      { create 2 true with nextId := 1 } := by
  refine ⟨⟨_, rfl, rfl, rfl⟩, fun h => ?_⟩
  exact absurd (h.firstAttemptFails rfl (by decide)).1 (by decide)

end SocketOutputPipeline

end CyberCache
