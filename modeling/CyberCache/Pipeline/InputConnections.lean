import CyberCache.Lib.Runs
import CyberCache.Pipeline.SocketInput

/-!
# Accounting for inbound connections

Every accepted socket that is not closed belongs to one watched object, one watched connection, one
command or one response. While an event is processed, the thread itself may have a socket that
belongs to none of them.
-/

namespace CyberCache

namespace SocketInputPipeline

def watchedObjects (s : SocketInputPipeline) : List Nat :=
  (s.descriptors.watched.filter (·.2.isObject)).map Prod.fst

def watchedConnections (s : SocketInputPipeline) : List Nat :=
  (s.descriptors.watched.filter (!·.2.isObject)).map Prod.fst

def responses (s : SocketInputPipeline) : List Nat := s.inputQueue.filterMap InputMessage.fd?

/-- The counter is the number of open sockets, each of which belongs to exactly one object; no
socket was closed twice, and the counter was never decremented at zero. -/
def Accounted (s : SocketInputPipeline) : Prop :=
  s.numConnections = s.descriptors.opened.length ∧ s.descriptors.opened.Nodup ∧
    s.descriptors.opened.Perm
      (s.watchedObjects ++ s.watchedConnections ++ s.commands ++ s.responses) ∧
    s.descriptors.closedTwice = false ∧ s.underflow = false

def owned (s : SocketInputPipeline) : List Nat :=
  s.descriptors.watched.map Prod.fst ++ (s.commands ++ s.responses)

/-- The sockets in `held` belong to the thread of the pipeline. -/
structure Accounts (held : List Nat) (s : SocketInputPipeline) : Prop where
  count : s.numConnections = s.descriptors.opened.length
  owners : s.descriptors.opened.Perm (held ++ s.owned)
  bounded : ∀ fd ∈ s.descriptors.opened, fd < maxFd
  pending : ∀ e ∈ s.events, e ∈ s.descriptors.watched
  distinct : (s.events.map Prod.fst).Nodup
  once : s.descriptors.closedTwice = false
  noUnderflow : s.underflow = false

theorem filterMap_persistentConnections (on : Bool) (messages : List InputMessage) :
    (InputMessage.persistentConnections on :: messages).filterMap InputMessage.fd? =
      messages.filterMap InputMessage.fd? := rfl

theorem filterMap_response (fd : Nat) (completed : Bool) (messages : List InputMessage) :
    (InputMessage.response fd completed :: messages).filterMap InputMessage.fd? =
      fd :: messages.filterMap InputMessage.fd? := rfl

variable {s s' : SocketInputPipeline} {fd : Nat} {endpoint : Endpoint}

theorem Accounts.nodup {held : List Nat} (h : s.Accounts held) : (held ++ s.owned).Nodup :=
  h.owners.nodup_iff.mp s.descriptors.nodup

theorem Accounts.held_open (h : s.Accounts [fd]) : fd ∈ s.descriptors.opened :=
  h.owners.mem_iff.mpr List.mem_cons_self

theorem Accounts.held_not_watched (h : s.Accounts [fd]) :
    fd ∉ s.descriptors.watched.map Prod.fst := by
  have hnodup := h.nodup
  rw [List.singleton_append, List.nodup_cons] at hnodup
  exact fun hmem => hnodup.1 (List.mem_append_left _ hmem)

theorem Accounts.length_lt {held : List Nat} (h : s.Accounts held) :
    s.descriptors.opened.length ≤ maxFd := by
  have hsubset : s.descriptors.opened ⊆ List.range maxFd :=
    fun fd hfd => List.mem_range.mpr (h.bounded fd hfd)
  have hle := (List.subperm_of_subset s.descriptors.nodup hsubset).length_le
  rwa [List.length_range] at hle

/-! ## Sockets change hands -/

theorem Accounts.unwatch (h : s.Accounts []) (hfd : fd ∈ s.descriptors.watched.map Prod.fst)
    (hpending : ∀ e ∈ s.events, e.1 ≠ fd) : (s.unwatch fd).Accounts [fd] where
  count := h.count
  owners := by
    refine h.owners.trans ?_
    exact (s.descriptors.perm_unwatch hfd).append_right _
  bounded := h.bounded
  pending e he := List.mem_filter.mpr ⟨h.pending e he, decide_eq_true (hpending e he)⟩
  distinct := h.distinct
  once := h.once
  noUnderflow := h.noUnderflow

theorem Accounts.watch (h : s.Accounts [fd]) (endpoint : Endpoint) :
    (s.watch fd endpoint).Accounts [] := by
  have hwatched := s.descriptors.watched_watch h.held_open h.held_not_watched endpoint
  have howned : (s.watch fd endpoint).owned = fd :: s.owned := by
    simp [owned, hwatched, responses]
  exact
    { count := by simpa using h.count
      owners := by simpa [howned] using h.owners
      bounded := by simpa using h.bounded
      pending e he := by
        rw [watch_descriptors, hwatched]
        exact List.mem_cons_of_mem _ (h.pending e he)
      distinct := h.distinct
      once := by simpa using h.once
      noUnderflow := h.noUnderflow }

theorem Accounts.closeConnection (h : s.Accounts [fd]) : (s.closeConnection fd).Accounts [] := by
  have hperm := s.descriptors.perm_closeSocket h.held_open
  have hwatched := s.descriptors.watched_closeSocket h.held_not_watched
  have hlength : s.descriptors.opened.length = (s.descriptors.closeSocket fd).opened.length + 1 :=
    hperm.length_eq
  have hcount := h.count
  have hle : s.descriptors.opened.length ≤ 2 ^ 31 := h.length_lt
  have hnum : uintSub s.numConnections 1 = (s.descriptors.closeSocket fd).opened.length := by
    rw [uintSub_eq (by rw [uintRange]; omega) (by omega)]
    omega
  have hne : s.numConnections ≠ 0 := by omega
  unfold SocketInputPipeline.closeConnection
  rw [hnum]
  exact
    { count := rfl
      owners := by
        simp only [owned, hwatched, responses]
        exact (hperm.symm.trans h.owners).cons_inv
      bounded fd' hfd' := h.bounded fd' (List.mem_of_mem_filter hfd')
      pending e he := by
        simp only [hwatched]
        exact h.pending e he
      distinct := h.distinct
      once := by simp [Descriptors.closeSocket, h.once, h.held_open]
      noUnderflow := by simp [h.noUnderflow, hne] }

theorem Accounts.sendOutputObject (h : s.Accounts [fd]) : (s.sendOutputObject fd).Accounts [] where
  count := h.count
  owners := by
    refine h.owners.trans ?_
    have hmiddle : (fd :: ((s.descriptors.watched.map Prod.fst ++ s.commands) ++ s.responses)).Perm
        ((s.descriptors.watched.map Prod.fst ++ s.commands) ++ fd :: s.responses) :=
      List.perm_middle.symm
    simpa [owned, responses] using hmiddle
  bounded := h.bounded
  pending := h.pending
  distinct := h.distinct
  once := h.once
  noUnderflow := h.noUnderflow

theorem Accounts.replaceWatched (h : s.Accounts []) (hpending : ∀ e ∈ s.events, e.1 ≠ fd)
    (endpoint : Endpoint) : (s.replaceWatched fd endpoint).Accounts [] where
  count := h.count
  owners := by simpa [owned, responses] using h.owners
  bounded := h.bounded
  pending e he := by
    refine List.mem_map.mpr ⟨e, h.pending e he, if_neg (hpending e he)⟩
  distinct := h.distinct
  once := h.once
  noUnderflow := h.noUnderflow

theorem Accounts.disposeWatched (h : s.Accounts [])
    (hfd : fd ∈ s.descriptors.watched.map Prod.fst) (hpending : ∀ e ∈ s.events, e.1 ≠ fd) :
    (s.disposeWatched fd).Accounts [] :=
  (h.unwatch hfd hpending).closeConnection

theorem Accounts.acceptConnection (h : s.Accounts []) (hs' : s.acceptConnection fd = some s') :
    s'.Accounts [] := by
  unfold SocketInputPipeline.acceptConnection at hs'
  split_ifs at hs' with hfd
  obtain ⟨hpos, hlt, hnew⟩ := hfd
  have hfresh : s.descriptors.fresh fd = fd := if_pos ⟨hpos, hnew⟩
  have hcount : uintAdd s.numConnections 1 = (fd :: s.descriptors.opened).length := by
    have hle : s.descriptors.opened.length ≤ 2 ^ 31 := h.length_lt
    rw [uintAdd_eq (by rw [uintRange, h.count]; omega), h.count, List.length_cons]
  have hopened : { s with
      descriptors := s.descriptors.openSocket fd
      numConnections := uintAdd s.numConnections 1 }.Accounts [fd] :=
    { count := by simpa [hfresh] using hcount
      owners := by simpa [hfresh, owned, responses] using h.owners
      bounded := by simpa [hfresh, hlt] using h.bounded
      pending := h.pending
      distinct := h.distinct
      once := h.once
      noUnderflow := h.noUnderflow }
  cases hs'
  exact hopened.watch _

/-! ## Steps -/

theorem Accounts.processInputQueueObject (h : s.Accounts [fd]) (completed : Bool) (io : IoOutcome) :
    (s.processInputQueueObject fd completed io).Accounts [] := by
  unfold SocketInputPipeline.processInputQueueObject
  split
  · split_ifs
    · exact h.watch _
    · exact h.closeConnection
  · exact h.watch _
  · exact h.closeConnection

theorem Accounts.processEvent (h : s.Accounts []) (flags : EventFlags) (io : IoOutcome)
    (hfd : (fd, endpoint) ∈ s.descriptors.watched) (hpending : ∀ e ∈ s.events, e.1 ≠ fd) :
    (s.processEvent flags io (fd, endpoint)).Accounts [] := by
  have hmem : fd ∈ s.descriptors.watched.map Prod.fst := List.mem_map_of_mem hfd
  have hdispose := h.disposeWatched hmem hpending
  have hsend := (h.unwatch hmem hpending).sendOutputObject
  cases endpoint with
  | object isReader =>
    simp only [SocketInputPipeline.processEvent, processObjectEvent]
    split_ifs
    · exact hdispose
    · exact hdispose
    · cases io with
      | ok => exact hsend
      | retry => exact h
      | error => exact hdispose
    · cases io with
      | ok => exact h.replaceWatched hpending _
      | retry => exact h
      | error => exact hdispose
    · cases io with
      | ok => exact hdispose
      | retry => exact h
      | error => exact hdispose
  | connection =>
    simp only [SocketInputPipeline.processEvent, processConnectionEvent]
    split_ifs
    · exact hdispose
    · exact hdispose
    · cases io with
      | ok => exact hsend
      | retry => exact h.replaceWatched hpending _
      | error => exact hdispose
    · exact hdispose

theorem Accounts.step {action : InputAction} (h : s.Accounts []) (hs' : s.step action = some s') :
    s'.Accounts [] := by
  cases action with
  | socket flags isActive accepted =>
    simp only [SocketInputPipeline.step, processSocketEvent] at hs'
    split_ifs at hs'
    · exact Option.some.inj hs' ▸ h
    · clear * - h hs'
      induction accepted generalizing s with
      | nil => exact Option.some.inj hs' ▸ h
      | cons fd accepted ih =>
        rw [List.foldlM_cons] at hs'
        obtain ⟨s₁, hs₁, hrest⟩ := Option.bind_eq_some_iff.mp hs'
        exact ih (h.acceptConnection hs₁) hrest
    · exact Option.some.inj hs' ▸ h
  | waitForEvents batch =>
    simp only [SocketInputPipeline.step] at hs'
    split_ifs at hs' with hbatch
    cases hs'
    obtain ⟨-, hnodup, hsubset⟩ := hbatch
    refine { h with pending := hsubset, distinct := hnodup.map_on fun e he e' he' hfd => ?_ }
    exact List.inj_on_of_nodup_map s.descriptors.distinct (hsubset he) (hsubset he') hfd
  | event flags io =>
    simp only [SocketInputPipeline.step] at hs'
    split at hs'
    · rename_i event events hevents
      cases hs'
      have hdistinct := h.distinct
      rw [hevents, List.map_cons, List.nodup_cons] at hdistinct
      have hrest : { s with events := events }.Accounts [] :=
        { h with
          pending := fun e he => h.pending e (hevents ▸ List.mem_cons_of_mem _ he)
          distinct := hdistinct.2 }
      refine hrest.processEvent flags io (h.pending event (hevents ▸ List.mem_cons_self)) ?_
      intro e he heq
      exact hdistinct.1 (heq ▸ List.mem_map_of_mem he)
    · simp at hs'
  | message io =>
    simp only [SocketInputPipeline.step] at hs'
    split at hs'
    · rename_i message inputQueue hqueue
      cases hs'
      cases message with
      | persistentConnections on =>
        have howners := h.owners
        simp only [owned, responses, hqueue, filterMap_persistentConnections] at howners
        exact { h with owners := howners }
      | response fd completed =>
        have hheld : { s with inputQueue := inputQueue }.Accounts [fd] :=
          { h with
            owners := by
              refine h.owners.trans ?_
              simp only [owned, responses, hqueue, filterMap_response, List.nil_append,
                ← List.append_assoc _ s.commands]
              exact List.perm_middle }
        exact hheld.processInputQueueObject completed io
    · simp at hs'
  | switch persistent =>
    cases hs'
    have howners := h.owners
    refine { h with owners := ?_ }
    simpa [owned, responses, filterMap_persistentConnections] using howners
  | respond fd completed =>
    simp only [SocketInputPipeline.step] at hs'
    split_ifs at hs' with hfd
    cases hs'
    refine { h with owners := h.owners.trans ?_ }
    have hmoved : (s.commands ++ s.responses).Perm
        (s.commands.erase fd ++ (s.responses ++ [fd])) := by
      refine ((List.perm_cons_erase hfd).append_right s.responses).trans ?_
      rw [← List.append_assoc]
      exact (List.perm_append_singleton fd _).symm
    simpa [owned, responses, filterMap_response] using hmoved.append_left _

theorem create_accounts (persistent : Bool) : (create persistent).Accounts [] where
  count := rfl
  owners := .nil
  bounded := by simp [create, Descriptors.empty]
  pending := by simp [create]
  distinct := .nil
  once := rfl
  noUnderflow := rfl

theorem Accounts.accounted (h : s.Accounts []) : s.Accounted := by
  refine ⟨h.count, s.descriptors.nodup, h.owners.trans ?_, h.once, h.noUnderflow⟩
  have hwatched : (s.watchedObjects ++ s.watchedConnections).Perm
      (s.descriptors.watched.map Prod.fst) := by
    rw [watchedObjects, watchedConnections, ← List.map_append]
    exact (List.filter_append_perm _ _).map _
  rw [List.nil_append, owned, ← List.append_assoc]
  exact (hwatched.symm.append_right _).append_right _

/-- In every reachable state the counter is the number of open connections, and each of these
belongs to exactly one object. -/
theorem connections_accounted {persistent : Bool} {actions : List InputAction}
    (h : Reaches step (fun _ _ => True) (create persistent) actions s) : s.Accounted := by
  have haccounts : s.Accounts [] :=
    h.invariant (create_accounts persistent) fun _ _ _ hs _ hstep => hs.step hstep
  exact haccounts.accounted

theorem connections_accounted_of_two :
    ∃ s, Reaches step (fun _ _ => True) (create true)
        [.socket ⟨true, false, false⟩ true [5, 6],
          .waitForEvents [(6, .object true), (5, .object true)],
          .event ⟨true, false, false⟩ .ok, .event ⟨true, true, false⟩ .ok,
          .respond 6 true, .message .ok, .respond 5 false, .switch false, .message .retry,
          .message .ok, .waitForEvents [(5, .object false)], .event ⟨false, false, false⟩ .ok] s ∧
      s.numConnections = 1 ∧ s.watchedConnections = [6] ∧ s.Accounted :=
  ⟨_, Reaches.get_foldlM rfl, rfl, rfl, connections_accounted (Reaches.get_foldlM rfl)⟩

end SocketInputPipeline

end CyberCache
