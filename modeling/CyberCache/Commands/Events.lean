import CyberCache.Commands.StoreCommands

/-!
# Events of a computation

What is recorded while a command is processed is only ever appended. `Emits x p` says that what `x`
records, in any state of the stores, satisfies `p` together with the result of `x`.
-/

namespace CyberCache

namespace Processing

variable {α β : Type}

def Emits (x : Processing α) (p : α → List ServerEvent → Prop) : Prop :=
  ∀ s, ∃ new, (x.run s).2.events = s.events ++ new ∧ p (x.run s).1 new

variable {x : Processing α} {p q : α → List ServerEvent → Prop}

theorem Emits.mono (h : x.Emits p) (himp : ∀ a new, p a new → q a new) : x.Emits q := by
  intro s
  obtain ⟨new, hnew, hp⟩ := h s
  exact ⟨new, hnew, himp _ _ hp⟩

theorem Emits.bind {f : α → Processing β} {q : β → List ServerEvent → Prop} (h : x.Emits p)
    (hf : ∀ a new, p a new → (f a).Emits fun b new' => q b (new ++ new')) :
    (x >>= f).Emits q := by
  intro s
  obtain ⟨new, hnew, hp⟩ := h s
  obtain ⟨new', hnew', hq⟩ := hf _ new hp (x.run s).2
  exact ⟨new ++ new', by rw [run_bind, hnew', hnew, List.append_assoc], hq⟩

theorem emits_pure {a : α} (h : p a []) : (pure a : Processing α).Emits p :=
  fun s => ⟨[], (List.append_nil s.events).symm, h⟩

theorem Emits.map {f : α → β} {q : β → List ServerEvent → Prop}
    (h : x.Emits fun a new => q (f a) new) : (f <$> x).Emits q := by
  intro s
  obtain ⟨new, hnew, hp⟩ := h s
  exact ⟨new, hnew, hp⟩

theorem emits_record {event : ServerEvent} {p : Unit → List ServerEvent → Prop}
    (h : p () [event]) : (record event).Emits p :=
  fun _ => ⟨[event], rfl, h⟩

def Silent (x : Processing α) : Prop := ∀ s, (x.run s).2.events = s.events

theorem Silent.emits (h : x.Silent) (hp : ∀ a, p a []) : x.Emits p :=
  fun s => ⟨[], by rw [h s, List.append_nil], hp _⟩

theorem silent_get : (get : Processing CacheServer).Silent := fun _ => rfl

theorem silent_findAlive (domain : Domain) (name : List UInt8) (other : Interference) :
    (findAlive domain name other).Silent := fun _ => rfl

theorem silent_change (domain : Domain) (ref : Nat) (f : CacheObject → CacheObject) :
    (change domain ref f).Silent := fun _ => rfl

theorem silent_storePayload (domain : Domain) (name : List UInt8) (payload : StoredPayload)
    (other : Interference) : (storePayload domain name payload other).Silent := by
  intro s
  rw [storePayload, run_bind]
  cases ((findAlive domain name other).run s).1 <;> rfl

theorem emits_postOkResponse {cr : CommandReader} {p : Bool → List ServerEvent → Prop}
    (h : p true (if cr.network then [.respond .ok] else [])) : (postOkResponse cr).Emits p := by
  intro s
  refine ⟨if cr.network then [.respond .ok] else [], ?_, ?_⟩
  · rw [postOkResponse]
    cases cr.network with
    | true => rfl
    | false => exact (List.append_nil _).symm
  · rw [postOkResponse]
    cases hnetwork : cr.network <;> rw [hnetwork] at h <;> exact h

/-! ## Events of one kind -/

/-- All that is recorded satisfies `p`, and the result satisfies `q`. -/
def Only (x : Processing α) (p : ServerEvent → Prop) (q : α → Prop) : Prop :=
  x.Emits fun a new => q a ∧ ∀ e ∈ new, p e

section Only

variable {p : ServerEvent → Prop} {q : α → Prop}

theorem Only.bind {f : α → Processing β} {q' : β → Prop} (h : x.Only p q)
    (hf : ∀ a, q a → (f a).Only p q') : (x >>= f).Only p q' := by
  refine Emits.bind h fun a new hnew => (hf a hnew.1).mono fun b new' hnew' => ⟨hnew'.1, ?_⟩
  intro e he
  obtain he | he := List.mem_append.mp he
  · exact hnew.2 e he
  · exact hnew'.2 e he

theorem Only.imp {q' : α → Prop} (h : x.Only p q) (himp : ∀ a, q a → q' a) : x.Only p q' :=
  h.mono fun a _ hnew => ⟨himp a hnew.1, hnew.2⟩

theorem only_pure {a : α} (h : q a) : (pure a : Processing α).Only p q :=
  emits_pure ⟨h, List.forall_mem_nil _⟩

theorem Silent.only (h : x.Silent) : x.Only p fun _ => True :=
  h.emits fun _ => ⟨trivial, List.forall_mem_nil _⟩

theorem Only.map {f : α → β} {q' : β → Prop} (h : x.Only p fun a => q' (f a)) :
    (f <$> x).Only p q' :=
  Emits.map h

theorem only_record {event : ServerEvent} (h : p event) : (record event).Only p fun _ => True :=
  emits_record ⟨trivial, List.forall_mem_singleton.mpr h⟩

theorem only_notify {domain : Domain} {notice : OptimizerNotice} (h : p (.notify domain notice)) :
    (notify domain notice).Only p fun _ => True :=
  only_record h

theorem only_postOkResponse (cr : CommandReader) (h : p (.respond .ok)) :
    (postOkResponse cr).Only p fun result => result = true := by
  refine emits_postOkResponse ⟨rfl, ?_⟩
  cases cr.network with
  | true => exact List.forall_mem_singleton.mpr h
  | false => exact List.forall_mem_nil _

end Only

end Processing

end CyberCache
