import CyberCache.Wire.Progress

/-!
# Writing messages incrementally

`CommandWriter::write` and `ResponseWriter::write` send the header, the payload and the marker of
the message in the shared buffers, part by part, and return to be called again when the device does
not take anything. `unsent` is what is still to be sent; every step takes its bytes off the front of
it.
-/

namespace CyberCache

open ByteMemory

/-- `send` of `count` bytes: the result, and how many of them the device took. -/
def Delivery.send (d : Delivery) (count : Nat) : IoResult × Nat :=
  match d with
  | .retry => (.retry, 0)
  | .transfer n => (.ok, min (n + 1) count)
  | .eof => (.eof, 0)
  | .error => (.error, 0)

namespace ReaderWriter

def writeCompleted (w : ReaderWriter) : ReaderWriter :=
  { w with state := .writeDone, pos := uintMax, remains := 0 }

def outgoing (w : ReaderWriter) (request : Request) : List UInt8 :=
  match request.area with
  | .header => w.sb.header.slice request.offset request.count
  | .payload => w.sb.payload.bytes.slice request.offset request.count
  | .marker => [c3IntegrityMarker]

/-- The rest of a pass, after the device took `nwritten` bytes. -/
def sent (w : ReaderWriter) (nwritten : Nat) : Verdict :=
  let partly : ReaderWriter :=
    { w with pos := uintAdd w.pos nwritten, remains := uintSub w.remains nwritten }
  match w.state with
  | .writeHeader =>
    if nwritten = w.remains then
      let size := w.sb.payload.size
      if 0 < size then .goOn { w with state := .writePayload, pos := 0, remains := size }
      else .goOn { w with state := .writeMarkerByte, remains := size }
    else .goOn partly
  | .writePayload =>
    if nwritten = w.remains then .goOn { w with state := .writeMarkerByte } else .goOn partly
  | .writeMarkerByte => .leave w.writeCompleted .ok
  -- no other state gets here: `writePass` leaves the loop in them without a device call
  | _ => .leave w.setErrorState .error

end ReaderWriter

structure WriteCall where
  writer : ReaderWriter
  result : IoResult
  ntotal : Nat
  output : List UInt8
  schedule : List Delivery

namespace MessageFormat

def writePass (f : MessageFormat) (w : ReaderWriter) : Pass :=
  match w.state with
  | .writeReady =>
    let size := f.headerSize w.sb.header
    .ask { w with state := .writeHeader, pos := 0, remains := size } ⟨.header, 0, size⟩
  | .writeHeader => .ask w ⟨.header, w.pos, w.remains⟩
  | .writePayload => .ask w ⟨.payload, w.pos, w.remains⟩
  | .writeMarkerByte =>
    if markerIsPresent w.descriptor then .ask w ⟨.marker, 0, 1⟩ else .leave w.writeCompleted .ok
  | .error =>
    if f.writeExpectsErrorState then .leave w .error else .leave w.setErrorState .error
  | _ => .leave w.setErrorState .error

def writeLoop (f : MessageFormat) : List Delivery → ReaderWriter → Nat → List UInt8 → WriteCall
  | schedule, w, ntotal, output =>
    match f.writePass w with
    | .leave w result => ⟨w, result, ntotal, output, schedule⟩
    | .ask w request =>
      match schedule with
      | [] => ⟨w, .retry, ntotal, output, []⟩
      | delivery :: schedule =>
        match delivery.send request.count with
        | (.ok, nwritten) =>
          let output := output ++ (w.outgoing request).take nwritten
          match w.sent nwritten with
          | .goOn w => f.writeLoop schedule w (ntotal + nwritten) output
          | .leave w result => ⟨w, result, ntotal + nwritten, output, schedule⟩
        | (.retry, _) => ⟨w, .retry, ntotal, output, schedule⟩
        | (result, _) => ⟨{ w with state := .error }, result, ntotal, output, schedule⟩

section Equations

variable {f : MessageFormat} {w w' : ReaderWriter} {request : Request} {delivery : Delivery}
  {schedule : List Delivery} {output : List UInt8} {ntotal n : Nat}

theorem writeLoop_leave {result : IoResult} (h : f.writePass w = .leave w' result) :
    f.writeLoop schedule w ntotal output = ⟨w', result, ntotal, output, schedule⟩ := by
  unfold writeLoop
  simp only [h]

theorem writeLoop_nil (h : f.writePass w = .ask w' request) :
    f.writeLoop [] w ntotal output = ⟨w', .retry, ntotal, output, []⟩ := by
  unfold writeLoop
  simp only [h]

theorem writeLoop_retry (h : f.writePass w = .ask w' request) :
    f.writeLoop (.retry :: schedule) w ntotal output = ⟨w', .retry, ntotal, output, schedule⟩ := by
  unfold writeLoop
  simp only [h, Delivery.send]

theorem writeLoop_goOn {w'' : ReaderWriter} (h : f.writePass w = .ask w' request)
    (hsent : w'.sent (min (n + 1) request.count) = .goOn w'') :
    f.writeLoop (.transfer n :: schedule) w ntotal output =
      f.writeLoop schedule w'' (ntotal + min (n + 1) request.count)
        (output ++ (w'.outgoing request).take (min (n + 1) request.count)) := by
  conv_lhs => unfold writeLoop
  simp only [h, Delivery.send, hsent]

theorem writeLoop_return {w'' : ReaderWriter} {result : IoResult}
    (h : f.writePass w = .ask w' request)
    (hsent : w'.sent (min (n + 1) request.count) = .leave w'' result) :
    f.writeLoop (.transfer n :: schedule) w ntotal output =
      ⟨w'', result, ntotal + min (n + 1) request.count,
        output ++ (w'.outgoing request).take (min (n + 1) request.count), schedule⟩ := by
  unfold writeLoop
  simp only [h, Delivery.send, hsent]

end Equations

/-- One call of `write`; `output` is what it put on the device. -/
def write (f : MessageFormat) (w : ReaderWriter) (schedule : List Delivery) : WriteCall :=
  f.writeLoop schedule w 0 []

/-- At most `n` calls of `write`, as long as they return to be called again. -/
def writeCalls (f : MessageFormat) : Nat → ReaderWriter → List Delivery → List WriteCall
  | 0, _, _ => []
  | n + 1, w, schedule =>
    let call := f.write w schedule
    call :: if call.result = .retry then f.writeCalls n call.writer call.schedule else []

end MessageFormat

def CommandWriter.write : ReaderWriter → List Delivery → WriteCall :=
  commandFormat.write

def ResponseWriter.write : ReaderWriter → List Delivery → WriteCall :=
  responseFormat.write

/-- `io_rewind()`: a writer starts over with the message that it holds. -/
def CommandWriter.ioRewind (w : ReaderWriter) : ReaderWriter :=
  { w with state := .writeReady }

/-! ## What is still to be sent -/

def MessageFormat.unsent (f : MessageFormat) (w : ReaderWriter) : List UInt8 :=
  match w.state with
  | .writeReady => w.sb.header.slice 0 (f.headerSize w.sb.header) ++
      (w.sb.payloadBytes ++ closing w.descriptor)
  | .writeHeader => w.sb.header.slice w.pos w.remains ++ (w.sb.payloadBytes ++ closing w.descriptor)
  | .writePayload => w.sb.payload.bytes.slice w.pos w.remains ++ closing w.descriptor
  | .writeMarkerByte => closing w.descriptor
  | _ => []

/-- A writer in the middle of its message, with counters that are 32-bit numbers. -/
structure Sending (f : MessageFormat) (w : ReaderWriter) : Prop where
  state : w.state = .writeReady ∧ 0 < f.headerSize w.sb.header ∨
    (w.state = .writeHeader ∨ w.state = .writePayload) ∧ 0 < w.remains ∨
    w.state = .writeMarkerByte
  counters : w.state = .writeHeader ∨ w.state = .writePayload → w.pos + w.remains < uintRange
  headerSize : f.headerSize w.sb.header < uintRange
  payloadSize : w.sb.payload.size < uintRange

/-- A call that put `rest` on the device and is at the end of the message. -/
structure SentAll (rest : List UInt8) (ntotal : Nat) (output : List UInt8) (call : WriteCall) :
    Prop where
  result : call.result = .ok
  state : call.writer.state = .writeDone
  output : call.output = output ++ rest
  ntotal : call.ntotal = ntotal + rest.length

/-- A call that put `front` on the device, a part of `rest`, and returned to be called again. -/
structure SentPart (f : MessageFormat) (rest : List UInt8) (schedule : List Delivery) (ntotal : Nat)
    (output : List UInt8) (call : WriteCall) (front : List UInt8) : Prop where
  result : call.result = .retry
  sending : Sending f call.writer
  more : f.unsent call.writer ≠ []
  split : front ++ f.unsent call.writer = rest
  output : call.output = output ++ front
  ntotal : call.ntotal = ntotal + front.length
  suffix : call.schedule <:+ schedule
  shorter : schedule ≠ [] → call.schedule.length < schedule.length
  transfers : schedule.countP Delivery.isTransfer ≤
    call.schedule.countP Delivery.isTransfer + front.length

namespace Sending

variable {f : MessageFormat} {w w' : ReaderWriter} {request : Request} {result : IoResult}

variable {n : Nat} {schedule : List Delivery}

theorem ask (h : Sending f w) (hask : f.writePass w = .ask w' request) :
    Sending f w' ∧ f.writePass w' = .ask w' request ∧ w'.state ≠ .writeReady ∧
      f.unsent w' = f.unsent w ∧ 0 < request.count ∧
        (w'.outgoing request).length = request.count ∧
      w'.outgoing request ++ (f.unsent w').drop request.count = f.unsent w' := by
  have hsize := h.headerSize
  have hpayload := h.payloadSize
  obtain ⟨hstate, hpos⟩ | ⟨hstate, hpos⟩ | hstate := h.state
  · simp only [MessageFormat.writePass, hstate, Pass.ask.injEq] at hask
    obtain ⟨rfl, rfl⟩ := hask
    refine ⟨⟨by simp [hpos], by simpa using hsize, hsize, hpayload⟩, rfl, by simp, ?_, hpos, ?_, ?_⟩
    · simp [MessageFormat.unsent, hstate, ReaderWriter.descriptor]
    · simp [ReaderWriter.outgoing]
    · simp [MessageFormat.unsent, ReaderWriter.outgoing]
  · rcases hstate with hstate | hstate
    all_goals
      simp only [MessageFormat.writePass, hstate, Pass.ask.injEq] at hask
      obtain ⟨rfl, rfl⟩ := hask
      refine ⟨h, by simp [MessageFormat.writePass, hstate], by simp [hstate], rfl, hpos, ?_, ?_⟩
      · simp [ReaderWriter.outgoing]
      · simp [MessageFormat.unsent, ReaderWriter.outgoing, hstate]
  · simp only [MessageFormat.writePass, hstate] at hask
    split_ifs at hask with hmarker
    simp only [Pass.ask.injEq] at hask
    obtain ⟨rfl, rfl⟩ := hask
    refine ⟨h, by simp [MessageFormat.writePass, hstate, hmarker], by simp [hstate], rfl, by simp,
      ?_, ?_⟩
    · simp [ReaderWriter.outgoing]
    · simp [MessageFormat.unsent, ReaderWriter.outgoing, hstate, closing, hmarker]

theorem unsent_ne (h : Sending f w) (hask : f.writePass w = .ask w' request) :
    f.unsent w' ≠ [] := by
  obtain ⟨-, -, -, -, hcount, hlength, hsplit⟩ := h.ask hask
  intro hnil
  rw [hnil, List.append_eq_nil_iff] at hsplit
  rw [hsplit.1, List.length_nil] at hlength
  omega

/-- A writer in the middle of its message leaves the loop without a device call only at its end. -/
theorem leave (h : Sending f w) (hleave : f.writePass w = .leave w' result) :
    result = .ok ∧ f.unsent w = [] ∧ w'.state = .writeDone := by
  obtain ⟨hstate, -⟩ | ⟨hstate | hstate, -⟩ | hstate := h.state <;>
    simp only [MessageFormat.writePass, hstate] at hleave
  · cases hleave
  · cases hleave
  · cases hleave
  · split_ifs at hleave with hmarker
    simp only [Pass.leave.injEq] at hleave
    obtain ⟨rfl, rfl⟩ := hleave
    simp [MessageFormat.unsent, hstate, closing, hmarker, ReaderWriter.writeCompleted]

theorem sent_part (h : Sending f w) (hstate : w.state = .writeHeader ∨ w.state = .writePayload)
    (hlt : n < w.remains) :
    ∃ w'', w.sent n = .goOn w'' ∧ Sending f w'' ∧ f.unsent w'' = (f.unsent w).drop n := by
  have hcounters := h.counters hstate
  have hadd : uintAdd w.pos n = w.pos + n := uintAdd_eq (by omega)
  have hsub : uintSub w.remains n = w.remains - n := uintSub_eq (by omega) (by omega)
  refine ⟨{ w with pos := w.pos + n, remains := w.remains - n }, ?_,
    ⟨.inr (.inl ⟨hstate, by simp only; omega⟩), fun _ => by simp only; omega, h.headerSize,
      h.payloadSize⟩, ?_⟩
  · rcases hstate with hstate | hstate <;>
      simp [ReaderWriter.sent, hstate, Nat.ne_of_lt hlt, hadd, hsub]
  · rcases hstate with hstate | hstate
    all_goals
      simp only [MessageFormat.unsent, hstate]
      rw [List.drop_append_of_le_length (by simpa using Nat.le_of_lt hlt), drop_slice]
      rfl

/-- Whatever part of it the device takes, the writer goes on with the rest. -/
theorem sent (h : Sending f w) (hask : f.writePass w = .ask w request)
    (hready : w.state ≠ .writeReady) (hn : 0 < n) (hle : n ≤ request.count) :
    (∃ w'', w.sent n = .goOn w'' ∧ Sending f w'' ∧ f.unsent w'' = (f.unsent w).drop n) ∨
    ∃ w'', w.sent n = .leave w'' .ok ∧ (f.unsent w).drop n = [] ∧ w''.state = .writeDone := by
  have hsize := h.headerSize
  have hpayload := h.payloadSize
  obtain ⟨hstate, -⟩ | ⟨hstate | hstate, hpos⟩ | hstate := h.state
  · exact absurd hstate hready
  · simp only [MessageFormat.writePass, hstate, Pass.ask.injEq, true_and] at hask
    subst hask
    dsimp only at hle
    left
    by_cases hall : n = w.remains
    · by_cases hsome : 0 < w.sb.payload.size
      · refine ⟨{ w with state := .writePayload, pos := 0, remains := w.sb.payload.size },
          by simp [ReaderWriter.sent, hstate, hall, hsome],
          ⟨by simp [hsome], by simpa using hpayload, hsize, hpayload⟩, ?_⟩
        simp [MessageFormat.unsent, hstate, hall, SharedBuffers.payloadBytes,
          ReaderWriter.descriptor]
      · have hnone : w.sb.payload.size = 0 := by omega
        refine ⟨{ w with state := .writeMarkerByte, remains := w.sb.payload.size },
          by simp [ReaderWriter.sent, hstate, hall, hsome],
          ⟨by simp, by simp, hsize, hpayload⟩, ?_⟩
        simp [MessageFormat.unsent, hstate, hall, SharedBuffers.payloadBytes, hnone,
          ReaderWriter.descriptor, ByteMemory.slice]
    · exact h.sent_part (.inl hstate) (by omega)
  · simp only [MessageFormat.writePass, hstate, Pass.ask.injEq, true_and] at hask
    subst hask
    dsimp only at hle
    left
    by_cases hall : n = w.remains
    · refine ⟨{ w with state := .writeMarkerByte }, by simp [ReaderWriter.sent, hstate, hall],
        ⟨by simp, by simp, hsize, hpayload⟩, ?_⟩
      simp [MessageFormat.unsent, hstate, hall, ReaderWriter.descriptor]
    · exact h.sent_part (.inr hstate) (by omega)
  · refine .inr ⟨w.writeCompleted, by simp [ReaderWriter.sent, hstate], ?_, rfl⟩
    simp only [MessageFormat.unsent, hstate, closing]
    split_ifs
    · exact List.drop_eq_nil_of_le hn
    · simp

open MessageFormat

theorem writeLoop (h : Sending f w) {ntotal : Nat} {output : List UInt8}
    (hschedule : ∀ d ∈ schedule, d.Delivers) :
    SentAll (f.unsent w) ntotal output (f.writeLoop schedule w ntotal output) ∨
    ∃ front, SentPart f (f.unsent w) schedule ntotal output
      (f.writeLoop schedule w ntotal output) front := by
  induction schedule generalizing w ntotal output with
  | nil =>
    cases hpass : f.writePass w with
    | leave w' result =>
      obtain ⟨rfl, hrest, hdone⟩ := h.leave hpass
      rw [writeLoop_leave hpass, hrest]
      exact .inl ⟨rfl, hdone, by simp, by simp⟩
    | ask w' request =>
      obtain ⟨h', -, -, hunsent, -⟩ := h.ask hpass
      have hmore := h.unsent_ne hpass
      rw [writeLoop_nil hpass]
      exact .inr ⟨[], rfl, h', hmore, by simpa using hunsent, by simp, by simp, List.suffix_rfl,
        absurd rfl, by simp⟩
  | cons delivery schedule ih =>
    cases hpass : f.writePass w with
    | leave w' result =>
      obtain ⟨rfl, hrest, hdone⟩ := h.leave hpass
      rw [writeLoop_leave hpass, hrest]
      exact .inl ⟨rfl, hdone, by simp, by simp⟩
    | ask w' request =>
      obtain ⟨h', hpass', hready, hunsent, hcount, hlength, hsplit⟩ := h.ask hpass
      have hmore := h.unsent_ne hpass
      cases delivery with
      | eof | error => simp [Delivery.Delivers, Delivery.isTransfer] at hschedule
      | retry =>
        rw [writeLoop_retry hpass]
        exact .inr ⟨[], rfl, h', hmore, by simpa using hunsent, by simp, by simp,
          List.suffix_cons _ _, by simp, by simp [Delivery.isTransfer]⟩
      | transfer n =>
        obtain ⟨k, hk⟩ : ∃ k, k = min (n + 1) request.count := ⟨_, rfl⟩
        have hfront : (w'.outgoing request).take k ++ (f.unsent w').drop k = f.unsent w := by
          rw [← hunsent]
          conv_rhs => rw [← List.take_append_drop k (f.unsent w')]
          congr 1
          rw [← hsplit, List.take_append_of_le_length (by omega)]
        have hfrontLength : ((w'.outgoing request).take k).length = k := by
          rw [List.length_take]
          omega
        have hschedule' : ∀ d ∈ schedule, d.Delivers := fun d hd =>
          hschedule d (List.mem_cons_of_mem _ hd)
        obtain ⟨w'', hsent, hnext, hrest⟩ | ⟨w'', hsent, hrest, hdone⟩ :=
          h'.sent hpass' hready (n := k) (by omega) (by omega)
        · rw [writeLoop_goOn hpass (hk ▸ hsent), ← hk]
          obtain hend | ⟨front, hend⟩ := ih hnext hschedule'
          · refine .inl ⟨hend.result, hend.state, ?_, ?_⟩
            · rw [hend.output, hrest, List.append_assoc, hfront]
            · rw [hend.ntotal, hrest, ← hfront, List.length_append, hfrontLength, Nat.add_assoc]
          · refine .inr ⟨(w'.outgoing request).take k ++ front, hend.result, hend.sending,
              hend.more, ?_, ?_, ?_, hend.suffix.trans (List.suffix_cons _ _), fun _ => ?_, ?_⟩
            · rw [List.append_assoc, hend.split, hrest, hfront]
            · rw [hend.output, List.append_assoc]
            · rw [hend.ntotal, List.length_append, hfrontLength, Nat.add_assoc]
            · have := hend.suffix.length_le
              simp only [List.length_cons]
              omega
            · have := hend.transfers
              simp only [List.countP_cons, Delivery.isTransfer, if_true, List.length_append,
                hfrontLength]
              omega
        · rw [writeLoop_return hpass (hk ▸ hsent), ← hk]
          rw [hrest, List.append_nil] at hfront
          exact .inl ⟨rfl, hdone, by rw [hfront], by rw [← hfront, hfrontLength]⟩

theorem write (h : Sending f w) (hschedule : ∀ d ∈ schedule, d.Delivers) :
    SentAll (f.unsent w) 0 [] (f.write w schedule) ∨
    ∃ front, SentPart f (f.unsent w) schedule 0 [] (f.write w schedule) front :=
  h.writeLoop hschedule

/-- A device that goes on taking bytes gets the rest of the message, each byte once and in order. -/
theorem writeCalls_completed (h : Sending f w)
    (hschedule : ∀ d ∈ schedule, d.Delivers)
    (henough : (f.unsent w).length ≤ schedule.countP Delivery.isTransfer)
    (hn : schedule.length < n) :
    ∃ calls last, f.writeCalls n w schedule = calls ++ [last] ∧
      (∀ call ∈ calls, call.result = .retry) ∧ last.result = .ok ∧
      last.writer.state = .writeDone ∧
      (calls ++ [last]).flatMap WriteCall.output = f.unsent w ∧
      ((calls ++ [last]).map WriteCall.ntotal).sum = (f.unsent w).length := by
  induction n generalizing w schedule with
  | zero => omega
  | succ n ih =>
    simp only [writeCalls]
    obtain hend | ⟨front, hend⟩ := h.write hschedule
    · refine ⟨[], f.write w schedule, ?_, by simp, hend.result, hend.state, ?_, ?_⟩
      · rw [hend.result, if_neg (by simp), List.nil_append]
      · simp [hend.output]
      · simp [hend.ntotal]
    · have htransfers := hend.transfers
      have hlength := congrArg List.length hend.split
      have hmore : 0 < (f.unsent (f.write w schedule).writer).length :=
        List.length_pos_iff.mpr hend.more
      rw [List.length_append] at hlength
      have hne : schedule ≠ [] := by
        rintro rfl
        have hnil : (f.write w []).schedule = [] := List.suffix_nil.mp hend.suffix
        simp only [hnil, List.countP_nil] at htransfers
        simp only [List.countP_nil] at henough
        omega
      have hshorter := hend.shorter hne
      obtain ⟨calls, last, hcalls, hretry, hlast, hstate, houtput, hsum⟩ :=
        ih hend.sending (fun d hd => hschedule d (hend.suffix.subset hd)) (by omega) (by omega)
      refine ⟨f.write w schedule :: calls, last, ?_, ?_, hlast, hstate, ?_, ?_⟩
      · rw [hend.result, if_pos rfl, List.cons_append, ← hcalls]
      · simp only [List.mem_cons, forall_eq_or_imp]
        exact ⟨hend.result, hretry⟩
      · rw [List.cons_append, List.flatMap_cons, houtput, hend.output, List.nil_append, hend.split]
      · have hntotal := hend.ntotal
        simp only [List.cons_append, List.map_cons, List.sum_cons, hsum]
        omega

/-- Whatever the device takes, it has been given the front of the message and nothing else. -/
theorem writeCalls_front (h : Sending f w) (hschedule : ∀ d ∈ schedule, d.Delivers) :
    (f.writeCalls n w schedule).flatMap WriteCall.output <+: f.unsent w := by
  induction n generalizing w schedule with
  | zero => simp [writeCalls]
  | succ n ih =>
    simp only [writeCalls, List.flatMap_cons]
    obtain hend | ⟨front, hend⟩ := h.write hschedule
    · simp [hend.result, hend.output]
    · rw [hend.result, if_pos rfl, hend.output, List.nil_append, ← hend.split]
      exact (List.prefix_append_right_inj _).mpr
        (ih hend.sending fun d hd => hschedule d (hend.suffix.subset hd))

end Sending

end CyberCache
