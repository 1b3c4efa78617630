import CyberCache.Wire.RoundTrip

/-!
# Commands in files

A call of `read` or `write` on a regular file moves at least one byte unless the file has ended, and
never asks to be called again later. `CommandReader::read` and `CommandWriter::write` go on until
they are told to retry, so one call of them is enough for a whole command, however the file hands it
over.
-/

namespace CyberCache

open ByteMemory

/-- What `n` calls on a regular file do: the `i`-th of them moves `sizes i + 1` bytes, or as many as
it was asked to move if that is less. -/
def fileCalls (sizes : Nat → Nat) (n : Nat) : List Delivery :=
  (List.range n).map fun i => .transfer (sizes i)

theorem isTransfer_of_mem_fileCalls {sizes : Nat → Nat} {n : Nat} :
    ∀ d ∈ fileCalls sizes n, d.isTransfer := by
  intro d hd
  obtain ⟨i, -, rfl⟩ := List.mem_map.mp hd
  rfl

theorem countP_fileCalls (sizes : Nat → Nat) (n : Nat) :
    (fileCalls sizes n).countP Delivery.isTransfer = n := by
  rw [List.countP_eq_length.mpr isTransfer_of_mem_fileCalls, fileCalls, List.length_map,
    List.length_range]

/-- One byte a call is the least that a file hands over, so there is a call for each byte that is
left. Where the file ends too early, `FileReader` reports an end of file and not that it wants to be
called again; `load_binlog()` only asks whether the result is `IO_RESULT_OK`. -/
def FileCommandReader.read (sizes : Nat → Nat) (r : ReaderWriter) (incoming : List UInt8) :
    ReadCall :=
  CommandReader.read r ⟨incoming, fileCalls sizes incoming.length⟩

def FileCommandWriter.write (sizes : Nat → Nat) (w : ReaderWriter) : WriteCall :=
  CommandWriter.write w (fileCalls sizes (commandFormat.unsent w).length)

/-! ## One call is enough -/

theorem accept_ne_retry (r r' : ReaderWriter) (bytes : List UInt8) :
    commandFormat.accept r bytes ≠ .leave r' .retry := by
  intro hretry
  obtain ⟨r'', haccept, -⟩ | ⟨r'', -, hstate, -⟩ | ⟨haccept, -⟩ | ⟨r'', haccept, -⟩ :=
    commandFormat.accept_cases r bytes
  · simp [hretry] at haccept
  · simp only [MessageFormat.accept, hstate, MessageFormat.acceptPayloadBytes] at hretry
    split_ifs at hretry with hfull hpartial
    simp [commandFormat] at hpartial
  · simp [hretry] at haccept
  · simp [hretry] at haccept

theorem incoming_eq_nil_of_recv {d : Delivery} {incoming bytes : List UInt8} {count : Nat}
    (hd : d.isTransfer) (hrecv : d.recv incoming count = (.retry, bytes)) : incoming = [] := by
  cases d with
  | transfer n =>
    simp only [Delivery.recv] at hrecv
    split_ifs at hrecv with hcount hempty
    · cases hrecv
    · exact hempty
    · cases hrecv
  | _ => simp [Delivery.isTransfer] at hd

theorem exhausted_of_retry {schedule : List Delivery} {incoming : List UInt8} {r : ReaderWriter}
    {ntotal : Nat} {asked : List (ReaderWriter × Request)}
    (hschedule : ∀ d ∈ schedule, d.isTransfer)
    (hretry : (commandFormat.readLoop schedule incoming r ntotal asked).outcome = .returns .retry) :
    (commandFormat.readLoop schedule incoming r ntotal asked).device.schedule = [] ∨
    (commandFormat.readLoop schedule incoming r ntotal asked).device.incoming = [] := by
  induction schedule generalizing incoming r ntotal asked with
  | nil =>
    left
    cases hpass : r.pass with
    | leave r' result => rw [MessageFormat.readLoop_leave hpass]
    | ask r' request => rw [MessageFormat.readLoop_nil hpass]
  | cons delivery schedule ih =>
    have htransfer := hschedule delivery List.mem_cons_self
    have hschedule' : ∀ d ∈ schedule, d.isTransfer := fun d hd =>
      hschedule d (List.mem_cons_of_mem _ hd)
    cases hpass : r.pass with
    | leave r' result =>
      rw [MessageFormat.readLoop_leave hpass] at hretry
      obtain ⟨-, -, -, rfl⟩ | ⟨-, -, rfl⟩ := r.pass_eq_leave hpass <;> simp at hretry
    | ask r' request =>
      cases hrecv : delivery.recv incoming request.count with
      | mk result bytes =>
        cases result with
        | ok =>
          by_cases hsize : request.offset + bytes.length ≤ r'.areaSize request.area
          · cases haccept : commandFormat.accept r' bytes with
            | goOn r'' =>
              rw [MessageFormat.readLoop_goOn hpass hrecv hsize haccept] at hretry ⊢
              exact ih hschedule' hretry
            | leave r'' result =>
              rw [MessageFormat.readLoop_return hpass hrecv hsize haccept] at hretry
              obtain rfl : result = .retry := by simpa using hretry
              exact absurd haccept (accept_ne_retry r' r'' bytes)
          · rw [MessageFormat.readLoop_overrun hpass hrecv (Nat.not_le.mp hsize)] at hretry
            cases hretry
        | retry =>
          rw [MessageFormat.readLoop_retry hpass hrecv]
          exact .inr (incoming_eq_nil_of_recv htransfer hrecv)
        | eof =>
          rw [MessageFormat.readLoop_fail hpass hrecv (.inl rfl)] at hretry
          cases hretry
        | error =>
          rw [MessageFormat.readLoop_fail hpass hrecv (.inr rfl)] at hretry
          cases hretry

/-- A command reader on a file takes a well-formed command in one call and leaves what follows
it. -/
theorem WellFormed.read_file {header payload : List UInt8}
    (hm : WellFormed commandFormat header payload) {sb : SharedBuffers} (hfresh : sb.Fresh)
    (sizes : Nat → Nat) (rest : List UInt8) :
    ∃ call, FileCommandReader.read sizes (.create sb) (message header payload ++ rest) = call ∧
      call.outcome = .returns .ok ∧ call.ntotal = (message header payload).length ∧
      call.device.incoming = rest ∧ call.reader.sb.Holds header payload := by
  obtain ⟨schedule, hschedule⟩ : ∃ schedule, schedule =
      fileCalls sizes (message header payload ++ rest).length := ⟨_, rfl⟩
  have htransfer : ∀ d ∈ schedule, d.isTransfer := hschedule ▸ isTransfer_of_mem_fileCalls
  have henough : (message header payload).length ≤ schedule.countP Delivery.isTransfer := by
    rw [hschedule, countP_fileCalls, List.length_append]
    omega
  have hstart : Underway commandFormat header payload (.create sb) [] (message header payload)
      (.create sb) := .create hfresh
  obtain ⟨call, hcall⟩ : ∃ call, call = commandFormat.read (.create sb)
      ⟨message header payload ++ rest, schedule⟩ := ⟨_, rfl⟩
  have hfile : FileCommandReader.read sizes (.create sb) (message header payload ++ rest) =
      call := by
    rw [hcall, hschedule]
    rfl
  have hmem : call ∈ commandFormat.readCalls 1 (.create sb)
      ⟨message header payload ++ rest, schedule⟩ := by
    rw [hcall]
    exact List.mem_cons_self
  have hread := hstart.read hm (fun d hd => .inr (htransfer d hd)) rest
  rw [← hcall] at hread
  obtain hend | ⟨received, todo, hend⟩ := hread
  · refine ⟨call, hfile, hend.outcome, by simpa using hend.ntotal, hend.incoming, ?_⟩
    exact (hm.read_holds hfresh hmem hend.outcome (by rw [hend.reader]; rfl) hend.incoming).1
  · -- every byte was worth a call at least, so the calls were not used up before the bytes were
    exfalso
    have hmore : 0 < todo.length := List.length_pos_iff.mpr hend.todo_ne
    have htransfers := hend.transfers
    have houtcome := hend.outcome
    have hincoming := hend.incoming
    rw [hcall] at houtcome hincoming htransfers
    obtain hempty | hempty := exhausted_of_retry htransfer houtcome
    · have hempty' : (commandFormat.read (.create sb)
          ⟨message header payload ++ rest, schedule⟩).device.schedule = [] := hempty
      rw [hempty', List.countP_nil] at htransfers
      omega
    · have hnil := hincoming.symm.trans hempty
      simp only [List.append_eq_nil_iff] at hnil
      exact hend.todo_ne hnil.1

/-! ## Writing -/

theorem sent_ne_retry (w w' : ReaderWriter) (nwritten : Nat) :
    w.sent nwritten ≠ .leave w' .retry := by
  intro hretry
  simp only [ReaderWriter.sent] at hretry
  split at hretry
  all_goals
    try split_ifs at hretry
    all_goals simp at hretry

theorem writePass_ne_retry (f : MessageFormat) (w w' : ReaderWriter) :
    f.writePass w ≠ .leave w' .retry := by
  intro hretry
  simp only [MessageFormat.writePass] at hretry
  split at hretry
  all_goals
    try split_ifs at hretry
    all_goals simp at hretry

theorem schedule_eq_nil_of_retry {f : MessageFormat} {schedule : List Delivery} {w : ReaderWriter}
    {ntotal : Nat} {output : List UInt8} (hschedule : ∀ d ∈ schedule, d.isTransfer)
    (hretry : (f.writeLoop schedule w ntotal output).result = .retry) :
    (f.writeLoop schedule w ntotal output).schedule = [] := by
  induction schedule generalizing w ntotal output with
  | nil =>
    cases hpass : f.writePass w with
    | leave w' result => rw [MessageFormat.writeLoop_leave hpass]
    | ask w' request => rw [MessageFormat.writeLoop_nil hpass]
  | cons delivery schedule ih =>
    have hschedule' : ∀ d ∈ schedule, d.isTransfer := fun d hd =>
      hschedule d (List.mem_cons_of_mem _ hd)
    cases hpass : f.writePass w with
    | leave w' result =>
      rw [MessageFormat.writeLoop_leave hpass] at hretry
      exact absurd (hpass.trans (congrArg _ hretry)) (writePass_ne_retry f w w')
    | ask w' request =>
      cases delivery with
      | transfer n =>
        cases hsent : w'.sent (min (n + 1) request.count) with
        | goOn w'' =>
          rw [MessageFormat.writeLoop_goOn hpass hsent] at hretry ⊢
          exact ih hschedule' hretry
        | leave w'' result =>
          rw [MessageFormat.writeLoop_return hpass hsent] at hretry
          exact absurd (hsent.trans (congrArg _ hretry)) (sent_ne_retry w' w'' _)
      | _ => simp [Delivery.isTransfer] at hschedule

/-- A command writer on a file writes a well-formed command in one call. -/
theorem WellFormed.write_file {header payload : List UInt8}
    (hm : WellFormed commandFormat header payload) {w : ReaderWriter}
    (hstate : w.state = .writeReady) (hholds : w.sb.Holds header payload) (sizes : Nat → Nat) :
    ∃ call, FileCommandWriter.write sizes w = call ∧ call.result = .ok ∧
      call.output = message header payload ∧
      call.ntotal = (message header payload).length := by
  obtain ⟨hsending, hunsent⟩ := hm.unsent_eq hstate hholds
  obtain ⟨schedule, hschedule⟩ : ∃ schedule, schedule =
      fileCalls sizes (message header payload).length := ⟨_, rfl⟩
  have htransfer : ∀ d ∈ schedule, d.isTransfer := hschedule ▸ isTransfer_of_mem_fileCalls
  have hfile : FileCommandWriter.write sizes w = commandFormat.write w schedule := by
    rw [FileCommandWriter.write, hunsent, hschedule]
    rfl
  have hwrite := hsending.write fun d hd => .inr (htransfer d hd)
  rw [hunsent] at hwrite
  refine ⟨_, hfile, ?_⟩
  obtain hend | ⟨front, hend⟩ := hwrite
  · exact ⟨hend.result, by simpa using hend.output, by simpa using hend.ntotal⟩
  · exfalso
    have hempty : (commandFormat.write w schedule).schedule = [] :=
      schedule_eq_nil_of_retry htransfer hend.result
    have htransfers := hend.transfers
    have hlength := congrArg List.length hend.split
    have hmore := List.length_pos_iff.mpr hend.more
    rw [hempty, List.countP_nil, hschedule, countP_fileCalls] at htransfers
    rw [List.length_append] at hlength
    omega

end CyberCache
