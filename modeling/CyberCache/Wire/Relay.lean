import CyberCache.Wire.RoundTrip

/-!
# Relayed commands

A command that was received goes to replicators and binlogs through writers that share its buffers.
Whatever the peer has sent, such a writer sends exactly the bytes that were taken from the peer: a
header that the handlers would reject is neither repaired nor cut off.
-/

namespace CyberCache

open ByteMemory

variable {f : MessageFormat} {schedule : List Delivery} {incoming stream : List UInt8}
  {r : ReaderWriter} {sb : SharedBuffers} {call : ReadCall} {n : Nat}

theorem MessageFormat.readDone_of_readLoop {ntotal : Nat} {asked : List (ReaderWriter × Request)}
    (h : (f.readLoop schedule incoming r ntotal asked).outcome = .returns .ok) :
    (f.readLoop schedule incoming r ntotal asked).reader.state = .readDone := by
  fun_induction f.readLoop schedule incoming r ntotal asked with
  | case1 _ _ r _ _ r' result hpass =>
    obtain ⟨-, -, rfl, -⟩ | ⟨-, -, rfl⟩ := ReaderWriter.pass_eq_leave hpass
    · rfl
    · cases h
  | case4 _ _ _ _ _ _ _ _ _ _ _ _ _ _ _ _ _ ih => exact ih h
  | case5 _ _ _ _ r' _ _ _ _ _ bytes _ _ _ _ _ result haccept =>
    rcases f.accept_cases r' bytes with ⟨r'', h', -⟩ | ⟨r'', h', -⟩ | ⟨h', -⟩ | ⟨r'', h', -⟩
    all_goals
      rw [haccept] at h'
      cases h'
    · cases h
    · rfl
    · cases h
  | case7 => simp_all
  | _ => cases h

theorem MessageFormat.readDone_of_readCalls {device : Device}
    (hcall : call ∈ f.readCalls n r device) (hok : call.outcome = .returns .ok) :
    call.reader.state = .readDone := by
  induction n generalizing r device with
  | zero => cases hcall
  | succ n ih =>
    rcases List.mem_cons.mp hcall with rfl | hcall
    · exact readDone_of_readLoop hok
    · split_ifs at hcall
      · exact ih hcall
      · cases hcall

theorem MessageFormat.lt_of_announces {m : ByteMemory} {available received size : Nat}
    (h : (f.payloadInfo m available received).announces = some size) : size < uintRange := by
  cases hinfo : f.payloadInfo m available received with
  | absent =>
    rw [hinfo] at h
    cases h
    decide
  | invalid =>
    rw [hinfo] at h
    cases h
  | present size' usize compressor =>
    rw [hinfo] at h
    cases h
    exact payloadInfo_present_lt hinfo

theorem BodyReceived.unsent_eq {body : List UInt8} {w : ReaderWriter} (h : BodyReceived f body w.sb)
    (hstate : w.state = .writeReady) :
    Sending f w ∧ f.unsent w = body ++ closing (ofList body 0) := by
  have hsizeField := h.sizeField
  have hlength := h.length
  have hheader := h.header
  have hpayload := h.payload
  have hsize : f.headerSize w.sb.header = f.streamHeaderSize body :=
    (f.headerSize_congr (h.header.mono h.sizeField).symm).symm
  have hlt : w.sb.payload.size < uintRange := by
    obtain ⟨-, hzero, -⟩ | hinfo := h.info
    · rw [hzero]
      decide
    · exact MessageFormat.lt_of_announces hinfo
  refine ⟨⟨.inl ⟨hstate, by omega⟩, by simp [hstate], hsize ▸ f.streamHeaderSize_lt body, hlt⟩, ?_⟩
  have hdesc : w.descriptor = ofList body 0 := h.header 0 (by omega)
  obtain ⟨front, back, rfl, hfront⟩ : ∃ front back, body = front ++ back ∧
      front.length = f.streamHeaderSize body :=
    ⟨_, _, (List.take_append_drop (f.streamHeaderSize body) body).symm, by
      rw [List.length_take]
      omega⟩
  rw [← hfront] at hsize hheader hpayload hlength
  rw [List.drop_left] at hpayload
  rw [List.length_append, Nat.add_left_cancel_iff] at hlength
  have hfirst : w.sb.header.slice 0 front.length = front :=
    ((hheader.trans (agreeBelow_ofList_append front back).symm).slice_eq (by omega)).trans
      (ofList_slice front)
  have hsecond : w.sb.payloadBytes = back := by
    rw [SharedBuffers.payloadBytes, hpayload.slice_eq (by omega), hlength, ofList_slice]
  simp only [MessageFormat.unsent, hstate, hsize, hfirst, hsecond, hdesc, List.append_assoc]

/-- What a copy of a received command sends is what was received. -/
theorem relayed_as_received (hfits : SizeFieldFits stream) (hfresh : sb.Fresh)
    (hcall : call ∈ commandFormat.readCalls n (.create sb) ⟨stream, schedule⟩)
    (hok : call.outcome = .returns .ok) :
    ∃ received, received ++ call.device.incoming = stream ∧
      Emits commandFormat (CommandWriter.ioRewind (.create call.reader.sb)) received := by
  obtain ⟨received, hstream, hprogress⟩ :=
    ((commandFormat.progress_invariant hfits).readCalls (.create hfresh) (List.nil_append _) call
      hcall).final (by simp [hok])
  have hdone := MessageFormat.readDone_of_readCalls hcall hok
  cases hprogress with
  | done body _ hbody hreceived =>
    refine ⟨received, hstream, fun schedule' hschedule henough => ?_⟩
    obtain ⟨hsending, hunsent⟩ :=
      BodyReceived.unsent_eq (w := CommandWriter.ioRewind (.create call.reader.sb)) hbody rfl
    rw [hreceived, ← hunsent] at henough ⊢
    obtain ⟨calls, last, hcalls, hretry, hlast, -, houtput, -⟩ :=
      hsending.writeCalls_completed hschedule henough (Nat.lt_succ_self _)
    exact ⟨calls, last, hcalls, hretry, hlast, houtput⟩
  | _ => simp_all

/-- A `PING` command that comes in pieces. -/
theorem relayed_ping : ∃ (call : ReadCall) (received : List UInt8), call.outcome = .returns .ok ∧
    received ++ call.device.incoming = [0x80, 0x01, 0xC3, 0x00] ∧
    Emits commandFormat (CommandWriter.ioRewind (.create call.reader.sb)) received := by
  have hcall := List.mem_of_getElem? (i := 1) (l := commandFormat.readCalls 2
    (.create (.create (fun _ => 0) fun _ => 0)) ⟨[0x80, 0x01, 0xC3, 0x00],
      [.transfer 0, .retry, .transfer 9, .transfer 0]⟩) rfl
  obtain ⟨received, h⟩ := relayed_as_received (by decide) ⟨rfl, rfl⟩ hcall rfl
  exact ⟨_, received, rfl, h⟩

end CyberCache
