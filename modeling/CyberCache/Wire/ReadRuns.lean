import CyberCache.Wire.Progress

/-!
# Runs of a reader

A run is a sequence of calls of `read` on one device, each after the first one made because the call
before it returned `IO_RESULT_RETRY`. `LoopInvariant` is the rule for such runs: a property of the
bytes received and of the reader that every pass of the loop preserves holds at every device call of
every call, and at its end.

The rule gives the bounds on the memory that the device is asked to fill. They hold for exactly the
streams whose size field fits: a size field of zero makes the reader ask for no bytes at all, and
one close to 2³² makes the header size wrap around below the number of bytes that are already there.
-/

namespace CyberCache

open ByteMemory

namespace MessageFormat

/-- At most `n` calls of `read`, as long as they return to be called again. -/
def readCalls (f : MessageFormat) : Nat → ReaderWriter → Device → List ReadCall
  | 0, _, _ => []
  | n + 1, r, device =>
    let call := f.read r device
    call :: if call.outcome = .returns .retry then f.readCalls n call.reader call.device else []

/-- A property of the bytes received so far, a part of `stream`, and of the reader that every pass
of the loop preserves. -/
structure LoopInvariant (f : MessageFormat) (stream : List UInt8)
    (inv : List UInt8 → ReaderWriter → Prop) : Prop where
  ask : ∀ {received r r' request}, inv received r → r.pass = .ask r' request → inv received r'
  accept : ∀ {received r r' request bytes}, inv received r → r.pass = .ask r' request →
    bytes ≠ [] → bytes.length ≤ request.count → received ++ bytes <+: stream →
    inv (received ++ bytes) (f.accept r' bytes).reader
  leave : ∀ {received r r' result}, inv received r → r.pass = .leave r' result → inv received r'
  fail : ∀ {received r}, inv received r → inv received { r with state := .error }

/-- What a loop invariant says about the end of a call and about its device calls. -/
structure CallInvariant (stream : List UInt8) (inv : List UInt8 → ReaderWriter → Prop)
    (call : ReadCall) : Prop where
  final : call.outcome ≠ .overrun →
    ∃ received, received ++ call.device.incoming = stream ∧ inv received call.reader
  asked : ∀ p ∈ call.asked, ∃ received r, inv received r ∧ r.pass = .ask p.1 p.2

private theorem forall_mem_append_singleton {α : Type} {p : α → Prop} {xs : List α} {y : α}
    (hxs : ∀ x ∈ xs, p x) (hy : p y) : ∀ x ∈ xs ++ [y], p x := by
  simpa [or_imp, forall_and] using And.intro hxs hy

namespace LoopInvariant

variable {f : MessageFormat} {stream : List UInt8} {inv : List UInt8 → ReaderWriter → Prop}

theorem readLoop (hinv : f.LoopInvariant stream inv) {schedule : List Delivery}
    {received incoming : List UInt8} {r : ReaderWriter} {ntotal : Nat}
    {asked : List (ReaderWriter × Request)} (h : inv received r)
    (hstream : received ++ incoming = stream)
    (hasked : ∀ p ∈ asked, ∃ received r, inv received r ∧ r.pass = .ask p.1 p.2) :
    CallInvariant stream inv (f.readLoop schedule incoming r ntotal asked) := by
  induction schedule generalizing received incoming r ntotal asked with
  | nil =>
    cases hpass : r.pass with
    | leave r' result =>
      rw [readLoop_leave hpass]
      exact ⟨fun _ => ⟨received, hstream, hinv.leave h hpass⟩, hasked⟩
    | ask r' request =>
      rw [readLoop_nil hpass]
      exact ⟨fun _ => ⟨received, hstream, hinv.ask h hpass⟩,
        forall_mem_append_singleton hasked ⟨received, r, h, hpass⟩⟩
  | cons delivery schedule ih =>
    cases hpass : r.pass with
    | leave r' result =>
      rw [readLoop_leave hpass]
      exact ⟨fun _ => ⟨received, hstream, hinv.leave h hpass⟩, hasked⟩
    | ask r' request =>
      have h' := hinv.ask h hpass
      have hasked' : ∀ p ∈ asked ++ [(r', request)],
          ∃ received r, inv received r ∧ r.pass = .ask p.1 p.2 :=
        forall_mem_append_singleton hasked ⟨received, r, h, hpass⟩
      rcases hrecv : delivery.recv incoming request.count with ⟨result, bytes⟩
      cases result with
      | retry =>
        rw [readLoop_retry hpass hrecv]
        exact ⟨fun _ => ⟨received, hstream, h'⟩, hasked'⟩
      | eof =>
        rw [readLoop_fail hpass hrecv (.inl rfl)]
        exact ⟨fun _ => ⟨received, hstream, hinv.fail h'⟩, hasked'⟩
      | error =>
        rw [readLoop_fail hpass hrecv (.inr rfl)]
        exact ⟨fun _ => ⟨received, hstream, hinv.fail h'⟩, hasked'⟩
      | ok =>
        obtain ⟨hne, hle, hincoming⟩ := Delivery.recv_ok hrecv
        have hsplit : (received ++ bytes) ++ incoming.drop bytes.length = stream := by
          rw [List.append_assoc, ← hincoming, hstream]
        have hnext := hinv.accept h hpass hne hle ⟨_, hsplit⟩
        by_cases hsize : request.offset + bytes.length ≤ r'.areaSize request.area
        · cases hverdict : f.accept r' bytes with
          | leave r'' result =>
            rw [hverdict, Verdict.reader_leave] at hnext
            rw [readLoop_return hpass hrecv hsize hverdict]
            exact ⟨fun _ => ⟨_, hsplit, hnext⟩, hasked'⟩
          | goOn r'' =>
            rw [hverdict, Verdict.reader_goOn] at hnext
            rw [readLoop_goOn hpass hrecv hsize hverdict]
            exact ih hnext hsplit hasked'
        · rw [readLoop_overrun hpass hrecv (by omega)]
          exact ⟨fun hoverrun => absurd rfl hoverrun, hasked'⟩

theorem readCalls (hinv : f.LoopInvariant stream inv) {n : Nat} {received incoming : List UInt8}
    {schedule : List Delivery} {r : ReaderWriter} (h : inv received r)
    (hstream : received ++ incoming = stream) :
    ∀ call ∈ f.readCalls n r ⟨incoming, schedule⟩, CallInvariant stream inv call := by
  induction n generalizing received incoming schedule r with
  | zero => simp [MessageFormat.readCalls]
  | succ n ih =>
    have hfirst : CallInvariant stream inv (f.read r ⟨incoming, schedule⟩) :=
      hinv.readLoop h hstream (by simp)
    simp only [MessageFormat.readCalls, List.mem_cons]
    rintro call (rfl | hcall)
    · exact hfirst
    · split_ifs at hcall with hretry
      · obtain ⟨received', hstream', h'⟩ := hfirst.final (by simp [hretry])
        exact ih h' hstream' call hcall
      · simp at hcall

end LoopInvariant

/-! ## The memory that the device is asked to fill -/

/-- A device call for at least one byte and for no more than there is room for; the size of a header
that is being read is not smaller than the part of it that is there already. -/
def RequestInBounds (f : MessageFormat) (r : ReaderWriter) (request : Request) : Prop :=
  0 < request.count ∧ request.offset + request.count ≤ r.areaSize request.area ∧
    (r.state = .readHeaderBytes → r.pos ≤ f.headerSize r.sb.header)

theorem progress_invariant (f : MessageFormat) {stream : List UInt8}
    (hfits : SizeFieldFits stream) :
    f.LoopInvariant stream (Progress f) where
  ask h hask := h.ask hask
  accept h hask hne hle hstream := by
    obtain ⟨rest, rfl⟩ := hstream
    exact h.accept hask hne hle hfits.of_append
  leave h hleave := h.leave hleave
  fail _ := .failed rfl

theorem requestInBounds_of_progress {f : MessageFormat} {received : List UInt8}
    {r r' : ReaderWriter} {request : Request} (h : Progress f received r)
    (hask : r.pass = .ask r' request) : f.RequestInBounds r' request := by
  obtain ⟨hcount, hroom⟩ := h.request_fits hask
  refine ⟨hcount, hroom, fun hstate => ?_⟩
  cases h.ask hask with
  | header _ _ _ hpos hreceived _ hend hheader =>
    have hdesc : r'.sb.header 0 = ofList received 0 := hheader 0 (by omega)
    have hsize : f.headerSize r'.sb.header = f.streamHeaderSize received := by
      apply f.headerSize_congr
      rw [hdesc]
      exact hheader.mono hreceived
    omega
  | _ => grind

/-- The reader of a stream with a complete size field, after the descriptor and the size field
arrived in one piece each, and its next device call. -/
theorem asked_after_sizeField (f : MessageFormat) {sb : SharedBuffers} (hfresh : sb.Fresh)
    {b : UInt8} {field : List UInt8} (rest : List UInt8) (hlength : headerDataSizeLength b ≠ 0)
    (hfield : field.length = headerDataSizeLength b) :
    ∃ r : ReaderWriter, r.state = .readHeaderBytes ∧ r.pos = 1 + field.length ∧
      f.headerSize r.sb.header = f.streamHeaderSize (b :: field) ∧
      (r, Request.mk .header r.pos (uintSub (f.streamHeaderSize (b :: field)) r.pos)) ∈
        (f.read (.create sb) ⟨b :: field ++ rest, [.transfer 0, .transfer 3]⟩).asked := by
  have hshort := headerDataSizeLength_cases b
  have hroom : sb.getAvailableHeaderSize = auxDataSize :=
    SharedBuffers.getAvailableHeaderSize_of_static hfresh.1
  have hfirst : AgreeBelow [b].length (sb.writeHeader 0 [b]).header (ofList [b]) := by
    have hnone : AgreeBelow ([] : List UInt8).length sb.header (ofList []) :=
      fun i hi => absurd hi (by simp)
    rw [SharedBuffers.header_writeHeader]
    exact hnone.write_ofList [b]
  -- the descriptor
  obtain ⟨r₁, hr₁⟩ : ∃ r₁, r₁ = ReaderWriter.mk (sb.writeHeader 0 [b]) .readHeaderSizeBytes 1
    (headerDataSizeLength b) := ⟨_, rfl⟩
  have haccept₁ : f.accept { ReaderWriter.create sb with state := .readDescriptor } [b] =
      .goOn r₁ := by
    rw [hr₁]
    exact Progress.acceptDescriptor_sized hlength
  have hpass₁ : r₁.pass = .ask r₁ ⟨.header, 1, headerDataSizeLength b⟩ := by rw [hr₁]; rfl
  -- the size field
  obtain ⟨sb', haccept₂, -, -, hheader⟩ := Progress.acceptHeaderSizeBytes_complete (f := f)
    (show r₁.sb.Fresh by simpa [hr₁, SharedBuffers.Fresh] using hfresh)
    (show r₁.pos = [b].length by rw [hr₁]; rfl) (by simp)
    (by rw [hr₁, sizeFieldLength_cons]; rfl) (by rw [hr₁]; exact hfirst)
    (show field.length = r₁.remains by
      rw [hr₁]; exact hfield)
  rw [List.singleton_append] at haccept₂ hheader
  have haccept₂' : f.accept r₁ field = .goOn ⟨sb', .readHeaderBytes, (b :: field).length,
      uintSub (f.streamHeaderSize (b :: field)) (b :: field).length⟩ := by
    rw [← haccept₂, MessageFormat.accept, hr₁]
  have hsize : f.headerSize sb'.header = f.streamHeaderSize (b :: field) := by
    apply f.headerSize_congr
    refine hheader.mono ?_
    rw [hheader 0 (by simp), ofList_of_lt (by simp), List.getElem_cons_zero]
    simp only [List.length_cons]
    omega
  have hrecv₁ : (Delivery.transfer 0).recv (b :: field ++ rest) 1 = (.ok, [b]) := by
    simp [Delivery.recv]
  have hrecv₂ : (Delivery.transfer 3).recv (field ++ rest) (headerDataSizeLength b) =
      (.ok, field) := by
    have hmin : min (3 + 1) (headerDataSizeLength b) = field.length := by omega
    have hne : ¬ (field = [] ∧ rest = []) := by
      rintro ⟨rfl, -⟩
      simp at hfield
      omega
    simp [Delivery.recv, hlength, hne, hmin]
  have hroom₁ : 0 + [b].length ≤
      ReaderWriter.areaSize { ReaderWriter.create sb with state := .readDescriptor } .header := by
    simp only [ReaderWriter.areaSize, ReaderWriter.create, hroom]
    exact (by decide : 0 + 1 ≤ auxDataSize)
  have hroom₂ : 1 + field.length ≤ r₁.areaSize .header := by
    simp only [hr₁, ReaderWriter.areaSize, SharedBuffers.getAvailableHeaderSize_writeHeader, hroom,
      auxDataSize]
    omega
  refine ⟨⟨sb', .readHeaderBytes, (b :: field).length,
    uintSub (f.streamHeaderSize (b :: field)) (b :: field).length⟩, rfl, ?_, hsize, ?_⟩
  · simp only [List.length_cons]
    omega
  · rw [read, readLoop_goOn rfl hrecv₁ hroom₁ haccept₁,
      readLoop_goOn hpass₁ (by simpa using hrecv₂) hroom₂ haccept₂', readLoop_nil rfl]
    simp

/-- The device is never asked for nothing, nor for more than there is room for, exactly if the size
field of the stream fits. -/
theorem requests_inBounds_iff (f : MessageFormat) (stream : List UInt8) :
    (∀ sb : SharedBuffers, sb.Fresh → ∀ schedule n,
      ∀ call ∈ f.readCalls n (.create sb) ⟨stream, schedule⟩, ∀ p ∈ call.asked,
        f.RequestInBounds p.1 p.2) ↔ SizeFieldFits stream := by
  constructor
  · intro h hlength hcomplete
    cases stream with
    | nil => simp at hcomplete
    | cons b stream =>
      rw [sizeFieldLength_cons] at hlength
      rw [sizeFieldLength_cons, List.length_cons] at hcomplete
      obtain ⟨field, rest, rfl, hfield⟩ : ∃ field rest, stream = field ++ rest ∧
          field.length = headerDataSizeLength b := by
        refine ⟨_, _, (List.take_append_drop (headerDataSizeLength b) stream).symm, ?_⟩
        rw [List.length_take]
        omega
      have hfresh : (SharedBuffers.create (fun _ => 0) (fun _ => 0)).Fresh := ⟨rfl, rfl⟩
      obtain ⟨r, hstate, hpos, hsize, hasked⟩ :=
        f.asked_after_sizeField hfresh rest (by omega) hfield
      obtain ⟨hcount, -, hheader⟩ := h _ hfresh _ 1 _ List.mem_cons_self _ hasked
      have hle := hheader hstate
      dsimp only at hcount hle
      have hsized : f.streamHeaderSize (b :: field) = _ := f.streamHeaderSize_of_sized
        (by rw [sizeFieldLength_cons]; exact hlength)
      rw [hsize] at hle
      rw [uintSub_eq (f.streamHeaderSize_lt _) hle] at hcount
      rw [← List.cons_append, sizeField_append (b :: field) rest
        (by rw [sizeFieldLength_cons, List.length_cons]; omega), List.cons_append,
        sizeFieldLength_cons]
      rw [sizeFieldLength_cons] at hsized
      have hfield' := sizeField_lt (b :: field)
      have hshort := headerDataSizeLength_cases b
      have hrange : 10 < uintRange := by decide
      -- a sum that wraps around is smaller than the part of the header that is there already
      by_cases hwrap : sizeField (b :: field) + (headerDataSizeLength b + 1) < uintRange
      · rw [Nat.mod_eq_of_lt hwrap] at hsized
        omega
      · rw [Nat.mod_eq_sub_mod (by omega), Nat.mod_eq_of_lt (by omega)] at hsized
        omega
  · intro hfits sb hfresh schedule n call hcall p hp
    have hinv := (f.progress_invariant hfits).readCalls (Progress.create hfresh) rfl call hcall
    obtain ⟨received, r, hprogress, hask⟩ := hinv.asked p hp
    exact requestInBounds_of_progress hprogress hask

/-- A command whose four-byte size field announces 2³² - 5 more bytes: the reader computes a header
size of 0, keeps the header in the auxiliary area of 12 bytes, and asks for 2³² - 5 bytes at its
offset 5. -/
theorem request_exceeds_auxiliary_area :
    ∃ call ∈ commandFormat.readCalls 1 (.create (.create (fun _ => 0) (fun _ => 0)))
        ⟨[0x0C, 0xFB, 0xFF, 0xFF, 0xFF], [.transfer 0, .transfer 3]⟩,
      ∃ p ∈ call.asked, p.2 = ⟨.header, 5, 2 ^ 32 - 5⟩ ∧ p.1.areaSize .header = 12 ∧
        ¬ commandFormat.RequestInBounds p.1 p.2 := by
  refine ⟨_, List.mem_cons_self, _, List.getElem_mem (n := 2) (by decide), by decide, by decide, ?_⟩
  rintro ⟨-, hroom, -⟩
  revert hroom
  decide

end MessageFormat

end CyberCache
