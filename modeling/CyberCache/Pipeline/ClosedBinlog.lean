import CyberCache.Pipeline.Binlog

/-!
# A binlog that was closed

`CLOSE` closes the file but keeps its path. `ROTATE` and the `SYNC` commands close the file and open
it again by that path, whether or not it was open before, so that they bring a closed binlog back.
Everything else leaves it alone until it is opened.
-/

namespace CyberCache

inductive FileAccess where
  | opened (path : String)
  | created (path : String)
  | written (path : String)
deriving DecidableEq, Repr

/-- What comes out of the queue of the pipeline: commands and objects, and changes of the capacity
of the queue itself. -/
inductive FileOutputMessage where
  | process (command : FileOutputCommand)
  | setCapacity (capacity : Nat)
  | setMaxCapacity (capacity : Nat)

def FileOutputMessage.isOpen : FileOutputMessage → Bool
  | .process (.openBinlog _ _) => true
  | _ => false

def FileOutputMessage.isObject : FileOutputMessage → Bool
  | .process (.processObject _ _ _ _) => true
  | _ => false

namespace FileOutputPipeline

def receive (s : FileOutputPipeline) : FileOutputMessage → Option FileOutputPipeline
  | .process command => s.step command
  | .setCapacity _ => some s
  | .setMaxCapacity _ => some s

def openAccesses (s : FileOutputPipeline) : List FileAccess :=
  match s.path with
  | none => []
  | some path =>
    match s.files path with
    | some _ => [.opened path]
    | none => [.created path, .written path]

def rotateAccesses (s : FileOutputPipeline) (names : List String) : List FileAccess :=
  match s.path with
  | none => []
  | some path => (s.closeBinlog.rotateLog path names).openAccesses

def objectAccesses (s : FileOutputPipeline) (rw : ReaderWriter) (sizes : Nat → Nat)
    (names : List String) : List FileAccess :=
  match s.path, s.position with
  | some path, some position =>
    let call := FileCommandWriter.write sizes (CommandWriter.ioRewind rw)
    let s := s.append path position call rw.sb.command
    .written path ::
      if call.result = .ok ∧ s.maxSize ≤ s.currentSize + call.ntotal ∧ s.rotationPath.isSome then
        s.rotateAccesses names else []
  | _, _ => []

/-- The files that are opened, created or written while a message is processed. -/
def accesses (s : FileOutputPipeline) : FileOutputMessage → List FileAccess
  | .process (.openBinlog path _) => (s.closeBinlog.setPath path).openAccesses
  | .process (.rotateBinlog names _) =>
    if s.rotationPath.isSome then s.rotateAccesses names else []
  | .process (.setSyncMode mode _) => if s.syncMode ≠ mode then s.closeBinlog.openAccesses else []
  | .process (.processObject rw sizes names _) => s.objectAccesses rw sizes names
  | _ => []

/-- No file is touched by any of the messages, and objects among them are ignored. -/
def StaysClosed (s : FileOutputPipeline) : List FileOutputMessage → Prop
  | [] => s.position = none
  | m :: messages => s.position = none ∧ s.accesses m = [] ∧
      ∃ s', s.receive m = some s' ∧ s'.files = s.files ∧ (m.isObject → s' = s) ∧
        s'.StaysClosed messages

/-- The pipeline knows a path, and the message is `ROTATE` while there is a rotation path, or a
change of the sync mode. -/
def Reopens (s : FileOutputPipeline) : FileOutputMessage → Prop
  | .process (.rotateBinlog _ _) => s.path.isSome ∧ s.rotationPath.isSome
  | .process (.setSyncMode mode _) => s.path.isSome ∧ s.syncMode ≠ mode
  | _ => False

def NeverReopens (s : FileOutputPipeline) : List FileOutputMessage → Prop
  | [] => True
  | m :: messages => ¬ s.Reopens m ∧ ∀ s', s.receive m = some s' → s'.NeverReopens messages

variable {s s' : FileOutputPipeline} {m : FileOutputMessage}

@[simp]
theorem path_rotateLog (s : FileOutputPipeline) (path : String) (names : List String) :
    (s.rotateLog path names).path = s.path := by
  unfold rotateLog
  split
  · split_ifs <;> rfl
  · rfl

theorem openAccesses_eq_nil : s.openAccesses = [] ↔ s.path = none := by
  unfold openAccesses
  split
  · simp_all
  · split <;> simp_all

theorem rotateAccesses_eq_nil {names : List String} :
    s.rotateAccesses names = [] ↔ s.path = none := by
  unfold rotateAccesses
  split
  · simp_all
  · rw [openAccesses_eq_nil, path_rotateLog]
    rfl

theorem processObject_of_closed (hclosed : s.position = none) (rw : ReaderWriter)
    (sizes : Nat → Nat) (names : List String) (now : UInt32) :
    s.processObject rw sizes names now = s := by
  unfold processObject
  split
  · simp_all
  · rfl

theorem objectAccesses_of_closed (hclosed : s.position = none) (rw : ReaderWriter)
    (sizes : Nat → Nat) (names : List String) : s.objectAccesses rw sizes names = [] := by
  unfold objectAccesses
  split
  · simp_all
  · rfl

theorem rotateBinlog_of_none (hpath : s.path = none) (names : List String) (now : UInt32) :
    s.rotateBinlog names now = s := by
  unfold rotateBinlog
  split
  · rfl
  · simp_all

structure LeftAlone (s : FileOutputPipeline) (m : FileOutputMessage) (s' : FileOutputPipeline) :
    Prop where
  accesses : s.accesses m = []
  files : s'.files = s.files
  closed : s'.position = none
  object : m.isObject → s' = s

theorem leftAlone_of_not_reopens (hclosed : s.position = none) (hopen : m.isOpen = false)
    (hreopens : ¬ s.Reopens m) : ∃ s', s.receive m = some s' ∧ s.LeftAlone m s' := by
  have hsame (hnone : s.accesses m = []) : s.LeftAlone m s := ⟨hnone, rfl, hclosed, fun _ => rfl⟩
  cases m with
  | setCapacity n => exact ⟨s, rfl, hsame rfl⟩
  | setMaxCapacity n => exact ⟨s, rfl, hsame rfl⟩
  | process command =>
    cases command with
    | openBinlog path now => cases hopen
    | closeBinlog => exact ⟨s.closeBinlog, rfl, rfl, rfl, rfl, nofun⟩
    | rotateBinlog names now =>
      refine ⟨_, rfl, ?_⟩
      split_ifs with hrotation
      · have hpath : s.path = none := by
          simpa [Reopens, hrotation] using hreopens
        rw [rotateBinlog_of_none hpath]
        apply hsame
        rw [FileOutputPipeline.accesses, if_pos hrotation, rotateAccesses_eq_nil.mpr hpath]
      · apply hsame
        rw [FileOutputPipeline.accesses, if_neg hrotation]
    | setRotationPath path valid =>
      refine ⟨_, rfl, ?_⟩
      split_ifs
      · exact ⟨rfl, rfl, hclosed, nofun⟩
      · exact hsame rfl
    | disableRotation => exact ⟨_, rfl, rfl, rfl, hclosed, nofun⟩
    | setRotationThreshold threshold =>
      refine ⟨_, rfl, ?_⟩
      split_ifs
      · exact ⟨rfl, rfl, hclosed, nofun⟩
      · exact hsame rfl
    | setSyncMode mode now =>
      refine ⟨_, rfl, ?_⟩
      split_ifs with hmode
      · have hpath : s.path = none := by
          simpa [Reopens, hmode] using hreopens
        have hpath' : ({ s.closeBinlog with syncMode := mode }).path = none := hpath
        rw [openBinlog_of_none hpath']
        refine ⟨?_, rfl, rfl, nofun⟩
        rw [FileOutputPipeline.accesses, if_pos hmode]
        exact openAccesses_eq_nil.mpr hpath
      · apply hsame
        rw [FileOutputPipeline.accesses, if_neg hmode]
    | processObject rw sizes names now =>
      refine ⟨s, ?_, hsame (objectAccesses_of_closed hclosed rw sizes names)⟩
      exact congrArg some (processObject_of_closed hclosed rw sizes names now)

theorem accesses_of_reopens (hreopens : s.Reopens m) : s.accesses m ≠ [] := by
  unfold Reopens at hreopens
  split at hreopens
  · obtain ⟨hpath, hrotation⟩ := hreopens
    rw [FileOutputPipeline.accesses, if_pos hrotation, Ne, rotateAccesses_eq_nil]
    exact Option.isSome_iff_ne_none.mp hpath
  · obtain ⟨hpath, hmode⟩ := hreopens
    rw [FileOutputPipeline.accesses, if_pos hmode, Ne, openAccesses_eq_nil]
    exact Option.isSome_iff_ne_none.mp hpath
  · exact hreopens.elim

theorem staysClosed_iff_of_closed (hclosed : s.position = none) {messages : List FileOutputMessage}
    (hopen : ∀ m ∈ messages, m.isOpen = false) :
    s.StaysClosed messages ↔ s.NeverReopens messages := by
  induction messages generalizing s with
  | nil => exact ⟨fun _ => trivial, fun _ => hclosed⟩
  | cons m messages ih =>
    have hm := hopen m List.mem_cons_self
    have hrest : ∀ m' ∈ messages, m'.isOpen = false := fun m' hm' =>
      hopen m' (List.mem_cons_of_mem m hm')
    constructor
    · rintro ⟨-, hnone, s', hs', -, -, hstays⟩
      refine ⟨fun hreopens => accesses_of_reopens hreopens hnone, fun s'' hs'' => ?_⟩
      obtain rfl := Option.some.inj (hs'.symm.trans hs'')
      have hclosed' : s'.position = none := by
        cases messages with
        | nil => exact hstays
        | cons _ _ => exact hstays.1
      exact (ih hclosed' hrest).mp hstays
    · rintro ⟨hreopens, hnever⟩
      obtain ⟨s', hs', halone⟩ := leftAlone_of_not_reopens hclosed hm hreopens
      exact ⟨hclosed, halone.accesses, s', hs', halone.files, halone.object,
        (ih halone.closed hrest).mpr (hnever s' hs')⟩

/-- After `CLOSE` and up to the next `OPEN`, no file is touched and objects are ignored exactly if
no message brings the binlog back. -/
theorem staysClosed_iff (s : FileOutputPipeline) {messages : List FileOutputMessage}
    (hopen : ∀ m ∈ messages, m.isOpen = false) :
    s.closeBinlog.StaysClosed messages ↔ s.closeBinlog.NeverReopens messages :=
  staysClosed_iff_of_closed rfl hopen

theorem staysClosed_of_rotation_path :
    ({ create (fun _ => none) (fun _ => []) 0 with path := some "c3" }).closeBinlog.StaysClosed
      [.process (.setRotationPath "c3.%d" true), .setCapacity 16,
        .process (.processObject (shortCommand [0x80, 0x01]) (fun _ => 0) [] 0)] := by
  rw [staysClosed_iff]
  · exact ⟨id, fun _ _ => ⟨id, fun _ _ => ⟨id, fun _ _ => trivial⟩⟩⟩
  · simp [FileOutputMessage.isOpen]

/-- A database is saved and closed; the sync mode for the next one brings its file back, and an
object gets into it. -/
theorem sync_reopens_closed_binlog :
    ∃ s : FileOutputPipeline, Reaches step (fun _ _ => True)
      (create (fun _ => none) (fun _ => []) 0) [.openBinlog "c3" 0, .closeBinlog] s ∧
      ¬ s.StaysClosed [.process (.setSyncMode .full 0),
        .process (.processObject (shortCommand [0x80, 0x01]) (fun _ => 0) [] 0)] ∧
      ∃ s₁ s₂, s.receive (.process (.setSyncMode .full 0)) = some s₁ ∧
        s₁.receive (.process (.processObject (shortCommand [0x80, 0x01]) (fun _ => 0) [] 0)) =
          some s₂ ∧ s₂.files "c3" ≠ s.files "c3" := by
  have hstart : Reaches step (fun _ _ => True) (create (fun _ => none) (fun _ => []) 0) []
      (create (fun _ => none) (fun _ => []) 0) := .nil
  have hrun := (hstart.snoc (i := .openBinlog "c3" 0) trivial rfl).snoc (i := .closeBinlog)
    trivial rfl
  refine ⟨_, hrun, fun hstays => ?_, _, _, rfl, rfl, by decide⟩
  exact absurd hstays.2.1 (by decide)

end FileOutputPipeline

end CyberCache
