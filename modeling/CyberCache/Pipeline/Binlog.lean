import CyberCache.Wire.FileDevices
import CyberCache.Lib.Runs

/-!
# Binlogs

`FileOutputPipeline` appends the commands that it is given to a file, which it may start, close,
open again and move out of the way when it has grown too big. `FileInputPipeline` reads such a file
back, command after command, until it has read as many bytes as the file is long. A command is
written as it is in memory and read with its own header as the only guide to where it ends.
-/

namespace CyberCache

open Function (update update_self update_of_ne)

open ByteMemory

variable {commands : List BinlogCommand}

/-! ## Commands and files -/

structure BinlogCommand where
  header : List UInt8
  payload : List UInt8
deriving DecidableEq, Repr

namespace BinlogCommand

def bytes (c : BinlogCommand) : List UInt8 :=
  message c.header c.payload

/-- The header holds everything that it announces, and so does the payload. -/
def WellFormed (c : BinlogCommand) : Prop :=
  CyberCache.WellFormed commandFormat c.header c.payload

theorem WellFormed.bytes_pos {c : BinlogCommand} (h : c.WellFormed) : 0 < c.bytes.length := by
  have hheader := h.header_pos
  simp only [bytes, message, List.length_append]
  omega

end BinlogCommand

def SharedBuffers.command (sb : SharedBuffers) : BinlogCommand :=
  ⟨sb.header.slice 0 (commandFormat.headerSize sb.header), sb.payloadBytes⟩

theorem agreeBelow_slice (m : ByteMemory) (n : Nat) : AgreeBelow n m (ofList (m.slice 0 n)) := by
  intro i hi
  have hslice : i < (m.slice 0 n).length := by simpa using hi
  have hwrite := write_add (fun _ => 0) 0 (m.slice 0 n) hslice
  rw [getElem_slice, Nat.zero_add] at hwrite
  exact hwrite.symm

theorem SharedBuffers.holds_command (sb : SharedBuffers) :
    sb.Holds sb.command.header sb.command.payload := by
  constructor
  · rw [command, length_slice]
    exact agreeBelow_slice _ _
  · rw [command, payloadBytes, length_slice]
  · rw [command, payloadBytes, length_slice]
    exact agreeBelow_slice _ _

theorem SharedBuffers.Holds.command_eq {sb : SharedBuffers} {c : BinlogCommand}
    (h : sb.Holds c.header c.payload) (hc : c.WellFormed) : sb.command = c := by
  have hheader : sb.command.header = c.header := by
    rw [command, hc.headerSize_eq h.header]
    exact (h.header.slice_eq (by omega)).trans (ofList_slice c.header)
  have hpayload : sb.command.payload = c.payload := by
    rw [command, payloadBytes, h.size]
    exact (h.payload.slice_eq (by omega)).trans (ofList_slice c.payload)
  cases c
  exact congrArg₂ BinlogCommand.mk hheader hpayload

abbrev Files := String → Option (List UInt8)

def binlogSignature : List UInt8 :=
  [0x43, 0x33, 0x42, 0x69, 0x6E, 0x4C, 0x6F, 0x67]

def c3VersionMajor : Nat := 1

def c3libVersionId (buildModeId : UInt8) : Nat :=
  c3VersionMajor * 2 ^ 24 + 3 * 2 ^ 16 + 6 * 2 ^ 8 + buildModeId.toNat

/-- `sizeof(binlog_header_t)`: signature, version and timestamp. -/
def binlogHeaderSize : Nat := 16

def binlogHeader (buildModeId : UInt8) (timestamp : UInt32) : List UInt8 :=
  binlogSignature ++ toBytesLE 4 (c3libVersionId buildModeId) ++ toBytesLE 4 timestamp.toNat

/-- A header with another timestamp is accepted too, if only with a warning. -/
def readBinlogHeader (content : List UInt8) : Bool :=
  binlogHeaderSize ≤ content.length && content.take 8 = binlogSignature &&
    ofBytesLE ((content.drop 8).take 4) / 2 ^ 24 % 2 ^ 8 = c3VersionMajor

/-! ## Loading -/

structure Loaded where
  posted : List SharedBuffers
  error : Bool

/-- The loop of `load_binlog()`, for a file of `total` bytes of which `current` have been read.
`blocks` is the memory that the reader at an offset gets; it may hold anything. -/
def loadLoop (blocks : Nat → SharedBuffers) (sizes : Nat → Nat → Nat) (total : Nat) :
    Nat → Nat → List UInt8 → Loaded
  | fuel, current, incoming =>
    if current < total then
      match fuel with
      | 0 => ⟨[], true⟩
      | fuel + 1 =>
        let call := FileCommandReader.read (sizes current) (.create (blocks current)) incoming
        if call.outcome = .returns .ok then
          let rest := loadLoop blocks sizes total fuel (current + call.ntotal) call.device.incoming
          ⟨call.reader.sb :: rest.posted, rest.error⟩
        else ⟨[], true⟩
    else ⟨[], false⟩

def FileInputPipeline.loadBinlog (files : Files) (blocks : Nat → SharedBuffers)
    (sizes : Nat → Nat → Nat) (path : String) : Loaded :=
  match files path with
  | some content =>
    if readBinlogHeader content then
      loadLoop blocks sizes content.length content.length binlogHeaderSize
        (content.drop binlogHeaderSize)
    else ⟨[], true⟩
  | none => ⟨[], true⟩

/-- A file that was written by this version and holds these commands; where there is no file, there
are none. -/
def Stores : Option (List UInt8) → List BinlogCommand → Prop
  | none, commands => commands = []
  | some content, commands => ∃ header : List UInt8, header.length = binlogHeaderSize ∧
      readBinlogHeader header ∧ content = header ++ commands.flatMap BinlogCommand.bytes ∧
      ∀ c ∈ commands, c.WellFormed

theorem length_binlogHeader (buildModeId : UInt8) (timestamp : UInt32) :
    (binlogHeader buildModeId timestamp).length = binlogHeaderSize := by
  simp only [binlogHeader, List.length_append, length_toBytesLE]
  rfl

theorem readBinlogHeader_append {header : List UInt8} (hlength : header.length = binlogHeaderSize)
    (hread : readBinlogHeader header) (rest : List UInt8) : readBinlogHeader (header ++ rest) := by
  simp only [binlogHeaderSize] at hlength
  simp only [readBinlogHeader, Bool.and_eq_true, decide_eq_true_eq] at hread ⊢
  obtain ⟨⟨hsize, hsignature⟩, hversion⟩ := hread
  refine ⟨⟨?_, ?_⟩, ?_⟩
  · rw [List.length_append]
    omega
  · rwa [List.take_append_of_le_length (by omega)]
  · rwa [List.drop_append_of_le_length (by omega),
      List.take_append_of_le_length (by rw [List.length_drop]; omega)]

theorem readBinlogHeader_binlogHeader (buildModeId : UInt8) (timestamp : UInt32) :
    readBinlogHeader (binlogHeader buildModeId timestamp) := by
  have hbuild := buildModeId.toNat_lt
  have hversion : c3libVersionId buildModeId < 256 ^ 4 := by
    simp only [c3libVersionId, c3VersionMajor]
    omega
  simp only [readBinlogHeader, Bool.and_eq_true, decide_eq_true_eq]
  refine ⟨⟨(length_binlogHeader _ _).ge, ?_⟩, ?_⟩
  · rw [binlogHeader, List.append_assoc]
    exact List.take_left' rfl
  · have hfield : ((binlogHeader buildModeId timestamp).drop 8).take 4 =
        toBytesLE 4 (c3libVersionId buildModeId) := by
      rw [binlogHeader, List.append_assoc, List.drop_left'
        (show binlogSignature.length = 8 from rfl)]
      exact List.take_left' (length_toBytesLE _ _)
    rw [hfield, ofBytesLE_toBytesLE hversion, c3libVersionId, c3VersionMajor]
    omega

theorem stores_binlogHeader (buildModeId : UInt8) (timestamp : UInt32) :
    Stores (some (binlogHeader buildModeId timestamp)) [] :=
  ⟨binlogHeader buildModeId timestamp, length_binlogHeader _ _, readBinlogHeader_binlogHeader _ _,
    by simp, by simp⟩

theorem Stores.readBinlogHeader {content : List UInt8}
    (h : Stores (some content) commands) : CyberCache.readBinlogHeader content := by
  obtain ⟨header, hlength, hread, rfl, -⟩ := h
  exact readBinlogHeader_append hlength hread _

theorem Stores.append {content : List UInt8}
    (h : Stores (some content) commands) {c : BinlogCommand} (hc : c.WellFormed) :
    Stores (some (content ++ c.bytes)) (commands ++ [c]) := by
  obtain ⟨header, hlength, hread, rfl, hwell⟩ := h
  refine ⟨header, hlength, hread, by simp, ?_⟩
  simp only [List.mem_append, List.mem_singleton]
  rintro c' (hc' | rfl)
  · exact hwell c' hc'
  · exact hc

/-- Well-formed commands are read one by one, and the loop goes on with what follows them. -/
theorem loadLoop_append {blocks : Nat → SharedBuffers} (hblocks : ∀ n, (blocks n).Fresh)
    (sizes : Nat → Nat → Nat) {total current : Nat} (fuel : Nat) (rest : List UInt8)
    (hwell : ∀ c ∈ commands, c.WellFormed)
    (htotal : current + (commands.flatMap BinlogCommand.bytes ++ rest).length = total) :
    ∃ posted, posted.map SharedBuffers.command = commands ∧
      loadLoop blocks sizes total (commands.length + fuel) current
          (commands.flatMap BinlogCommand.bytes ++ rest) =
        ⟨posted ++ (loadLoop blocks sizes total fuel (total - rest.length) rest).posted,
          (loadLoop blocks sizes total fuel (total - rest.length) rest).error⟩ := by
  induction commands generalizing current with
  | nil =>
    obtain rfl : current = total - rest.length := by simp at htotal; omega
    exact ⟨[], rfl, by simp⟩
  | cons c commands ih =>
    have hc := hwell c List.mem_cons_self
    have hpos := hc.bytes_pos
    rw [List.flatMap_cons, List.append_assoc] at htotal ⊢
    rw [List.length_append] at htotal
    obtain ⟨call, hcall, hok, hntotal, hincoming, hholds⟩ := WellFormed.read_file hc
      (hblocks current) (sizes current) (commands.flatMap BinlogCommand.bytes ++ rest)
    have hnext : current + call.ntotal +
        (commands.flatMap BinlogCommand.bytes ++ rest).length = total := by
      rw [hntotal, Nat.add_assoc]
      exact htotal
    obtain ⟨posted, hposted, hloop⟩ := ih (fun c' hc' => hwell c' (List.mem_cons_of_mem _ hc'))
      hnext
    refine ⟨call.reader.sb :: posted, by rw [List.map_cons, hholds.command_eq hc, hposted], ?_⟩
    rw [List.length_cons, Nat.succ_add, loadLoop, if_pos (by omega)]
    simp only [BinlogCommand.bytes, hcall, hok, if_true, hincoming, hloop, List.cons_append]

theorem length_le_flatMap_bytes (hwell : ∀ c ∈ commands, c.WellFormed) :
    commands.length ≤ (commands.flatMap BinlogCommand.bytes).length := by
  have hsum := (commands.map fun c => c.bytes.length).length_le_sum_of_one_le ?_
  · rwa [List.length_map, ← List.length_flatMap] at hsum
  · intro n hn
    obtain ⟨c, hc, rfl⟩ := List.mem_map.mp hn
    exact (hwell c hc).bytes_pos

theorem FileInputPipeline.loadBinlog_append {files : Files} {path : String}
    {content rest : List UInt8} (h : Stores (some content) commands)
    (hfile : files path = some (content ++ rest)) {blocks : Nat → SharedBuffers}
    (hblocks : ∀ n, (blocks n).Fresh) (sizes : Nat → Nat → Nat) :
    ∃ posted fuel current, posted.map SharedBuffers.command = commands ∧ rest.length ≤ fuel ∧
      loadBinlog files blocks sizes path =
        ⟨posted ++ (loadLoop blocks sizes (current + rest.length) fuel current rest).posted,
          (loadLoop blocks sizes (current + rest.length) fuel current rest).error⟩ := by
  obtain ⟨header, hlength, hheader, rfl, hwell⟩ := h
  rw [List.append_assoc] at hfile
  have hread := readBinlogHeader_append hlength hheader (commands.flatMap BinlogCommand.bytes ++
    rest)
  have hle := length_le_flatMap_bytes hwell
  obtain ⟨fuel, hfuel⟩ : ∃ fuel, (header ++ (commands.flatMap BinlogCommand.bytes ++ rest)).length =
      commands.length + fuel := Nat.exists_eq_add_of_le (by simp only [List.length_append]; omega)
  obtain ⟨posted, hposted, hloop⟩ := loadLoop_append hblocks sizes fuel rest hwell
    List.length_append.symm
  refine ⟨posted, fuel, (header ++ (commands.flatMap BinlogCommand.bytes ++ rest)).length -
    rest.length, hposted, ?_, ?_⟩
  · simp only [List.length_append] at hfuel
    omega
  · rw [Nat.sub_add_cancel (by simp only [List.length_append]; omega), ← hloop, ← hfuel]
    simp only [loadBinlog, hfile, hread, if_true, ← hlength, List.drop_left]

theorem FileInputPipeline.loadBinlog_posts {files : Files} {path : String}
    (h : Stores (files path) commands) (hfile : files path ≠ none)
    {blocks : Nat → SharedBuffers} (hblocks : ∀ n, (blocks n).Fresh) (sizes : Nat → Nat → Nat) :
    (loadBinlog files blocks sizes path).error = false ∧
    (loadBinlog files blocks sizes path).posted.map SharedBuffers.command = commands := by
  obtain ⟨content, hcontent⟩ := Option.ne_none_iff_exists'.mp hfile
  rw [hcontent] at h
  obtain ⟨posted, fuel, current, hposted, -, hload⟩ := loadBinlog_append h
    (hcontent.trans (congrArg some (List.append_nil content).symm)) hblocks sizes
  rw [hload]
  unfold loadLoop
  simpa using hposted

/-! ## Writing -/

inductive SyncMode where
  | none
  | dataOnly
  | full
deriving DecidableEq, Repr

/-- The pipeline and the files around it. `position` is the position in the open file, if there is
one. The last three fields are not part of the program: the commands in each file, the files that
were moved away since the pipeline was given its path, in this order, and the commands that were in
the file of that path at that time together with those processed since while a binlog was open. -/
structure FileOutputPipeline where
  files : Files
  path : Option String
  rotationPath : Option String
  position : Option Nat
  currentSize : Nat
  maxSize : Nat
  syncMode : SyncMode
  buildModeId : UInt8
  held : String → List BinlogCommand
  rotated : List String
  recorded : List BinlogCommand

inductive FileOutputCommand where
  | openBinlog (path : String) (now : UInt32)
  | closeBinlog
  /-- `names` are the names that are tried for the file. -/
  | rotateBinlog (names : List String) (now : UInt32)
  /-- `valid` is the answer of `get_log_rotation_type()`. -/
  | setRotationPath (path : String) (valid : Bool)
  | disableRotation
  | setRotationThreshold (threshold : Nat)
  | setSyncMode (mode : SyncMode) (now : UInt32)
  | processObject (rw : ReaderWriter) (sizes : Nat → Nat) (names : List String) (now : UInt32)

namespace FileOutputPipeline

variable {path : String}

def minRotationThreshold : Nat := 2 ^ 20
def defaultRotationThreshold : Nat := 256 * 2 ^ 20
def maxRotationThreshold : Nat := 2 ^ 40

def create (files : Files) (held : String → List BinlogCommand) (buildModeId : UInt8) :
    FileOutputPipeline where
  files := files
  path := none
  rotationPath := none
  position := none
  currentSize := 0
  maxSize := defaultRotationThreshold
  syncMode := .none
  buildModeId := buildModeId
  held := held
  rotated := []
  recorded := []

def closeBinlog (s : FileOutputPipeline) : FileOutputPipeline :=
  { s with position := none, currentSize := 0 }

def openBinlog (s : FileOutputPipeline) (now : UInt32) : FileOutputPipeline :=
  match s.path with
  | none => s
  | some path =>
    match s.files path with
    | some content =>
      if readBinlogHeader content then
        { s with position := some content.length, currentSize := content.length }
      else { s with position := none, currentSize := 0 }
    | none =>
      let header := binlogHeader s.buildModeId now
      { s with
        files := update s.files path (some header)
        position := some header.length
        currentSize := binlogHeaderSize }

/-- `rotate_log()`: the file gets the first of the names that no other file has; a path of one
byte is refused. -/
def rotateLog (s : FileOutputPipeline) (path : String) (names : List String) : FileOutputPipeline :=
  match s.files path, names.find? fun name => (s.files name).isNone with
  | some content, some name =>
    if 2 ≤ path.utf8ByteSize then
      { s with
        files := update (update s.files name (some content)) path none
        held := update (update s.held name (s.held path)) path []
        rotated := s.rotated ++ [name] }
    else s
  | _, _ => s

def rotateBinlog (s : FileOutputPipeline) (names : List String) (now : UInt32) :
    FileOutputPipeline :=
  match s.path with
  | none => s
  | some path => (s.closeBinlog.rotateLog path names).openBinlog now

def overwrite (content : List UInt8) (position : Nat) (bytes : List UInt8) : List UInt8 :=
  content.take position ++ bytes ++ content.drop (position + bytes.length)

/-- `write()` on the open file: the bytes that got there count, whatever the result. -/
def append (s : FileOutputPipeline) (path : String) (position : Nat) (call : WriteCall)
    (command : BinlogCommand) : FileOutputPipeline :=
  { s with
    files := update s.files path
      (some (overwrite ((s.files path).getD []) position call.output))
    position := some (position + call.output.length)
    held := update s.held path (s.held path ++ [command])
    recorded := s.recorded ++ [command] }

def processObject (s : FileOutputPipeline) (rw : ReaderWriter) (sizes : Nat → Nat)
    (names : List String) (now : UInt32) : FileOutputPipeline :=
  match s.path, s.position with
  | some path, some position =>
    let call := FileCommandWriter.write sizes (CommandWriter.ioRewind rw)
    let s := s.append path position call rw.sb.command
    if call.result = .ok then
      let s := { s with currentSize := s.currentSize + call.ntotal }
      if s.maxSize ≤ s.currentSize ∧ s.rotationPath.isSome then s.rotateBinlog names now else s
    else s
  -- no binlog: the object is ignored
  | _, _ => s

/-- The pipeline is pointed at a file; another path starts another history. -/
def setPath (s : FileOutputPipeline) (path : String) : FileOutputPipeline :=
  if s.path = some path then s
  else { s with path := some path, rotated := [], recorded := s.held path }

def step (s : FileOutputPipeline) : FileOutputCommand → Option FileOutputPipeline
  | .openBinlog path now => some ((s.closeBinlog.setPath path).openBinlog now)
  | .closeBinlog => some s.closeBinlog
  | .rotateBinlog names now =>
    some (if s.rotationPath.isSome then s.rotateBinlog names now else s)
  | .setRotationPath path valid =>
    some (if valid then { s with rotationPath := some path } else s)
  | .disableRotation => some { s with rotationPath := none }
  | .setRotationThreshold threshold =>
    some (if minRotationThreshold ≤ threshold ∧ threshold ≤ maxRotationThreshold then
      { s with maxSize := threshold } else s)
  | .setSyncMode mode now =>
    some (if s.syncMode ≠ mode then
      ({ s.closeBinlog with syncMode := mode }).openBinlog now else s)
  | .processObject rw sizes names now => some (s.processObject rw sizes names now)

/-! ## What the files hold -/

/-- Every file holds its commands, and the files of the current history hold those that were
recorded. -/
structure Kept (s : FileOutputPipeline) : Prop where
  files : ∀ path, Stores (s.files path) (s.held path)
  rotated : ∀ name ∈ s.rotated, s.files name ≠ none
  current : ∀ path, s.path = some path → path ∉ s.rotated
  recorded : ∀ path, s.path = some path →
    s.recorded = s.rotated.flatMap s.held ++ s.held path

/-- The end of the open file is where the pipeline writes, and its length is known. -/
structure Consistent (s : FileOutputPipeline) : Prop extends Kept s where
  exists_file : ∀ path, s.path = some path → s.files path ≠ none
  size : ∀ position, s.position = some position → ∃ path content, s.path = some path ∧
    s.files path = some content ∧ position = content.length ∧ s.currentSize = content.length

variable {s : FileOutputPipeline}

theorem flatMap_update {held : String → List BinlogCommand} {names : List String}
    (h : path ∉ names) (commands : List BinlogCommand) :
    names.flatMap (update held path commands) = names.flatMap held := by
  apply List.flatMap_congr
  intro name hname
  exact update_of_ne (ne_of_mem_of_not_mem hname h) _ _

theorem Consistent.create {files : Files} {held : String → List BinlogCommand}
    (h : ∀ path, Stores (files path) (held path)) (buildModeId : UInt8) :
    (create files held buildModeId).Consistent where
  files := h
  rotated := by simp [FileOutputPipeline.create]
  current := by simp [FileOutputPipeline.create]
  recorded := by simp [FileOutputPipeline.create]
  exists_file := by simp [FileOutputPipeline.create]
  size := by simp [FileOutputPipeline.create]

theorem Consistent.closeBinlog (h : s.Consistent) : s.closeBinlog.Consistent where
  files := h.files
  rotated := h.rotated
  current := h.current
  recorded := h.recorded
  exists_file := h.exists_file
  size := by simp [FileOutputPipeline.closeBinlog]

theorem Kept.setPath (h : s.Kept) (path : String) : (s.setPath path).Kept := by
  unfold FileOutputPipeline.setPath
  split_ifs with hsame
  · exact h
  · constructor
    · exact h.files
    · simp
    · simp
    · simp

theorem openBinlog_of_none (hpath : s.path = none) (now : UInt32) : s.openBinlog now = s := by
  unfold FileOutputPipeline.openBinlog
  split
  · rfl
  · simp_all

theorem openBinlog_existing {content : List UInt8} (hpath : s.path = some path)
    (hfile : s.files path = some content) (hread : readBinlogHeader content) (now : UInt32) :
    s.openBinlog now =
      { s with position := some content.length, currentSize := content.length } := by
  unfold FileOutputPipeline.openBinlog
  split
  · simp_all
  · obtain rfl : _ = path := Option.some.inj (Eq.trans (Eq.symm ‹_›) hpath)
    split <;> simp_all

theorem openBinlog_new (hpath : s.path = some path) (hfile : s.files path = none) (now : UInt32) :
    s.openBinlog now = { s with
      files := update s.files path (some (binlogHeader s.buildModeId now))
      position := some (binlogHeader s.buildModeId now).length
      currentSize := binlogHeaderSize } := by
  unfold FileOutputPipeline.openBinlog
  split
  · simp_all
  · obtain rfl : _ = path := Option.some.inj (Eq.trans (Eq.symm ‹_›) hpath)
    split <;> simp_all

theorem Kept.openBinlog (h : s.Kept) (hclosed : s.position = none) (now : UInt32) :
    (s.openBinlog now).Consistent := by
  cases hpath : s.path with
  | none =>
    rw [openBinlog_of_none hpath]
    exact { h with
      exists_file := by simp [hpath]
      size := by simp [hclosed] }
  | some path =>
    have hstores := h.files path
    cases hfile : s.files path with
    | some content =>
      rw [hfile] at hstores
      rw [openBinlog_existing hpath hfile hstores.readBinlogHeader]
      constructor
      · exact ⟨h.files, h.rotated, h.current, h.recorded⟩
      · intro path' hpath'
        obtain rfl : path = path' := Option.some.inj (hpath.symm.trans hpath')
        simp [hfile]
      · rintro position ⟨⟩
        exact ⟨path, content, hpath, hfile, rfl, rfl⟩
    | none =>
      have hnew : s.held path = [] := by simpa [hfile, Stores] using hstores
      rw [openBinlog_new hpath hfile]
      constructor
      · constructor
        · intro path'
          by_cases hsame : path' = path
          · subst hsame
            simp only [hnew, update_self]
            exact stores_binlogHeader _ _
          · simp only [update_of_ne hsame]
            exact h.files path'
        · intro name hname
          simp only [update_of_ne (ne_of_mem_of_not_mem hname (h.current path hpath))]
          exact h.rotated name hname
        · exact h.current
        · exact h.recorded
      · intro path' hpath'
        obtain rfl : path = path' := Option.some.inj (hpath.symm.trans hpath')
        simp
      · rintro position ⟨⟩
        exact ⟨path, _, hpath, update_self path _ s.files, rfl,
          (length_binlogHeader _ _).symm⟩

theorem Kept.rotateLog (h : s.Kept) (hpath : s.path = some path)
    (names : List String) : (s.rotateLog path names).Kept := by
  unfold FileOutputPipeline.rotateLog
  split
  case h_2 => exact h
  case h_1 content name hfile hname =>
    split_ifs with hlength
    · have hfree : s.files name = none := by simpa using List.find?_some hname
      have hne : name ≠ path := by
        rintro rfl
        simp [hfile] at hfree
      have hnot : name ∉ s.rotated := fun hmem => h.rotated name hmem hfree
      have hcurrent := h.current path hpath
      constructor
      · intro path'
        simp only
        by_cases hsame : path' = path
        · subst hsame
          simp [Stores]
        · rw [update_of_ne hsame, update_of_ne hsame]
          by_cases hmoved : path' = name
          · subst hmoved
            rw [update_self, update_self, ← hfile]
            exact h.files path
          · rw [update_of_ne hmoved, update_of_ne hmoved]
            exact h.files path'
      · intro name' hname'
        simp only [List.mem_append, List.mem_singleton] at hname'
        simp only
        obtain hname' | rfl := hname'
        · rw [update_of_ne (ne_of_mem_of_not_mem hname' hcurrent),
            update_of_ne (ne_of_mem_of_not_mem hname' hnot)]
          exact h.rotated name' hname'
        · simp [update_of_ne hne]
      · intro path' hpath'
        obtain rfl : path = path' := Option.some.inj (hpath.symm.trans hpath')
        simp [hcurrent, hne.symm]
      · intro path' hpath'
        obtain rfl : path = path' := Option.some.inj (hpath.symm.trans hpath')
        simp only [List.flatMap_append, flatMap_update hcurrent, flatMap_update hnot,
          List.flatMap_singleton, update_of_ne hne, update_self, List.append_nil]
        exact h.recorded path hpath
    · exact h

theorem rotateLog_position (path : String) (names : List String) :
    (s.rotateLog path names).position = s.position := by
  unfold FileOutputPipeline.rotateLog
  split
  · split_ifs <;> rfl
  · rfl

theorem Consistent.rotateBinlog (h : s.Consistent) (names : List String) (now : UInt32) :
    (s.rotateBinlog names now).Consistent := by
  unfold FileOutputPipeline.rotateBinlog
  split
  · exact h
  · rename_i path hpath
    apply (h.closeBinlog.toKept.rotateLog hpath names).openBinlog
    exact rotateLog_position path names

theorem Consistent.append (h : s.Consistent) {position : Nat} (hpath : s.path = some path)
    (hposition : s.position = some position) {call : WriteCall} {c : BinlogCommand}
    (hc : c.WellFormed) (houtput : call.output = c.bytes) (hntotal : call.ntotal = c.bytes.length) :
    ({ s.append path position call c with currentSize := s.currentSize + call.ntotal } :
      FileOutputPipeline).Consistent := by
  obtain ⟨path', content, hpath', hfile, rfl, hsize⟩ := h.size position hposition
  obtain rfl : path = path' := Option.some.inj (hpath.symm.trans hpath')
  have hcontent : overwrite content content.length c.bytes = content ++ c.bytes := by
    simp [overwrite]
  have hstores := h.files path
  rw [hfile] at hstores
  simp only [FileOutputPipeline.append, hfile, Option.getD_some, houtput, hcontent, hntotal]
  constructor
  · constructor
    · intro path'
      simp only
      by_cases hsame : path' = path
      · subst hsame
        rw [update_self, update_self]
        exact hstores.append hc
      · rw [update_of_ne hsame, update_of_ne hsame]
        exact h.files path'
    · intro name hname
      simp only
      rw [update_of_ne (ne_of_mem_of_not_mem hname (h.current path hpath))]
      exact h.rotated name hname
    · exact h.current
    · intro path' hpath'
      obtain rfl : path = path' := Option.some.inj (hpath.symm.trans hpath')
      simp only [flatMap_update (h.current path hpath), update_self,
        h.recorded path hpath, List.append_assoc]
  · intro path' hpath'
    obtain rfl : path = path' := Option.some.inj (hpath.symm.trans hpath')
    simp
  · rintro position ⟨⟩
    exact ⟨path, content ++ c.bytes, hpath, update_self path _ s.files, by simp,
      by simp [hsize]⟩

theorem Consistent.processObject (h : s.Consistent) {rw : ReaderWriter}
    (hc : rw.sb.command.WellFormed) (sizes : Nat → Nat) (names : List String) (now : UInt32) :
    (s.processObject rw sizes names now).Consistent := by
  unfold FileOutputPipeline.processObject
  split
  case h_2 => exact h
  case h_1 path position hpath hposition =>
    obtain ⟨call, hcall, hok, houtput, hntotal⟩ :=
      WellFormed.write_file hc (w := CommandWriter.ioRewind rw) rfl rw.sb.holds_command sizes
    have hwritten := h.append hpath hposition hc houtput hntotal
    simp only [hcall, hok, if_true]
    split_ifs
    · exact hwritten.rotateBinlog names now
    · exact hwritten

end FileOutputPipeline

/-- A command that the pipeline is given to write has a header that holds what it announces. -/
def FileOutputCommand.Intact : FileOutputCommand → Prop
  | .processObject rw _ _ _ => rw.sb.command.WellFormed
  | _ => True

namespace FileOutputPipeline

variable {s : FileOutputPipeline}

theorem Consistent.step {s' : FileOutputPipeline} (h : s.Consistent) {command : FileOutputCommand}
    (hintact : command.Intact) (hstep : s.step command = some s') : s'.Consistent := by
  cases command with
  | openBinlog path now =>
    cases hstep
    refine (h.closeBinlog.toKept.setPath path).openBinlog ?_ now
    unfold FileOutputPipeline.setPath
    split_ifs <;> rfl
  | closeBinlog =>
    cases hstep
    exact h.closeBinlog
  | rotateBinlog names now =>
    cases hstep
    split_ifs
    · exact h.rotateBinlog names now
    · exact h
  | setRotationPath path valid =>
    cases hstep
    split_ifs
    · exact ⟨⟨h.files, h.rotated, h.current, h.recorded⟩, h.exists_file, h.size⟩
    · exact h
  | disableRotation =>
    cases hstep
    exact ⟨⟨h.files, h.rotated, h.current, h.recorded⟩, h.exists_file, h.size⟩
  | setRotationThreshold threshold =>
    cases hstep
    split_ifs
    · exact ⟨⟨h.files, h.rotated, h.current, h.recorded⟩, h.exists_file, h.size⟩
    · exact h
  | setSyncMode mode now =>
    cases hstep
    split_ifs
    · have hclosed := h.closeBinlog
      have hkept : ({ s.closeBinlog with syncMode := mode } : FileOutputPipeline).Kept :=
        ⟨hclosed.files, hclosed.rotated, hclosed.current, hclosed.recorded⟩
      exact hkept.openBinlog rfl now
    · exact h
  | processObject rw sizes names now =>
    cases hstep
    exact h.processObject hintact sizes names now

/-! ## Loading what was written -/

/-- Loading the files that were moved away, in this order, and then the current file posts the
recorded commands and reports no error, whatever is in the memory that the readers get. -/
def Reloads (s : FileOutputPipeline) : Prop :=
  ∀ path, s.path = some path → ∀ (blocks : String → Nat → SharedBuffers)
    (sizes : String → Nat → Nat → Nat), (∀ path n, (blocks path n).Fresh) →
    let loaded := (s.rotated ++ [path]).map fun path =>
      FileInputPipeline.loadBinlog s.files (blocks path) (sizes path) path
    (∀ l ∈ loaded, l.error = false) ∧
      loaded.flatMap (fun l => l.posted.map SharedBuffers.command) = s.recorded

/-- The size of the open file, as the pipeline has it, is the length of the file. -/
def KnowsSize (s : FileOutputPipeline) : Prop :=
  s.position ≠ none → ∃ path content, s.path = some path ∧ s.files path = some content ∧
    s.currentSize = content.length

theorem Consistent.knowsSize (h : s.Consistent) : s.KnowsSize := by
  intro hopen
  obtain ⟨position, hposition⟩ := Option.ne_none_iff_exists'.mp hopen
  obtain ⟨path, content, hpath, hfile, -, hsize⟩ := h.size position hposition
  exact ⟨path, content, hpath, hfile, hsize⟩

theorem Consistent.reloads (h : s.Consistent) : s.Reloads := by
  intro path hpath blocks sizes hblocks loaded
  have hposts (name : String) (hfile : s.files name ≠ none) :=
    FileInputPipeline.loadBinlog_posts (h.files name) hfile (hblocks name) (sizes name)
  have hexists : ∀ name ∈ s.rotated ++ [path], s.files name ≠ none := by
    simp only [List.mem_append, List.mem_singleton]
    rintro name (hname | rfl)
    · exact h.rotated name hname
    · exact h.exists_file name hpath
  constructor
  · intro l hl
    obtain ⟨name, hname, rfl⟩ := List.mem_map.mp hl
    exact (hposts name (hexists name hname)).1
  · calc loaded.flatMap (fun l => l.posted.map SharedBuffers.command)
        = (s.rotated ++ [path]).flatMap s.held := by
          rw [List.flatMap_map]
          exact List.flatMap_congr fun name hname => (hposts name (hexists name hname)).2
      _ = s.rotated.flatMap s.held ++ s.held path := by simp
      _ = s.recorded := (h.recorded path hpath).symm

/-- However commands are mixed with opening, closing and moving binlogs: as long as every command
that is written is well-formed, the files hold the commands, and the pipeline knows how long its
file is. -/
theorem binlogs_reload {files : Files} {held : String → List BinlogCommand}
    (hfiles : ∀ path, Stores (files path) (held path)) (buildModeId : UInt8)
    {commands : List FileOutputCommand}
    (hrun : Reaches step (fun _ command => command.Intact) (create files held buildModeId)
      commands s) :
    s.Reloads ∧ s.KnowsSize := by
  have h : s.Consistent := hrun.invariant (Consistent.create hfiles buildModeId)
    fun _ _ _ hs hintact hstep => hs.step hintact hstep
  exact ⟨h.reloads, h.knowsSize⟩

def shortCommand (header : List UInt8) : ReaderWriter :=
  .create (.create (ofList header) fun _ => 0)

theorem ping_wellFormed : (shortCommand [0x80, 0x01]).sb.command.WellFormed :=
  ⟨by decide, by decide, by decide, by decide, by decide, by decide⟩

/-- Two `PING` commands with a rotation between them. -/
theorem binlogs_reload_two_pings :
    ∃ s : FileOutputPipeline, s.rotated = ["c3.1"] ∧
      s.recorded = [⟨[0x80, 0x01], []⟩, ⟨[0x80, 0x01], []⟩] ∧ s.Reloads ∧ s.KnowsSize := by
  let write : FileOutputCommand := .processObject (shortCommand [0x80, 0x01]) (fun _ => 0) [] 0
  have hping : write.Intact := ping_wellFormed
  have hstart : Reaches step (fun _ command => command.Intact)
      (create (fun _ => none) (fun _ => []) 0) [] (create (fun _ => none) (fun _ => []) 0) := .nil
  have hopened := hstart.snoc (i := FileOutputCommand.openBinlog "c3" 0) trivial rfl
  have hset := hopened.snoc (i := FileOutputCommand.setRotationPath "c3.%d" true) trivial rfl
  have hwritten := hset.snoc hping rfl
  have hrotated := hwritten.snoc (i := FileOutputCommand.rotateBinlog ["c3.1"] 0) trivial rfl
  have hrun := hrotated.snoc hping rfl
  have hnone : String → Stores none [] := fun _ => rfl
  exact ⟨_, by decide, by decide, binlogs_reload hnone 0 hrun⟩

/-- A `DESTROY` command whose header announces a payload but ends before its size: the reader takes
the size from what happens to be in its memory, and with it the next command. -/
theorem short_header_swallows_command :
    ∃ s : FileOutputPipeline, Reaches step (fun _ _ => True)
      (create (fun _ => none) (fun _ => []) 0)
      [.openBinlog "c3" 0, .processObject (shortCommand [0x14, 0x01, 0x23]) (fun _ => 0) [] 0,
        .processObject (shortCommand [0x80, 0x01]) (fun _ => 0) [] 0] s ∧ ¬ s.Reloads := by
  have hstart : Reaches step (fun _ _ => True) (create (fun _ => none) (fun _ => []) 0) []
      (create (fun _ => none) (fun _ => []) 0) := .nil
  have hrun := ((hstart.snoc (i := .openBinlog "c3" 0) trivial rfl).snoc
    (i := .processObject (shortCommand [0x14, 0x01, 0x23]) (fun _ => 0) [] 0) trivial rfl).snoc
    (i := .processObject (shortCommand [0x80, 0x01]) (fun _ => 0) [] 0) trivial rfl
  refine ⟨_, hrun, fun hreloads => ?_⟩
  have herror := (hreloads "c3" rfl (fun _ _ => .create (fun _ => 1) fun _ => 0) (fun _ _ _ => 0)
    (fun _ _ => ⟨rfl, rfl⟩)).1 _ List.mem_cons_self
  revert herror
  decide

end FileOutputPipeline

end CyberCache
