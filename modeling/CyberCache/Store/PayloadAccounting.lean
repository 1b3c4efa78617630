import CyberCache.Lib.Holdings
import CyberCache.Lib.Runs
import CyberCache.Optimizer.OptimizationPasses
import CyberCache.Types

/-!
# The memory of payloads

Every block of memory belongs to a domain, and every domain counts the bytes that it uses. The
payload of a command is read into a buffer of the domain of the connection. A store then takes the
buffer over, so that the bytes have to move to the domain of the object. An optimizer replaces the
buffer of an object by a smaller one, and needs other blocks while it looks for it. Objects without
data have a buffer that is no block of memory at all.

A payload that is not what its compressor would have made cannot be unpacked. The optimizer takes no
notice: it frees a null pointer, and the domain forgets about bytes that were never allocated.
-/

namespace CyberCache

open Function (update)

inductive MemoryDomain where
  | global
  | session
  | fpc
deriving DecidableEq, Repr

inductive BufferPointer where
  | null
  /-- `ZERO_LENGTH_BUFFER`. -/
  | stub
  | block (n : Nat)
deriving DecidableEq, Repr

def BufferPointer.IsBlock (p : BufferPointer) : Prop := ∃ n, p = .block n

/-- `PayloadHashObject`, as far as its buffer is concerned. -/
structure AccountedObject where
  buffer : BufferPointer
  size : Nat
  usize : Nat
  compressor : Compressor
  beingOptimized : Bool
  optimized : Bool
  beingDeleted : Bool
  disposed : Bool

structure CommandBuffer where
  buffer : BufferPointer
  size : Nat

structure PackedBuffer where
  compressor : Compressor
  size : Nat
  buffer : BufferPointer

structure BusyOptimizer (ι : Type) where
  object : ι
  size : Nat
  usize : Nat
  compressor : Compressor
  uncompressed : Option BufferPointer
  best : Option PackedBuffer

def BusyOptimizer.bestSize {ι : Type} (r : BusyOptimizer ι) : Nat :=
  match r.best with
  | some best => best.size
  | none => r.size

def BusyOptimizer.scratch {ι : Type} (r : BusyOptimizer ι) : Nat :=
  (match r.uncompressed with
    | some (.block _) => r.usize
    | _ => 0) + (r.best.map PackedBuffer.size).getD 0

/-- Objects `ι`, command buffers `κ` and the memory that they use. The last two fields are not part
of the program: what was freed, and the used sizes from which something was subtracted. -/
structure PayloadMemory (ι κ : Type) where
  used : MemoryDomain → Nat
  numBlocks : Nat
  objects : ι → AccountedObject
  buffers : κ → CommandBuffer
  optimizers : MemoryDomain → Option (BusyOptimizer ι)
  freed : List BufferPointer
  subtractions : List (Nat × Nat)

structure MemoryLayout (ι κ : Type) where
  object : ι → MemoryDomain
  buffer : κ → MemoryDomain

/-- What becomes of a payload that is to be unpacked. -/
inductive Unpacking where
  | succeeds
  | fails
  | hasNoEngine
deriving DecidableEq, Repr

inductive MemoryAction (ι κ : Type) where
  | setPayloadSize (b : κ) (size : Nat)
  | emptyPayload (b : κ)
  | transferPayload (b : κ) (o : ι) (usize : Nat) (compressor : Compressor)
  | unpack (o : ι) (outcome : Unpacking)
  | pack (domain : MemoryDomain) (compressor : Compressor) (actualSize : Nat)
  | freeUncompressed (domain : MemoryDomain)
  | finish (domain : MemoryDomain) (hasReaders : Bool)
  | flagBeingDeleted (o : ι)
  | tryDisposeBuffer (o : ι) (hasReaders : Bool)
  | disposeBuffer (o : ι)
  /-- `HashObject::dispose()`. -/
  | dispose (o : ι)

namespace PayloadMemory

variable {ι κ : Type} [DecidableEq ι] [DecidableEq κ]

/-! ## Memory -/

def totalUsed (s : PayloadMemory ι κ) : Nat := s.used .global + s.used .session + s.used .fpc

def addUsed (s : PayloadMemory ι κ) (d : MemoryDomain) (n : Nat) : PayloadMemory ι κ :=
  { s with used := update s.used d (ulongAdd (s.used d) n) }

def subUsed (s : PayloadMemory ι κ) (d : MemoryDomain) (n : Nat) : PayloadMemory ι κ :=
  { s with
    used := update s.used d (ulongSub (s.used d) n)
    subtractions := s.subtractions ++ [(s.used d, n)] }

/-- Blocks do not overlap, and addresses have 64 bits. -/
def alloc (s : PayloadMemory ι κ) (d : MemoryDomain) (n : Nat) :
    Option (BufferPointer × PayloadMemory ι κ) :=
  if s.totalUsed + n < ulongRange then
    some (.block s.numBlocks, { s.addUsed d n with numBlocks := s.numBlocks + 1 })
  else none

def free (s : PayloadMemory ι κ) (d : MemoryDomain) (p : BufferPointer) (n : Nat) :
    PayloadMemory ι κ :=
  { s.subUsed d n with freed := s.freed ++ [p] }

def realloc (s : PayloadMemory ι κ) (d : MemoryDomain) (newSize oldSize : Nat) :
    Option (BufferPointer × PayloadMemory ι κ) :=
  if oldSize < newSize then s.alloc d (newSize - oldSize)
  else
    some (.block s.numBlocks,
      { s.subUsed d (oldSize - newSize) with numBlocks := s.numBlocks + 1 })

def transferUsedSize (s : PayloadMemory ι κ) (target source : MemoryDomain) (n : Nat) :
    PayloadMemory ι κ :=
  if target ≠ source then (s.subUsed source n).addUsed target n else s

/-! ## Objects and command buffers -/

def setObject (s : PayloadMemory ι κ) (o : ι) (object : AccountedObject) : PayloadMemory ι κ :=
  { s with objects := update s.objects o object }

def setCommandBuffer (s : PayloadMemory ι κ) (b : κ) (buffer : CommandBuffer) : PayloadMemory ι κ :=
  { s with buffers := update s.buffers b buffer }

def setOptimizer (s : PayloadMemory ι κ) (d : MemoryDomain) (r : Option (BusyOptimizer ι)) :
    PayloadMemory ι κ :=
  { s with optimizers := update s.optimizers d r }

def setBuffer (s : PayloadMemory ι κ) (o : ι) (compressor : Compressor) (size usize : Nat)
    (buffer : BufferPointer) (memory : MemoryDomain) : PayloadMemory ι κ :=
  let object := s.objects o
  let replaces := object.buffer ≠ .null
  let s := if replaces ∧ 0 < object.size then s.free memory object.buffer object.size else s
  s.setObject o { object with
    beingOptimized := if replaces then false else object.beingOptimized
    optimized := if replaces then false else object.optimized
    buffer := if 0 < size then buffer else .stub
    size := size
    usize := usize
    compressor := compressor }

/-- `PayloadHashObject::dispose_buffer()`; the first result is the number of bytes. -/
def disposeBuffer (s : PayloadMemory ι κ) (o : ι) (memory : MemoryDomain) :
    Nat × PayloadMemory ι κ :=
  let object := s.objects o
  if object.buffer ≠ .null then
    if 0 < object.size then
      (object.size, (s.free memory object.buffer object.size).setObject o
        { object with buffer := .null, size := 0, usize := 0 })
    else (0, s.setObject o { object with buffer := .null })
  else (0, s)

def tryDisposeBuffer (s : PayloadMemory ι κ) (o : ι) (memory : MemoryDomain) (hasReaders : Bool) :
    PayloadMemory ι κ :=
  if hasReaders then s else (s.disposeBuffer o memory).2

def setPayloadSize (s : PayloadMemory ι κ) (b : κ) (memory : MemoryDomain) (size : Nat) :
    Option (PayloadMemory ι κ) :=
  if (s.buffers b).buffer ≠ .null then
    if (s.buffers b).size ≠ size then do
      let (p, s) ← s.realloc memory size (s.buffers b).size
      return s.setCommandBuffer b ⟨p, size⟩
    else some s
  else do
    let (p, s) ← s.alloc memory size
    return s.setCommandBuffer b ⟨p, size⟩

def emptyPayload (s : PayloadMemory ι κ) (b : κ) (memory : MemoryDomain) : PayloadMemory ι κ :=
  let s' :=
    if (s.buffers b).buffer ≠ .null then s.free memory (s.buffers b).buffer (s.buffers b).size
      else s
  s'.setCommandBuffer b ⟨.null, 0⟩

def transferPayload (s : PayloadMemory ι κ) (b : κ) (o : ι) (source memory : MemoryDomain)
    (usize : Nat) (compressor : Compressor) : PayloadMemory ι κ :=
  let size := (s.buffers b).size
  let buffer := if size ≠ 0 then (s.buffers b).buffer else .stub
  let s := s.setBuffer o compressor size usize buffer memory
  if size ≠ 0 then (s.transferUsedSize memory source size).setCommandBuffer b ⟨.null, 0⟩ else s

/-! ## Recompression -/

/-- The optimizer is busy with an object, and has this buffer for its uncompressed payload. -/
def occupy (s : PayloadMemory ι κ) (o : ι) (memory : MemoryDomain) (p : BufferPointer) :
    PayloadMemory ι κ :=
  let object := s.objects o
  (s.setObject o { object with beingOptimized := true }).setOptimizer memory
    (some ⟨o, object.size, object.usize, object.compressor, some p, none⟩)

/-- The optimizer copies or unpacks the payload of an object that can be optimized. -/
def unpack (s : PayloadMemory ι κ) (o : ι) (memory : MemoryDomain) :
    Unpacking → Option (PayloadMemory ι κ)
  | .succeeds => do
    let (p, s) ← s.alloc memory (s.objects o).usize
    return s.occupy o memory p
  | .fails => do
    let (p, s) ← s.alloc memory (s.objects o).usize
    return (s.free memory p (s.objects o).usize).occupy o memory .null
  | .hasNoEngine => some (s.occupy o memory .null)

def pack (s : PayloadMemory ι κ) (memory : MemoryDomain) (r : BusyOptimizer ι)
    (compressor : Compressor) (actualSize : Nat) : Option (PayloadMemory ι κ) :=
  if actualSize ≠ 0 ∧ actualSize < r.bestSize then do
    let (p, s) ← s.alloc memory actualSize
    let s := match r.best with
      | some best => s.free memory best.buffer best.size
      | none => s
    return s.setOptimizer memory (some { r with best := some ⟨compressor, actualSize, p⟩ })
  else some s

def freeUncompressed (s : PayloadMemory ι κ) (memory : MemoryDomain) (r : BusyOptimizer ι)
    (p : BufferPointer) : PayloadMemory ι κ :=
  (s.free memory p r.usize).setOptimizer memory (some { r with uncompressed := none })

/-- The object is locked again; the result is used unless somebody has interfered. -/
def finish (s : PayloadMemory ι κ) (memory : MemoryDomain) (r : BusyOptimizer ι)
    (hasReaders : Bool) :
    PayloadMemory ι κ :=
  let untouched := !(s.objects r.object).beingDeleted && (s.objects r.object).beingOptimized &&
    !hasReaders
  let s := match r.best with
    | some best =>
      if untouched then s.setBuffer r.object best.compressor best.size r.usize best.buffer memory
      else s.free memory best.buffer best.size
    | none => s
  let object := s.objects r.object
  (s.setObject r.object { object with
    optimized := if untouched then true else object.optimized
    beingOptimized := false }).setOptimizer memory none

variable (layout : MemoryLayout ι κ)

/-- Objects are used until they are disposed. An optimizer is busy with one object at a time. -/
def step (s : PayloadMemory ι κ) : MemoryAction ι κ → Option (PayloadMemory ι κ)
  | .setPayloadSize b size => if 0 < size then s.setPayloadSize b (layout.buffer b) size else none
  | .emptyPayload b => some (s.emptyPayload b (layout.buffer b))
  | .transferPayload b o usize compressor =>
    if (s.objects o).disposed = false then
      some (s.transferPayload b o (layout.buffer b) (layout.object o) usize compressor)
    else none
  | .unpack o outcome =>
    if (s.objects o).disposed = false ∧ 0 < (s.objects o).size ∧
        (s.optimizers (layout.object o)).isNone ∧
        ((s.objects o).compressor = .none → outcome = .succeeds) then
      s.unpack o (layout.object o) outcome
    else none
  | .pack d compressor actualSize => do
    let r ← s.optimizers d
    if r.uncompressed.isSome then s.pack d r compressor actualSize else none
  | .freeUncompressed d => do
    let r ← s.optimizers d
    let p ← r.uncompressed
    return s.freeUncompressed d r p
  | .finish d hasReaders => do
    let r ← s.optimizers d
    if r.uncompressed.isNone ∧ (s.objects r.object).disposed = false then
      some (s.finish d r hasReaders)
    else none
  | .flagBeingDeleted o => some (s.setObject o { s.objects o with beingDeleted := true })
  | .tryDisposeBuffer o hasReaders =>
    if (s.objects o).disposed = false then some (s.tryDisposeBuffer o (layout.object o) hasReaders)
    else none
  | .disposeBuffer o =>
    if (s.objects o).disposed = false then some (s.disposeBuffer o (layout.object o)).2 else none
  | .dispose o =>
    if (s.objects o).disposed = false then
      let s := (s.disposeBuffer o (layout.object o)).2
      some (s.setObject o { s.objects o with disposed := true })
    else none

/-- Every payload that the optimizer examines can be unpacked. -/
def unpacks : MemoryAction ι κ → Bool
  | .unpack _ outcome => outcome = .succeeds
  | _ => true

def start : PayloadMemory ι κ where
  used := fun _ => 0
  numBlocks := 0
  objects := fun _ => ⟨.null, 0, 0, .none, false, false, false, false⟩
  buffers := fun _ => ⟨.null, 0⟩
  optimizers := fun _ => none
  freed := []
  subtractions := []

/-! ## What is asked for -/

variable [Fintype ι] [Fintype κ]

/-- What payloads use: those of objects, and those that command buffers still own. -/
def payloadSize (s : PayloadMemory ι κ) (d : MemoryDomain) : Nat :=
  holdings layout.object (fun o => (s.objects o).size) d +
    holdings layout.buffer (fun b => (s.buffers b).size) d

def scratchSize (s : PayloadMemory ι κ) (d : MemoryDomain) : Nat :=
  ((s.optimizers d).map BusyOptimizer.scratch).getD 0

structure Accounted (s : PayloadMemory ι κ) : Prop where
  used : ∀ d, s.used d = s.payloadSize layout d + s.scratchSize d
  subtractions : ∀ e ∈ s.subtractions, e.2 ≤ e.1
  freed : ∀ p ∈ s.freed, p.IsBlock
  stub : ∀ o, (s.objects o).buffer = .stub → (s.objects o).size = 0

/-! ## Primitives -/

/-- The counters have not wrapped, and only blocks were freed. -/
structure Orderly (s : PayloadMemory ι κ) : Prop where
  bounded : s.totalUsed < ulongRange
  subtractions : ∀ e ∈ s.subtractions, e.2 ≤ e.1
  freed : ∀ p ∈ s.freed, p.IsBlock

omit [DecidableEq ι] [DecidableEq κ] [Fintype ι] [Fintype κ]

variable {s s' : PayloadMemory ι κ} {d : MemoryDomain} {n : Nat} {p : BufferPointer}

theorem used_le_totalUsed (s : PayloadMemory ι κ) (d : MemoryDomain) : s.used d ≤ s.totalUsed := by
  cases d <;> simp only [totalUsed] <;> omega

theorem totalUsed_of_used (h : s'.used = update s.used d n) :
    s'.totalUsed + s.used d = s.totalUsed + n := by
  simp only [totalUsed, h]
  cases d <;> simp <;> omega

namespace Orderly

theorem addUsed (h : s.Orderly) (hfits : s.totalUsed + n < ulongRange) :
    (s.addUsed d n).Orderly ∧ (s.addUsed d n).used = update s.used d (s.used d + n) := by
  have hle := s.used_le_totalUsed d
  have hused : (s.addUsed d n).used = update s.used d (s.used d + n) := by
    rw [PayloadMemory.addUsed, ulongAdd, Nat.mod_eq_of_lt (by omega)]
  have htotal := totalUsed_of_used hused
  exact ⟨⟨by omega, h.subtractions, h.freed⟩, hused⟩

theorem subUsed (h : s.Orderly) (hn : n ≤ s.used d) :
    (s.subUsed d n).Orderly ∧ (s.subUsed d n).used = update s.used d (s.used d - n) := by
  have hle := s.used_le_totalUsed d
  have hbounded := h.bounded
  have hused : (s.subUsed d n).used = update s.used d (s.used d - n) := by
    rw [PayloadMemory.subUsed, ulongSub_eq (by omega) hn]
  have htotal := totalUsed_of_used hused
  refine ⟨⟨by omega, fun e he => ?_, h.freed⟩, hused⟩
  obtain he | he := List.mem_append.mp he
  · exact h.subtractions e he
  · obtain rfl := List.mem_singleton.mp he
    exact hn

end Orderly

/-! ## The invariant -/

section

variable [Fintype ι] [Fintype κ] (layout : MemoryLayout ι κ)

/-- Whatever has a size has a block of its own. -/
structure Backed (s : PayloadMemory ι κ) : Prop extends s.Orderly where
  objects : ∀ o, 0 < (s.objects o).size → (s.objects o).buffer.IsBlock
  buffers : ∀ b, (s.buffers b).buffer.IsBlock ∨ (s.buffers b).buffer = .null ∧
    (s.buffers b).size = 0
  optimizers : ∀ d r, s.optimizers d = some r → layout.object r.object = d ∧
    (∀ p, r.uncompressed = some p → p.IsBlock) ∧ ∀ best, r.best = some best → best.buffer.IsBlock

structure Valid (s : PayloadMemory ι κ) : Prop extends s.Backed layout where
  used : ∀ d, s.used d = s.payloadSize layout d + s.scratchSize d

/-- The invariant in the middle of an operation: so many bytes of a domain belong to nothing yet, or
no longer. -/
structure Balanced (s : PayloadMemory ι κ) (d : MemoryDomain) (excess : Int) : Prop
    extends s.Backed layout where
  used : ∀ d', (s.used d' : Int) =
    s.payloadSize layout d' + s.scratchSize d' + if d' = d then excess else 0

variable {layout} {o : ι} {b : κ} {excess : Int}

namespace Valid

theorem accounted (h : s.Valid layout) : s.Accounted layout where
  used := h.used
  subtractions := h.subtractions
  freed := h.freed
  stub o hstub := by
    by_contra hsize
    obtain ⟨n, hblock⟩ := h.objects o (Nat.pos_of_ne_zero hsize)
    rw [hstub] at hblock
    cases hblock

theorem balanced (h : s.Valid layout) (d : MemoryDomain) : s.Balanced layout d 0 :=
  { h with used := fun d' => by simp [h.used d'] }

end Valid

namespace Balanced

theorem valid (h : s.Balanced layout d excess) (hzero : excess = 0) : s.Valid layout :=
  { h with
    used := fun d' => by
      have hused := h.used d'
      simp only [hzero, ite_self] at hused
      omega }

theorem object_size_le (h : s.Balanced layout (layout.object o) excess) :
    (s.objects o).size + excess ≤ s.used (layout.object o) := by
  have hle := amount_le_holdings layout.object (fun o => (s.objects o).size) o
  have hused := h.used (layout.object o)
  simp only [payloadSize, if_true] at hused
  omega

theorem scratchSize_le (h : s.Balanced layout d excess) : s.scratchSize d + excess ≤ s.used d := by
  have hused := h.used d
  simp only [if_true] at hused
  omega

/-! ### Counters -/

section

variable (h : s.Balanced layout d excess)
include h

theorem count (horderly : s'.Orderly)
    (hused : s'.used = update s.used d n)
    (hrest : s'.objects = s.objects ∧ s'.buffers = s.buffers ∧ s'.optimizers = s.optimizers) :
    s'.Balanced layout d (excess + n - s.used d) := by
  obtain ⟨hobjects, hbuffers, hoptimizers⟩ := hrest
  refine ⟨⟨horderly, hobjects ▸ h.objects, hbuffers ▸ h.buffers, hoptimizers ▸ h.optimizers⟩,
    fun d' => ?_⟩
  have hold := h.used d'
  simp only [payloadSize, scratchSize, hused, hobjects, hbuffers, hoptimizers] at hold ⊢
  by_cases heq : d' = d
  · subst heq
    simp only [Function.update_self, if_true] at hold ⊢
    omega
  · simpa [heq] using hold

theorem subUsed (hn : n ≤ s.used d) :
    (s.subUsed d n).Balanced layout d (excess - n) := by
  obtain ⟨horderly, hused⟩ := h.toOrderly.subUsed hn
  have hcount := h.count horderly hused ⟨rfl, rfl, rfl⟩
  have heq : excess + ↑(s.used d - n) - ↑(s.used d) = excess - n := by omega
  rwa [heq] at hcount

theorem free (hn : n ≤ s.used d) (hp : p.IsBlock) :
    (s.free d p n).Balanced layout d (excess - n) := by
  have hsub := h.subUsed hn
  refine { hsub with freed := fun q hq => ?_ }
  obtain hq | hq := List.mem_append.mp hq
  · exact h.freed q hq
  · obtain rfl := List.mem_singleton.mp hq
    exact hp

theorem alloc (halloc : s.alloc d n = some (p, s')) :
    s'.Balanced layout d (excess + n) ∧ p.IsBlock ∧ s'.objects = s.objects ∧
      s'.buffers = s.buffers ∧ s'.optimizers = s.optimizers := by
  obtain ⟨hfits, hs'⟩ := Option.ite_none_right_eq_some.mp halloc
  cases hs'
  obtain ⟨horderly, hused⟩ := h.toOrderly.addUsed (d := d) hfits
  have hcount := h.count horderly hused ⟨rfl, rfl, rfl⟩
  have heq : excess + ↑(s.used d + n) - ↑(s.used d) = excess + n := by omega
  rw [heq] at hcount
  exact ⟨{ hcount with used := hcount.used }, ⟨_, rfl⟩, rfl, rfl, rfl⟩

theorem realloc {newSize oldSize : Nat} (hle : oldSize ≤ s.used d)
    (hrealloc : s.realloc d newSize oldSize = some (p, s')) :
    s'.Balanced layout d (excess + newSize - oldSize) ∧ p.IsBlock ∧ s'.buffers = s.buffers := by
  rw [PayloadMemory.realloc] at hrealloc
  split_ifs at hrealloc with hgrows
  · obtain ⟨halloc, hp, -, hbuffers, -⟩ := h.alloc hrealloc
    have heq : excess + ↑(newSize - oldSize) = excess + newSize - oldSize := by omega
    exact ⟨heq ▸ halloc, hp, hbuffers⟩
  · cases hrealloc
    have hsub := h.subUsed (n := oldSize - newSize) (by omega)
    have heq : excess - ↑(oldSize - newSize) = excess + newSize - oldSize := by omega
    rw [heq] at hsub
    exact ⟨{ hsub with used := hsub.used }, ⟨_, rfl⟩, rfl⟩

end

/-- The bytes of a command buffer that are missing in one domain are then missing in its own. -/
theorem transferUsedSize (h : s.Balanced layout d (-n)) (hn : (s.buffers b).size = n) :
    (s.transferUsedSize d (layout.buffer b) n).Balanced layout (layout.buffer b) (-n) ∧
      (s.transferUsedSize d (layout.buffer b) n).buffers = s.buffers := by
  rw [PayloadMemory.transferUsedSize]
  split_ifs with hne
  · have hle := amount_le_holdings layout.buffer (fun b => (s.buffers b).size) b
    have hsource := h.used (layout.buffer b)
    rw [if_neg (Ne.symm hne), payloadSize] at hsource
    have hfits : n ≤ s.used (layout.buffer b) := by omega
    obtain ⟨hsub, hused⟩ := h.toOrderly.subUsed hfits
    have hbounded := h.bounded
    have htotal := totalUsed_of_used hused
    obtain ⟨hadd, hused'⟩ := hsub.addUsed (d := d) (n := n) (by omega)
    refine ⟨⟨⟨hadd, h.objects, h.buffers, h.optimizers⟩, fun d' => ?_⟩, rfl⟩
    have hold := h.used d'
    change _ = (s.payloadSize layout d' : Int) + s.scratchSize d' + _
    simp only [hused', hused, Function.update_apply, hne, if_false]
    obtain rfl | hd := eq_or_ne d' d
    · simp only [hne, if_true, if_false] at hold ⊢
      omega
    · simp only [hd, if_false] at hold ⊢
      split_ifs with hbuffer
      · rw [← hbuffer] at hfits ⊢
        omega
      · exact hold
  · rw [← not_not.mp hne]
    exact ⟨h, rfl⟩

/-! ### Holders -/

theorem setObject [DecidableEq ι] (h : s.Balanced layout (layout.object o) excess)
    (object : AccountedObject) (hblock : 0 < object.size → object.buffer.IsBlock) :
    (s.setObject o object).Balanced layout (layout.object o)
      (excess + (s.objects o).size - object.size) where
  bounded := h.bounded
  subtractions := h.subtractions
  freed := h.freed
  used d := by
    have hsize : (fun o' => (update s.objects o object o').size) =
        update (fun o' => (s.objects o').size) o object.size :=
      Function.comp_update AccountedObject.size s.objects o object
    have hholdings := holdings_update layout.object (fun o' => (s.objects o').size) o object.size d
    have hold := h.used d
    simp only [payloadSize, scratchSize, PayloadMemory.setObject, hsize] at hold ⊢
    obtain rfl | hne := eq_or_ne (layout.object o) d
    · simp only [if_true] at hholdings hold ⊢
      omega
    · simp only [hne, hne.symm, if_false] at hholdings hold ⊢
      omega
  objects o' := by
    by_cases heq : o' = o
    · subst heq
      simpa [PayloadMemory.setObject] using hblock
    · simpa [PayloadMemory.setObject, heq] using h.objects o'
  buffers := h.buffers
  optimizers := h.optimizers

theorem setFlags [DecidableEq ι] (h : s.Balanced layout (layout.object o) excess)
    (object : AccountedObject)
    (hsize : object.size = (s.objects o).size) (hbuffer : object.buffer = (s.objects o).buffer) :
    (s.setObject o object).Balanced layout (layout.object o) excess := by
  have hset := h.setObject object (by rw [hsize, hbuffer]; exact h.objects o)
  rwa [hsize, add_sub_cancel_right] at hset

theorem setCommandBuffer [DecidableEq κ] (h : s.Balanced layout (layout.buffer b) excess)
    (buffer : CommandBuffer) (hblock : buffer.buffer.IsBlock ∨ buffer.buffer = .null ∧
      buffer.size = 0) :
    (s.setCommandBuffer b buffer).Balanced layout (layout.buffer b)
      (excess + (s.buffers b).size - buffer.size) where
  bounded := h.bounded
  subtractions := h.subtractions
  freed := h.freed
  used d := by
    have hsize : (fun b' => (update s.buffers b buffer b').size) =
        update (fun b' => (s.buffers b').size) b buffer.size :=
      Function.comp_update CommandBuffer.size s.buffers b buffer
    have hholdings := holdings_update layout.buffer (fun b' => (s.buffers b').size) b buffer.size d
    have hold := h.used d
    simp only [payloadSize, scratchSize, PayloadMemory.setCommandBuffer, hsize] at hold ⊢
    obtain rfl | hne := eq_or_ne (layout.buffer b) d
    · simp only [if_true] at hholdings hold ⊢
      omega
    · simp only [hne, hne.symm, if_false] at hholdings hold ⊢
      omega
  objects := h.objects
  buffers b' := by
    by_cases heq : b' = b
    · subst heq
      simpa [PayloadMemory.setCommandBuffer] using hblock
    · simpa [PayloadMemory.setCommandBuffer, heq] using h.buffers b'
  optimizers := h.optimizers

theorem setOptimizer (h : s.Balanced layout d excess) (r : Option (BusyOptimizer ι))
    (hr : ∀ r' ∈ r, layout.object r'.object = d ∧ (∀ p, r'.uncompressed = some p → p.IsBlock) ∧
      ∀ best, r'.best = some best → best.buffer.IsBlock) :
    (s.setOptimizer d r).Balanced layout d
      (excess + s.scratchSize d - ((r.map BusyOptimizer.scratch).getD 0 : Nat)) where
  bounded := h.bounded
  subtractions := h.subtractions
  freed := h.freed
  used d' := by
    have hold := h.used d'
    simp only [payloadSize, scratchSize, PayloadMemory.setOptimizer] at hold ⊢
    by_cases heq : d' = d
    · subst heq
      simp only [Function.update_self, if_true] at hold ⊢
      omega
    · simpa [heq] using hold
  objects := h.objects
  buffers := h.buffers
  optimizers d' r' hr' := by
    by_cases heq : d' = d
    · subst heq
      exact hr r' (by simpa [PayloadMemory.setOptimizer] using hr')
    · exact h.optimizers d' r' (by simpa [PayloadMemory.setOptimizer, heq] using hr')

end Balanced

/-! ## Operations -/

namespace Valid

omit [Fintype ι] [Fintype κ] in
theorem setBuffer_keeps [DecidableEq ι] (s : PayloadMemory ι κ) (o : ι) (compressor : Compressor)
    (size usize : Nat) (p : BufferPointer) (d : MemoryDomain) :
    (s.setBuffer o compressor size usize p d).buffers = s.buffers ∧
      (s.setBuffer o compressor size usize p d).optimizers = s.optimizers := by
  rw [PayloadMemory.setBuffer]
  split_ifs <;> exact ⟨rfl, rfl⟩

theorem buffer_size_le (h : s.Valid layout) (b : κ) :
    (s.buffers b).size ≤ s.used (layout.buffer b) := by
  have hle := amount_le_holdings layout.buffer (fun b => (s.buffers b).size) b
  have hused := h.used (layout.buffer b)
  simp only [payloadSize] at hused
  omega

section

variable [DecidableEq ι]

theorem setFlags (h : s.Valid layout) {object : AccountedObject}
    (hsize : object.size = (s.objects o).size) (hbuffer : object.buffer = (s.objects o).buffer) :
    (s.setObject o object).Valid layout :=
  ((h.balanced _).setFlags object hsize hbuffer).valid rfl

/-- The old buffer is freed, and the bytes of the new one are still to be accounted for. -/
theorem replaceBuffer (h : s.Valid layout) (hsize : 0 < (s.objects o).size)
    (object : AccountedObject) (hblock : 0 < object.size → object.buffer.IsBlock) :
    ((s.free (layout.object o) (s.objects o).buffer (s.objects o).size).setObject o object).Balanced
      layout (layout.object o) (-object.size) := by
  have hbalanced := h.balanced (layout.object o)
  have hle := hbalanced.object_size_le
  have hfree := hbalanced.free (n := (s.objects o).size) (by omega) (h.objects o hsize)
  simpa [PayloadMemory.free, PayloadMemory.subUsed] using hfree.setObject object hblock

theorem setBuffer (h : s.Valid layout) (compressor : Compressor) (usize : Nat) {size : Nat}
    (hblock : 0 < size → p.IsBlock) :
    (s.setBuffer o compressor size usize p (layout.object o)).Balanced layout (layout.object o)
      (-size) := by
  have hnew : 0 < size → (if 0 < size then p else .stub).IsBlock := by
    intro hsize
    rw [if_pos hsize]
    exact hblock hsize
  rw [PayloadMemory.setBuffer]
  by_cases hsize : 0 < (s.objects o).size
  · have hreplaces : (s.objects o).buffer ≠ .null := by
      obtain ⟨n, hn⟩ := h.objects o hsize
      simp [hn]
    rw [if_pos ⟨hreplaces, hsize⟩]
    exact h.replaceBuffer hsize _ hnew
  · rw [if_neg fun hcond => hsize hcond.2]
    have hexcess : -(size : Int) = 0 + (s.objects o).size - size := by omega
    rw [hexcess]
    exact (h.balanced _).setObject _ hnew

theorem disposeBuffer (h : s.Valid layout) (o : ι) :
    (s.disposeBuffer o (layout.object o)).2.Valid layout := by
  rw [PayloadMemory.disposeBuffer]
  split_ifs with hbuffer hsize
  · exact (h.replaceBuffer hsize _ fun hpos => absurd hpos (Nat.lt_irrefl 0)).valid rfl
  · refine ((h.balanced _).setObject { s.objects o with buffer := .null } fun hpos => ?_).valid
      (by simp)
    exact absurd hpos hsize
  · exact h

end

section

variable [DecidableEq κ]

theorem emptyPayload (h : s.Valid layout) (b : κ) :
    (s.emptyPayload b (layout.buffer b)).Valid layout := by
  have hbalanced := h.balanced (layout.buffer b)
  rw [PayloadMemory.emptyPayload]
  rcases h.buffers b with hblock | ⟨hnull, hzero⟩
  · have hne : (s.buffers b).buffer ≠ .null := by
      obtain ⟨n, hn⟩ := hblock
      simp [hn]
    rw [if_pos hne]
    have hfree := hbalanced.free (h.buffer_size_le b) hblock
    exact (hfree.setCommandBuffer ⟨.null, 0⟩ (.inr ⟨rfl, rfl⟩)).valid
      (by simp [PayloadMemory.free, PayloadMemory.subUsed])
  · rw [if_neg (not_not.mpr hnull)]
    exact (hbalanced.setCommandBuffer ⟨.null, 0⟩ (.inr ⟨rfl, rfl⟩)).valid (by simp [hzero])

theorem setPayloadSize {size : Nat} (h : s.Valid layout)
    (hs' : s.setPayloadSize b (layout.buffer b) size = some s') : s'.Valid layout := by
  have hbalanced := h.balanced (layout.buffer b)
  rw [PayloadMemory.setPayloadSize] at hs'
  split_ifs at hs' with hbuffer hsize
  · obtain ⟨⟨p, s₁⟩, hrealloc, hs₁⟩ := Option.bind_eq_some_iff.mp hs'
    cases hs₁
    obtain ⟨hrealloc, hp, hbuffers⟩ := hbalanced.realloc (h.buffer_size_le b) hrealloc
    exact (hrealloc.setCommandBuffer ⟨p, size⟩ (.inl hp)).valid (by simp [hbuffers])
  · cases hs'
    exact h
  · obtain ⟨⟨p, s₁⟩, halloc, hs₁⟩ := Option.bind_eq_some_iff.mp hs'
    cases hs₁
    obtain ⟨halloc, hp, -, hbuffers, -⟩ := hbalanced.alloc halloc
    have hzero : (s.buffers b).size = 0 := by
      rcases h.buffers b with ⟨n, hn⟩ | ⟨-, hzero⟩
      · simp [hn] at hbuffer
      · exact hzero
    exact (halloc.setCommandBuffer ⟨p, size⟩ (.inl hp)).valid (by simp [hbuffers, hzero])

theorem transferPayload [DecidableEq ι] (h : s.Valid layout) (b : κ) (o : ι) (usize : Nat)
    (compressor : Compressor) :
    (s.transferPayload b o (layout.buffer b) (layout.object o) usize compressor).Valid layout := by
  rw [PayloadMemory.transferPayload]
  by_cases hsize : (s.buffers b).size = 0
  · simp only [hsize, ne_eq, not_true_eq_false, if_false]
    exact (h.setBuffer _ _ fun hpos => absurd hpos (Nat.lt_irrefl 0)).valid rfl
  · have hblock : (s.buffers b).buffer.IsBlock :=
      (h.buffers b).resolve_right fun hnull => hsize hnull.2
    simp only [ne_eq, hsize, not_false_eq_true, if_true]
    obtain ⟨htransferred, hbuffers⟩ := Balanced.transferUsedSize (b := b)
      (h.setBuffer (o := o) compressor usize fun _ => hblock) (by rw [(setBuffer_keeps ..).1])
    refine (htransferred.setCommandBuffer ⟨.null, 0⟩ (.inr ⟨rfl, rfl⟩)).valid ?_
    simp [hbuffers, (setBuffer_keeps ..).1]

end

section

variable {r : BusyOptimizer ι}

omit [Fintype ι] [Fintype κ] in
theorem scratchSize_eq (hr : s.optimizers d = some r) : s.scratchSize d = r.scratch := by
  simp [scratchSize, hr]

theorem unpack [DecidableEq ι] (h : s.Valid layout) (hidle : s.optimizers (layout.object o) = none)
    (hs' : s.unpack o (layout.object o) .succeeds = some s') : s'.Valid layout := by
  obtain ⟨⟨p, s₁⟩, halloc, hs₁⟩ := Option.bind_eq_some_iff.mp hs'
  cases hs₁
  obtain ⟨halloc, hp, hobjects, -, hoptimizers⟩ := (h.balanced _).alloc halloc
  have hflags := halloc.setFlags { s₁.objects o with beingOptimized := true } rfl rfl
  refine (hflags.setOptimizer _ ?_).valid ?_
  · rintro r' ⟨⟩
    exact ⟨rfl, fun q hq => Option.some.inj hq ▸ hp, fun best hbest => by cases hbest⟩
  · obtain ⟨n, rfl⟩ := hp
    simp [scratchSize, PayloadMemory.setObject, hobjects, hoptimizers, hidle, BusyOptimizer.scratch]

theorem pack {compressor : Compressor} {actualSize : Nat} (h : s.Valid layout)
    (hr : s.optimizers d = some r) (hs' : s.pack d r compressor actualSize = some s') :
    s'.Valid layout := by
  obtain ⟨hobject, huncompressed, hbest⟩ := h.optimizers d r hr
  rw [PayloadMemory.pack] at hs'
  split_ifs at hs' with hsmaller
  · obtain ⟨⟨p, s₁⟩, halloc, hs₁⟩ := Option.bind_eq_some_iff.mp hs'
    cases hs₁
    obtain ⟨halloc, hp, -, -, hoptimizers⟩ := (h.balanced d).alloc halloc
    have hbusy : ∀ r' ∈ some { r with best := some ⟨compressor, actualSize, p⟩ },
        layout.object r'.object = d ∧ (∀ q, r'.uncompressed = some q → q.IsBlock) ∧
          ∀ best, r'.best = some best → best.buffer.IsBlock := by
      rintro r' ⟨⟩
      exact ⟨hobject, huncompressed, fun best heq => Option.some.inj heq ▸ hp⟩
    have hscratch : s₁.scratchSize d = r.scratch := scratchSize_eq (by rw [hoptimizers, hr])
    have hle := halloc.scratchSize_le
    cases hfound : r.best with
    | none =>
      refine (halloc.setOptimizer _ hbusy).valid ?_
      simp [hscratch, BusyOptimizer.scratch, hfound]
      ring
    | some best =>
      simp only [BusyOptimizer.scratch, hfound, Option.map_some, Option.getD_some] at hscratch
      have hfree := halloc.free (n := best.size) (by omega) (hbest best hfound)
      refine (hfree.setOptimizer _ hbusy).valid ?_
      have hsame : (s₁.free d best.buffer best.size).scratchSize d = s₁.scratchSize d := rfl
      simp [hsame, hscratch, BusyOptimizer.scratch]
      omega
  · cases hs'
    exact h

theorem freeUncompressed (h : s.Valid layout) (hr : s.optimizers d = some r)
    (hp : r.uncompressed = some p) : (s.freeUncompressed d r p).Valid layout := by
  obtain ⟨hobject, huncompressed, hbest⟩ := h.optimizers d r hr
  have hscratch := (h.balanced d).scratchSize_le
  have hblock := huncompressed p hp
  obtain ⟨n, rfl⟩ := hblock
  simp only [scratchSize_eq hr, BusyOptimizer.scratch, hp] at hscratch
  have hfree := (h.balanced d).free (n := r.usize) (by omega) ⟨n, rfl⟩
  refine (hfree.setOptimizer (some { r with uncompressed := none }) ?_).valid ?_
  · rintro r' ⟨⟩
    exact ⟨hobject, fun q hq => (by cases hq), hbest⟩
  · have hsame : (s.free d (.block n) r.usize).scratchSize d = r.scratch := scratchSize_eq hr
    simp [hsame, BusyOptimizer.scratch, hp]

theorem finish [DecidableEq ι] (h : s.Valid layout) (hr : s.optimizers d = some r)
    (hfreed : r.uncompressed = none) (hasReaders : Bool) :
    (s.finish d r hasReaders).Valid layout := by
  obtain ⟨rfl, -, hbest⟩ := h.optimizers d r hr
  have hbalanced := h.balanced (layout.object r.object)
  have hle := hbalanced.scratchSize_le
  -- The best buffer belongs to the object or was freed, and the optimizer forgets about it.
  have hforget {s₁ : PayloadMemory ι κ} {object : AccountedObject}
      (h₁ : s₁.Balanced layout (layout.object r.object) (-r.scratch))
      (hkeeps : s₁.optimizers = s.optimizers) (hsize : object.size = (s₁.objects r.object).size)
      (hbuffer : object.buffer = (s₁.objects r.object).buffer) :
      ((s₁.setObject r.object object).setOptimizer (layout.object r.object) none).Valid layout := by
    refine ((h₁.setFlags object hsize hbuffer).setOptimizer none (by simp)).valid ?_
    simp [scratchSize, PayloadMemory.setObject, hkeeps, hr]
  rw [PayloadMemory.finish]
  rw [scratchSize_eq hr, BusyOptimizer.scratch, hfreed] at hle
  rw [BusyOptimizer.scratch, hfreed] at hforget
  cases hfound : r.best with
  | none => exact hforget (by simpa [hfound] using hbalanced) rfl rfl rfl
  | some best =>
    simp only [hfound, Option.map_some, Option.getD_some, Nat.zero_add] at hle hforget ⊢
    split_ifs
    · exact hforget (h.setBuffer _ _ fun _ => hbest best hfound) (setBuffer_keeps ..).2 rfl rfl
    · have hfree := hbalanced.free (n := best.size) (by omega) (hbest best hfound)
      exact hforget (by rwa [zero_sub] at hfree) rfl rfl rfl

end

end Valid

/-! ## Runs -/

section

variable [DecidableEq ι] [DecidableEq κ]

omit [DecidableEq ι] [DecidableEq κ] in
theorem start_valid : (start : PayloadMemory ι κ).Valid layout where
  bounded := by simp [start, totalUsed, ulongRange]
  subtractions := by simp [start]
  freed := by simp [start]
  used d := by simp [start, payloadSize, scratchSize, holdings]
  objects := by simp [start]
  buffers _ := .inr ⟨rfl, rfl⟩
  optimizers := by simp [start]

theorem Valid.step {a : MemoryAction ι κ} (h : s.Valid layout) (hunpacks : unpacks a)
    (hs' : s.step layout a = some s') : s'.Valid layout := by
  cases a with
  | setPayloadSize b size => exact h.setPayloadSize (Option.ite_none_right_eq_some.mp hs').2
  | emptyPayload b =>
    cases hs'
    exact h.emptyPayload b
  | transferPayload b o usize compressor =>
    obtain rfl := Option.some.inj (Option.ite_none_right_eq_some.mp hs').2
    exact h.transferPayload b o usize compressor
  | unpack o outcome =>
    obtain ⟨⟨-, -, hidle, -⟩, hunpack⟩ := Option.ite_none_right_eq_some.mp hs'
    obtain rfl : outcome = .succeeds := of_decide_eq_true hunpacks
    exact h.unpack (Option.isNone_iff_eq_none.mp hidle) hunpack
  | pack d compressor actualSize =>
    obtain ⟨r, hr, hpack⟩ := Option.bind_eq_some_iff.mp hs'
    exact h.pack hr (Option.ite_none_right_eq_some.mp hpack).2
  | freeUncompressed d =>
    obtain ⟨r, hr, hrest⟩ := Option.bind_eq_some_iff.mp hs'
    obtain ⟨p, hp, hfree⟩ := Option.bind_eq_some_iff.mp hrest
    cases hfree
    exact h.freeUncompressed hr hp
  | finish d hasReaders =>
    obtain ⟨r, hr, hrest⟩ := Option.bind_eq_some_iff.mp hs'
    obtain ⟨⟨hfreed, -⟩, hfinish⟩ := Option.ite_none_right_eq_some.mp hrest
    cases hfinish
    exact h.finish hr (Option.isNone_iff_eq_none.mp hfreed) hasReaders
  | flagBeingDeleted o =>
    cases hs'
    exact h.setFlags rfl rfl
  | tryDisposeBuffer o hasReaders =>
    obtain rfl := Option.some.inj (Option.ite_none_right_eq_some.mp hs').2
    cases hasReaders with
    | true => exact h
    | false => exact h.disposeBuffer o
  | disposeBuffer o =>
    obtain rfl := Option.some.inj (Option.ite_none_right_eq_some.mp hs').2
    exact h.disposeBuffer o
  | dispose o =>
    obtain rfl := Option.some.inj (Option.ite_none_right_eq_some.mp hs').2
    exact (h.disposeBuffer o).setFlags rfl rfl

/-- Every byte of a payload is accounted for in one domain, at any time. -/
theorem payloads_accounted (layout : MemoryLayout ι κ) {actions : List (MemoryAction ι κ)}
    (hruns : Reaches (step layout) (fun _ a => unpacks a) start actions s) : s.Accounted layout :=
  (hruns.invariant (P := Valid layout) start_valid fun _ _ _ h hunpacks hs' =>
    h.step hunpacks hs').accounted

end

end

/-- A payload is read into a buffer of the global domain, becomes that of a page, and is replaced by
a smaller one; then another payload is read. -/
theorem payloads_accounted_of_page :
    let layout : MemoryLayout Unit Unit := ⟨fun _ => .fpc, fun _ => .global⟩
    ∃ s : PayloadMemory Unit Unit, Reaches (step layout) (fun _ a => unpacks a) start
        [.setPayloadSize () 100, .transferPayload () () 100 .none, .unpack () .succeeds,
          .pack .fpc .zlib 40, .pack .fpc .brotli 30, .freeUncompressed .fpc, .finish .fpc false,
          .setPayloadSize () 50] s ∧
      s.used .fpc = 30 ∧ s.used .global = 50 ∧ s.Accounted layout :=
  ⟨_, Reaches.get_foldlM rfl, rfl, rfl, payloads_accounted _ (Reaches.get_foldlM rfl)⟩

/-- Three bytes that are said to be 100 bytes, compressed, become the payload of a page. The
optimizer cannot unpack them, and the used size wraps around. -/
theorem null_pointer_freed :
    let layout : MemoryLayout Unit Unit := ⟨fun _ => .fpc, fun _ => .global⟩
    ∃ s : PayloadMemory Unit Unit, Reaches (step layout) (fun _ _ => True) start
        [.setPayloadSize () 3, .transferPayload () () 100 .zlib, .unpack () .fails,
          .freeUncompressed .fpc, .finish .fpc false] s ∧
      s.used .fpc = 2 ^ 64 - 97 ∧ s.payloadSize layout .fpc = 3 ∧ ¬s.Accounted layout := by
  refine ⟨_, Reaches.get_foldlM rfl, rfl, rfl, fun h => ?_⟩
  exact absurd (h.freed .null (by decide)) (by rintro ⟨n, hn⟩; cases hn)

/-! ## Accounts of an optimization pass -/

section Mirrors

/-- What the accounts say of an object is what an optimization pass is told. -/
structure Mirrors (account : AccountedObject) (object : OptimizerRun.PassObject) : Prop where
  buffer : account.buffer = .null ↔ object.buffer = none
  size : account.size = (object.buffer.map (·.size)).getD 0
  beingOptimized : account.beingOptimized = object.beingOptimized
  optimized : account.optimized = object.optimized
  beingDeleted : account.beingDeleted = object.beingDeleted

variable [DecidableEq ι] {o : ι} {r : BusyOptimizer ι} {object : OptimizerRun.PassObject}
  {b : PayloadBuffer} {best : Option PayloadBuffer}

theorem Mirrors.setBuffer (h : Mirrors (s.objects o) object) (hb : 0 < b.size) (hp : p.IsBlock)
    (compressor : Compressor) (usize : Nat) :
    Mirrors ((s.setBuffer o compressor b.size usize p d).objects o)
      (OptimizerRun.setBuffer object b).1 := by
  obtain ⟨n, rfl⟩ := hp
  have hsome : (s.objects o).buffer ≠ .null ↔ object.buffer.isSome := by
    rw [ne_eq, h.buffer, ← Option.not_isSome_iff_eq_none, not_not]
  simp only [PayloadMemory.setBuffer, setObject, Function.update_self, OptimizerRun.setBuffer,
    if_pos hb, hsome]
  exact ⟨by simp, by simp, by simp only [h.beingOptimized], by simp only [h.optimized],
    h.beingDeleted⟩

omit [DecidableEq ι] in
/-- What an engine has produced counts for the accounts if and only if it counts in the pass. -/
theorem mirrors_pack {c : OptimizerRun.Circumstances} {compressor : Compressor}
    {payload : List UInt8} (hr : s.optimizers d = some r) (hsize : r.size = b.size)
    (hbest : r.best.map (·.size) = best.map (·.size))
    (hs' : s.pack d r compressor (c.library.pack compressor payload).length = some s') :
    ∃ r' result, s'.optimizers d = some r' ∧ r'.object = r.object ∧
      OptimizerRun.packBuffer c compressor (some payload) ((best.map (·.size)).getD b.size) =
        some result ∧
      r'.best.map (·.size) = (result.map List.length).or (best.map (·.size)) := by
  have hbestSize : r.bestSize = (best.map (·.size)).getD b.size := by
    rw [← hbest, ← hsize, BusyOptimizer.bestSize]
    cases r.best <;> rfl
  rw [pack, hbestSize] at hs'
  simp only [OptimizerRun.packBuffer]
  split_ifs at hs' ⊢ with hsmaller
  · obtain ⟨⟨p, s₁⟩, -, hs₁⟩ := Option.bind_eq_some_iff.mp hs'
    cases hs₁
    exact ⟨_, _, Function.update_self .., rfl, rfl, rfl⟩
  · cases hs'
    exact ⟨r, none, hr, rfl, rfl, hbest⟩

/-- The accounts and the pass agree when the optimizer has locked an object again. -/
theorem mirrors_finish (h : Mirrors (s.objects r.object) object)
    (hbest : r.best.map (·.size) = best.map (·.size))
    (hblock : ∀ p ∈ r.best, p.buffer.IsBlock ∧ 0 < p.size) :
    Mirrors ((s.finish d r object.hasReaders).objects r.object)
      (OptimizerRun.settle object best).1 := by
  have huntouched : (!(s.objects r.object).beingDeleted && (s.objects r.object).beingOptimized &&
      !object.hasReaders) = OptimizerRun.isUndisturbed object := by
    rw [h.beingDeleted, h.beingOptimized, OptimizerRun.isUndisturbed]
  simp only [finish, huntouched, setOptimizer, setObject, Function.update_self]
  cases hr : r.best with
  | none =>
    obtain rfl : best = none := by simpa [hr] using hbest.symm
    refine ⟨h.buffer, h.size, rfl, ?_, h.beingDeleted⟩
    cases hundisturbed : OptimizerRun.isUndisturbed object <;>
      simp [OptimizerRun.settle, h.optimized, hundisturbed]
  | some p =>
    obtain ⟨b, rfl, hsize⟩ : ∃ b, best = some b ∧ b.size = p.size := by
      simpa [hr] using hbest.symm
    obtain ⟨hblock, hpos⟩ := hblock p hr
    simp only [OptimizerRun.settle]
    cases hundisturbed : OptimizerRun.isUndisturbed object with
    | true =>
      have hset := h.setBuffer (d := d) (hsize ▸ hpos) hblock p.compressor r.usize
      rw [hsize] at hset
      simp only [if_true]
      exact ⟨hset.buffer, hset.size, rfl, rfl, hset.beingDeleted⟩
    | false =>
      simp only [Bool.false_eq_true, if_false]
      exact ⟨h.buffer, h.size, rfl, h.optimized, h.beingDeleted⟩

end Mirrors

end PayloadMemory

end CyberCache
