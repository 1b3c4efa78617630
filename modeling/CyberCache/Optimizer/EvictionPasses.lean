import CyberCache.Optimizer.Positions

/-!
# Eviction passes

An optimizer evicts objects from its chains for three reasons: it is asked to collect garbage, it is
asked to free memory, or there is too little memory when it does its scheduled run. Each time it
goes through the objects that its iterator returns, and it is about each of them that it decides.

While a pass is under way, other threads neither lock nor unlock objects, and the queues that
evicted objects are put into have room. The objects that a pass considers and purges are recorded.

Chains are counted with 32 bits, so that the results are about optimizers with fewer objects.
-/

namespace CyberCache

namespace EvictionPass

inductive EvictionMode where
  | strictExpirationLru
  | expirationLru
  | lru
  | strictLru
deriving DecidableEq, Repr

def EvictionMode.value : EvictionMode → Nat
  | strictExpirationLru => 1
  | expirationLru => 2
  | lru => 3
  | strictLru => 4

structure Memory where
  /-- Zero if there is no quota. -/
  quota : Nat
  usedSize : Nat
deriving DecidableEq, Repr

def Memory.isQuotaSet (m : Memory) : Bool := m.quota ≠ 0

/-- What an optimizer is told of objects and of the time. -/
structure Surroundings (Object : Type) where
  isLocked : Object → Bool
  hasReaders : Object → Bool
  lastModificationTime : Object → UInt32
  expirationTime : Object → UInt32
  currentTimestamp : UInt32

/-- An optimizer with its eviction mode, its objects' buffers and all memory objects. -/
structure Collector (Object : Type) where
  domain : Domain
  evictionMode : EvictionMode
  optimizer : Optimizer Object
  bufferSize : Object → UInt32
  sessionMemory : Memory
  fpcMemory : Memory
  globalMemory : Memory
  considered : List Object
  purged : List Object
  /-- What `dispose_buffer()` has returned during the pass, added up in 64 bits. -/
  freedSize : Nat

variable {Object : Type}

def Surroundings.isBusy (around : Surroundings Object) (o : Object) : Bool :=
  around.isLocked o || around.hasReaders o

/-- Seconds and times have 32 bits. -/
def Surroundings.onGc (around : Surroundings Object) (domain : Domain) (o : Object)
    (seconds : UInt32) : Bool :=
  match domain with
  | .session => around.lastModificationTime o + seconds < around.currentTimestamp
  | .page => around.expirationTime o < around.currentTimestamp

namespace Collector

open Optimizer (inOrder userAgentsFrom)

def bytes (g : Collector Object) (o : Object) : Nat := (g.bufferSize o).toNat

def memory (g : Collector Object) : Memory :=
  match g.domain with
  | .session => g.sessionMemory
  | .page => g.fpcMemory

def setMemory (g : Collector Object) (memory : Memory) : Collector Object :=
  match g.domain with
  | .session => { g with sessionMemory := memory }
  | .page => { g with fpcMemory := memory }

def validateEvictionMode (g : Collector Object) : Collector Object :=
  match g.evictionMode with
  | .lru | .strictLru =>
    if g.memory.isQuotaSet || g.globalMemory.isQuotaSet then
      { g with evictionMode := .expirationLru }
    else g
  | .strictExpirationLru | .expirationLru => g

def isAboveMemoryQuota (g : Collector Object) : Bool :=
  if g.memory.isQuotaSet then g.memory.quota < g.memory.usedSize
  else if g.globalMemory.isQuotaSet then
    g.globalMemory.quota < ulongAdd g.sessionMemory.usedSize g.fpcMemory.usedSize
  else false

variable [DecidableEq Object] (around : Surroundings Object)

/-! ## What is done with one object -/

def disposeBuffer (g : Collector Object) (o : Object) : Collector Object :=
  { g.setMemory { g.memory with usedSize := ulongSub g.memory.usedSize (g.bytes o) } with
    bufferSize := Function.update g.bufferSize o 0
    freedSize := ulongAdd g.freedSize (g.bytes o) }

def tryDisposeBuffer (g : Collector Object) (o : Object) : Collector Object :=
  if around.hasReaders o then g else g.disposeBuffer o

def flag (g : Collector Object) (o : Object) : Collector Object :=
  { g with
    optimizer := { g.optimizer with beingDeleted := insert o g.optimizer.beingDeleted }
    purged := g.purged ++ [o] }

def unlink (g : Collector Object) (o : Object) : Collector Object :=
  { g with optimizer := g.optimizer.remove o }

def onDelete (g : Collector Object) (o : Object) : Collector Object :=
  { g with optimizer := g.optimizer.onDelete g.domain o }

def visitForGc (seconds : UInt32) (g : Collector Object) (o : Object) : Collector Object :=
  if o ∉ g.optimizer.beingDeleted then
    if g.isAboveMemoryQuota || (g.evictionMode.value ≤ EvictionMode.expirationLru.value &&
        around.onGc g.domain o seconds) then
      (((g.flag o).tryDisposeBuffer around o).unlink o).onDelete o
    else g
  else g

def visitForRun (g : Collector Object) (o : Object) : Collector Object :=
  if o ∉ g.optimizer.beingDeleted ∧ ¬around.hasReaders o then
    (((g.flag o).disposeBuffer o).unlink o).onDelete o
  else g

/-- Such an object is reported after the pass. -/
def visitForMemory (g : Collector Object) (o : Object) : Collector Object :=
  if o ∉ g.optimizer.beingDeleted ∧ ¬around.hasReaders o then ((g.flag o).disposeBuffer o).unlink o
  else g

/-! ## Passes -/

def consider (g : Collector Object) (o : Object) : Collector Object :=
  { g with considered := g.considered ++ [o] }

/-- The loop of a pass, with an object of the iterator and its next object; `none` if it takes more
rounds than are given. -/
def loop (continues : Collector Object → Bool)
    (visit : Collector Object → Object → Collector Object) :
    Nat → Collector Object → Option Object × Option Object → Option (Collector Object)
  | _, g, (none, _) => some g
  | fuel, g, (some o, next) =>
    if continues g then
      match fuel with
      | 0 => none
      | fuel + 1 =>
        let g := visit (g.consider o) o
        loop continues visit fuel g (g.optimizer.getNextGcObject around.isBusy next)
    else some g

def begin (g : Collector Object) : Collector Object :=
  { g with considered := [], purged := [], freedSize := 0 }

def pass (continues : Collector Object → Bool)
    (visit : Collector Object → Object → Collector Object)
    (g : Collector Object) : Option (Collector Object) :=
  loop around continues visit g.optimizer.linked.card g.begin
    (g.optimizer.getFirstGcObject around.isBusy)

def processGcMessage (g : Collector Object) (seconds : UInt32) : Option (Collector Object) :=
  let g := g.validateEvictionMode
  if g.evictionMode ≠ .strictLru then
    g.pass around (fun _ => true) (visitForGc around seconds)
  else some g.begin

/-- Objects are evicted until so much memory was freed. They are linked with each other, the last
one first, and then reported. -/
def processFreeMemoryMessage (g : Collector Object) (minSize : Nat) : Option (Collector Object) :=
  (g.pass around (fun g => g.freedSize < minSize) (visitForMemory around)).map
    fun g => g.purged.reverse.foldl onDelete g

/-- The first part of `run()`. -/
def runGcPass (g : Collector Object) : Option (Collector Object) :=
  let g := g.validateEvictionMode
  g.pass around isAboveMemoryQuota (visitForRun around)

/-! ## Objects that are evicted -/

def evict (g : Collector Object) (o : Object) : Collector Object :=
  ((g.flag o).disposeBuffer o).unlink o

def Evicts (g : Collector Object) (o : Object) (g' : Collector Object) : Prop :=
  g' = g.evict o ∨ g' = (g.evict o).onDelete o

variable {around} {g g' g'' : Collector Object} {o z : Object} {objs : Nat → List Object}
  {done todo : List Object} {continues : Collector Object → Bool}
  {visit : Collector Object → Object → Collector Object}

section Fields

omit [DecidableEq Object]

theorem domain_setMemory (m : Memory) : (g.setMemory m).domain = g.domain := by
  unfold setMemory
  cases g.domain <;> rfl

theorem evictionMode_setMemory (m : Memory) : (g.setMemory m).evictionMode = g.evictionMode := by
  unfold setMemory
  cases g.domain <;> rfl

theorem optimizer_setMemory (m : Memory) : (g.setMemory m).optimizer = g.optimizer := by
  unfold setMemory
  cases g.domain <;> rfl

theorem considered_setMemory (m : Memory) : (g.setMemory m).considered = g.considered := by
  unfold setMemory
  cases g.domain <;> rfl

theorem bytes_setMemory (m : Memory) : (g.setMemory m).bytes = g.bytes := by
  unfold setMemory
  cases g.domain <;> rfl

theorem purged_setMemory (m : Memory) : (g.setMemory m).purged = g.purged := by
  unfold setMemory
  cases g.domain <;> rfl

end Fields

/-- There is enough memory, and the used size covers the buffers of these objects. -/
structure Affords (g : Collector Object) (todo : List Object) : Prop where
  nodup : todo.Nodup
  covered : (todo.map g.bytes).sum ≤ g.memory.usedSize
  fits : g.sessionMemory.usedSize + g.fpcMemory.usedSize < ulongRange
  belowQuota : g.isAboveMemoryQuota = false

structure Eviction (g : Collector Object) (o : Object) (g' : Collector Object) : Prop where
  domain : g'.domain = g.domain
  evictionMode : g'.evictionMode = g.evictionMode
  affords : ∀ {todo}, g.Affords (o :: todo) → g'.Affords todo
  considered : g'.considered = g.considered
  purged : g'.purged = g.purged ++ [o]
  freedSize : g'.freedSize = ulongAdd g.freedSize (g.bytes o)
  bytes : ∀ z, z ≠ o → g'.bytes z = g.bytes z
  beingDeleted : g'.optimizer.beingDeleted = insert o g.optimizer.beingDeleted
  linked : g'.optimizer.linked = g.optimizer.linked.erase o
  userAgent : ∀ z, z ≠ o → g'.optimizer.userAgent z = g.optimizer.userAgent z
  chains : g'.optimizer.chains = (g.optimizer.remove o).chains
  represents : ∀ objs, (g.optimizer.remove o).Represents objs → g'.optimizer.Represents objs

theorem optimizer_evict : (g.evict o).optimizer =
    { g.optimizer.remove o with beingDeleted := insert o g.optimizer.beingDeleted } := by
  rw [← Optimizer.remove_flag]
  exact congrArg (Optimizer.remove · o) (optimizer_setMemory _)

omit [DecidableEq Object] in
theorem Affords.of_append {skipped : List Object} (h : g.Affords (skipped ++ todo)) :
    g.Affords todo where
  nodup := h.nodup.sublist (List.sublist_append_right _ _)
  covered := by
    have hcovered := h.covered
    rw [List.map_append, List.sum_append] at hcovered
    exact (Nat.le_add_left _ _).trans hcovered
  fits := h.fits
  belowQuota := h.belowQuota

omit [DecidableEq Object] in
theorem Affords.tail (h : g.Affords (o :: todo)) : g.Affords todo :=
  Affords.of_append (show g.Affords ([o] ++ todo) from h)

omit [DecidableEq Object] in
theorem Affords.usedSize_lt (h : g.Affords todo) : g.memory.usedSize < ulongRange := by
  have hfits := h.fits
  unfold memory
  split <;> omega

omit [DecidableEq Object] in
theorem Affords.setMemory {usedSize : Nat} {rest : List Object} (h : g.Affords todo)
    (hle : usedSize ≤ g.memory.usedSize) (hnodup : rest.Nodup)
    (hcovered : (rest.map g.bytes).sum ≤ usedSize) :
    (g.setMemory { g.memory with usedSize }).Affords rest := by
  have hfits := h.fits
  have hbelow := h.belowQuota
  obtain ⟨domain, mode, optimizer, sizes, sessionMemory, fpcMemory, globalMemory⟩ := g
  cases domain <;>
  · simp only [memory, Collector.setMemory] at hle hfits ⊢
    refine ⟨hnodup, hcovered, by dsimp only; omega, ?_⟩
    simp only [isAboveMemoryQuota, memory, Memory.isQuotaSet, ulongAdd] at hbelow ⊢
    simp (disch := omega) only [Nat.mod_eq_of_lt] at hbelow ⊢
    grind

theorem bytes_evict (hz : z ≠ o) : (g.evict o).bytes z = g.bytes z :=
  congrArg UInt32.toNat (Function.update_of_ne hz _ _)

theorem Affords.evict (h : g.Affords (o :: todo)) : (g.evict o).Affords todo := by
  obtain ⟨hout, hnodup⟩ := List.nodup_cons.mp h.nodup
  have hsizes : todo.map (g.evict o).bytes = todo.map g.bytes :=
    List.map_congr_left fun z hz => bytes_evict (ne_of_mem_of_not_mem hz hout)
  have hcovered : g.bytes o + (todo.map g.bytes).sum ≤ g.memory.usedSize := h.covered
  have hused : ulongSub g.memory.usedSize (g.bytes o) = g.memory.usedSize - g.bytes o :=
    ulongSub_eq h.usedSize_lt ((Nat.le_add_right _ _).trans hcovered)
  have hflag : (g.flag o).Affords (o :: todo) := { h with }
  have hle : ulongSub g.memory.usedSize (g.bytes o) ≤ g.memory.usedSize := by omega
  have hrest := hflag.setMemory hle hnodup (show (todo.map g.bytes).sum ≤ _ by omega)
  have hcovered' := hrest.covered
  rw [bytes_setMemory] at hcovered'
  exact { hrest with covered := hsizes.symm ▸ hcovered' }

theorem evict_eviction : Eviction g o (g.evict o) where
  domain := domain_setMemory _
  evictionMode := evictionMode_setMemory _
  affords := Affords.evict
  considered := considered_setMemory _
  purged := purged_setMemory _
  freedSize := rfl
  bytes _ := bytes_evict
  beingDeleted := by rw [optimizer_evict]
  linked := by simp only [optimizer_evict, Optimizer.linked_remove]
  userAgent z _ := by simp only [optimizer_evict, Optimizer.userAgent_remove]
  chains := by rw [optimizer_evict]
  represents objs h := by
    rw [optimizer_evict]
    exact h.transfer rfl rfl rfl rfl

theorem onDelete_eq (g : Collector Object) (o : Object) : g.onDelete o = g ∨
    g.onDelete o = { g with optimizer := g.optimizer.setUserAgent o numUserAgents } := by
  obtain ⟨domain, mode, optimizer, sizes, sessionMemory, fpcMemory, globalMemory⟩ := g
  cases domain
  · exact .inr rfl
  · exact .inl rfl

theorem Eviction.onDelete (h : Eviction g o g') : Eviction g o (g'.onDelete o) := by
  have hout : o ∉ g'.optimizer.linked := by
    rw [h.linked]
    exact Finset.notMem_erase o _
  rcases onDelete_eq g' o with heq | heq
  · rw [heq]
    exact h
  · rw [heq]
    exact { h with
      affords := fun hafford => { h.affords hafford with }
      userAgent := fun z hz => (Function.update_of_ne hz _ _).trans (h.userAgent z hz)
      represents := fun objs hobjs => (h.represents objs hobjs).setUserAgent hout _ }

theorem Evicts.eviction (h : Evicts g o g') : Eviction g o g' := by
  rcases h with rfl | rfl
  · exact evict_eviction
  · exact evict_eviction.onDelete

/-! ## A pass as a walk over all objects -/

section Walk

variable (around continues visit)

/-- From the state `g` on, with the objects `todo` ahead, a pass ends in the last state. -/
inductive Walk : Collector Object → List Object → Collector Object → Prop
  | stop {g : Collector Object} {todo : List Object} :
    continues g = false → Walk g todo g
  | finish {g : Collector Object} {todo : List Object} :
    (∀ o ∈ todo, g.optimizer.isEligible around.isBusy o = false) → Walk g todo g
  | visit {g g' : Collector Object} {skipped todo : List Object} {o : Object} :
    (∀ z ∈ skipped, g.optimizer.isEligible around.isBusy z = false) →
    g.optimizer.isEligible around.isBusy o → continues g →
    Walk (visit (g.consider o) o) todo g' → Walk g (skipped ++ o :: todo) g'

def Decides : Prop :=
  ∀ g o, g.optimizer.isEligible around.isBusy o → visit g o = g ∨ Evicts g o (visit g o)

end Walk

theorem isEligible_iff : g.optimizer.isEligible around.isBusy o = true ↔
    o ∉ g.optimizer.beingDeleted ∧ around.isLocked o = false ∧ around.hasReaders o = false ∧
      (g.optimizer.chains (g.optimizer.userAgent o)).minNum <
        (g.optimizer.chains (g.optimizer.userAgent o)).num := by
  simp [Optimizer.isEligible, Surroundings.isBusy, and_assoc]

theorem decides_visitForGc (around : Surroundings Object) (seconds : UInt32) :
    Decides around (visitForGc around seconds) := by
  intro g o ho
  obtain ⟨hlive, -, hreaders, -⟩ := isEligible_iff.mp ho
  rw [visitForGc, if_pos hlive]
  split_ifs
  · refine .inr (.inr ?_)
    rw [tryDisposeBuffer, if_neg (by simp [hreaders])]
    rfl
  · exact .inl rfl

theorem visitForRun_eq (ho : g.optimizer.isEligible around.isBusy o) :
    visitForRun around g o = (g.evict o).onDelete o := by
  obtain ⟨hlive, -, hreaders, -⟩ := isEligible_iff.mp ho
  exact if_pos ⟨hlive, by simp [hreaders]⟩

theorem visitForMemory_eq (ho : g.optimizer.isEligible around.isBusy o) :
    visitForMemory around g o = g.evict o := by
  obtain ⟨hlive, -, hreaders, -⟩ := isEligible_iff.mp ho
  exact if_pos ⟨hlive, by simp [hreaders]⟩

theorem decides_visitForRun (around : Surroundings Object) : Decides around (visitForRun around) :=
  fun _ _ ho => .inr (.inr (visitForRun_eq ho))

theorem decides_visitForMemory (around : Surroundings Object) :
    Decides around (visitForMemory around) :=
  fun _ _ ho => .inr (.inl (visitForMemory_eq ho))

theorem Decides.represents (hvisit : Decides around visit) (h : g.optimizer.Represents objs)
    (horder : inOrder objs (userAgentsFrom 0) = done ++ o :: todo)
    (ho : g.optimizer.isEligible around.isBusy o) :
    ∃ objs' done', (visit (g.consider o) o).optimizer.Represents objs' ∧
      inOrder objs' (userAgentsFrom 0) = done' ++ todo := by
  rcases hvisit (g.consider o) o ho with heq | hevicts
  · rw [heq]
    exact ⟨objs, done ++ [o], h, by simp [horder]⟩
  · obtain ⟨objs', hobjs', horder'⟩ := h.remove_inOrder horder
    exact ⟨objs', done, hevicts.eviction.represents objs' hobjs', horder'⟩

theorem loop_walk (hvisit : Decides around visit) {fuel : Nat} (h : g.optimizer.Represents objs)
    (horder : inOrder objs (userAgentsFrom 0) = done ++ todo)
    (hfuel : todo.length ≤ fuel) :
    ∃ g', loop around continues visit fuel g
        (g.optimizer.getNextGcObject around.isBusy todo.head?) = some g' ∧
      Walk around continues visit g todo g' ∧ ∃ objs', g'.optimizer.Represents objs' := by
  induction fuel generalizing g objs done todo with
  | zero =>
    obtain rfl := List.length_eq_zero_iff.mp (Nat.le_zero.mp hfuel)
    exact ⟨g, rfl, .finish (by simp), objs, h⟩
  | succ fuel ih =>
    obtain ⟨hnone, hrest⟩ | ⟨skipped, o, rest, rfl, hskipped, ho, hsome⟩ :=
      h.getNextGcObject_eq around.isBusy horder
    · refine ⟨g, ?_, .finish hrest, objs, h⟩
      rw [hnone]
      rfl
    · rw [hsome]
      cases hcontinues : continues g with
      | false => exact ⟨g, by simp [loop, hcontinues], .stop hcontinues, objs, h⟩
      | true =>
        obtain ⟨objs', done', hobjs', horder'⟩ :=
          hvisit.represents h (horder.trans (List.append_assoc done skipped _).symm) ho
        have hfuel' : rest.length ≤ fuel := by
          simp only [List.length_append, List.length_cons] at hfuel
          omega
        obtain ⟨g', hg', hwalk, hend⟩ := ih hobjs' horder' hfuel'
        refine ⟨g', ?_, .visit hskipped ho hcontinues hwalk, hend⟩
        simp only [loop, hcontinues, if_true]
        exact hg'

theorem length_inOrder (h : g.optimizer.Represents objs) :
    (inOrder objs (userAgentsFrom 0)).length = g.optimizer.linked.card := by
  rw [← List.toFinset_card_of_nodup h.nodup_inOrder]
  congr 1
  ext z
  rw [List.mem_toFinset, h.mem_inOrder]

theorem pass_walk (continues : Collector Object → Bool) (hvisit : Decides around visit)
    (h : g.optimizer.Represents objs) :
    ∃ g', g.pass around continues visit = some g' ∧ Walk around continues visit g.begin
      (inOrder objs (userAgentsFrom 0)) g' ∧
      ∃ objs', g'.optimizer.Represents objs' := by
  have hfirst : g.optimizer.getFirstGcObject around.isBusy =
      g.optimizer.getNextGcObject around.isBusy
        (inOrder objs (userAgentsFrom 0)).head? := by
    rw [← h.firstOf_eq]
    rfl
  rw [pass, hfirst]
  exact loop_walk (g := g.begin) hvisit h (List.nil_append _).symm (length_inOrder h).le

/-! ## What a whole pass preserves -/

/-- Objects leave the chains, but not so many that a chain gets too short. -/
structure Evolves (g g' : Collector Object) : Prop where
  domain : g'.domain = g.domain
  evictionMode : g'.evictionMode = g.evictionMode
  flagged : g.optimizer.beingDeleted ⊆ g'.optimizer.beingDeleted
  linked : ∀ o ∈ g.optimizer.linked, o ∈ g'.optimizer.linked ∨ o ∈ g'.optimizer.beingDeleted
  userAgent : ∀ o ∉ g'.optimizer.beingDeleted, g'.optimizer.userAgent o = g.optimizer.userAgent o
  minNum : ∀ ua, (g'.optimizer.chains ua).minNum = (g.optimizer.chains ua).minNum
  num : ∀ ua, (g'.optimizer.chains ua).num ≤ (g.optimizer.chains ua).num
  retained : ∀ ua, min (g.optimizer.chains ua).num (g.optimizer.chains ua).minNum ≤
    (g'.optimizer.chains ua).num

namespace Evolves

omit [DecidableEq Object]

theorem refl (g : Collector Object) : Evolves g g where
  domain := rfl
  evictionMode := rfl
  flagged := subset_rfl
  linked _ ho := .inl ho
  userAgent _ _ := rfl
  minNum _ := rfl
  num _ := le_rfl
  retained _ := min_le_left _ _

theorem trans (h : Evolves g g') (h' : Evolves g' g'') : Evolves g g'' where
  domain := h'.domain.trans h.domain
  evictionMode := h'.evictionMode.trans h.evictionMode
  flagged := h.flagged.trans h'.flagged
  linked o ho := by
    rcases h.linked o ho with hlinked | hdeleted
    · exact h'.linked o hlinked
    · exact .inr (h'.flagged hdeleted)
  userAgent o ho := (h'.userAgent o ho).trans (h.userAgent o fun hin => ho (h'.flagged hin))
  minNum ua := (h'.minNum ua).trans (h.minNum ua)
  num ua := (h'.num ua).trans (h.num ua)
  retained ua := by
    have hstep := h'.retained ua
    rw [h.minNum ua] at hstep
    exact (le_min (h.retained ua) (min_le_right _ _)).trans hstep

end Evolves

theorem uintSub_num (hnum : ∀ ua, (g.optimizer.chains ua).num < uintRange)
    (ho : g.optimizer.isEligible around.isBusy o) :
    uintSub (g.optimizer.chains (g.optimizer.userAgent o)).num 1 =
      (g.optimizer.chains (g.optimizer.userAgent o)).num - 1 :=
  uintSub_eq (hnum _) (Nat.one_le_of_lt (isEligible_iff.mp ho).2.2.2)

theorem Eviction.evolves (h : Eviction g o g') (ho : g.optimizer.isEligible around.isBusy o)
    (hnum : ∀ ua, (g.optimizer.chains ua).num < uintRange) : Evolves g g' where
  domain := h.domain
  evictionMode := h.evictionMode
  flagged := by
    rw [h.beingDeleted]
    exact Finset.subset_insert _ _
  linked z hz := by
    rw [h.linked, h.beingDeleted]
    by_cases hzo : z = o
    · exact .inr (hzo ▸ Finset.mem_insert_self _ _)
    · exact .inl (Finset.mem_erase_of_ne_of_mem hzo hz)
  userAgent z hz := by
    rw [h.beingDeleted] at hz
    exact h.userAgent z fun heq => hz (heq ▸ Finset.mem_insert_self _ _)
  minNum ua := by
    rw [h.chains]
    exact (Optimizer.chains_remove _ _ ua).1
  num ua := by
    rw [h.chains, (Optimizer.chains_remove _ _ ua).2]
    split_ifs with hua
    · rw [hua, uintSub_num hnum ho]
      exact Nat.sub_le _ _
    · exact le_rfl
  retained ua := by
    obtain ⟨-, -, -, hlong⟩ := isEligible_iff.mp ho
    rw [h.chains, (Optimizer.chains_remove _ _ ua).2]
    split_ifs with hua
    · rw [hua, uintSub_num hnum ho]
      exact (min_le_right _ _).trans (Nat.le_sub_one_of_lt hlong)
    · exact min_le_left _ _

theorem Decides.evolves (hvisit : Decides around visit)
    (ho : g.optimizer.isEligible around.isBusy o)
    (hnum : ∀ ua, (g.optimizer.chains ua).num < uintRange) :
    Evolves g (visit (g.consider o) o) := by
  have hconsider : Evolves g (g.consider o) := { Evolves.refl g with }
  rcases hvisit (g.consider o) o ho with heq | hevicts
  · rw [heq]
    exact hconsider
  · exact hconsider.trans (hevicts.eviction.evolves ho hnum)

theorem Walk.evolves (hvisit : Decides around visit) (h : Walk around continues visit g todo g')
    (hnum : ∀ ua, (g.optimizer.chains ua).num < uintRange) : Evolves g g' := by
  induction h with
  | stop | finish => exact Evolves.refl _
  | visit _ ho _ _ ih =>
    have hstep := hvisit.evolves ho hnum
    exact hstep.trans (ih fun ua => (hstep.num ua).trans_lt (hnum ua))

theorem Evolves.not_eligible (h : Evolves g g')
    (ho : g.optimizer.isEligible around.isBusy o = false) :
    g'.optimizer.isEligible around.isBusy o = false := by
  rw [Bool.eq_false_iff] at ho ⊢
  intro ho'
  obtain ⟨hlive, hlocked, hreaders, hlong⟩ := isEligible_iff.mp ho'
  rw [h.userAgent o hlive, h.minNum] at hlong
  exact ho (isEligible_iff.mpr
    ⟨fun hin => hlive (h.flagged hin), hlocked, hreaders, hlong.trans_le (h.num _)⟩)

/-! ## The objects of a pass -/

/-- What the records of a pass say: the objects that were considered stand in this order, and those
that were evicted are among them. -/
structure Records (around : Surroundings Object) (g : Collector Object) (todo : List Object)
    (g' : Collector Object) (seen gone : List Object) : Prop where
  considered_eq : g'.considered = g.considered ++ seen
  purged_eq : g'.purged = g.purged ++ gone
  considered : seen.Sublist todo
  purged : gone.Sublist seen
  isLocked : ∀ o ∈ seen, around.isLocked o = false
  hasReaders : ∀ o ∈ seen, around.hasReaders o = false
  beingDeleted : g'.optimizer.beingDeleted = g.optimizer.beingDeleted ∪ gone.toFinset
  linked : g'.optimizer.linked = g.optimizer.linked \ gone.toFinset
  freedSize : todo.Nodup → g.freedSize + (todo.map g.bytes).sum < ulongRange →
    g'.freedSize = g.freedSize + (gone.map g.bytes).sum

theorem records_nil : Records around g todo g [] [] where
  considered_eq := (List.append_nil _).symm
  purged_eq := (List.append_nil _).symm
  considered := List.nil_sublist _
  purged := List.nil_sublist _
  isLocked := by simp
  hasReaders := by simp
  beingDeleted := by simp
  linked := by simp
  freedSize _ _ := rfl

theorem Walk.records (hvisit : Decides around visit) (h : Walk around continues visit g todo g') :
    ∃ seen gone, Records around g todo g' seen gone := by
  induction h with
  | stop | finish => exact ⟨[], [], records_nil⟩
  | @visit g g' skipped todo o hskipped ho hcontinues hwalk ih =>
    obtain ⟨seen, gone, hrec⟩ := ih
    obtain ⟨hlive, hlocked, hreaders, -⟩ := isEligible_iff.mp ho
    have htail : todo.Sublist (skipped ++ o :: todo) :=
      (List.sublist_cons_self o todo).trans (List.sublist_append_right _ _)
    have hsublist : (o :: seen).Sublist (skipped ++ o :: todo) :=
      (hrec.considered.cons_cons o).trans (List.sublist_append_right _ _)
    have hall : ∀ z ∈ o :: seen, around.isLocked z = false ∧ around.hasReaders z = false := by
      intro z hz
      rcases List.mem_cons.mp hz with rfl | hz
      · exact ⟨hlocked, hreaders⟩
      · exact ⟨hrec.isLocked z hz, hrec.hasReaders z hz⟩
    have hroom : g.freedSize + ((skipped ++ o :: todo).map g.bytes).sum < ulongRange →
        g.freedSize + g.bytes o + (todo.map g.bytes).sum < ulongRange := by
      simp only [List.map_append, List.sum_append, List.map_cons, List.sum_cons]
      omega
    rcases hvisit (g.consider o) o ho with heq | hevicts
    · rw [heq] at hrec
      exact ⟨o :: seen, gone, {
        considered_eq := hrec.considered_eq.trans (List.append_assoc _ _ _)
        purged_eq := hrec.purged_eq
        considered := hsublist
        purged := hrec.purged.cons o
        isLocked := fun z hz => (hall z hz).1
        hasReaders := fun z hz => (hall z hz).2
        beingDeleted := hrec.beingDeleted
        linked := hrec.linked
        freedSize := fun hnodup hsum => hrec.freedSize (hnodup.sublist htail)
          ((Nat.add_le_add_right (Nat.le_add_right _ _) _).trans_lt (hroom hsum)) }⟩
    · have hev := hevicts.eviction
      refine ⟨o :: seen, o :: gone, ?_, ?_, hsublist, hrec.purged.cons_cons o,
        fun z hz => (hall z hz).1, fun z hz => (hall z hz).2, ?_, ?_, fun hnodup hsum => ?_⟩
      · rw [hrec.considered_eq, hev.considered]
        exact List.append_assoc _ _ _
      · rw [hrec.purged_eq, hev.purged]
        exact List.append_assoc _ _ _
      · rw [hrec.beingDeleted, hev.beingDeleted, List.toFinset_cons, Finset.insert_union,
          Finset.union_insert]
        rfl
      · rw [hrec.linked, hev.linked, List.toFinset_cons]
        ext z
        simp only [Finset.mem_sdiff, Finset.mem_erase, Finset.mem_insert, consider]
        tauto
      · have hout : o ∉ todo :=
          (List.nodup_cons.mp (hnodup.sublist (List.sublist_append_right _ _))).1
        have hbytes : ∀ z ∈ todo, (visit (g.consider o) o).bytes z = g.bytes z :=
          fun z hz => hev.bytes z (ne_of_mem_of_not_mem hz hout)
        have hfreed : (visit (g.consider o) o).freedSize = g.freedSize + g.bytes o :=
          hev.freedSize.trans (Nat.mod_eq_of_lt ((Nat.le_add_right _ _).trans_lt (hroom hsum)))
        rw [hrec.freedSize (hnodup.sublist htail) (by
            rw [hfreed, List.map_congr_left hbytes]
            exact hroom hsum), hfreed, List.map_cons, List.sum_cons, ← Nat.add_assoc,
          List.map_congr_left fun z hz => hbytes z (hrec.considered.subset (hrec.purged.subset hz))]

/-! ## Order and limits -/

/-- A pass from `g` to `g'` deletes objects user agent by user agent, those that were used least
recently first, and within the limits. -/
structure Orderly (around : Surroundings Object) (objs : Nat → List Object)
    (g g' : Collector Object) : Prop where
  considered : g'.considered.Sublist (inOrder objs (userAgentsFrom 0))
  once : g'.considered.Nodup
  purged : g'.purged.Sublist g'.considered
  isLocked : ∀ o ∈ g'.purged, around.isLocked o = false
  hasReaders : ∀ o ∈ g'.purged, around.hasReaders o = false
  beingDeleted : g'.optimizer.beingDeleted = g.optimizer.beingDeleted ∪ g'.purged.toFinset
  linked : g'.optimizer.linked = g.optimizer.linked \ g'.purged.toFinset
  retained : ∀ ua, min (g.optimizer.chainLength ua) (g.optimizer.chains ua).minNum ≤
    g'.optimizer.chainLength ua

theorem Orderly.card_lt (h : Orderly around objs g g')
    (hfits : g.optimizer.linked.card < uintRange) : g'.optimizer.linked.card < uintRange :=
  (Finset.card_le_card (h.linked ▸ Finset.sdiff_subset)).trans_lt hfits

theorem sum_bytes_lt (h : g.optimizer.Represents objs)
    (hfits : g.optimizer.linked.card < uintRange) :
    ((inOrder objs (userAgentsFrom 0)).map g.bytes).sum < ulongRange := by
  -- fewer than `2 ^ 32` sizes of 32 bits
  have hsum := List.sum_le_card_nsmul
    ((inOrder objs (userAgentsFrom 0)).map g.bytes) uintRange fun n hn => by
      obtain ⟨o, -, rfl⟩ := List.mem_map.mp hn
      exact (g.bufferSize o).toNat_lt.le
  rw [List.length_map, length_inOrder h, smul_eq_mul] at hsum
  exact hsum.trans_lt (Nat.mul_lt_mul_of_pos_right hfits (by decide))

theorem Walk.orderly (hvisit : Decides around visit) (h : g.optimizer.Represents objs)
    (hfits : g.optimizer.linked.card < uintRange) (h' : ∃ objs', g'.optimizer.Represents objs')
    (hwalk : Walk around continues visit g.begin
      (inOrder objs (userAgentsFrom 0)) g') :
    Orderly around objs g g' ∧ g'.freedSize = (g'.purged.map g.bytes).sum := by
  obtain ⟨seen, gone, hrec⟩ := hwalk.records hvisit
  have hseen : g'.considered = seen := hrec.considered_eq
  have hgone : g'.purged = gone := hrec.purged_eq
  have hfreed := hrec.freedSize h.nodup_inOrder ((Nat.zero_add _).trans_lt (sum_bytes_lt h hfits))
  obtain ⟨objs', h'⟩ := h'
  have hlinked : g'.optimizer.linked = g.optimizer.linked \ g'.purged.toFinset :=
    hgone ▸ hrec.linked
  have hretained : ∀ ua, min (g.optimizer.chainLength ua) (g.optimizer.chains ua).minNum ≤
      g'.optimizer.chainLength ua := by
    intro ua
    have hfits' := (Finset.card_le_card (hlinked ▸ Finset.sdiff_subset)).trans_lt hfits
    rw [← h.num_eq_chainLength hfits, ← h'.num_eq_chainLength hfits']
    exact (hwalk.evolves hvisit h.num_lt).retained ua
  refine ⟨⟨?_, ?_, ?_, ?_, ?_, ?_, hlinked, hretained⟩, ?_⟩
  · exact hseen ▸ hrec.considered
  · exact hseen ▸ h.nodup_inOrder.sublist hrec.considered
  · exact hseen ▸ hgone ▸ hrec.purged
  · exact fun o ho => hrec.isLocked o (hrec.purged.subset (hgone ▸ ho))
  · exact fun o ho => hrec.hasReaders o (hrec.purged.subset (hgone ▸ ho))
  · exact hgone ▸ hrec.beingDeleted
  · rw [hfreed, hgone]
    exact Nat.zero_add _

theorem Walk.exhausts (hvisit : ∀ g o, g.optimizer.isEligible around.isBusy o →
    Evicts g o (visit g o)) (h : Walk around continues visit g todo g')
    (hnum : ∀ ua, (g.optimizer.chains ua).num < uintRange) :
    continues g' = false ∨ ∀ o ∈ todo, g'.optimizer.isEligible around.isBusy o = false := by
  have hdecides : Decides around visit := fun g o ho => .inr (hvisit g o ho)
  induction h with
  | stop hstop => exact .inl hstop
  | finish hnone => exact .inr hnone
  | @visit g g' skipped todo o hskipped ho hcontinues hwalk ih =>
    have hstep := hdecides.evolves ho hnum
    have hnum' := fun ua => (hstep.num ua).trans_lt (hnum ua)
    have hlater := hwalk.evolves hdecides hnum'
    refine (ih hnum').imp_right fun hrest z hz => ?_
    rcases List.mem_append.mp hz with hz | hz
    · exact (hstep.trans hlater).not_eligible (hskipped z hz)
    · rcases List.mem_cons.mp hz with rfl | hz
      · refine hlater.not_eligible (Bool.eq_false_iff.mpr fun helig => ?_)
        have hdeleted := (hvisit (g.consider z) z ho).eviction.beingDeleted
        exact (isEligible_iff.mp helig).1 (hdeleted ▸ Finset.mem_insert_self _ _)
      · exact hrest z hz

theorem foldl_onDelete (os : List Object) (g : Collector Object) :
    ∃ userAgent, os.foldl onDelete g = { g with optimizer := { g.optimizer with userAgent } } ∧
      ∀ z ∉ os, userAgent z = g.optimizer.userAgent z := by
  induction os generalizing g with
  | nil => exact ⟨g.optimizer.userAgent, rfl, fun _ _ => rfl⟩
  | cons o os ih =>
    obtain ⟨userAgent, hfold, hkept⟩ := ih (g.onDelete o)
    rw [List.foldl_cons, hfold]
    refine ⟨userAgent, ?_, fun z hz => ?_⟩
    · rcases onDelete_eq g o with heq | heq <;> rw [heq]
      rfl
    · obtain ⟨hne, hz⟩ := not_or.mp (mt List.mem_cons.mpr hz)
      rw [hkept z hz]
      rcases onDelete_eq g o with heq | heq <;> rw [heq]
      exact Function.update_of_ne hne _ _

omit [DecidableEq Object] in
theorem validateEvictionMode_eq (g : Collector Object) :
    ∃ evictionMode, g.validateEvictionMode = { g with evictionMode } := by
  unfold validateEvictionMode
  split
  all_goals first | exact ⟨g.evictionMode, rfl⟩ | skip
  all_goals
    split_ifs
    · exact ⟨_, rfl⟩
    · exact ⟨g.evictionMode, rfl⟩

theorem orderly_begin (h : g.optimizer.Represents objs)
    (hfits : g.optimizer.linked.card < uintRange) : Orderly around objs g g.begin := by
  have hwalk : Walk around (fun _ => false) (fun g _ => g) g.begin
      (inOrder objs (userAgentsFrom 0)) g.begin := .stop rfl
  have hend : ∃ objs, g.begin.optimizer.Represents objs := ⟨objs, h⟩
  exact (hwalk.orderly (fun _ _ _ => .inl rfl) h hfits hend).1

theorem pass_orderly (continues : Collector Object → Bool) (hvisit : Decides around visit)
    (h : g.optimizer.Represents objs) (hfits : g.optimizer.linked.card < uintRange) :
    ∃ g', g.pass around continues visit = some g' ∧ Orderly around objs g g' := by
  obtain ⟨g', hpass, hwalk, hend⟩ := pass_walk continues hvisit h
  exact ⟨g', hpass, (hwalk.orderly hvisit h hfits hend).1⟩

def Kept (around : Surroundings Object) (g : Collector Object) (o : Object) : Prop :=
  o ∈ g.optimizer.beingDeleted ∨ around.isLocked o ∨ around.hasReaders o ∨
    g.optimizer.chainLength (g.optimizer.userAgent o) ≤
      (g.optimizer.chains (g.optimizer.userAgent o)).minNum

theorem kept_iff (h : ∃ objs, g.optimizer.Represents objs)
    (hfits : g.optimizer.linked.card < uintRange) :
    Kept around g o ↔ g.optimizer.isEligible around.isBusy o = false := by
  obtain ⟨objs, h⟩ := h
  rw [Bool.eq_false_iff, Ne, isEligible_iff, Kept, h.num_eq_chainLength hfits]
  grind

theorem processFreeMemoryMessage_orderly (h : g.optimizer.Represents objs)
    (hfits : g.optimizer.linked.card < uintRange) (minSize : Nat) :
    ∃ g', g.processFreeMemoryMessage around minSize = some g' ∧ Orderly around objs g g' ∧
      (minSize ≤ (g'.purged.map g.bytes).sum ∨
        ∀ o ∈ g'.optimizer.linked, Kept around g' o) := by
  obtain ⟨g₁, hpass, hwalk, h₁⟩ :=
    pass_walk (fun g => g.freedSize < minSize) (decides_visitForMemory around) h
  obtain ⟨horderly, hfreed⟩ := hwalk.orderly (decides_visitForMemory around) h hfits h₁
  have hend := hwalk.exhausts (fun g o ho => .inl (visitForMemory_eq ho)) h.num_lt
  obtain ⟨userAgent, hfold, hkept⟩ := foldl_onDelete g₁.purged.reverse g₁
  have hg' : g.processFreeMemoryMessage around minSize =
      some { g₁ with optimizer := { g₁.optimizer with userAgent } } := by
    rw [processFreeMemoryMessage, hpass, Option.map_some, hfold]
  have hagent : ∀ o ∈ g₁.optimizer.linked, userAgent o = g₁.optimizer.userAgent o := by
    intro o ho
    rw [horderly.linked] at ho
    exact hkept o (by simpa using (Finset.mem_sdiff.mp ho).2)
  have hlength : ∀ ua, ({ g₁.optimizer with userAgent } : Optimizer Object).chainLength ua =
      g₁.optimizer.chainLength ua := fun ua =>
    congrArg Finset.card (Finset.filter_congr fun o ho => by simp only [hagent o ho])
  have hsubset : g₁.optimizer.linked ⊆ g.optimizer.linked := horderly.linked ▸ Finset.sdiff_subset
  refine ⟨_, hg', { horderly with retained := fun ua => (hlength ua).symm ▸ horderly.retained ua },
    hend.imp (fun hstop => ?_) fun hnone o ho => ?_⟩
  · rw [← hfreed]
    exact Nat.le_of_not_lt (of_decide_eq_false hstop)
  · have hkept₁ : Kept around g₁ o :=
      (kept_iff h₁ (horderly.card_lt hfits)).mpr (hnone o (h.mem_inOrder.mpr (hsubset ho)))
    simp only [Kept, hagent o ho, hlength]
    exact hkept₁

theorem processGcMessage_orderly (h : g.optimizer.Represents objs)
    (hfits : g.optimizer.linked.card < uintRange) (seconds : UInt32) :
    ∃ g', g.processGcMessage around seconds = some g' ∧ Orderly around objs g g' := by
  obtain ⟨evictionMode, hmode⟩ := validateEvictionMode_eq g
  rw [processGcMessage, hmode]
  simp only
  split_ifs
  · obtain ⟨g', hpass, horderly⟩ := pass_orderly (g := { g with evictionMode }) (fun _ => true)
      (decides_visitForGc around seconds) h hfits
    exact ⟨g', hpass, { horderly with }⟩
  · exact ⟨_, rfl, { orderly_begin h hfits with }⟩

theorem runGcPass_orderly (h : g.optimizer.Represents objs)
    (hfits : g.optimizer.linked.card < uintRange) :
    ∃ g', g.runGcPass around = some g' ∧ Orderly around objs g g' := by
  obtain ⟨evictionMode, hmode⟩ := validateEvictionMode_eq g
  obtain ⟨g', hpass, horderly⟩ := pass_orderly (g := { g with evictionMode }) isAboveMemoryQuota
    (decides_visitForRun around) h hfits
  rw [runGcPass, hmode]
  exact ⟨g', hpass, { horderly with }⟩

theorem evicts_in_order (around : Surroundings Object) (g : Collector Object)
    (objs : Nat → List Object) (h : g.optimizer.Represents objs)
    (hfits : g.optimizer.linked.card < uintRange) :
    (∀ minSize, ∃ g', g.processFreeMemoryMessage around minSize = some g' ∧
      Orderly around objs g g' ∧
      (minSize ≤ (g'.purged.map g.bytes).sum ∨
        ∀ o ∈ g'.optimizer.linked, Kept around g' o)) ∧
    (∀ seconds, ∃ g', g.processGcMessage around seconds = some g' ∧ Orderly around objs g g') ∧
    ∃ g', g.runGcPass around = some g' ∧ Orderly around objs g g' :=
  ⟨processFreeMemoryMessage_orderly h hfits, processGcMessage_orderly h hfits,
    runGcPass_orderly h hfits⟩

/-- Two sessions of user agent 0 and one of user agent 1, of which one is retained. -/
def threeSessions (evictionMode : EvictionMode) (quota : Nat) : Collector Nat where
  domain := .session
  evictionMode := evictionMode
  optimizer := ((Optimizer.start.add 1 0).add 2 0).add 3 1
  bufferSize := fun _ => 10
  sessionMemory := ⟨quota, 30⟩
  fpcMemory := ⟨0, 0⟩
  globalMemory := ⟨0, 30⟩
  considered := []
  purged := []
  freedSize := 0

def idleAt (now : UInt32) : Surroundings Nat where
  isLocked _ := false
  hasReaders _ := false
  lastModificationTime o := if o = 1 then 100 else 1000
  expirationTime _ := 0
  currentTimestamp := now

theorem threeSessions_ordered (evictionMode : EvictionMode) (quota : Nat) :
    (threeSessions evictionMode quota).optimizer.Ordered :=
  ((Optimizer.start_valid.toOrdered.add (by decide) (by decide)).add (by decide) (by decide)).add
    (by decide) (by decide)

theorem evicts_in_order_of_threeSessions : ∃ objs,
    (threeSessions .lru 0).optimizer.Represents objs ∧
      ∃ g', (threeSessions .lru 0).processFreeMemoryMessage (idleAt 1000) 15 = some g' ∧
        g'.purged = [1] ∧ Orderly (idleAt 1000) objs (threeSessions .lru 0) g' := by
  have hordered := threeSessions_ordered .lru 0
  obtain ⟨objs, h⟩ := hordered.represents
  obtain ⟨g', hg', horderly, -⟩ :=
    (evicts_in_order (idleAt 1000) _ objs h (by decide)).1 15
  have hpurged : ((threeSessions .lru 0).processFreeMemoryMessage (idleAt 1000) 15).map (·.purged) =
      some [1] := by decide
  rw [hg'] at hpurged
  exact ⟨objs, h, g', hg', Option.some.inj hpurged, horderly⟩

theorem Walk.eq_of_not_eligible (h : Walk around continues visit g todo g')
    (hnone : ∀ o, g.optimizer.isEligible around.isBusy o = false) : g' = g := by
  cases h with
  | stop | finish => rfl
  | visit _ ho => exact absurd ho (Bool.eq_false_iff.mp (hnone _))

/-- If there are 4294967296 sessions of user agent 0, none of them is evicted. -/
theorem sessions_not_evicted : ∃ actions, ∃ g : Collector Nat, ∃ objs g',
    Reaches (Optimizer.step .session) (fun _ _ => True) Optimizer.start actions g.optimizer ∧
      g.optimizer.Represents objs ∧ (objs 0).length = 2 ^ 32 ∧
      g.processFreeMemoryMessage (idleAt 1000) 1 = some g' ∧ g'.purged = [] ∧
      ∀ o ∈ g'.optimizer.linked, ¬Kept (idleAt 1000) g' o := by
  obtain ⟨actions, s, hruns, hlong⟩ := Optimizer.exists_isLong (2 ^ 32)
  have hvalid : s.Valid := hruns.invariant (P := Optimizer.Valid) Optimizer.start_valid
    fun _ _ _ hs _ hstep => (hs.step hstep).1
  obtain ⟨objs, h⟩ := hvalid.represents
  -- the counter of the only chain is 0, as if there were no objects
  have hnone : ∀ o, s.isEligible (idleAt 1000).isBusy o = false := by
    intro o
    have hnum : (s.chains (s.userAgent o)).num = 0 := by
      rw [h.num_eq, hlong.chainLength_eq]
      split_ifs <;> rfl
    simp [Optimizer.isEligible, hnum]
  have hlength : (objs 0).length = 2 ^ 32 := (h.length_eq 0).trans (hlong.chainLength_eq 0)
  let g : Collector Nat := { threeSessions .lru 0 with optimizer := s }
  obtain ⟨g', hpass, hwalk, -⟩ := pass_walk (g := g) (fun g => g.freedSize < 1)
    (decides_visitForMemory (idleAt 1000)) h
  obtain rfl := hwalk.eq_of_not_eligible hnone
  refine ⟨actions, g, objs, g.begin, hruns, h, hlength, ?_, rfl, fun o ho => ?_⟩
  · rw [processFreeMemoryMessage, hpass]
    rfl
  · have ho : o ∈ s.linked := ho
    have hagent : s.userAgent o = 0 := hlong.userAgent o (by simpa [hlong.linked] using ho)
    have hlive : o ∉ s.beingDeleted := by simp [hlong.beingDeleted]
    rintro (hdeleted | hlocked | hreaders | hshort)
    · exact hlive hdeleted
    · cases hlocked
    · cases hreaders
    · change s.chainLength (s.userAgent o) ≤ (s.chains (s.userAgent o)).minNum at hshort
      rw [hagent, hlong.chainLength_eq, hlong.minNum] at hshort
      exact absurd hshort (by decide)

end Collector

end EvictionPass

end CyberCache
