import CyberCache.Pipeline.Binlog
import CyberCache.Wire.Relay

/-!
# Binlogs of servers that were interrupted

A server may stop while it appends a command to its binlog, so that only some bytes of the command
are in the file. No part of a message is taken for a message; so the next server gets all commands
that were written completely, and it reports an error for the last one.
-/

namespace CyberCache

open Function (update update_self update_of_ne)

open ByteMemory

variable {commands : List BinlogCommand} {c : BinlogCommand} {front tail : List UInt8}

theorem WellFormed.not_ok_of_front {f : MessageFormat} {header payload : List UInt8}
    (hm : WellFormed f header payload) (hsplit : front ++ tail = message header payload)
    (htail : tail ≠ []) {sb : SharedBuffers} (hfresh : sb.Fresh) {n : Nat}
    {schedule : List Delivery}
    {call : ReadCall} (hcall : call ∈ f.readCalls n (.create sb) ⟨front, schedule⟩) :
    call.outcome ≠ .returns .ok := by
  intro hok
  have hfits : SizeFieldFits front := hm.fits_of_append hsplit
  obtain ⟨received, hreceived, hprogress⟩ :=
    ((f.progress_invariant hfits).readCalls (.create hfresh) (List.nil_append _) call hcall).final
      (by simp [hok])
  have hdone := MessageFormat.readDone_of_readCalls hcall hok
  cases hprogress with
  | done body _ hbody hbytes =>
    have hwhole : body ++ (closing (ofList body 0) ++ (call.device.incoming ++ tail)) =
        message header payload := by
      rw [← hsplit, ← hreceived, hbytes]
      simp only [List.append_assoc]
    obtain ⟨rfl, htodo⟩ := hm.body_length hwhole hbody
    rw [ofList_append_zero _ _ hm.header_pos] at htodo
    exact htail (List.append_eq_nil_iff.mp (List.append_right_eq_self.mp htodo)).2
  | _ => simp_all

theorem FileInputPipeline.loadBinlog_torn {files : Files} {path : String} {content : List UInt8}
    (h : Stores (some content) commands) (hfile : files path = some (content ++ front))
    (hc : c.WellFormed) (hsplit : front ++ tail = c.bytes) (hfront : front ≠ []) (htail : tail ≠ [])
    {blocks : Nat → SharedBuffers} (hblocks : ∀ n, (blocks n).Fresh) (sizes : Nat → Nat → Nat) :
    (loadBinlog files blocks sizes path).error = true ∧
    (loadBinlog files blocks sizes path).posted.map SharedBuffers.command = commands := by
  obtain ⟨posted, fuel, current, hposted, hfuel, hload⟩ := loadBinlog_append h hfile hblocks sizes
  have hpos := List.length_pos_iff.mpr hfront
  obtain ⟨fuel, rfl⟩ : ∃ n, fuel = n + 1 := ⟨fuel - 1, by omega⟩
  have hnot : (FileCommandReader.read (sizes current) (.create (blocks current)) front).outcome ≠
      .returns .ok := hc.not_ok_of_front hsplit htail (hblocks current) (n := 1) List.mem_cons_self
  rw [hload, loadLoop, if_pos (by omega)]
  simpa [hnot] using hposted

namespace FileOutputPipeline

/-- If the last command was written in part, loading the files still gives every command before it;
an error is reported for the last file, and for no other. -/
theorem torn_binlog_reloads {files : Files} {held : String → List BinlogCommand}
    (hfiles : ∀ path, Stores (files path) (held path)) {buildModeId : UInt8}
    {actions : List FileOutputCommand} {s : FileOutputPipeline}
    (hrun : Reaches step (fun _ command => command.Intact) (create files held buildModeId)
    actions s) {path : String} {content : List UInt8} (hpath : s.path = some path)
    (hcontent : s.files path = some content) (hc : c.WellFormed) (hsplit : front ++ tail = c.bytes)
    (hfront : front ≠ []) (htail : tail ≠ []) (blocks : String → Nat → SharedBuffers)
    (hblocks : ∀ path n, (blocks path n).Fresh) (sizes : String → Nat → Nat → Nat) :
    let loaded := (s.rotated ++ [path]).map fun name => FileInputPipeline.loadBinlog
      (update s.files path (some (content ++ front))) (blocks name) (sizes name) name
    loaded.flatMap (fun l => l.posted.map SharedBuffers.command) = s.recorded ∧
      loaded.map Loaded.error = List.replicate s.rotated.length false ++ [true] := by
  have h : s.Consistent := hrun.invariant (.create hfiles buildModeId) fun _ _ _ h => h.step
  set torn := update s.files path (some (content ++ front))
  have hpart : torn path = some (content ++ front) := update_self ..
  have hlast := FileInputPipeline.loadBinlog_torn (hcontent ▸ h.files path) hpart hc hsplit hfront
    htail (hblocks path) (sizes path)
  have hother (name : String) (hname : name ∈ s.rotated) :=
    have heq : torn name = s.files name :=
      update_of_ne (ne_of_mem_of_not_mem hname (h.current path hpath)) ..
    have hstores : Stores (torn name) (s.held name) := heq ▸ h.files name
    FileInputPipeline.loadBinlog_posts hstores (heq ▸ h.rotated name hname) (hblocks name)
      (sizes name)
  constructor
  · rw [h.recorded path hpath, List.flatMap_map, List.flatMap_append, List.flatMap_singleton,
      hlast.2]
    exact congrArg (· ++ _) (List.flatMap_congr fun name hname => (hother name hname).2)
  · rw [List.map_map, List.map_append, List.map_singleton]
    exact congrArg₂ (· ++ [·])
      (List.map_eq_replicate_iff.mpr fun name hname => (hother name hname).1) hlast.1

/-- A binlog with a `PING` command, and the first byte of another one after it. -/
theorem torn_ping_reloads :
    ∃ (s : FileOutputPipeline) (content : List UInt8), s.recorded = [⟨[0x80, 0x01], []⟩] ∧
      s.files "c3" = some content ∧ (s.rotated ++ ["c3"]).flatMap (fun name =>
        (FileInputPipeline.loadBinlog (update s.files "c3" (some (content ++ [0x80])))
          (fun _ => .create (fun _ => 1) fun _ => 0) (fun _ _ => 0) name).posted.map
            SharedBuffers.command) = s.recorded := by
  let write : FileOutputCommand := .processObject (shortCommand [0x80, 0x01]) (fun _ => 0) [] 0
  have hping : write.Intact := ping_wellFormed
  have hnone : String → Stores none [] := fun _ => rfl
  have hstart : Reaches step (fun _ command => command.Intact)
      (create (fun _ => none) (fun _ => []) 0) [] (create (fun _ => none) (fun _ => []) 0) := .nil
  have hopened := hstart.snoc (i := FileOutputCommand.openBinlog "c3" 0) trivial rfl
  have hrun := hopened.snoc hping rfl
  have hsplit : [0x80] ++ [0x01, 0xC3] = (shortCommand [0x80, 0x01]).sb.command.bytes := rfl
  have hloaded := torn_binlog_reloads hnone hrun rfl rfl ping_wellFormed hsplit (by decide)
    (by decide) (fun _ _ => .create (fun _ => 1) fun _ => 0) (fun _ _ => ⟨rfl, rfl⟩) fun _ _ _ => 0
  exact ⟨_, _, by decide, rfl, List.flatMap_map .. ▸ hloaded.1⟩

end FileOutputPipeline

end CyberCache
