/-
  BREAKPOINTS — five stored collections and the one set that the emulation tests.

  A request stores what it asks for in its own collection and rebuilds `all_breakpoints_` from the
  four lists of addresses.  The lines asked for in a source file are kept as lines, and turned into
  addresses anew at every rebuild.

  1. **State and requests** — `Dbg` and the three `set…Breakpoints` methods of `z80_target`, with
     the replies they return.

  2. **Spec lemmas** — what a request on the listing and one on a source file come down to
     (`handle_virtual`, `handle_source`), and what the lines of a file leave alone
     (`setForFile_frame`).

  3. **Runs** — `Stored d reqs` says that the collections hold the most recent of the requests
     `reqs`, group by group, and that the rebuilt sets fit them.  It is kept by every request
     (`handle_stored`), so that after any run a breakpoint is armed exactly if the most recent
     request of its group asks for it (`armed_iff_requested`).
-/
import Udap.Dbg.Sources
import Udap.Dap.Target

set_option linter.unusedVariables false

namespace Udap

open Udap.Cxx Udap.Dap

/-! ## The state -/

/-- The part of `dbg` that breakpoint requests read and change. -/
structure Dbg where
  symbols : Symbols := {}
  virtualLstPath : Str := str "/__virtual__/listing.lst"
  fullListingAddrs : List UInt16 := []
  instructionBreakpoints : List UInt16 := []
  functionBreakpoints : List UInt16 := []
  sourceBreakpointsByFile : Table Str (List Int) := ∅
  sourceBreakpointAddresses : List UInt16 := []
  asmBreakpoints : Finset UInt16 := ∅
  allBreakpoints : Finset UInt16 := ∅

namespace Dbg

/-- `dbg::is_breakpoint`. -/
def isBreakpoint (d : Dbg) (pc : UInt16) : Bool := decide (pc ∈ d.allBreakpoints)

/-- `dbg::rebuild_all_breakpoints`. -/
def rebuildAllBreakpoints (d : Dbg) : Dbg :=
  { d with allBreakpoints := d.sourceBreakpointAddresses.toFinset ∪
      d.instructionBreakpoints.toFinset ∪ d.functionBreakpoints.toFinset ∪ d.asmBreakpoints }

/-- `dbg::rebuild_source_breakpoint_addresses`: every address once, where it is first met. -/
def rebuildSourceBreakpointAddresses (d : Dbg) : Dbg :=
  { d with sourceBreakpointAddresses :=
      (d.sourceBreakpointsByFile.toList.flatMap fun (e : Str × List Int) =>
        e.2.filterMap (d.symbols.lookupAddress e.1)).eraseDups }.rebuildAllBreakpoints

/-- `dbg::set_source_breakpoints_for_file`. -/
def setSourceBreakpointsForFile (file : Str) (lines : List Int) (d : Dbg) : Dbg :=
  -- a request without a path is dropped
  if file.isEmpty then d
  else if lines.isEmpty then
    { d with sourceBreakpointsByFile := d.sourceBreakpointsByFile.erase file }
  else { d with sourceBreakpointsByFile := d.sourceBreakpointsByFile.assign file lines }

/-- One line's reply in `dbg::resolve_source_breakpoints_for_file`. -/
def resolveLine (d : Dbg) (file : Str) (line : Int) : BreakpointInfo :=
  match d.symbols.lookupAddress file line with
  | some _ => { verified := true, line := line }
  | none =>
    if !d.symbols.hasCdb && !d.symbols.hasMap then
      { verified := false, line := line,
        message := str "Pending symbol resolution (CDB/MAP not loaded yet)" }
    else { verified := false, line := line, message := str "No address mapping for this line" }

/-- `dbg::resolve_source_breakpoints_for_file`. -/
def resolveSourceBreakpointsForFile (d : Dbg) (file : Str) : List BreakpointInfo :=
  match d.sourceBreakpointsByFile.lookup file with
  | none => []
  | some lines => lines.map (d.resolveLine file)

/-- `dbg::set_asm_breakpoints`. -/
def setAsmBreakpoints (addrs : List UInt16) (d : Dbg) : Dbg :=
  { d with asmBreakpoints := addrs.toFinset }.rebuildAllBreakpoints

/-! ## The requests of the target -/

/-- Is the path that of the virtual listing? -/
def isVirtual (d : Dbg) (path : Str) : Bool := !path.isEmpty && path == d.virtualLstPath

/-- The address of a line of the virtual listing, if it is in range. -/
def listingAddr (d : Dbg) (line : Int) : Option UInt16 :=
  -- line 1 is the first instruction
  let idx := line - 1
  if 0 ≤ idx then d.fullListingAddrs[idx.toNat]? else none

/-- One line's reply for the virtual listing. -/
def listingReply (d : Dbg) (line : Int) : BreakpointInfo :=
  match d.listingAddr line with
  | some addr => { verified := true, line := line, instructionReference := some (formatHex addr 4) }
  | none => { verified := false, line := line, message := str "Line out of range" }

/-- `z80_target::set_source_breakpoints`. -/
def setSourceBreakpoints (path : Str) (sourceReference : Int) (lines : List Int) (d : Dbg) :
    List BreakpointInfo × Dbg :=
  if d.isVirtual path then
    -- the listing keeps no lines, only the addresses
    (lines.map d.listingReply, d.setAsmBreakpoints (lines.filterMap d.listingAddr))
  else
    -- the source reference is not looked at
    let d := d.setSourceBreakpointsForFile path lines
    (d.resolveSourceBreakpointsForFile path, d.rebuildSourceBreakpointAddresses)

/-- One name's reply. -/
def functionReply (d : Dbg) (name : Str) : BreakpointInfo :=
  match d.symbols.lookupFunctionAddress name with
  | some addr => { verified := true, instructionReference := some (formatHex addr 4) }
  | none => { verified := false, message := str "Function not found: " ++ name }

/-- `z80_target::set_function_breakpoints`. -/
def setFunctionBreakpoints (names : List Str) (d : Dbg) : List BreakpointInfo × Dbg :=
  (names.map d.functionReply,
    { d with functionBreakpoints :=
        names.filterMap d.symbols.lookupFunctionAddress }.rebuildAllBreakpoints)

/-- The address that an instruction reference stands for, if `std::stoul` can read it. -/
def referenceAddr (ref : Str) : Option UInt16 := (stoul ref 0).map UInt16.ofNat

/-- The reply for an instruction breakpoint. -/
def instructionReply (addr : UInt16) : BreakpointInfo :=
  { verified := true, instructionReference := some (formatHex addr 4) }

/-- `z80_target::set_instruction_breakpoints`. -/
def setInstructionBreakpoints (refs : List Str) (d : Dbg) : List BreakpointInfo × Dbg :=
  let d := { d with instructionBreakpoints := refs.filterMap referenceAddr }.rebuildAllBreakpoints
  (d.instructionBreakpoints.map instructionReply, d)

/-! ## What a rebuild arms -/

/-- The addresses of the stored lines. -/
def SourceArmed (d : Dbg) (a : UInt16) : Prop :=
  ∃ file lines line, d.sourceBreakpointsByFile.lookup file = some lines ∧ line ∈ lines ∧
    d.symbols.lookupAddress file line = some a

theorem mem_rebuildAll (d : Dbg) (a : UInt16) :
    a ∈ d.rebuildAllBreakpoints.allBreakpoints ↔
      a ∈ d.sourceBreakpointAddresses ∨ a ∈ d.instructionBreakpoints ∨
        a ∈ d.functionBreakpoints ∨ a ∈ d.asmBreakpoints := by
  simp only [rebuildAllBreakpoints, Finset.mem_union, List.mem_toFinset, or_assoc]

theorem mem_sourceAddresses (d : Dbg) (a : UInt16) :
    a ∈ d.rebuildSourceBreakpointAddresses.sourceBreakpointAddresses ↔ d.SourceArmed a := by
  show a ∈ List.eraseDups _ ↔ _
  rw [List.mem_eraseDups, List.mem_flatMap]
  constructor
  · rintro ⟨⟨file, lines⟩, hmem, ha⟩
    obtain ⟨line, hline, haddr⟩ := List.mem_filterMap.mp ha
    exact ⟨file, lines, line, Table.mem_toList.mp hmem, hline, haddr⟩
  · rintro ⟨file, lines, line, hlookup, hline, haddr⟩
    exact ⟨(file, lines), Table.mem_toList.mpr hlookup, List.mem_filterMap.mpr ⟨line, hline, haddr⟩⟩

/-- A listing line that is in range. -/
theorem listingAddr_eq_some {d : Dbg} {line : Int} {a : UInt16} :
    d.listingAddr line = some a ↔ 1 ≤ line ∧ d.fullListingAddrs[(line - 1).toNat]? = some a := by
  unfold listingAddr
  by_cases h : 1 ≤ line
  · rw [if_pos (by omega)]
    exact ⟨fun ha => ⟨h, ha⟩, fun ha => ha.2⟩
  · rw [if_neg (by omega)]
    exact ⟨nofun, fun ha => absurd ha.1 h⟩

/-- A reference that `std::stoul` can read stands for its value modulo 65536. -/
theorem referenceAddr_eq_some {ref : Str} {a : UInt16} :
    referenceAddr ref = some a ↔ ∃ n, stoul ref 0 = some n ∧ a.toNat = n % 65536 := by
  unfold referenceAddr
  rw [Option.map_eq_some_iff]
  refine exists_congr fun n => and_congr_right fun _ => ?_
  rw [← UInt16.toNat_inj, UInt16.toNat_ofNat', eq_comm]

/-! ## Runs of requests -/

/-- A breakpoint request as the target receives it. -/
inductive BpRequest where
  | source (path : Str) (sourceReference : Int) (lines : List Int)
  | function (names : List Str)
  | instruction (refs : List Str)

/-- One request, its reply aside. -/
def handle (d : Dbg) : BpRequest → Dbg
  | .source path ref lines => (d.setSourceBreakpoints path ref lines).2
  | .function names => (d.setFunctionBreakpoints names).2
  | .instruction refs => (d.setInstructionBreakpoints refs).2

/-- The lines that a request sets on `path`. -/
def BpRequest.linesOn (path : Str) : BpRequest → Option (List Int)
  | .source p _ lines => if p = path then some lines else none
  | _ => none

def BpRequest.names? : BpRequest → Option (List Str)
  | .function names => some names
  | _ => none

def BpRequest.refs? : BpRequest → Option (List Str)
  | .instruction refs => some refs
  | _ => none

/-- What the most recent request says of which `pick` says anything. -/
def latest {α : Type} (pick : BpRequest → Option α) (reqs : List BpRequest) : Option α :=
  reqs.reverse.findSome? pick

theorem latest_concat {α : Type} (pick : BpRequest → Option α) (reqs : List BpRequest)
    (r : BpRequest) : latest pick (reqs ++ [r]) = (pick r).or (latest pick reqs) := by
  rw [latest, List.reverse_append, List.reverse_singleton, List.singleton_append,
    List.findSome?_cons]
  cases pick r <;> rfl

/-- A request that says nothing leaves the most recent answer. -/
theorem latest_concat_none {α : Type} {pick : BpRequest → Option α} {r : BpRequest}
    (h : pick r = none) (reqs : List BpRequest) : latest pick (reqs ++ [r]) = latest pick reqs := by
  rw [latest_concat, h, Option.none_or]

/-- The path of the virtual listing of a program. -/
def virtualPath (base : Str) : Str := str "/__virtual__/" ++ base ++ str ".asm"

theorem virtualPath_ne_nil (base : Str) : virtualPath base ≠ [] := by
  simp [virtualPath, str]

/-- A target whose symbols and listing are loaded and that has received no breakpoint request. -/
def loaded (symbols : Symbols) (base : Str) (listing : List UInt16) : Dbg :=
  { symbols := symbols, virtualLstPath := virtualPath base, fullListingAddrs := listing }

/-- The lines stored for a file after the requests `reqs`: those of the most recent one, if it
    asked for any and if the path is that of a source file. -/
def storedLines (virtualLst : Str) (reqs : List BpRequest) (file : Str) : Option (List Int) :=
  if file = [] ∨ file = virtualLst then none
  else (latest (BpRequest.linesOn file) reqs).filter fun lines => !lines.isEmpty

/-- **The invariant.**  Each collection holds what the most recent request of its group asked for,
    and the addresses and the merged set were rebuilt since. -/
structure Stored (d : Dbg) (reqs : List BpRequest) : Prop where
  virtualLst : d.virtualLstPath ≠ []
  byFile : ∀ file, d.sourceBreakpointsByFile.lookup file = storedLines d.virtualLstPath reqs file
  addresses : ∀ a, a ∈ d.sourceBreakpointAddresses ↔ d.SourceArmed a
  asm : d.asmBreakpoints =
    (((latest (BpRequest.linesOn d.virtualLstPath) reqs).getD []).filterMap d.listingAddr).toFinset
  functions : d.functionBreakpoints =
    ((latest BpRequest.names? reqs).getD []).filterMap d.symbols.lookupFunctionAddress
  instructions : d.instructionBreakpoints =
    ((latest BpRequest.refs? reqs).getD []).filterMap referenceAddr
  all : ∀ a, a ∈ d.allBreakpoints ↔
    a ∈ d.sourceBreakpointAddresses ∨ a ∈ d.instructionBreakpoints ∨
      a ∈ d.functionBreakpoints ∨ a ∈ d.asmBreakpoints

/-- Without any request nothing is stored. -/
theorem stored_nil (symbols : Symbols) {path : Str} (hpath : path ≠ []) (listing : List UInt16) :
    Stored { symbols := symbols, virtualLstPath := path, fullListingAddrs := listing } [] := by
  have hnone : ∀ file, storedLines path [] file = none := by
    intro file
    unfold storedLines
    split
    · rfl
    · rfl
  constructor
  case virtualLst => exact hpath
  case byFile => exact fun file => (AList.lookup_empty file).trans (hnone file).symm
  case addresses =>
    intro a
    constructor
    · intro ha
      cases ha
    · rintro ⟨file, lines, line, hlookup, -⟩
      exact absurd (AList.lookup_empty file) (by rw [hlookup]; exact Option.some_ne_none lines)
  case all =>
    intro a
    simp
  all_goals rfl

theorem loaded_stored (symbols : Symbols) (base : Str) (listing : List UInt16) :
    Stored (loaded symbols base listing) [] :=
  stored_nil symbols (virtualPath_ne_nil base) listing

/-- The table of lines after `set_source_breakpoints_for_file`. -/
theorem lookup_setForFile (d : Dbg) {path : Str} (hpath : path ≠ []) (lines : List Int)
    (file : Str) :
    (d.setSourceBreakpointsForFile path lines).sourceBreakpointsByFile.lookup file =
      if file = path then (some lines).filter (fun ls => !ls.isEmpty)
      else d.sourceBreakpointsByFile.lookup file := by
  unfold setSourceBreakpointsForFile
  rw [if_neg (by simpa using hpath)]
  by_cases hempty : lines = []
  · subst hempty
    rw [if_pos List.isEmpty_nil]
    by_cases hf : file = path
    · subst hf
      rw [if_pos rfl]
      exact AList.lookup_erase file _
    · rw [if_neg hf]
      exact AList.lookup_erase_ne hf
  · rw [if_neg (by simpa using hempty)]
    show (d.sourceBreakpointsByFile.assign path lines).lookup file = _
    rw [Table.lookup_assign]
    by_cases hf : file = path
    · rw [if_pos hf, if_pos hf, Option.some_or]
      simp [Option.filter, hempty]
    · rw [if_neg hf, if_neg hf, Option.none_or]

/-- Setting the lines of a file changes nothing but the table. -/
theorem setForFile_frame (d : Dbg) (path : Str) (lines : List Int) :
    d.setSourceBreakpointsForFile path lines =
      { d with sourceBreakpointsByFile :=
          (d.setSourceBreakpointsForFile path lines).sourceBreakpointsByFile } := by
  unfold setSourceBreakpointsForFile
  split
  · rfl
  · split <;> rfl

/-- A request on the virtual listing. -/
theorem handle_virtual {d : Dbg} {path : Str} (h : d.isVirtual path = true) (ref : Int)
    (lines : List Int) :
    d.handle (.source path ref lines) = d.setAsmBreakpoints (lines.filterMap d.listingAddr) := by
  rw [handle, setSourceBreakpoints, if_pos h]

/-- A request on a source file. -/
theorem handle_source {d : Dbg} {path : Str} (h : ¬ d.isVirtual path = true) (ref : Int)
    (lines : List Int) :
    d.handle (.source path ref lines) =
      (d.setSourceBreakpointsForFile path lines).rebuildSourceBreakpointAddresses := by
  rw [handle, setSourceBreakpoints, if_neg h]

theorem isVirtual_iff {d : Dbg} (hd : d.virtualLstPath ≠ []) {path : Str} :
    d.isVirtual path = true ↔ path = d.virtualLstPath := by
  unfold isVirtual
  simp only [Bool.and_eq_true, Bool.not_eq_true', List.isEmpty_eq_false_iff, beq_iff_eq]
  exact ⟨fun h => h.2, fun h => ⟨h ▸ hd, h⟩⟩

/-- Requests of the other kinds leave the lines of every file. -/
theorem storedLines_concat {virtualLst : Str} {r : BpRequest} (hr : ∀ file, r.linesOn file = none)
    (reqs : List BpRequest) (file : Str) :
    storedLines virtualLst (reqs ++ [r]) file = storedLines virtualLst reqs file := by
  rw [storedLines, storedLines, latest_concat_none (hr file)]

/-- A request for the listing changes the lines of no file. -/
theorem Stored.byFile_virtual {d : Dbg} {reqs : List BpRequest} (hd : Stored d reqs) (ref : Int)
    (lines : List Int) (file : Str) : d.sourceBreakpointsByFile.lookup file =
      storedLines d.virtualLstPath (reqs ++ [.source d.virtualLstPath ref lines]) file := by
  rw [hd.byFile, storedLines, storedLines]
  by_cases hf : file = [] ∨ file = d.virtualLstPath
  · rw [if_pos hf, if_pos hf]
  · have hne : d.virtualLstPath ≠ file := fun h => hf (Or.inr h.symm)
    rw [if_neg hf, if_neg hf, latest_concat_none (if_neg hne)]

/-- A request for a source file changes its lines, and those of no other file. -/
theorem Stored.byFile_source {d : Dbg} {reqs : List BpRequest} (hd : Stored d reqs) {path : Str}
    (hne : path ≠ d.virtualLstPath) (ref : Int) (lines : List Int) (file : Str) :
    (d.setSourceBreakpointsForFile path lines).sourceBreakpointsByFile.lookup file =
      storedLines d.virtualLstPath (reqs ++ [.source path ref lines]) file := by
  rw [storedLines, latest_concat]
  by_cases hempty : path = []
  · -- a request without a path is dropped
    have hsame : d.setSourceBreakpointsForFile path lines = d := by
      rw [setSourceBreakpointsForFile, if_pos (by simpa using hempty)]
    rw [hsame, hd.byFile, storedLines]
    by_cases hf : file = [] ∨ file = d.virtualLstPath
    · rw [if_pos hf, if_pos hf]
    · have hpf : path ≠ file := fun h => hf (Or.inl (h ▸ hempty))
      rw [if_neg hf, if_neg hf, BpRequest.linesOn, if_neg hpf, Option.none_or]
  · rw [lookup_setForFile d hempty]
    by_cases hf : file = path
    · subst hf
      rw [if_pos rfl, if_neg (by simp [hempty, hne]), BpRequest.linesOn, if_pos rfl, Option.some_or]
    · rw [if_neg hf, BpRequest.linesOn, if_neg (Ne.symm hf), Option.none_or, hd.byFile, storedLines]

/-- **The step lemma**: every request keeps the invariant, with itself as the most recent one. -/
theorem handle_stored {d : Dbg} {reqs : List BpRequest} (hd : Stored d reqs) (r : BpRequest) :
    Stored (d.handle r) (reqs ++ [r]) := by
  cases r with
  | source path ref lines =>
    by_cases hv : d.isVirtual path = true
    · have hpath : path = d.virtualLstPath := (isVirtual_iff hd.virtualLst).mp hv
      rw [handle_virtual hv]
      refine ⟨hd.virtualLst, fun file => ?_, hd.addresses, ?_, ?_, ?_, mem_rebuildAll _⟩
      · rw [hpath]
        exact hd.byFile_virtual ref lines file
      · have hown : BpRequest.linesOn d.virtualLstPath (.source path ref lines) = some lines :=
          if_pos hpath
        show (lines.filterMap d.listingAddr).toFinset = (List.filterMap d.listingAddr
          ((latest (BpRequest.linesOn d.virtualLstPath) _).getD [])).toFinset
        rw [latest_concat, hown, Option.some_or, Option.getD_some]
      · exact hd.functions.trans (by rw [latest_concat_none rfl]; rfl)
      · exact hd.instructions.trans (by rw [latest_concat_none rfl])
    · have hne : path ≠ d.virtualLstPath := fun h => hv ((isVirtual_iff hd.virtualLst).mpr h)
      rw [handle_source hv, setForFile_frame]
      refine ⟨hd.virtualLst, hd.byFile_source hne ref lines, mem_sourceAddresses _, ?_, ?_, ?_,
        mem_rebuildAll _⟩
      · exact hd.asm.trans (by rw [latest_concat_none (if_neg hne)]; rfl)
      · exact hd.functions.trans (by rw [latest_concat_none rfl]; rfl)
      · exact hd.instructions.trans (by rw [latest_concat_none rfl])
  | function names =>
    refine ⟨hd.virtualLst, fun file => ?_, hd.addresses, ?_, ?_, ?_, mem_rebuildAll _⟩
    · exact (hd.byFile file).trans (storedLines_concat (fun _ => rfl) reqs file).symm
    · exact hd.asm.trans (by rw [latest_concat_none rfl]; rfl)
    · rw [latest_concat]
      rfl
    · exact hd.instructions.trans (by rw [latest_concat_none rfl])
  | instruction refs =>
    refine ⟨hd.virtualLst, fun file => ?_, hd.addresses, ?_, ?_, ?_, mem_rebuildAll _⟩
    · exact (hd.byFile file).trans (storedLines_concat (fun _ => rfl) reqs file).symm
    · exact hd.asm.trans (by rw [latest_concat_none rfl]; rfl)
    · exact hd.functions.trans (by rw [latest_concat_none rfl]; rfl)
    · rw [latest_concat]
      rfl

/-- A run of requests. -/
def run (d : Dbg) (reqs : List BpRequest) : Dbg := reqs.foldl handle d

/-- Requests change no symbols and no listing. -/
theorem handle_frame (d : Dbg) (r : BpRequest) :
    (d.handle r).symbols = d.symbols ∧ (d.handle r).virtualLstPath = d.virtualLstPath ∧
      (d.handle r).fullListingAddrs = d.fullListingAddrs := by
  cases r with
  | source path ref lines =>
    by_cases hv : d.isVirtual path = true
    · rw [handle_virtual hv]
      exact ⟨rfl, rfl, rfl⟩
    · rw [handle_source hv, setForFile_frame]
      exact ⟨rfl, rfl, rfl⟩
  | function names => exact ⟨rfl, rfl, rfl⟩
  | instruction refs => exact ⟨rfl, rfl, rfl⟩

theorem run_frame (d : Dbg) (reqs : List BpRequest) :
    (d.run reqs).symbols = d.symbols ∧ (d.run reqs).virtualLstPath = d.virtualLstPath ∧
      (d.run reqs).fullListingAddrs = d.fullListingAddrs := by
  induction reqs generalizing d with
  | nil => exact ⟨rfl, rfl, rfl⟩
  | cons r reqs ih =>
    obtain ⟨h1, h2, h3⟩ := ih (d.handle r)
    obtain ⟨k1, k2, k3⟩ := handle_frame d r
    exact ⟨h1.trans k1, h2.trans k2, h3.trans k3⟩

/-- **The run lemma.** -/
theorem run_stored {d : Dbg} {done : List BpRequest} (hd : Stored d done) (reqs : List BpRequest) :
    Stored (d.run reqs) (done ++ reqs) := by
  induction reqs generalizing d done with
  | nil => rwa [List.append_nil]
  | cons r reqs ih =>
    have := ih (handle_stored hd r)
    rwa [List.append_assoc, List.singleton_append] at this

/-- The stored lines of a source file are those of the most recent request on it. -/
theorem mem_storedLines {virtualLst : Str} {reqs : List BpRequest} {file : Str} {line : Int} :
    (∃ lines, storedLines virtualLst reqs file = some lines ∧ line ∈ lines) ↔
      file ≠ [] ∧ file ≠ virtualLst ∧
        ∃ lines, latest (BpRequest.linesOn file) reqs = some lines ∧ line ∈ lines := by
  unfold storedLines
  by_cases hf : file = [] ∨ file = virtualLst
  · rw [if_pos hf]
    refine ⟨fun ⟨_, h, _⟩ => (nomatch h), fun ⟨h1, h2, _⟩ => ?_⟩
    exact absurd hf (by simp [h1, h2])
  · rw [if_neg hf]
    obtain ⟨h1, h2⟩ := not_or.mp hf
    constructor
    · rintro ⟨lines, h, hline⟩
      exact ⟨h1, h2, lines, (Option.filter_eq_some_iff.mp h).1, hline⟩
    · rintro ⟨-, -, lines, h, hline⟩
      refine ⟨lines, Option.filter_eq_some_iff.mpr ⟨h, ?_⟩, hline⟩
      simpa using List.ne_nil_of_mem hline

/-- Membership in what a group's most recent request resolves to. -/
theorem mem_filterMap_getD {α : Type} {o : Option (List α)} {f : α → Option UInt16} {a : UInt16} :
    a ∈ (o.getD []).filterMap f ↔ ∃ items item, o = some items ∧ item ∈ items ∧ f item = some a := by
  cases o with
  | none => simp
  | some items => simp [List.mem_filterMap]

/-- **A breakpoint is armed exactly if the most recent request of its group asks for it.**  On a
    target that has loaded any symbols and any listing and has received no breakpoint request
    before, after any requests `reqs`: the groups are the source files one by one, the virtual
    listing, the functions, and the instruction references. -/
theorem armed_iff_requested (symbols : Symbols) (base : Str) (listing : List UInt16)
    (reqs : List BpRequest) (a : UInt16) :
    ((loaded symbols base listing).run reqs).isBreakpoint a = true ↔
      (∃ file lines line, file ≠ [] ∧ file ≠ virtualPath base ∧
        latest (BpRequest.linesOn file) reqs = some lines ∧ line ∈ lines ∧
        symbols.lookupAddress file line = some a) ∨
      (∃ lines line, latest (BpRequest.linesOn (virtualPath base)) reqs = some lines ∧
        line ∈ lines ∧ 1 ≤ line ∧ listing[(line - 1).toNat]? = some a) ∨
      (∃ names name, latest BpRequest.names? reqs = some names ∧ name ∈ names ∧
        symbols.lookupFunctionAddress name = some a) ∨
      (∃ refs ref n, latest BpRequest.refs? reqs = some refs ∧ ref ∈ refs ∧
        stoul ref 0 = some n ∧ a.toNat = n % 65536) := by
  have hs := run_stored (loaded_stored symbols base listing) reqs
  rw [List.nil_append] at hs
  obtain ⟨hsym, hpath, hlist⟩ := run_frame (loaded symbols base listing) reqs
  generalize hd : (loaded symbols base listing).run reqs = d at hs hsym hpath hlist ⊢
  replace hsym : d.symbols = symbols := hsym
  replace hpath : d.virtualLstPath = virtualPath base := hpath
  replace hlist : d.fullListingAddrs = listing := hlist
  have hsource : a ∈ d.sourceBreakpointAddresses ↔
      ∃ file lines line, file ≠ [] ∧ file ≠ virtualPath base ∧
        latest (BpRequest.linesOn file) reqs = some lines ∧ line ∈ lines ∧
        symbols.lookupAddress file line = some a := by
    rw [hs.addresses, SourceArmed, hsym]
    constructor
    · rintro ⟨file, lines, line, hl, hline, ha⟩
      obtain ⟨h1, h2, lines', hl', hline'⟩ :=
        mem_storedLines.mp ⟨lines, (hs.byFile file).symm.trans hl, hline⟩
      exact ⟨file, lines', line, h1, hpath ▸ h2, hl', hline', ha⟩
    · rintro ⟨file, lines, line, h1, h2, hl, hline, ha⟩
      obtain ⟨lines', hl', hline'⟩ := mem_storedLines.mpr ⟨h1, hpath ▸ h2, lines, hl, hline⟩
      exact ⟨file, lines', line, (hs.byFile file).trans hl', hline', ha⟩
  have hasm : a ∈ d.asmBreakpoints ↔
      ∃ lines line, latest (BpRequest.linesOn (virtualPath base)) reqs = some lines ∧
        line ∈ lines ∧ 1 ≤ line ∧ listing[(line - 1).toNat]? = some a := by
    rw [hs.asm, List.mem_toFinset, mem_filterMap_getD, hpath, ← hlist]
    simp only [listingAddr_eq_some]
  have hfun : a ∈ d.functionBreakpoints ↔
      ∃ names name, latest BpRequest.names? reqs = some names ∧ name ∈ names ∧
        symbols.lookupFunctionAddress name = some a := by
    rw [hs.functions, mem_filterMap_getD, hsym]
  have hinstr : a ∈ d.instructionBreakpoints ↔
      ∃ refs ref n, latest BpRequest.refs? reqs = some refs ∧ ref ∈ refs ∧
        stoul ref 0 = some n ∧ a.toNat = n % 65536 := by
    rw [hs.instructions, mem_filterMap_getD]
    simp only [referenceAddr_eq_some]
    exact exists_congr fun refs => exists_congr fun ref =>
      ⟨fun ⟨h1, h2, n, h3⟩ => ⟨n, h1, h2, h3⟩, fun ⟨n, h1, h2, h3⟩ => ⟨h1, h2, n, h3⟩⟩
  have horder : ∀ p q r s : Prop, p ∨ q ∨ r ∨ s ↔ p ∨ s ∨ r ∨ q := fun p q r s =>
    or_congr_right (or_comm.trans ((or_congr_left or_comm).trans or_assoc))
  rw [isBreakpoint, decide_eq_true_iff, hs.all, hsource, hasm, hfun, hinstr]
  exact horder _ _ _ _

end Dbg

end Udap
