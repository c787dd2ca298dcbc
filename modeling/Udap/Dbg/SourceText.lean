/-
  FROM THE TEXT TO THE SCREEN — does a breakpoint stop at the line it was set on?

  A launch reads the text of a CDB file, and everything that the debugger says about lines and
  addresses comes from there: the parser sorts the lines of C into modules, the index is built from
  the modules, and the breakpoints and the stack are answered from the index.

  1. **Launch** — the symbols behind a launch hold the lines of the text (`linesOf`, `parse_lines`),
     and a MAP file adds to them without taking anything away (`shownAt_line`, `bound_line`).

  2. **Result** — `breakpoint_shows_line`: a breakpoint on a line that the parser keeps is verified
     and armed at an address, and with the CPU there the stack shows this line of a file of that
     name.
-/
import Udap.Sdcc.CdbStored
import Udap.Dbg.ListingText
import Udap.Dbg.LoadedSources
import Udap.Dbg.Relaunch
import Udap.Dbg.Replies

set_option linter.unusedVariables false

namespace Udap

open Udap.Cxx Udap.Dap Udap.Sdcc

namespace Sdcc.CdbParser

/-- A module with assembly lines has its name from an assembly record. -/
theorem parse_asmLines {order : HashOrder} {content : Str} {modules : List CdbgInfoModule}
    (h : parseText order content = some modules) {mod : CdbgInfoModule} (hmod : mod ∈ modules)
    (hasm : mod.asmLines ≠ ∅) : ∃ r ∈ asmRecordsOf content, r.module = mod.name := by
  obtain ⟨s, hs, rfl⟩ := Option.map_eq_some_iff.mp h
  have hfresh := Run.exec_inv parseRaw_fresh _ _ _ (fun mod hmod => absurd hmod List.not_mem_nil) hs
  have hmerged := merge_merged order (asmRecordsOf content) hfresh (exec_parts hs).1
  obtain ⟨e, he⟩ : ∃ e, e ∈ mod.asmLines.toList := by
    apply List.exists_mem_of_ne_nil
    intro hnil
    exact hasm (AList.ext (List.map_eq_nil_iff.mp hnil))
  have hfound := hmerged.only mod hmod e.1 e.2 (Table.mem_toList.mp he)
  obtain ⟨r, hr, -⟩ := Option.map_eq_some_iff.mp hfound
  have hname := List.find?_some hr
  exact ⟨r, List.mem_of_find?_eq_some hr, (of_decide_eq_true hname).1⟩

end Sdcc.CdbParser

/-! ## The index -/

namespace Symbols

variable {disk : Disk} {s : Symbols}

open CdbParser

/-- The path under which the debugger shows a file. -/
def shownPath (disk : Disk) (s : Symbols) (file : Str) : Str :=
  sourcePath (s.resolveSourcePath disk) file

/-- The record of a line of C. -/
def recordOfLine (disk : Disk) (s : Symbols) (ln : CdbgInfoLine) : LineRecord :=
  ⟨Path.filename (s.shownPath disk ln.file), ln.file, ln.line, ln.address⟩

theorem mem_lineRecords {r : LineRecord} :
    r ∈ s.cdbModules.flatMap (lineRecords (s.resolveSourcePath disk)) ↔
      ∃ ln ∈ allLines s.cdbModules, s.recordOfLine disk ln = r := by
  simp only [allLines, List.mem_flatMap, lineRecords, List.mem_map]
  constructor
  · rintro ⟨mod, hmod, ln, hln, heq⟩
    exact ⟨ln, ⟨mod, hmod, hln⟩, heq⟩
  · rintro ⟨ln, ⟨mod, hmod, hln⟩, heq⟩
    exact ⟨mod, hmod, ln, hln, heq⟩

/-- **At the address of a line** one of the lines of this address is shown, whatever the MAP file and
    the assembly lines have there. -/
theorem shownAt_line (hs : s.Indexed disk) {ln : CdbgInfoLine} (hln : ln ∈ allLines s.cdbModules) :
    ∃ ln' ∈ allLines s.cdbModules, ln'.address = ln.address ∧
      s.lookupSourceAny ln.address = some ⟨s.shownPath disk ln'.file, ln'.line, false⟩ := by
  have hmem : s.recordOfLine disk ln
      ∈ s.cdbModules.flatMap (lineRecords (s.resolveSourcePath disk)) := mem_lineRecords.mpr ⟨ln, hln, rfl⟩
  have hlocation := List.mem_map_of_mem (f := LineRecord.location (s.resolveSourcePath disk) false) hmem
  obtain ⟨loc, hloc⟩ : ∃ loc, (((s.cdbModules.flatMap (lineRecords (s.resolveSourcePath disk))).map
      (LineRecord.location (s.resolveSourcePath disk) false)).reverse).lookup ln.address = some loc := by
    rw [← Option.ne_none_iff_exists', ne_eq, List.lookup_eq_none_iff]
    intro hnone
    have hne := hnone _ (List.mem_reverse.mpr hlocation)
    simp [LineRecord.location, recordOfLine] at hne
  obtain ⟨r, hr, haddr, rfl⟩ := record_of_location (List.mem_reverse.mp (mem_of_lookup hloc))
  obtain ⟨ln', hln', rfl⟩ := mem_lineRecords.mp hr
  refine ⟨ln', hln', haddr, ?_⟩
  unfold lookupSourceAny
  rw [hs, rebuildSourceIndex_eq]
  simp only [Table.lookup_emplaceAll, Table.lookup_assignAll, hloc, Option.some_or]
  rfl

/-- **A breakpoint on a line** is bound to the first of the lines with its file name and number. -/
theorem bound_line (hs : s.Indexed disk) {ln : CdbgInfoLine} (hln : ln ∈ allLines s.cdbModules)
    {path : Str} (hname : Path.filename path = Path.filename (s.shownPath disk ln.file))
    (hasm : ∀ r ∈ s.cdbModules.flatMap asmRecords, r.name ≠ Path.filename path) :
    ∃ ln' ∈ allLines s.cdbModules, ln'.line = ln.line ∧
      Path.filename (s.shownPath disk ln'.file) = Path.filename path ∧
      s.lookupAddress path ln.line = some ln'.address := by
  have hrecord : s.recordOfLine disk ln
      ∈ s.cdbModules.flatMap fun mod => asmRecords mod ++ lineRecords (s.resolveSourcePath disk) mod := by
    obtain ⟨mod, hmod, hr⟩ := List.mem_flatMap.mp (mem_lineRecords.mpr ⟨ln, hln, rfl⟩)
    exact List.mem_flatMap.mpr ⟨mod, hmod, List.mem_append_right _ hr⟩
  obtain ⟨r, hfirst⟩ : ∃ r, (s.cdbModules.flatMap fun mod =>
      asmRecords mod ++ lineRecords (s.resolveSourcePath disk) mod).find?
        (fun r => r.name = Path.filename path ∧ r.line = ln.line) = some r := by
    apply Option.isSome_iff_exists.mp
    rw [List.find?_isSome]
    exact ⟨_, hrecord, decide_eq_true ⟨hname.symm, rfl⟩⟩
  obtain ⟨hrname, hrline⟩ : r.name = Path.filename path ∧ r.line = ln.line := by
    have hkey := List.find?_some hfirst
    exact of_decide_eq_true hkey
  obtain ⟨mod, hmod, hr⟩ := List.mem_flatMap.mp (List.mem_of_find?_eq_some hfirst)
  rcases List.mem_append.mp hr with hr | hr
  · exact absurd hrname (hasm r (List.mem_flatMap.mpr ⟨mod, hmod, hr⟩))
  · obtain ⟨ln', hln', rfl⟩ := mem_lineRecords.mp (List.mem_flatMap.mpr ⟨mod, hmod, hr⟩)
    refine ⟨ln', hln', hrline, hrname, ?_⟩
    rw [lookupAddress_eq hs, firstRecord, records, indexRecords, List.find?_append, hfirst]
    rfl

end Symbols

/-! ## The launch -/

namespace Dbg

/-- One line of a request on a source file: its reply, what it arms, and what stays. -/
theorem setSourceBreakpoints_line {d : Dbg} {path : Str} (hpath : path ≠ [])
    (hv : ¬ d.isVirtual path = true) (ref : Int) {lines : List Int} {i : Nat} {line : Int}
    (hi : lines[i]? = some line) :
    (d.setSourceBreakpoints path ref lines).1[i]? = some (d.resolveLine path line) ∧
      (d.setSourceBreakpoints path ref lines).2.symbols = d.symbols ∧
      ∀ a, d.symbols.lookupAddress path line = some a →
        (d.setSourceBreakpoints path ref lines).2.isBreakpoint a = true := by
  have hne : lines ≠ [] := by
    rintro rfl
    cases hi
  have hstored := lookup_setForFile d hpath lines path
  rw [if_pos rfl, Option.filter_some, if_pos (by simpa using hne)] at hstored
  have hsymbols : (d.setSourceBreakpointsForFile path lines).symbols = d.symbols := by
    rw [setForFile_frame]
  rw [setSourceBreakpoints_file hv]
  refine ⟨?_, hsymbols, fun a ha => ?_⟩
  · rw [resolveSourceBreakpointsForFile, hstored]
    show (lines.map _)[i]? = _
    rw [List.getElem?_map, hi, Option.map_some, resolveLine, resolveLine, hsymbols]
  · refine decide_eq_true ((mem_rebuildAll _ a).mpr (Or.inl ((mem_sourceAddresses _ a).mpr ?_)))
    exact ⟨path, lines, line, hstored, List.mem_of_getElem? hi, by rw [hsymbols, ha]⟩

end Dbg

namespace Z80Target

open CdbParser

variable {C : Type} {h : Host C} {args : LaunchArgs} {content : Str}

/-- The CDB file that a launch reads. -/
def cdbFile (args : LaunchArgs) : Str := Host.symbolFile args.cdbFile args.program (str ".cdb")

/-- The symbols of the program are those of its CDB text, and they are indexed. -/
theorem loadedSymbols_text (hfound : h.disk.fileExists (cdbFile args) = some true)
    (hread : h.disk.read (cdbFile args) = some content) {s : Symbols}
    (hloaded : loadedSymbols h args = some s) :
    parseText h.order content = some s.cdbModules ∧ s.Indexed h.disk := by
  unfold loadedSymbols Host.loadCdb Host.loadMap at hloaded
  rw [← cdbFile, hfound, hread] at hloaded
  simp only [Option.bind_eq_bind, Option.bind_some, if_true, Option.bind_eq_some_iff,
    Option.map_eq_some_iff] at hloaded
  obtain ⟨_, ⟨modules, hparse, rfl⟩, found, -, hmap⟩ := hloaded
  split at hmap
  · split at hmap
    · obtain rfl := Option.some.inj hmap
      exact ⟨hparse, Symbols.setCdbModules_indexed _ _ _⟩
    · obtain rfl := Option.some.inj hmap
      exact ⟨hparse, Symbols.setMapSegments_indexed (Symbols.setMapSymbols_indexed _ _ _) _⟩
  · obtain rfl := Option.some.inj hmap
    exact ⟨hparse, Symbols.setCdbModules_indexed _ _ _⟩

/-- What the target knows of lines behind the launch of a program. -/
theorem launch_lines (hprogram : args.program ≠ [])
    (hfound : h.disk.fileExists (cdbFile args) = some true)
    (hread : h.disk.read (cdbFile args) = some content) {t u : Z80Target C}
    (hlaunch : t.launch h args = some u) :
    (allLines u.dbg.symbols.cdbModules).Perm (linesOf content) ∧ u.dbg.symbols.Indexed h.disk ∧
      ∀ r ∈ u.dbg.symbols.cdbModules.flatMap asmRecords,
        ∃ asm ∈ asmRecordsOf content, asm.module = r.name := by
  rw [launch_program hprogram] at hlaunch
  obtain ⟨s, hs, hlaunch⟩ := Option.bind_eq_some_iff.mp hlaunch
  obtain ⟨l, -, rfl⟩ := Option.map_eq_some_iff.mp hlaunch
  obtain ⟨hparse, hindexed⟩ := loadedSymbols_text hfound hread hs
  refine ⟨parse_lines hparse, hindexed, fun r hr => ?_⟩
  obtain ⟨mod, hmod, -, hasm, hname, -⟩ := Symbols.asmRecords_name hr
  rw [hname]
  exact parse_asmLines hparse hmod hasm

/-- **A breakpoint stops at its line.**  Behind the launch of a program, for every line of C that the
    parser keeps of the text of its CDB file, a breakpoint on that line of a file of that name is
    verified, and it arms the address of a line of this name and number; with the CPU at that
    address, whatever else has changed, the stack shows the file and the number of that line.  No two
    lines may share an address, and no assembly module may be named like the file. -/
theorem breakpoint_shows_line (hprogram : args.program ≠ [])
    (hfound : h.disk.fileExists (cdbFile args) = some true)
    (hread : h.disk.read (cdbFile args) = some content) {t u : Z80Target C}
    (hlaunch : t.launch h args = some u)
    (hone : ∀ a ∈ linesOf content, ∀ b ∈ linesOf content, a.address = b.address →
      a.file = b.file ∧ a.line = b.line)
    {ln : CdbgInfoLine} (hln : ln ∈ linesOf content) {path : Str} (hpath : path ≠ [])
    (hvirtual : path ≠ u.dbg.virtualLstPath)
    (hname : Path.filename path = Path.filename (u.dbg.symbols.shownPath h.disk ln.file))
    (hasm : ∀ r ∈ asmRecordsOf content, r.module ≠ Path.filename path)
    (ref : Int) {lines : List Int} {i : Nat} (hi : lines[i]? = some ln.line) :
    ∃ infos v, u.answer h (.breakpoints (.source path ref lines)) = some (.breakpoints infos, v) ∧
      infos[i]? = some { verified := true, line := ln.line } ∧
      ∃ hit ∈ linesOf content, hit.line = ln.line ∧
        Path.filename (u.dbg.symbols.shownPath h.disk hit.file) = Path.filename path ∧
        v.dbg.isBreakpoint hit.address = true ∧
        ∀ c, h.z80.getReg c.cpu .regPC = hit.address →
          ({ v with computer := c } : Z80Target C).answer h .stack = some (.stack
            [{ name := Path.filename path ++ 58 :: Cxx.toString ln.line
               address := formatHex hit.address 4
               sourcePath := u.dbg.symbols.shownPath h.disk hit.file
               line := ln.line }], { v with computer := c }) := by
  obtain ⟨hlines, hindexed, hstubs⟩ := launch_lines hprogram hfound hread hlaunch
  have hmem : ln ∈ allLines u.dbg.symbols.cdbModules := hlines.mem_iff.mpr hln
  have hnot : ¬ u.dbg.isVirtual path = true := by
    rw [Dbg.isVirtual, Bool.and_eq_true, not_and]
    exact fun _ heq => hvirtual (beq_iff_eq.mp heq)
  -- where the line is bound
  obtain ⟨hit, hhit, hline, hfile, hbound⟩ := Symbols.bound_line hindexed hmem hname (by
    intro r hr heq
    obtain ⟨asm, hasmMem, hasmName⟩ := hstubs r hr
    exact hasm asm hasmMem (hasmName.trans heq))
  -- what is shown there
  obtain ⟨ln', hln', haddr, hshown⟩ := Symbols.shownAt_line hindexed hhit
  obtain ⟨hsameFile, hsameLine⟩ :=
    hone ln' (hlines.mem_iff.mp hln') hit (hlines.mem_iff.mp hhit) haddr
  rw [hsameFile, hsameLine, hline] at hshown
  obtain ⟨hreply, hsymbols, harmed⟩ := Dbg.setSourceBreakpoints_line hpath hnot ref hi
  refine ⟨_, _, rfl, ?_, hit, hlines.mem_iff.mp hhit, hline, hfile, harmed _ hbound, fun c hpc => ?_⟩
  · rw [Dbg.resolveLine, hbound] at hreply
    exact hreply
  · have hcdb : u.dbg.symbols.hasCdb = true := by
      obtain ⟨mod, hmod, -⟩ := List.mem_flatMap.mp hmem
      rw [Symbols.hasCdb, Bool.not_eq_true', List.isEmpty_eq_false_iff]
      exact List.ne_nil_of_mem hmod
    rw [answer, pc, hpc, Dbg.reply, hsymbols, getStack, hcdb, if_pos rfl, hshown]
    dsimp only
    rw [hfile]

/-- Two lines of `clock.c`. -/
def clockText : Str := str "M:clock\nL:C$clock.c$7$0_0$1:100\nL:C$clock.c$8$0_0$1:103\n"

/-- A host with this text beside a program. -/
def clockHost : Host (Reg → UInt16) :=
  { storeHost with
    disk := { (default : Disk) with
      fileExists := fun path => some (path == str "/clock.cdb")
      read := fun path => if path = str "/clock.cdb" then some clockText else none } }

/-- The first of the lines. -/
def clockLine : CdbgInfoLine := ⟨str "clock.c", 7, 0x100, str "local"⟩

def clockArgs : LaunchArgs := { program := str "/clock.ihx" }

theorem clockHost_launches : ∃ u, created.launch clockHost clockArgs = some u ∧
    u.dbg.virtualLstPath = str "/__virtual__/clock.asm" ∧
    Path.filename (u.dbg.symbols.shownPath clockHost.disk (str "clock.c")) = str "clock.c" := by
  obtain ⟨symbols, hsymbols, hshown⟩ : ∃ symbols, loadedSymbols clockHost clockArgs = some symbols ∧
      Path.filename (symbols.shownPath clockHost.disk (str "clock.c")) = str "clock.c" := by
    have hread : (loadedSymbols clockHost clockArgs).map (fun s =>
        Path.filename (s.shownPath clockHost.disk (str "clock.c"))) = some (str "clock.c") := by
      decide +kernel
    exact Option.map_eq_some_iff.mp hread
  obtain ⟨n, hbuilt, -⟩ := Decoder.buildFullListing_eq (s := symbols)
    (Decoder.loadDecoder_lengths (clockHost.loadBinary clockArgs.program).1)
    (Nat.lt_succ_self memorySize)
  change clockHost.decoder.buildFullListing _ _ _ = _ at hbuilt
  have hprogram : clockArgs.program ≠ [] := by decide
  have hlaunch : created.launch clockHost clockArgs = _ := launch_program hprogram created
  rw [hsymbols, Option.bind_some, hbuilt, Option.map_some] at hlaunch
  have hpath : Dbg.virtualPath (Path.stem clockArgs.program) = str "/__virtual__/clock.asm" := by decide
  exact ⟨_, hlaunch, hpath, hshown⟩

/-- A breakpoint on line 7 of the file, given with a directory. -/
theorem breakpoint_shows_line_clock : ∃ u, created.launch clockHost clockArgs = some u ∧
    ∃ infos v, u.answer clockHost (.breakpoints (.source (str "/src/clock.c") 0 [7]))
      = some (.breakpoints infos, v) ∧
      infos[0]? = some { verified := true, line := 7 } ∧ v.dbg.isBreakpoint 0x100 = true := by
  obtain ⟨u, hlaunch, hvirtual, hshown⟩ := clockHost_launches
  have hlines : linesOf clockText = [clockLine, ⟨str "clock.c", 8, 0x103, str "local"⟩] := by
    decide +kernel
  have hone : ∀ a ∈ linesOf clockText, ∀ b ∈ linesOf clockText, a.address = b.address →
      a.file = b.file ∧ a.line = b.line := by
    rw [hlines]
    decide
  have hln : clockLine ∈ linesOf clockText := by
    rw [hlines]
    exact List.mem_cons_self
  have hasm : asmRecordsOf clockText = [] := by decide +kernel
  have hi : [(7 : Int)][0]? = some clockLine.line := rfl
  have hpath : str "/src/clock.c" ≠ [] := by decide
  obtain ⟨infos, v, hanswer, hreply, hit, hhit, hline, -, harmed, -⟩ :=
    breakpoint_shows_line (by decide) (by decide) (by decide) hlaunch hone hln hpath
      (by rw [hvirtual]; decide) (by rw [clockLine, hshown]; decide)
      (fun r hr => by rw [hasm] at hr; cases hr) 0 hi
  refine ⟨u, hlaunch, infos, v, hanswer, hreply, ?_⟩
  rw [hlines] at hhit
  rcases List.mem_cons.mp hhit with rfl | hhit
  · exact harmed
  · rw [List.mem_singleton.mp hhit] at hline
    exact absurd hline (by decide)

end Z80Target

end Udap
