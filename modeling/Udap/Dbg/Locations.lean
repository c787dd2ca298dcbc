/-
  BREAKPOINT LOCATIONS — which lines the debugger offers for breakpoints, and which of these it can
  bind.

  `get_breakpoint_locations` collects lines by walking over the modules and the MAP symbols; a
  breakpoint is bound through the source index, which was built from the same data by other rules.

  1. **Offered** — `getBreakpointLocations` as in the source.  A line is offered if some record,
     indexed or not, puts it in a file of the name asked for (`Symbols.Mentions`,
     `mem_getBreakpointLocations`).

  2. **Bound** — `Bound` says that every request for the line gets a verified reply.  That depends
     on the records that the index files under a name (`Symbols.Files`, `lookupAddress_isSome`).

  3. **The difference** — C lines and MAP symbols are mentioned and filed alike.  Assembly lines are
     mentioned under the file name of their module, but filed under the module's own name, and only
     if the module is one of assembly text.  `locations_bound` says when that matters.
-/
import Udap.Dbg.Replies

set_option linter.unusedVariables false

namespace Udap

open Udap.Cxx Udap.Sdcc Udap.Dap

/-! ## The lines offered -/

namespace Symbols

/-- Is the line in the range asked for? -/
def inRange (line endLine l : Int) : Bool := decide (line ≤ l ∧ l ≤ endLine)

/-- The lines that a module offers: its C lines, and the lines of its assembly text. -/
def moduleLocations (resolve : Str → Option Str) (queryName : Str) (line endLine : Int)
    (mod : CdbgInfoModule) : List Int :=
  ((mod.lines.filter fun ln =>
      inRange line endLine ln.line && Path.filename ln.file == queryName).map CdbgInfoLine.line) ++
  (if Path.filename (sourcePath resolve mod.file) = queryName then
    (mod.asmLines.toList.map Prod.fst).filter (inRange line endLine)
  else [])

/-- The line that a MAP symbol offers. -/
def mapLocation (queryName : Str) (line endLine : Int) (sym : Symbol) : Option Int :=
  (mapSymbolToSource sym).bind fun loc =>
    if inRange line endLine loc.line && Path.filename loc.file == queryName then some loc.line
    else none

/-- `z80_target::get_breakpoint_locations`: the lines in ascending order, each once. -/
def getBreakpointLocations (disk : Disk) (path : Str) (line endLine : Int) (s : Symbols) :
    List BpLocationInfo :=
  let queryName := Path.filename path
  let validLines : Finset Int :=
    ((s.cdbModules.flatMap (moduleLocations (s.resolveSourcePath disk) queryName line endLine)) ++
      s.mapSymbols.filterMap (mapLocation queryName line endLine)).toFinset
  (validLines.sort (· ≤ ·)).map fun l => ⟨l⟩

/-! ## Lines that are mentioned, lines that are filed -/

/-- A C line of a module puts line `l` in a file named `name`. -/
def CLine (s : Symbols) (name : Str) (l : Int) : Prop :=
  ∃ mod ∈ s.cdbModules, ∃ ln ∈ mod.lines, Path.filename ln.file = name ∧ ln.line = l

/-- A MAP symbol puts line `l` in a file named `name`. -/
def MapLine (s : Symbols) (name : Str) (l : Int) : Prop :=
  ∃ sym ∈ s.mapSymbols, ∃ loc, mapSymbolToSource sym = some loc ∧
    Path.filename loc.file = name ∧ loc.line = l

/-- Some record puts line `l` in a file named `name`. -/
def Mentions (s : Symbols) (name : Str) (l : Int) : Prop :=
  (∃ mod ∈ s.cdbModules, Path.filename mod.file = name ∧ (mod.asmLines.lookup l).isSome) ∨
    s.CLine name l ∨ s.MapLine name l

/-- Some indexed record is filed under `name` and line `l`: an assembly line under the name of its
    module, which must be one of assembly text; a C line or a MAP symbol under its file name. -/
def Files (s : Symbols) (name : Str) (l : Int) : Prop :=
  (∃ mod ∈ s.cdbModules, isAsmFile mod.file = true ∧ mod.name = name ∧
    (mod.asmLines.lookup l).isSome) ∨ s.CLine name l ∨ s.MapLine name l

/-- Wherever a source file is found, it has the file name that was looked for. -/
def KeepsFileName (disk : Disk) (s : Symbols) : Prop :=
  ∀ path found, s.resolveSourcePath disk path = some found →
    Path.filename found = Path.filename path

variable {disk : Disk} {s : Symbols}

theorem filename_sourcePath (hkeep : s.KeepsFileName disk) (file : Str) :
    Path.filename (sourcePath (s.resolveSourcePath disk) file) = Path.filename file := by
  unfold sourcePath
  cases h : s.resolveSourcePath disk file with
  | none => rfl
  | some found => exact hkeep file found h

/-- On a disk without files nothing is found. -/
theorem keepsFileName_default (hroot : s.sourceRoot = []) (hroots : s.sourceRoots = []) :
    s.KeepsFileName default := by
  intro path found h
  have htry : ∀ candidate, Disk.tryCanonical default candidate = none := fun _ => rfl
  have hnone : s.resolveSourcePath default path = none := by
    rw [resolveSourcePath, hroot, hroots, Disk.resolveSourcePath, htry, ite_self]
    rfl
  rw [hnone] at h
  cases h

theorem mem_asmLines {mod : CdbgInfoModule} {l : Int} :
    l ∈ mod.asmLines.toList.map Prod.fst ↔ (mod.asmLines.lookup l).isSome := by
  rw [List.mem_map, Option.isSome_iff_exists]
  constructor
  · rintro ⟨⟨k, a⟩, h, rfl⟩
    exact ⟨a, Table.mem_toList.mp h⟩
  · rintro ⟨a, h⟩
    exact ⟨(l, a), Table.mem_toList.mpr h, rfl⟩

/-- The lines of a module in a range, of the source file that is asked for. -/
theorem mem_moduleLocations (hkeep : s.KeepsFileName disk) (path : Str) (line endLine l : Int)
    (mod : CdbgInfoModule) :
    l ∈ moduleLocations (s.resolveSourcePath disk) (Path.filename path) line endLine mod ↔
      (line ≤ l ∧ l ≤ endLine) ∧
        ((∃ ln ∈ mod.lines, Path.filename ln.file = Path.filename path ∧ ln.line = l) ∨
          Path.filename mod.file = Path.filename path ∧ (mod.asmLines.lookup l).isSome) := by
  have hasm : l ∈ (if Path.filename mod.file = Path.filename path then
      (mod.asmLines.toList.map Prod.fst).filter (inRange line endLine) else []) ↔
      (line ≤ l ∧ l ≤ endLine) ∧
        Path.filename mod.file = Path.filename path ∧ (mod.asmLines.lookup l).isSome := by
    split
    · rename_i h
      rw [List.mem_filter, mem_asmLines, inRange, decide_eq_true_eq]
      exact ⟨fun ⟨h1, h2⟩ => ⟨h2, h, h1⟩, fun ⟨h1, _, h2⟩ => ⟨h2, h1⟩⟩
    · rename_i h
      exact ⟨nofun, fun ⟨_, h', _⟩ => absurd h' h⟩
  rw [moduleLocations, List.mem_append, filename_sourcePath hkeep, hasm, and_or_left]
  apply or_congr_left
  simp only [List.mem_map, List.mem_filter, Bool.and_eq_true, beq_iff_eq, inRange,
    decide_eq_true_eq]
  constructor
  · rintro ⟨ln, ⟨hln, hrange, hname⟩, rfl⟩
    exact ⟨hrange, ln, hln, hname, rfl⟩
  · rintro ⟨hrange, ln, hln, hname, rfl⟩
    exact ⟨ln, ⟨hln, hrange, hname⟩, rfl⟩

/-- The line of a symbol of the MAP file, if it is in the range and of that file. -/
theorem mapLocation_eq_some (path : Str) (line endLine l : Int) (sym : Symbol) :
    mapLocation (Path.filename path) line endLine sym = some l ↔
      (line ≤ l ∧ l ≤ endLine) ∧ ∃ loc, mapSymbolToSource sym = some loc ∧
        Path.filename loc.file = Path.filename path ∧ loc.line = l := by
  rw [mapLocation, Option.bind_eq_some_iff]
  constructor
  · rintro ⟨loc, hloc, h⟩
    split at h
    · rename_i hin
      cases h
      simp only [Bool.and_eq_true, beq_iff_eq, inRange, decide_eq_true_eq] at hin
      exact ⟨hin.1, loc, hloc, hin.2, rfl⟩
    · cases h
  · rintro ⟨hrange, loc, hloc, hname, rfl⟩
    refine ⟨loc, hloc, if_pos ?_⟩
    simp only [Bool.and_eq_true, beq_iff_eq, inRange, decide_eq_true_eq]
    exact ⟨hrange, hname⟩

/-- **What is offered**: the mentioned lines in range. -/
theorem mem_getBreakpointLocations (hkeep : s.KeepsFileName disk) (path : Str)
    (line endLine : Int) (loc : BpLocationInfo) :
    loc ∈ s.getBreakpointLocations disk path line endLine ↔
      (line ≤ loc.line ∧ loc.line ≤ endLine) ∧ s.Mentions (Path.filename path) loc.line := by
  obtain ⟨l⟩ := loc
  have hlist : (⟨l⟩ : BpLocationInfo) ∈ s.getBreakpointLocations disk path line endLine ↔
      (∃ mod ∈ s.cdbModules, l ∈ moduleLocations (s.resolveSourcePath disk) (Path.filename path)
        line endLine mod) ∨
      ∃ sym ∈ s.mapSymbols, mapLocation (Path.filename path) line endLine sym = some l := by
    simp only [getBreakpointLocations, List.mem_map, Finset.mem_sort, List.mem_toFinset,
      List.mem_append, List.mem_flatMap, List.mem_filterMap, BpLocationInfo.mk.injEq,
      exists_eq_right]
  rw [hlist]
  simp only [mem_moduleLocations hkeep, mapLocation_eq_some]
  constructor
  · rintro (⟨mod, hm, hrange, ⟨ln, hln, h⟩ | h⟩ | ⟨sym, hsym, hrange, h⟩)
    · exact ⟨hrange, Or.inr (Or.inl ⟨mod, hm, ln, hln, h⟩)⟩
    · exact ⟨hrange, Or.inl ⟨mod, hm, h⟩⟩
    · exact ⟨hrange, Or.inr (Or.inr ⟨sym, hsym, h⟩)⟩
  · rintro ⟨hrange, ⟨mod, hm, h⟩ | ⟨mod, hm, ln, hln, h⟩ | ⟨sym, hsym, h⟩⟩
    · exact Or.inl ⟨mod, hm, hrange, Or.inr h⟩
    · exact Or.inl ⟨mod, hm, hrange, Or.inl ⟨ln, hln, h⟩⟩
    · exact Or.inr ⟨sym, hsym, hrange, h⟩

/-- **What is filed**: the names and lines of the records. -/
theorem firstRecord_isSome_iff_files (hkeep : s.KeepsFileName disk) (name : Str) (l : Int) :
    (s.firstRecord disk name l).isSome ↔ s.Files name l := by
  rw [firstRecord_isSome]
  simp only [records, indexRecords, List.mem_append, List.mem_flatMap]
  constructor
  · rintro ⟨r, ⟨mod, hm, hr | hr⟩ | hr, rfl, rfl⟩
    · unfold asmRecords at hr
      split at hr
      · rename_i hasm
        obtain ⟨⟨k, a⟩, he, rfl⟩ := List.mem_map.mp hr
        exact Or.inl ⟨mod, hm, hasm, rfl, mem_asmLines.mp (List.mem_map.mpr ⟨(k, a), he, rfl⟩)⟩
      · cases hr
    · obtain ⟨ln, hln, rfl⟩ := List.mem_map.mp hr
      exact Or.inr (Or.inl ⟨mod, hm, ln, hln, (filename_sourcePath hkeep ln.file).symm, rfl⟩)
    · obtain ⟨sym, hsym, h⟩ := List.mem_filterMap.mp hr
      obtain ⟨loc, hloc, rfl⟩ := Option.map_eq_some_iff.mp h
      exact Or.inr (Or.inr ⟨sym, hsym, loc, hloc, rfl, rfl⟩)
  · rintro (⟨mod, hm, hasm, rfl, h⟩ | ⟨mod, hm, ln, hln, rfl, rfl⟩ | ⟨sym, hsym, loc, hloc, rfl, rfl⟩)
    · obtain ⟨a, ha⟩ := Option.isSome_iff_exists.mp h
      refine ⟨⟨mod.name, mod.file, l, a⟩, Or.inl ⟨mod, hm, Or.inl ?_⟩, rfl, rfl⟩
      rw [asmRecords, if_pos hasm]
      exact List.mem_map.mpr ⟨(l, a), Table.mem_toList.mpr ha, rfl⟩
    · exact ⟨_, Or.inl ⟨mod, hm, Or.inr (List.mem_map.mpr ⟨ln, hln, rfl⟩)⟩,
        filename_sourcePath hkeep ln.file, rfl⟩
    · exact ⟨_, Or.inr (List.mem_filterMap.mpr ⟨sym, hsym, by rw [hloc, Option.map_some]⟩), rfl, rfl⟩

/-- A line has an address if it is filed under the file name or under the stem. -/
theorem lookupAddress_isSome (hs : s.Indexed disk) (hkeep : s.KeepsFileName disk) (file : Str)
    (l : Int) :
    (s.lookupAddress file l).isSome ↔ s.Files (Path.filename file) l ∨ s.Files (Path.stem file) l := by
  rw [lookupAddress_eq hs, Option.isSome_map, Option.isSome_or, Bool.or_eq_true,
    firstRecord_isSome_iff_files hkeep, firstRecord_isSome_iff_files hkeep]

end Symbols

/-! ## Lines that can be bound -/

namespace Dbg

/-- Every request on the path that asks for the line gets a verified reply for it. -/
def Bound (d : Dbg) (path : Str) (l : Int) : Prop :=
  ∀ ref lines, l ∈ lines →
    ∃ bp ∈ (d.setSourceBreakpoints path ref lines).1, bp.line = l ∧ bp.verified = true

theorem resolveLine_line (d : Dbg) (file : Str) (line : Int) :
    (d.resolveLine file line).line = line := by
  unfold resolveLine
  split
  · rfl
  · split <;> rfl

/-- In a source file, what has an address can be bound, if there is a path. -/
theorem bound_iff {d : Dbg} (hd : d.Reached) {path : Str} (hv : ¬ d.isVirtual path = true)
    (l : Int) :
    d.Bound path l ↔ path ≠ [] ∧ (d.symbols.lookupAddress path l).isSome := by
  by_cases hpath : path = []
  · subst hpath
    refine iff_of_false (fun h => ?_) (fun h => h.1 rfl)
    obtain ⟨bp, hbp, -⟩ := h 0 [l] List.mem_cons_self
    rw [pathless_replies hd] at hbp
    cases hbp
  · have hreplies : ∀ ref lines, l ∈ lines → (d.setSourceBreakpoints path ref lines).1 =
        lines.map ((d.setSourceBreakpointsForFile path lines).resolveLine path) := by
      intro ref lines hl
      have hstored := lookup_setForFile d hpath lines path
      rw [if_pos rfl, Option.filter_some, if_pos (by simpa using List.ne_nil_of_mem hl)] at hstored
      rw [setSourceBreakpoints_file hv, resolveSourceBreakpointsForFile, hstored]
    have hsymbols : ∀ lines, (d.setSourceBreakpointsForFile path lines).symbols = d.symbols := by
      intro lines
      rw [setForFile_frame]
    constructor
    · intro h
      obtain ⟨bp, hbp, hline, hverified⟩ := h 0 [l] List.mem_cons_self
      rw [hreplies 0 [l] List.mem_cons_self] at hbp
      rw [List.mem_singleton.mp hbp, resolveLine_verified, hsymbols] at hverified
      exact ⟨hpath, hverified⟩
    · rintro ⟨-, haddr⟩ ref lines hl
      refine ⟨(d.setSourceBreakpointsForFile path lines).resolveLine path l, ?_,
        resolveLine_line _ path l, ?_⟩
      · rw [hreplies ref lines hl]
        exact List.mem_map.mpr ⟨l, hl, rfl⟩
      · rw [resolveLine_verified, hsymbols, haddr]

/-- **When every line that is offered can be bound**, on a debugger with an index of any modules and
    any MAP symbols, for any path but that of the virtual listing and any range: exactly if every
    assembly line in range of a module with the path's file name is also filed under that name or
    under the stem, and the path is not empty unless no line in range is in a file without name. -/
theorem locations_bound (disk : Disk) {d : Dbg} (hd : d.Reached) (hs : d.symbols.Indexed disk)
    (hkeep : d.symbols.KeepsFileName disk) {path : Str} (hv : ¬ d.isVirtual path = true)
    (line endLine : Int) :
    (∀ loc ∈ d.symbols.getBreakpointLocations disk path line endLine,
      d.Bound path loc.line ∧ (d.symbols.lookupAddress path loc.line).isSome) ↔
    (∀ mod ∈ d.symbols.cdbModules, Path.filename mod.file = Path.filename path →
      ∀ l, line ≤ l → l ≤ endLine → (mod.asmLines.lookup l).isSome →
        d.symbols.Files (Path.filename path) l ∨ d.symbols.Files (Path.stem path) l) ∧
    (path = [] → ∀ l, line ≤ l → l ≤ endLine → ¬ d.symbols.Mentions [] l) := by
  constructor
  · intro h
    constructor
    · intro mod hmod hname l h1 h2 hl
      have hmention : d.symbols.Mentions (Path.filename path) l := Or.inl ⟨mod, hmod, hname, hl⟩
      have hoffered := (Symbols.mem_getBreakpointLocations hkeep path line endLine ⟨l⟩).mpr
        ⟨⟨h1, h2⟩, hmention⟩
      exact (Symbols.lookupAddress_isSome hs hkeep path l).mp (h _ hoffered).2
    · rintro rfl l h1 h2 hmention
      have hoffered := (Symbols.mem_getBreakpointLocations hkeep [] line endLine ⟨l⟩).mpr
        ⟨⟨h1, h2⟩, hmention⟩
      exact ((bound_iff hd hv l).mp (h _ hoffered).1).1 rfl
  · rintro ⟨hasm, hempty⟩ loc hloc
    obtain ⟨⟨h1, h2⟩, hmention⟩ :=
      (Symbols.mem_getBreakpointLocations hkeep path line endLine loc).mp hloc
    have haddr : (d.symbols.lookupAddress path loc.line).isSome := by
      rw [Symbols.lookupAddress_isSome hs hkeep]
      rcases hmention with ⟨mod, hmod, hname, hl⟩ | hrest
      · exact hasm mod hmod hname loc.line h1 h2 hl
      · exact Or.inl (Or.inr hrest)
    refine ⟨(bound_iff hd hv loc.line).mpr ⟨?_, haddr⟩, haddr⟩
    rintro rfl
    exact hempty rfl loc.line h1 h2 hmention

/-- The module of a C file with one C line, and one line of the assembly text that the compiler
    made of it. -/
def mainModule : CdbgInfoModule :=
  { name := str "main", file := str "main.c",
    lines := [{ file := str "main.c", line := 9, address := 0x120 }],
    asmLines := Table.emplace 466 0x130 ∅ }

/-- A debugger that has loaded this module only. -/
def mainLoaded : Dbg := loaded (Symbols.setCdbModules default [mainModule] {}) (str "main") []

theorem mainLoaded_reached : mainLoaded.Reached := Reached.load Reached.start _ _ _

/-- Line 466 of `main.c` is offered, but no breakpoint can be set there. -/
theorem mainLoaded_unbound :
    ∃ loc ∈ mainLoaded.symbols.getBreakpointLocations default (str "main.c") 1 1000,
      ¬ mainLoaded.Bound (str "main.c") loc.line ∧
        mainLoaded.symbols.lookupAddress (str "main.c") loc.line = none := by
  have hnone : mainLoaded.symbols.lookupAddress (str "main.c") 466 = none := by decide +kernel
  refine ⟨⟨466⟩, ?_, ?_, hnone⟩
  · refine (Symbols.mem_getBreakpointLocations (Symbols.keepsFileName_default rfl rfl) (str "main.c") 1 1000 ⟨466⟩).mpr
      ⟨by decide, Or.inl ⟨mainModule, List.mem_cons_self, rfl, by decide +kernel⟩⟩
  · rw [bound_iff mainLoaded_reached (by decide), hnone]
    exact fun h => nomatch h.2

/-- Line 9 of `main.c` is among the lines up to 100, and can be bound. -/
theorem locations_bound_mainLoaded :
    mainLoaded.Bound (str "main.c") 9 ∧
      (mainLoaded.symbols.lookupAddress (str "main.c") 9).isSome := by
  have hkeep : mainLoaded.symbols.KeepsFileName default := Symbols.keepsFileName_default rfl rfl
  have hoffered : (⟨9⟩ : BpLocationInfo) ∈
      mainLoaded.symbols.getBreakpointLocations default (str "main.c") 1 100 :=
    (Symbols.mem_getBreakpointLocations hkeep (str "main.c") 1 100 ⟨9⟩).mpr ⟨by decide,
      Or.inr (Or.inl ⟨mainModule, List.mem_cons_self, _, List.mem_cons_self, rfl, rfl⟩)⟩
  refine (locations_bound default mainLoaded_reached rfl hkeep (by decide) 1 100).mpr
    ⟨?_, fun h => absurd h (by decide)⟩ ⟨9⟩ hoffered
  intro mod hmod _ l h1 h2 hl
  rw [List.mem_singleton.mp hmod] at hl
  have hkey : (if l = 466 then some (0x130 : UInt16) else none).isSome := by
    have := Table.lookup_emplace (466 : Int) (0x130 : UInt16) ∅ l
    rw [AList.lookup_empty, Option.none_or] at this
    rwa [← this]
  split at hkey
  · omega
  · cases hkey

end Dbg

end Udap
