/-
  THE SOURCE INDEX — which line of which file is which address.

  `rebuild_source_index` reads the modules of the CDB file and the symbols of the MAP file once and
  fills three hash tables, by which every later lookup is answered.

  1. **Search** — `Disk.resolveSourcePath` looks for a source file through the source roots.

  2. **Index** — `SourceIndex` and `rebuildSourceIndex` as in the source, `lookupSource`,
     `lookupSourceAny` and `lookupAddress` over them.

  3. **Records** — over the tables lies the list of the RECORDS they are built from: the lines of
     assembly modules, the C lines, the MAP symbols, in index order.  `addrByFileLine_lookup` and
     `lookupAddress_eq` say what a lookup finds in terms of that list alone: the first record that
     carries the key.  What the debugger promises about lines and addresses is proved from there.
-/
import Udap.Cxx.Disk
import Udap.Cxx.Path
import Udap.Sdcc.Cdb

set_option linter.unusedVariables false

namespace Udap

open Udap.Cxx Udap.Sdcc

/-! ## The search for a source file -/

namespace Disk

/-- The lambda `try_canonical` of `resolve_source_path`. -/
def tryCanonical (disk : Disk) (candidate : Str) : Option Str :=
  if disk.fileExists candidate = some true then disk.canonical candidate else none

/-- The loop over the subdirectories of a root; an exception ends it. -/
def searchDirectories (disk : Disk) (name : Str) : List (Str × Option Bool) → Option Str
  | [] => none
  | (_, none) :: _ => none
  | (_, some false) :: rest => searchDirectories disk name rest
  | (entry, some true) :: rest =>
    (disk.tryCanonical (Path.join entry name)).or (searchDirectories disk name rest)

/-- The loop over the source roots, each tried once. -/
def searchRoots (disk : Disk) (path : Str) : List Str → List Str → Option Str
  | [], _ => none
  | root :: rest, seen =>
    if root ∈ seen then searchRoots disk path rest seen
    else
      let name := Path.filename path
      (disk.tryCanonical (Path.join root path)).or
        ((disk.tryCanonical (Path.join root name)).or
          ((disk.searchDirectories name (disk.directory root)).or
            (searchRoots disk path rest (root :: seen))))

/-- `dbg::resolve_source_path` under the given source roots. -/
def resolveSourcePath (disk : Disk) (sourceRoot : Str) (sourceRoots : List Str) (path : Str) :
    Option Str :=
  let roots := (if sourceRoot.isEmpty then [] else [sourceRoot]) ++ sourceRoots
  (if Path.isAbsolute path then disk.tryCanonical path else none).or
    ((disk.tryCanonical path).or (disk.searchRoots path roots []))

end Disk

/-! ## The index -/

/-- `source_location`. -/
structure SourceLocation where
  file : Str
  line : Int
  isAsm : Bool := false
  deriving DecidableEq

/-- The three tables of the index. -/
structure SourceIndex where
  sourceByAddr : Table UInt16 SourceLocation := ∅
  asmByAddr : Table UInt16 SourceLocation := ∅
  addrByFileLine : Table Str UInt16 := ∅

/-- The key of a file and a line: `name + ":" + std::to_string(line)`. -/
def lineKey (name : Str) (line : Int) : Str := name ++ 58 :: Cxx.toString line

/-- `dbg::map_symbol_to_source`: a MAP symbol `C$<file>$<line>$...`. -/
def mapSymbolToSource (sym : Symbol) : Option SourceLocation :=
  if sym.name.length < 4 ∨ sym.name[0]? ≠ some 67 ∨ sym.name[1]? ≠ some 36 then none
  else do
    let p1 ← find sym.name 36 2
    let p2 ← find sym.name 36 (p1 + 1)
    let file ← substr sym.name 2 (p1 - 2)
    let number ← substr sym.name (p1 + 1) (p2 - p1 - 1)
    let line ← stoi number
    some { file := file, line := line }

/-- Is the module's file one of assembly text? -/
def isAsmFile (file : Str) : Bool :=
  Path.extension file == str ".s" || Path.extension file == str ".asm"

section
variable (resolve : Str → Option Str)

/-- The path that the debugger reports for a file: where it was found, else as it is. -/
def sourcePath (file : Str) : Str := (resolve file).getD file

/-- One assembly line of module `name`, whose text is at `asmPath`. -/
def indexAsmLine (name asmPath : Str) (ix : SourceIndex) (e : Int × UInt16) : SourceIndex :=
  -- filed under the name of the module, not under that of its file
  { ix with addrByFileLine := ix.addrByFileLine.emplace (lineKey name e.1) e.2,
            asmByAddr := ix.asmByAddr.emplace e.2 ⟨asmPath, e.1, true⟩ }

/-- The assembly lines of a module, if it is an assembly module. -/
def indexAsmLines (ix : SourceIndex) (mod : CdbgInfoModule) : SourceIndex :=
  if isAsmFile mod.file then
    mod.asmLines.toList.foldl (indexAsmLine mod.name (sourcePath resolve mod.file)) ix
  else ix

/-- One C line. -/
def indexLine (ix : SourceIndex) (ln : CdbgInfoLine) : SourceIndex :=
  let path := sourcePath resolve ln.file
  -- of two lines at one address the last is shown
  { ix with sourceByAddr := ix.sourceByAddr.assign ln.address ⟨path, ln.line, false⟩,
            addrByFileLine :=
              ix.addrByFileLine.emplace (lineKey (Path.filename path) ln.line) ln.address }

def indexModule (ix : SourceIndex) (mod : CdbgInfoModule) : SourceIndex :=
  mod.lines.foldl (indexLine resolve) (indexAsmLines resolve ix mod)

/-- One MAP symbol, as a fallback: it overwrites nothing. -/
def indexMapSymbol (ix : SourceIndex) (sym : Symbol) : SourceIndex :=
  match mapSymbolToSource sym with
  | none => ix
  | some loc =>
    let addr := sym.address.toUInt16
    { ix with sourceByAddr :=
                ix.sourceByAddr.emplace addr ⟨sourcePath resolve loc.file, loc.line, false⟩,
              addrByFileLine :=
                ix.addrByFileLine.emplace (lineKey (Path.filename loc.file) loc.line) addr }

/-- `dbg::rebuild_source_index`. -/
def rebuildSourceIndex (modules : List CdbgInfoModule) (symbols : List Symbol) : SourceIndex :=
  symbols.foldl (indexMapSymbol resolve) (modules.foldl (indexModule resolve) {})

end

/-! ## The symbols that the debugger holds, and the lookups -/

/-- The CDB and MAP data with the source roots and the index. -/
structure Symbols where
  cdbModules : List CdbgInfoModule := []
  mapSymbols : List Symbol := []
  mapSegments : List Segment := []
  sourceRoot : Str := []
  sourceRoots : List Str := []
  index : SourceIndex := {}

namespace Symbols

/-- `dbg::resolve_source_path`. -/
def resolveSourcePath (disk : Disk) (s : Symbols) (path : Str) : Option Str :=
  disk.resolveSourcePath s.sourceRoot s.sourceRoots path

/-- `dbg::rebuild_source_index` on the stored data. -/
def rebuild (disk : Disk) (s : Symbols) : Symbols :=
  { s with index := rebuildSourceIndex (s.resolveSourcePath disk) s.cdbModules s.mapSymbols }

/-- `dbg::set_cdb_modules`. -/
def setCdbModules (disk : Disk) (m : List CdbgInfoModule) (s : Symbols) : Symbols :=
  { s with cdbModules := m }.rebuild disk

/-- `dbg::set_map_symbols`. -/
def setMapSymbols (disk : Disk) (symbols : List Symbol) (s : Symbols) : Symbols :=
  { s with mapSymbols := symbols }.rebuild disk

/-- `dbg::set_map_segments`. -/
def setMapSegments (segments : List Segment) (s : Symbols) : Symbols :=
  { s with mapSegments := segments }

/-- `dbg::set_source_root`. -/
def setSourceRoot (root : Str) (s : Symbols) : Symbols := { s with sourceRoot := root }

/-- `dbg::set_source_roots`. -/
def setSourceRoots (roots : List Str) (s : Symbols) : Symbols := { s with sourceRoots := roots }

/-- `dbg::has_cdb`. -/
def hasCdb (s : Symbols) : Bool := !s.cdbModules.isEmpty

/-- `dbg::has_map`. -/
def hasMap (s : Symbols) : Bool := !s.mapSymbols.isEmpty || !s.mapSegments.isEmpty

/-- `dbg::lookup_source`: C lines and MAP symbols only. -/
def lookupSource (s : Symbols) (address : UInt16) : Option SourceLocation :=
  s.index.sourceByAddr.lookup address

/-- `dbg::lookup_source_any`: C first, then assembly. -/
def lookupSourceAny (s : Symbols) (address : UInt16) : Option SourceLocation :=
  (s.index.sourceByAddr.lookup address).or (s.index.asmByAddr.lookup address)

/-- `dbg::lookup_address`: by file name, then by stem. -/
def lookupAddress (s : Symbols) (file : Str) (line : Int) : Option UInt16 :=
  (s.index.addrByFileLine.lookup (lineKey (Path.filename file) line)).or
    (s.index.addrByFileLine.lookup (lineKey (Path.stem file) line))

/-- `dbg::lookup_function_address`: the first MAP symbol that is the name, the name behind an
    underscore, or `G$<name>$...`. -/
def lookupFunctionAddress (s : Symbols) (name : Str) : Option UInt16 :=
  (s.mapSymbols.find? fun (sym : Symbol) =>
    sym.name == name || sym.name == 95 :: name ||
      (decide (sym.name.length > 3) && sym.name[0]? == some 71 && sym.name[1]? == some 36 &&
        (match find sym.name 36 2 with
          | some d1 => substr sym.name 2 (d1 - 2) == some name
          | none => false))).map fun sym => sym.address.toUInt16

/-- One round of the loop in `lookup_symbol_exact`: the first symbol at the address, replaced by
    any later one that starts with an underscore. -/
def betterSymbol (address : UInt16) (best : Option Symbol) (sym : Symbol) : Option Symbol :=
  if sym.address.toUInt16 ≠ address then best
  else if best.isNone || (decide (sym.name.length > 1) && sym.name[0]? == some 95) then some sym
  else best

/-- `dbg::lookup_symbol_exact`. -/
def lookupSymbolExact (s : Symbols) (address : UInt16) : Option Str :=
  (s.mapSymbols.foldl (betterSymbol address) none).map fun sym => sym.name

end Symbols

/-! ## A key determines its file name and line -/

/-- Behind the last separator lies what contains none. -/
theorem append_cons_inj {c : UInt8} {a b x y : Str} (hx : c ∉ x) (hy : c ∉ y)
    (h : a ++ c :: x = b ++ c :: y) : a = b ∧ x = y := by
  rcases List.append_eq_append_iff.mp h with ⟨d, rfl, hd⟩ | ⟨d, rfl, hd⟩
  · cases d with
    | nil => exact ⟨(List.append_nil a).symm, (List.cons.inj hd).2⟩
    | cons e d =>
      obtain ⟨rfl, rfl⟩ := List.cons.inj hd
      exact absurd (by simp) hx
  · cases d with
    | nil => exact ⟨List.append_nil b, (List.cons.inj hd).2.symm⟩
    | cons e d =>
      obtain ⟨rfl, rfl⟩ := List.cons.inj hd
      exact absurd (by simp) hy

theorem colon_not_mem_toString (i : Int) : (58 : UInt8) ∉ Cxx.toString i := by
  intro h
  rcases toString_chars i 58 h with hd | hm
  · exact absurd hd (by decide)
  · exact absurd hm (by decide)

theorem lineKey_inj {n m : Str} {i j : Int} : lineKey n i = lineKey m j ↔ n = m ∧ i = j := by
  constructor
  · intro h
    obtain ⟨hn, hi⟩ := append_cons_inj (colon_not_mem_toString i) (colon_not_mem_toString j) h
    exact ⟨hn, toString_injective hi⟩
  · rintro ⟨rfl, rfl⟩
    rfl

/-! ## The records behind the index -/

/-- A record: the name it is filed under, the file it is about, its line and its address. -/
structure LineRecord where
  name : Str
  file : Str
  line : Int
  addr : UInt16
  deriving DecidableEq

/-- The key that the record adds to `addr_by_file_line_`. -/
def LineRecord.key (r : LineRecord) : Str × UInt16 := (lineKey r.name r.line, r.addr)

section
variable (resolve : Str → Option Str)

/-- The records of a module's assembly lines, filed under the module's name. -/
def asmRecords (mod : CdbgInfoModule) : List LineRecord :=
  if isAsmFile mod.file then
    mod.asmLines.toList.map fun e => ⟨mod.name, mod.file, e.1, e.2⟩
  else []

/-- The records of a module's C lines, filed under the file name of where the file was found. -/
def lineRecords (mod : CdbgInfoModule) : List LineRecord :=
  mod.lines.map fun ln =>
    ⟨Path.filename (sourcePath resolve ln.file), ln.file, ln.line, ln.address⟩

/-- The records of the MAP symbols, filed under the file name. -/
def mapRecords (symbols : List Symbol) : List LineRecord :=
  symbols.filterMap fun sym => (mapSymbolToSource sym).map fun loc =>
    ⟨Path.filename loc.file, loc.file, loc.line, sym.address.toUInt16⟩

/-- All records, in the order in which they are indexed. -/
def indexRecords (modules : List CdbgInfoModule) (symbols : List Symbol) : List LineRecord :=
  (modules.flatMap fun mod => asmRecords mod ++ lineRecords resolve mod) ++ mapRecords symbols

/-- Where a record's line is shown. -/
def LineRecord.location (isAsm : Bool) (r : LineRecord) : UInt16 × SourceLocation :=
  (r.addr, ⟨sourcePath resolve r.file, r.line, isAsm⟩)

variable {resolve}

theorem indexAsmLines_eq (ix : SourceIndex) (mod : CdbgInfoModule) :
    indexAsmLines resolve ix mod =
      { ix with
        asmByAddr := ix.asmByAddr.emplaceAll
          ((asmRecords mod).map (LineRecord.location resolve true)),
        addrByFileLine := ix.addrByFileLine.emplaceAll ((asmRecords mod).map LineRecord.key) } := by
  have hfold : ∀ (es : List (Int × UInt16)) (ix : SourceIndex),
      es.foldl (indexAsmLine mod.name (sourcePath resolve mod.file)) ix =
        { ix with
          asmByAddr := ix.asmByAddr.emplaceAll
            (es.map fun e => (e.2, ⟨sourcePath resolve mod.file, e.1, true⟩)),
          addrByFileLine := ix.addrByFileLine.emplaceAll
            (es.map fun e => (lineKey mod.name e.1, e.2)) } := by
    intro es
    induction es with
    | nil => exact fun ix => rfl
    | cons e es ih => exact fun ix => ih _
  unfold indexAsmLines asmRecords
  split
  · rw [hfold, List.map_map, List.map_map]
    rfl
  · rfl

theorem indexLines_eq (ix : SourceIndex) (mod : CdbgInfoModule) :
    mod.lines.foldl (indexLine resolve) ix =
      { ix with
        sourceByAddr := ix.sourceByAddr.assignAll
          ((lineRecords resolve mod).map (LineRecord.location resolve false)),
        addrByFileLine :=
          ix.addrByFileLine.emplaceAll ((lineRecords resolve mod).map LineRecord.key) } := by
  unfold lineRecords
  induction mod.lines generalizing ix with
  | nil => rfl
  | cons ln lns ih => exact ih _

theorem indexModules_eq (modules : List CdbgInfoModule) (ix : SourceIndex) :
    modules.foldl (indexModule resolve) ix =
      { sourceByAddr := ix.sourceByAddr.assignAll
          ((modules.flatMap (lineRecords resolve)).map (LineRecord.location resolve false)),
        asmByAddr := ix.asmByAddr.emplaceAll
          ((modules.flatMap asmRecords).map (LineRecord.location resolve true)),
        addrByFileLine := ix.addrByFileLine.emplaceAll
          ((modules.flatMap fun mod => asmRecords mod ++ lineRecords resolve mod).map
            LineRecord.key) } := by
  induction modules generalizing ix with
  | nil => rfl
  | cons mod modules ih =>
    rw [List.foldl_cons, ih, indexModule, indexLines_eq, indexAsmLines_eq]
    simp only [List.flatMap_cons, List.map_append, Table.emplaceAll_append,
      Table.assignAll_append]

theorem indexMapSymbols_eq (symbols : List Symbol) (ix : SourceIndex) :
    symbols.foldl (indexMapSymbol resolve) ix =
      { ix with
        sourceByAddr := ix.sourceByAddr.emplaceAll
          ((mapRecords symbols).map (LineRecord.location resolve false)),
        addrByFileLine :=
          ix.addrByFileLine.emplaceAll ((mapRecords symbols).map LineRecord.key) } := by
  induction symbols generalizing ix with
  | nil => rfl
  | cons sym symbols ih =>
    rw [List.foldl_cons, ih, indexMapSymbol]
    unfold mapRecords
    cases h : mapSymbolToSource sym with
    | none => rw [List.filterMap_cons_none (by rw [h, Option.map_none])]
    | some loc =>
      rw [List.filterMap_cons_some (by rw [h, Option.map_some])]
      rfl

/-- **The index in terms of its records.** -/
theorem rebuildSourceIndex_eq (modules : List CdbgInfoModule) (symbols : List Symbol) :
    rebuildSourceIndex resolve modules symbols =
      { sourceByAddr := (Table.assignAll
          ((modules.flatMap (lineRecords resolve)).map (LineRecord.location resolve false)) ∅).emplaceAll
          ((mapRecords symbols).map (LineRecord.location resolve false)),
        asmByAddr := Table.emplaceAll
          ((modules.flatMap asmRecords).map (LineRecord.location resolve true)) ∅,
        addrByFileLine := Table.emplaceAll
          ((indexRecords resolve modules symbols).map LineRecord.key) ∅ } := by
  rw [rebuildSourceIndex, indexMapSymbols_eq, indexModules_eq]
  simp only [indexRecords, List.map_append, Table.emplaceAll_append]

/-- Looking up a key in a list of records. -/
theorem lookup_key (records : List LineRecord) (name : Str) (line : Int) :
    (records.map LineRecord.key).lookup (lineKey name line) =
      (records.find? fun r => r.name = name ∧ r.line = line).map LineRecord.addr := by
  induction records with
  | nil => rfl
  | cons r rs ih =>
    rw [List.map_cons, LineRecord.key, List.lookup_cons, List.find?_cons]
    by_cases h : r.name = name ∧ r.line = line
    · have hkey : lineKey name line = lineKey r.name r.line :=
        lineKey_inj.mpr ⟨h.1.symm, h.2.symm⟩
      simp [h, hkey]
    · have hkey : lineKey name line ≠ lineKey r.name r.line := fun heq =>
        h ⟨(lineKey_inj.mp heq).1.symm, (lineKey_inj.mp heq).2.symm⟩
      simp only [beq_eq_false_iff_ne.mpr hkey, h, decide_false, ih]

end

/-! ## What the lookups find -/

namespace Symbols

/-- The index is that of the stored data: nothing was changed since it was built. -/
def Indexed (disk : Disk) (s : Symbols) : Prop :=
  s.index = rebuildSourceIndex (s.resolveSourcePath disk) s.cdbModules s.mapSymbols

theorem setCdbModules_indexed (disk : Disk) (m : List CdbgInfoModule) (s : Symbols) :
    (s.setCdbModules disk m).Indexed disk := rfl

theorem setMapSymbols_indexed (disk : Disk) (symbols : List Symbol) (s : Symbols) :
    (s.setMapSymbols disk symbols).Indexed disk := rfl

theorem setMapSegments_indexed {disk : Disk} {s : Symbols} (hs : s.Indexed disk)
    (segments : List Segment) : (s.setMapSegments segments).Indexed disk := hs

/-- The records of the stored data. -/
def records (disk : Disk) (s : Symbols) : List LineRecord :=
  indexRecords (s.resolveSourcePath disk) s.cdbModules s.mapSymbols

variable {disk : Disk} {s : Symbols}

/-- The first record filed under a name and a line. -/
def firstRecord (disk : Disk) (s : Symbols) (name : Str) (line : Int) : Option LineRecord :=
  (s.records disk).find? fun r => r.name = name ∧ r.line = line

theorem firstRecord_some {name : Str} {line : Int} {r : LineRecord}
    (h : s.firstRecord disk name line = some r) :
    r ∈ s.records disk ∧ r.name = name ∧ r.line = line :=
  ⟨List.mem_of_find?_eq_some h, by simpa using List.find?_some h⟩

theorem firstRecord_isSome {name : Str} {line : Int} :
    (s.firstRecord disk name line).isSome ↔
      ∃ r ∈ s.records disk, r.name = name ∧ r.line = line := by
  rw [firstRecord, List.find?_isSome]
  simp only [decide_eq_true_eq]

/-- A key finds the address of the first record filed under it. -/
theorem addrByFileLine_lookup (hs : s.Indexed disk) (name : Str) (line : Int) :
    s.index.addrByFileLine.lookup (lineKey name line) =
      (s.firstRecord disk name line).map LineRecord.addr := by
  rw [hs, rebuildSourceIndex_eq]
  show (Table.emplaceAll _ ∅).lookup _ = _
  rw [Table.lookup_emplaceAll, AList.lookup_empty, Option.none_or, lookup_key]
  rfl

/-- **`lookup_address` in terms of the records**: the first one filed under the file name, or else
    the first one filed under the stem. -/
theorem lookupAddress_eq (hs : s.Indexed disk) (file : Str) (line : Int) :
    s.lookupAddress file line =
      ((s.firstRecord disk (Path.filename file) line).or
        (s.firstRecord disk (Path.stem file) line)).map LineRecord.addr := by
  rw [lookupAddress, addrByFileLine_lookup hs, addrByFileLine_lookup hs]
  cases s.firstRecord disk (Path.filename file) line <;> rfl

end Symbols

end Udap
