/-
  LOADED SOURCES — does the client know every file that a frame can show?

  `get_loaded_sources` lists the files of the CDB modules and of their lines where they were found,
  each once.  A frame shows a file of the index, which has the same files and those of MAP symbols.

  1. **Code** — `getLoadedSources`, a loop with the set of the paths it has listed.

  2. **What is listed** — the paths of all named files in the order in which they first occur
     (`loadedFrom_eq`).

  3. **Frames** — every frame is in a file listed, unless it is in the listing, a MAP symbol put it
     there, or its line has no file name (`frames_loaded`).
-/
import Udap.Dbg.Listing
import Udap.Dbg.Shown

set_option linter.unusedVariables false

namespace Udap

open Udap.Cxx Udap.Dap Udap.Sdcc

/-- What is left of a list without its repetitions has none. -/
theorem nodup_eraseDups {α : Type} [BEq α] [LawfulBEq α] (l : List α) : l.eraseDups.Nodup := by
  induction hn : l.length using Nat.strong_induction_on generalizing l with
  | _ n ih =>
    cases l with
    | nil => exact List.nodup_nil
    | cons a l =>
      rw [List.eraseDups_cons, List.nodup_cons]
      refine ⟨fun hmem => ?_, ih _ ?_ _ rfl⟩
      · have hne := (List.mem_filter.mp (List.mem_eraseDups.mp hmem)).2
        simp at hne
      · have hle := List.length_filter_le (fun b => !b == a) l
        rw [List.length_cons] at hn
        omega

/-! ## The program -/

/-- The variables `seen` and `result` of `get_loaded_sources`. -/
structure Loading where
  seen : List Str := []
  result : List LoadedSourceInfo := []

/-- What is listed of a path. -/
def loadedSource (path : Str) : LoadedSourceInfo := { name := Path.filename path, path := path }

namespace Symbols

variable (disk : Disk) (s : Symbols)

/-- The lambda `add`. -/
def addLoaded (l : Loading) (file : Str) : Loading :=
  let path := sourcePath (s.resolveSourcePath disk) file
  if l.seen.contains path then l
  else { seen := path :: l.seen, result := l.result ++ [loadedSource path] }

/-- The files of a module that have a name: its own, and those of its lines. -/
def namedFiles (mod : CdbgInfoModule) : List Str :=
  (mod.file :: mod.lines.map CdbgInfoLine.file).filter fun file => !file.isEmpty

/-- `z80_target::get_loaded_sources`. -/
def getLoadedSources : List LoadedSourceInfo :=
  ((s.cdbModules.flatMap namedFiles).foldl (s.addLoaded disk) {}).result

/-- The paths that are listed. -/
def loadedPaths : List Str := (s.getLoadedSources disk).map LoadedSourceInfo.path

variable {disk s}

/-! ## What is listed -/

/-- **The loop** lists what it has not seen, each path where it first occurs. -/
theorem loadedFrom_eq (files : List Str) (l : Loading) :
    (files.foldl (s.addLoaded disk) l).result = l.result ++
      (((files.map (sourcePath (s.resolveSourcePath disk))).filter fun p =>
        decide (p ∉ l.seen)).eraseDups).map loadedSource := by
  induction files generalizing l with
  | nil => exact (List.append_nil _).symm
  | cons file files ih =>
    rw [List.foldl_cons, ih, List.map_cons, addLoaded]
    by_cases hseen : sourcePath (s.resolveSourcePath disk) file ∈ l.seen
    · rw [if_pos (List.contains_iff_mem.mpr hseen), List.filter_cons_of_neg (by simpa using hseen)]
    · rw [if_neg fun hc => hseen (List.contains_iff_mem.mp hc),
        List.filter_cons_of_pos (by simpa using hseen), List.eraseDups_cons, List.filter_filter,
        List.map_cons, List.append_assoc, List.singleton_append]
      dsimp only
      congr 4
      refine List.filter_congr fun p _ => ?_
      rw [Bool.eq_iff_iff]
      simp [not_or]

theorem getLoadedSources_eq : s.getLoadedSources disk =
    (((s.cdbModules.flatMap namedFiles).map
      (sourcePath (s.resolveSourcePath disk))).eraseDups).map loadedSource := by
  rw [getLoadedSources, loadedFrom_eq, List.nil_append]
  simp

theorem loadedPaths_eq : s.loadedPaths disk =
    ((s.cdbModules.flatMap namedFiles).map (sourcePath (s.resolveSourcePath disk))).eraseDups := by
  rw [loadedPaths, getLoadedSources_eq, List.map_map]
  exact List.map_id _

theorem mem_loadedPaths {path : Str} : path ∈ s.loadedPaths disk ↔
    ∃ mod ∈ s.cdbModules, ∃ file ∈ namedFiles mod,
      sourcePath (s.resolveSourcePath disk) file = path := by
  rw [loadedPaths_eq, List.mem_eraseDups]
  simp only [List.mem_map, List.mem_flatMap]
  constructor
  · rintro ⟨file, ⟨mod, hmod, hfile⟩, hpath⟩
    exact ⟨mod, hmod, file, hfile, hpath⟩
  · rintro ⟨mod, hmod, file, hfile, hpath⟩
    exact ⟨file, ⟨mod, hmod, hfile⟩, hpath⟩

/-! ## Frames -/

/-- A location of the table of some records is that of one of them. -/
theorem record_of_location {resolve : Str → Option Str} {isAsm : Bool} {rs : List LineRecord}
    {a : UInt16} {loc : SourceLocation}
    (h : (a, loc) ∈ rs.map (LineRecord.location resolve isAsm)) :
    ∃ r ∈ rs, r.addr = a ∧ loc = ⟨sourcePath resolve r.file, r.line, isAsm⟩ := by
  obtain ⟨r, hr, heq⟩ := List.mem_map.mp h
  obtain ⟨haddr, hloc⟩ := Prod.mk.inj heq
  exact ⟨r, hr, haddr, hloc.symm⟩

/-- **What is shown** at an address is a C line, a MAP symbol, or a line of an assembly module, with
    the file where it was found. -/
theorem lookupSourceAny_cases (hs : s.Indexed disk) {a : UInt16} {loc : SourceLocation}
    (h : s.lookupSourceAny a = some loc) :
    ∃ r : LineRecord, r.addr = a ∧ loc.line = r.line ∧
      loc.file = sourcePath (s.resolveSourcePath disk) r.file ∧
      (r ∈ s.cdbModules.flatMap (lineRecords (s.resolveSourcePath disk)) ∨
        r ∈ mapRecords s.mapSymbols ∨ r ∈ s.cdbModules.flatMap asmRecords) := by
  unfold lookupSourceAny at h
  rw [hs, rebuildSourceIndex_eq] at h
  simp only [Table.lookup_emplaceAll, Table.lookup_assignAll, AList.lookup_empty, Option.or_none,
    Option.none_or, Option.or_eq_some_iff] at h
  rcases h with (h | ⟨-, h⟩) | ⟨-, h⟩
  · obtain ⟨r, hr, haddr, rfl⟩ := record_of_location (List.mem_reverse.mp (mem_of_lookup h))
    exact ⟨r, haddr, rfl, rfl, Or.inl hr⟩
  · obtain ⟨r, hr, haddr, rfl⟩ := record_of_location (mem_of_lookup h)
    exact ⟨r, haddr, rfl, rfl, Or.inr (Or.inl hr)⟩
  · obtain ⟨r, hr, haddr, rfl⟩ := record_of_location (mem_of_lookup h)
    exact ⟨r, haddr, rfl, rfl, Or.inr (Or.inr hr)⟩

/-- The file of a CDB record is listed, if it has a name. -/
theorem loaded_of_record {r : LineRecord} (hne : r.file ≠ [])
    (hr : r ∈ s.cdbModules.flatMap (lineRecords (s.resolveSourcePath disk)) ∨
      r ∈ s.cdbModules.flatMap asmRecords) :
    sourcePath (s.resolveSourcePath disk) r.file ∈ s.loadedPaths disk := by
  have hnamed : (!r.file.isEmpty) = true := by
    rw [Bool.not_eq_true', List.isEmpty_eq_false_iff]
    exact hne
  rw [mem_loadedPaths]
  rcases hr with hr | hr
  · obtain ⟨mod, hmod, hr⟩ := List.mem_flatMap.mp hr
    obtain ⟨ln, hln, rfl⟩ := List.mem_map.mp hr
    refine ⟨mod, hmod, ln.file, List.mem_filter.mpr ⟨?_, hnamed⟩, rfl⟩
    exact List.mem_cons_of_mem _ (List.mem_map.mpr ⟨ln, hln, rfl⟩)
  · obtain ⟨mod, hmod, hr⟩ := List.mem_flatMap.mp hr
    obtain ⟨hasm, e, he, rfl⟩ : isAsmFile mod.file = true ∧ ∃ e ∈ mod.asmLines.toList,
        (⟨mod.name, mod.file, e.1, e.2⟩ : LineRecord) = r := by
      unfold asmRecords at hr
      split at hr
      · rename_i hasm
        obtain ⟨e, he, rfl⟩ := List.mem_map.mp hr
        exact ⟨hasm, e, he, rfl⟩
      · cases hr
    exact ⟨mod, hmod, mod.file, List.mem_filter.mpr ⟨List.mem_cons_self, hnamed⟩, rfl⟩

/-- **Every file of a frame is listed**: the list has the paths of all named files of the CDB data,
    each once and with its file name, in the order in which they first occur; and whatever PC is, the
    frame is in one of them, or in the listing, or at a MAP symbol, or at a line without a file
    name. -/
theorem frames_loaded (hs : s.Indexed disk) :
    s.getLoadedSources disk =
        (((s.cdbModules.flatMap namedFiles).map
          (sourcePath (s.resolveSourcePath disk))).eraseDups).map loadedSource ∧
      (s.loadedPaths disk).Nodup ∧
      ∀ (virtualLstPath : Str) (l : FullListing) (pc : UInt16),
        ∀ f ∈ getStack s virtualLstPath l pc,
          f.sourcePath ∈ s.loadedPaths disk ∨ f.sourcePath = virtualLstPath ∨
          (∃ r ∈ mapRecords s.mapSymbols, r.addr = pc ∧ r.line = f.line ∧
            f.sourcePath = sourcePath (s.resolveSourcePath disk) r.file) ∨
          f.sourcePath = sourcePath (s.resolveSourcePath disk) [] := by
  refine ⟨getLoadedSources_eq, ?_, ?_⟩
  · rw [loadedPaths_eq]
    exact nodup_eraseDups _
  · intro virtualLstPath l pc f hf
    unfold getStack at hf
    split at hf
    · rename_i loc hloc
      obtain rfl := List.mem_singleton.mp hf
      have hshown : s.lookupSourceAny pc = some loc := by
        split at hloc
        · exact hloc
        · cases hloc
      obtain ⟨r, haddr, hline, hfile, hr⟩ := lookupSourceAny_cases hs hshown
      by_cases hne : r.file = []
      · rw [hne] at hfile
        exact Or.inr (Or.inr (Or.inr hfile))
      · rcases hr with hr | hr | hr
        · exact Or.inl (hfile ▸ loaded_of_record hne (Or.inl hr))
        · exact Or.inr (Or.inr (Or.inl ⟨r, hr, haddr, hline.symm, hfile⟩))
        · exact Or.inl (hfile ▸ loaded_of_record hne (Or.inr hr))
    · obtain rfl := List.mem_singleton.mp hf
      exact Or.inr (Or.inl rfl)

/-- A program of a C file, whose first line is at 0x100, and an assembly file. -/
def clockSymbols : Symbols :=
  Symbols.setCdbModules default
    [{ name := str "clock", file := str "clock.c"
       lines := [{ file := str "clock.c", line := 1, address := 0x100 }] },
     { name := str "crt0", file := str "crt0.s" }] {}

/-- Both files are listed, and the frame at 0x100 is in the first of them. -/
theorem frames_loaded_clock :
    clockSymbols.getLoadedSources default =
        [str "clock.c", str "crt0.s"].map loadedSource ∧
      ∀ f ∈ getStack clockSymbols (str "/__virtual__/clock.asm") {} 0x100,
        f.sourcePath ∈ clockSymbols.loadedPaths default ∨
        f.sourcePath = str "/__virtual__/clock.asm" ∨
        (∃ r ∈ mapRecords clockSymbols.mapSymbols, r.addr = 0x100 ∧ r.line = f.line ∧
          f.sourcePath = sourcePath (clockSymbols.resolveSourcePath default) r.file) ∨
        f.sourcePath = sourcePath (clockSymbols.resolveSourcePath default) [] :=
  ⟨rfl, (frames_loaded (setCdbModules_indexed default _ _)).2.2 _ _ _⟩

end Symbols

end Udap
