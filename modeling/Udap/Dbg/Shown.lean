/-
  SHOWN LOCATIONS — can a breakpoint be set at every place that the debugger shows as current?

  `lookup_source_any` goes from an address to a location, `lookup_address` back from a location to
  an address.  The two use different tables of the index, with different keys.

  1. **Shown** — a location that is shown is that of a record: of a C line or a MAP symbol, which is
     filed under the name of its file, or of an assembly line, which is filed under the name of its
     module (`lookupSourceAny_record`).

  2. **Settable** — `Settable` says that the way back ends at a record of the same file name and
     line.  It takes the first record filed under the file name or, without one, under the stem
     (`answering`, `settable_iff`).

  3. **Strangers** — what can be in the way is an assembly line of a module that has the file name as
     its name, or, under the stem, a line of a file that has no extension or of a module whose file
     has another one.  A location is settable exactly if its line is filed under one of the two
     names and nothing of this kind comes first (`Clear`, `settable_iff_clear`).

  4. **Parsed texts** — in the modules of a CDB text an assembly module is named like its file and
     of two modules of one name only one has assembly lines.  Where no names clash (`NoClash`), a
     location of a C line or a MAP symbol is always settable, and one of an assembly line exactly
     if its module has no directory in its name (`settable_iff_of_noClash`).  `shown_settable` puts
     the two together.
-/
import Udap.Dbg.Locations
import Udap.Sdcc.CdbParser

set_option linter.unusedVariables false

namespace Udap

open Udap.Cxx Udap.Sdcc

/-- The record is about the line of the location, in a file of the same name. -/
def LineRecord.IsAbout (r : LineRecord) (loc : SourceLocation) : Prop :=
  Path.filename r.file = Path.filename loc.file ∧ r.line = loc.line

namespace Symbols

variable {disk : Disk} {s : Symbols}

/-! ## Which records there are -/

/-- The records of the stored data that are not assembly lines. -/
def fileRecords (disk : Disk) (s : Symbols) : List LineRecord :=
  s.cdbModules.flatMap (lineRecords (s.resolveSourcePath disk)) ++ mapRecords s.mapSymbols

theorem mem_records {r : LineRecord} :
    r ∈ s.records disk ↔ r ∈ s.cdbModules.flatMap asmRecords ∨ r ∈ s.fileRecords disk := by
  simp only [records, indexRecords, fileRecords, List.mem_append, List.mem_flatMap]
  constructor
  · rintro (⟨mod, hmod, h | h⟩ | h)
    · exact Or.inl ⟨mod, hmod, h⟩
    · exact Or.inr (Or.inl ⟨mod, hmod, h⟩)
    · exact Or.inr (Or.inr h)
  · rintro (⟨mod, hmod, h⟩ | ⟨mod, hmod, h⟩ | h)
    · exact Or.inl ⟨mod, hmod, Or.inl h⟩
    · exact Or.inl ⟨mod, hmod, Or.inr h⟩
    · exact Or.inr h

/-- C lines and MAP symbols are filed under the name of their file. -/
theorem fileRecords_name (hkeep : s.KeepsFileName disk) {r : LineRecord}
    (h : r ∈ s.fileRecords disk) : r.name = Path.filename r.file := by
  rcases List.mem_append.mp h with h | h
  · obtain ⟨mod, -, hr⟩ := List.mem_flatMap.mp h
    obtain ⟨ln, -, rfl⟩ := List.mem_map.mp hr
    exact filename_sourcePath hkeep ln.file
  · obtain ⟨sym, -, hr⟩ := List.mem_filterMap.mp h
    obtain ⟨loc, -, rfl⟩ := Option.map_eq_some_iff.mp hr
    rfl

/-- An assembly line is filed under the name of its module, whose file it is in. -/
theorem asmRecords_name {r : LineRecord} (h : r ∈ s.cdbModules.flatMap asmRecords) :
    ∃ mod ∈ s.cdbModules, isAsmFile mod.file = true ∧ mod.asmLines ≠ ∅ ∧ r.name = mod.name ∧
      r.file = mod.file := by
  obtain ⟨mod, hmod, hr⟩ := List.mem_flatMap.mp h
  unfold asmRecords at hr
  split at hr
  · rename_i hasm
    obtain ⟨e, he, rfl⟩ := List.mem_map.mp hr
    refine ⟨mod, hmod, hasm, fun hempty => ?_, rfl, rfl⟩
    rw [hempty] at he
    cases he
  · cases hr

/-! ## Where a location that is shown comes from -/

theorem mem_of_lookup {K V : Type} [BEq K] [LawfulBEq K] {l : List (K × V)} {k : K} {v : V}
    (h : l.lookup k = some v) : (k, v) ∈ l := by
  obtain ⟨l₁, l₂, rfl, -⟩ := List.lookup_eq_some_iff.mp h
  exact List.mem_append_right l₁ List.mem_cons_self

/-- A location that a table of locations has is that of a record. -/
theorem isAbout_of_location (hkeep : s.KeepsFileName disk) {isAsm : Bool}
    {rs : List LineRecord} {a : UInt16} {loc : SourceLocation}
    (h : (a, loc) ∈ rs.map (LineRecord.location (s.resolveSourcePath disk) isAsm)) :
    ∃ r ∈ rs, r.IsAbout loc := by
  obtain ⟨r, hr, heq⟩ := List.mem_map.mp h
  cases heq
  exact ⟨r, hr, (filename_sourcePath hkeep r.file).symm, rfl⟩

/-- **What is shown** is the location of a record. -/
theorem lookupSourceAny_record (hs : s.Indexed disk) (hkeep : s.KeepsFileName disk) {a : UInt16}
    {loc : SourceLocation} (h : s.lookupSourceAny a = some loc) :
    ∃ r ∈ s.records disk, r.IsAbout loc := by
  unfold lookupSourceAny at h
  rw [hs, rebuildSourceIndex_eq] at h
  simp only [Table.lookup_emplaceAll, Table.lookup_assignAll, AList.lookup_empty, Option.or_none,
    Option.none_or] at h
  have hcases : ∀ {x y : Option SourceLocation}, x.or y = some loc → x = some loc ∨ y = some loc := by
    intro x y hxy
    cases x with
    | none => exact Or.inr hxy
    | some z => exact Or.inl hxy
  rcases hcases h with h | h
  · rcases hcases h with h | h
    · have hmem := List.mem_reverse.mp (mem_of_lookup h)
      obtain ⟨r, hr, habout⟩ := isAbout_of_location hkeep hmem
      exact ⟨r, mem_records.mpr (Or.inr (List.mem_append_left _ hr)), habout⟩
    · obtain ⟨r, hr, habout⟩ := isAbout_of_location hkeep (mem_of_lookup h)
      exact ⟨r, mem_records.mpr (Or.inr (List.mem_append_right _ hr)), habout⟩
  · obtain ⟨r, hr, habout⟩ := isAbout_of_location hkeep (mem_of_lookup h)
    exact ⟨r, mem_records.mpr (Or.inl hr), habout⟩

/-! ## The way back -/

/-- The location takes a breakpoint: it has an address, which is that of a record about it. -/
def Settable (disk : Disk) (s : Symbols) (loc : SourceLocation) : Prop :=
  ∃ a, s.lookupAddress loc.file loc.line = some a ∧
    ∃ r ∈ s.records disk, r.IsAbout loc ∧ r.addr = a

/-- The record that answers for the location: the first one filed under the file name and the
    line, or else under the stem and the line. -/
def answering (disk : Disk) (s : Symbols) (loc : SourceLocation) : Option LineRecord :=
  (s.firstRecord disk (Path.filename loc.file) loc.line).or
    (s.firstRecord disk (Path.stem loc.file) loc.line)

theorem answering_isSome (hkeep : s.KeepsFileName disk) (loc : SourceLocation) :
    (s.answering disk loc).isSome ↔
      s.Files (Path.filename loc.file) loc.line ∨ s.Files (Path.stem loc.file) loc.line := by
  rw [answering, Option.isSome_or, Bool.or_eq_true, firstRecord_isSome_iff_files hkeep,
    firstRecord_isSome_iff_files hkeep]

/-- **When a location is settable**: something is filed under its file name or its stem, and what
    answers for it is at the address of a record about it. -/
theorem settable_iff (hs : s.Indexed disk) (hkeep : s.KeepsFileName disk) (loc : SourceLocation) :
    s.Settable disk loc ↔
      (s.Files (Path.filename loc.file) loc.line ∨ s.Files (Path.stem loc.file) loc.line) ∧
      ∀ r, s.answering disk loc = some r →
        ∃ r' ∈ s.records disk, r'.IsAbout loc ∧ r'.addr = r.addr := by
  have haddr : s.lookupAddress loc.file loc.line = (s.answering disk loc).map LineRecord.addr :=
    lookupAddress_eq hs loc.file loc.line
  rw [← answering_isSome hkeep, Settable, haddr]
  constructor
  · rintro ⟨a, ha, r', hr', habout, rfl⟩
    obtain ⟨r, hr, haddr'⟩ := Option.map_eq_some_iff.mp ha
    refine ⟨by rw [hr, Option.isSome_some], fun q hq => ⟨r', hr', habout, ?_⟩⟩
    rw [Option.some.inj (hr.symm.trans hq)] at haddr'
    exact haddr'.symm
  · rintro ⟨hsome, hall⟩
    obtain ⟨r, hr⟩ := Option.isSome_iff_exists.mp hsome
    exact ⟨r.addr, by rw [hr, Option.map_some], hall r hr⟩

/-! ## Strangers -/

/-- A record with `p` comes first among those that are filed under the name and the line. -/
def ComesFirst (disk : Disk) (s : Symbols) (name : Str) (line : Int) (p : LineRecord → Prop) : Prop :=
  ∃ front r back, s.records disk = front ++ r :: back ∧ r.name = name ∧ r.line = line ∧ p r ∧
    ∀ x ∈ front, x.name = name → x.line ≠ line

theorem comesFirst_iff {name : Str} {line : Int} {p : LineRecord → Prop} :
    s.ComesFirst disk name line p ↔ ∃ r, s.firstRecord disk name line = some r ∧ p r := by
  unfold firstRecord
  simp only [List.find?_eq_some_iff_append]
  constructor
  · rintro ⟨front, r, back, hrecords, hname, hline, hp, hfront⟩
    refine ⟨r, ⟨decide_eq_true ⟨hname, hline⟩, front, back, hrecords, fun x hx => ?_⟩, hp⟩
    rw [Bool.not_eq_true', decide_eq_false_iff_not, not_and]
    exact hfront x hx
  · rintro ⟨r, ⟨hr, front, back, hrecords, hfront⟩, hp⟩
    obtain ⟨hname, hline⟩ := of_decide_eq_true hr
    refine ⟨front, r, back, hrecords, hname, hline, hp, fun x hx => ?_⟩
    have hnot := hfront x hx
    rwa [Bool.not_eq_true', decide_eq_false_iff_not, not_and] at hnot

/-- No record about the location is at the address. -/
def Apart (disk : Disk) (s : Symbols) (loc : SourceLocation) (a : UInt16) : Prop :=
  ∀ r ∈ s.records disk, r.IsAbout loc → r.addr ≠ a

/-- The way to the location is clear. -/
structure Clear (disk : Disk) (s : Symbols) (loc : SourceLocation) : Prop where
  /-- A C line or a MAP symbol of a file that has the file name or the stem as its name, or an
      assembly line of a module that has one of them. -/
  filed : s.Files (Path.filename loc.file) loc.line ∨ s.Files (Path.stem loc.file) loc.line
  /-- No assembly line of a module that has the file name as its name comes first there. -/
  module : ¬ s.ComesFirst disk (Path.filename loc.file) loc.line fun r =>
    r ∈ s.cdbModules.flatMap asmRecords ∧ s.Apart disk loc r.addr
  /-- Where the stem is asked for, no line of a file that has the stem as its name comes first. -/
  stemFile : ¬ s.Files (Path.filename loc.file) loc.line →
    ¬ s.ComesFirst disk (Path.stem loc.file) loc.line fun r =>
      r ∈ s.fileRecords disk ∧ s.Apart disk loc r.addr
  /-- Nor does an assembly line of a module named by the stem, whose file has another name. -/
  stemModule : ¬ s.Files (Path.filename loc.file) loc.line →
    ¬ s.ComesFirst disk (Path.stem loc.file) loc.line fun r =>
      r ∈ s.cdbModules.flatMap asmRecords ∧ Path.filename r.file ≠ Path.filename loc.file ∧
        s.Apart disk loc r.addr

/-- Under the file name and under the stem, what answers is what comes first there. -/
theorem answering_cases (hkeep : s.KeepsFileName disk) {loc : SourceLocation} {r : LineRecord}
    (h : s.answering disk loc = some r) :
    s.firstRecord disk (Path.filename loc.file) loc.line = some r ∨
      (¬ s.Files (Path.filename loc.file) loc.line ∧
        s.firstRecord disk (Path.stem loc.file) loc.line = some r) := by
  rw [answering, Option.or_eq_some_iff] at h
  refine h.imp_right fun hstem => ⟨?_, hstem.2⟩
  rw [← firstRecord_isSome_iff_files hkeep, hstem.1]
  exact Bool.false_ne_true

theorem answering_of_stem (hkeep : s.KeepsFileName disk) {loc : SourceLocation} {r : LineRecord}
    (hfiles : ¬ s.Files (Path.filename loc.file) loc.line)
    (h : s.firstRecord disk (Path.stem loc.file) loc.line = some r) :
    s.answering disk loc = some r := by
  rw [← firstRecord_isSome_iff_files hkeep, Option.not_isSome_iff_eq_none] at hfiles
  rw [answering, hfiles, Option.none_or, h]

/-- **When a location is settable**, for every index: the way to it is clear. -/
theorem settable_iff_clear (hs : s.Indexed disk) (hkeep : s.KeepsFileName disk)
    (loc : SourceLocation) : s.Settable disk loc ↔ s.Clear disk loc := by
  rw [settable_iff hs hkeep]
  constructor
  · rintro ⟨hfiled, hall⟩
    have hnot : ∀ r, s.answering disk loc = some r → ¬ s.Apart disk loc r.addr := by
      intro r hr hapart
      obtain ⟨r', hr', habout, haddr⟩ := hall r hr
      exact hapart r' hr' habout haddr
    refine ⟨hfiled, fun hfirst => ?_, fun hfiles hfirst => ?_, fun hfiles hfirst => ?_⟩
    · obtain ⟨r, hr, -, hapart⟩ := comesFirst_iff.mp hfirst
      exact hnot r (by rw [answering, hr, Option.some_or]) hapart
    · obtain ⟨r, hr, -, hapart⟩ := comesFirst_iff.mp hfirst
      exact hnot r (answering_of_stem hkeep hfiles hr) hapart
    · obtain ⟨r, hr, -, -, hapart⟩ := comesFirst_iff.mp hfirst
      exact hnot r (answering_of_stem hkeep hfiles hr) hapart
  · rintro ⟨hfiled, hmodule, hstemFile, hstemModule⟩
    refine ⟨hfiled, fun r hr => ?_⟩
    by_contra hnone
    have hapart : s.Apart disk loc r.addr :=
      fun r' hr' habout haddr => hnone ⟨r', hr', habout, haddr⟩
    rcases answering_cases hkeep hr with hname | ⟨hfiles, hstem⟩
    · obtain ⟨hmem, hfiled, hline⟩ := firstRecord_some hname
      rcases mem_records.mp hmem with hasm | hfile
      · exact hmodule (comesFirst_iff.mpr ⟨r, hname, hasm, hapart⟩)
      · -- a C line or a MAP symbol under the file name is about the location
        exact hapart r hmem ⟨(fileRecords_name hkeep hfile).symm.trans hfiled, hline⟩ rfl
    · obtain ⟨hmem, -, hline⟩ := firstRecord_some hstem
      rcases mem_records.mp hmem with hasm | hfile
      · refine hstemModule hfiles (comesFirst_iff.mpr ⟨r, hstem, hasm, fun hsame => ?_, hapart⟩)
        exact hapart r hmem ⟨hsame, hline⟩ rfl
      · exact hstemFile hfiles (comesFirst_iff.mpr ⟨r, hstem, hfile, hapart⟩)

/-! ## Parsed texts -/

/-- An assembly module that has lines. -/
def AsmModule (s : Symbols) (mod : CdbgInfoModule) : Prop :=
  mod ∈ s.cdbModules ∧ isAsmFile mod.file = true ∧ mod.asmLines ≠ ∅

/-- No assembly module has the name of a file that a record is about, with or without directory,
    and no two are the same but for the directory. -/
structure NoClash (disk : Disk) (s : Symbols) : Prop where
  files : ∀ mod, s.AsmModule mod → ∀ r ∈ s.records disk,
    Path.filename r.file ≠ mod.name ∧ Path.filename r.file ≠ Path.filename mod.name
  stems : ∀ mod mod', s.AsmModule mod → s.AsmModule mod' →
    Path.filename mod.name = Path.filename mod'.name → mod.name = mod'.name

/-- The stem of an assembly module's file is the module's name without the directory. -/
theorem stem_of_asm {mod : CdbgInfoModule} (hnamed : CdbParser.FileNamed mod)
    (hasm : isAsmFile mod.file = true) : Path.stem mod.file = Path.filename mod.name := by
  obtain ⟨ext, hext, hmod⟩ : ∃ ext, (ext = str ".s" ∨ ext = str ".asm") ∧
      Path.extension mod.file = ext := by
    simp only [isAsmFile, Bool.or_eq_true, beq_iff_eq] at hasm
    exact ⟨_, hasm, rfl⟩
  have hslash : (47 : UInt8) ∉ ext := by
    rcases hext with rfl | rfl <;> decide
  have hsplit := Path.stem_append_extension mod.file
  rw [hmod, hnamed ext hext hmod, Path.filename_append mod.name hslash] at hsplit
  rw [hnamed ext hext hmod]
  exact List.append_cancel_right hsplit

theorem stem_congr {p q : Str} (h : Path.filename p = Path.filename q) :
    Path.stem p = Path.stem q := by
  rw [Path.stem, Path.stem, h]

/-- A stem is part of a filename, and has no slash in it. -/
theorem filename_stem (p : Str) : Path.filename (Path.stem p) = Path.stem p := by
  refine Path.filename_of_no_slash fun h => Path.slash_not_mem_filename p ?_
  rw [← Path.stem_append_extension p]
  exact List.mem_append_left _ h

/-- What answers without a clash: a C line or a MAP symbol about the location, or else an assembly
    line of the module that its stem names. -/
theorem answering_of_noClash (hkeep : s.KeepsFileName disk)
    (hnamed : ∀ mod ∈ s.cdbModules, CdbParser.FileNamed mod) (hclash : s.NoClash disk)
    {loc : SourceLocation} {r₀ r : LineRecord} (hr₀ : r₀ ∈ s.records disk) (habout : r₀.IsAbout loc)
    (hr : s.answering disk loc = some r) :
    (r ∈ s.fileRecords disk ∧ r.IsAbout loc) ∨
      (r₀ ∈ s.cdbModules.flatMap asmRecords ∧
        r ∈ s.cdbModules.flatMap asmRecords ∧ r.name = Path.stem loc.file ∧ r.line = loc.line) := by
  unfold answering at hr
  cases hfirst : s.firstRecord disk (Path.filename loc.file) loc.line with
  | some q =>
    rw [hfirst, Option.some_or] at hr
    obtain rfl := Option.some.inj hr
    obtain ⟨hmem, hname, hline⟩ := firstRecord_some hfirst
    rcases mem_records.mp hmem with hasm | hfile
    · -- an assembly module named like a file
      obtain ⟨mod, hmod, hext, hlines, hmodName, -⟩ := asmRecords_name hasm
      refine absurd ?_ (hclash.files mod ⟨hmod, hext, hlines⟩ r₀ hr₀).1
      rw [habout.1, ← hmodName, hname]
    · exact Or.inl ⟨hfile, (fileRecords_name hkeep hfile).symm.trans hname, hline⟩
  | none =>
    rw [hfirst, Option.none_or] at hr
    obtain ⟨hmem, hname, hline⟩ := firstRecord_some hr
    rcases mem_records.mp hr₀ with hasm₀ | hfile₀
    · rcases mem_records.mp hmem with hasm | hfile
      · exact Or.inr ⟨hasm₀, hasm, hname, hline⟩
      · -- a file named like the stem
        obtain ⟨mod, hmod, hext, hlines, -, hmodFile⟩ := asmRecords_name hasm₀
        refine absurd ?_ (hclash.files mod ⟨hmod, hext, hlines⟩ r hmem).2
        rw [← fileRecords_name hkeep hfile, hname, ← stem_of_asm (hnamed mod hmod) hext, ← hmodFile]
        exact (stem_congr habout.1).symm
    · -- a C line or a MAP symbol would be filed under the file name
      have hsome : (s.firstRecord disk (Path.filename loc.file) loc.line).isSome :=
        firstRecord_isSome.mpr
          ⟨r₀, hr₀, (fileRecords_name hkeep hfile₀).trans habout.1, habout.2⟩
      rw [hfirst] at hsome
      cases hsome

/-- An assembly line that its stem names is about the location, without a clash. -/
theorem isAbout_of_stem (hnamed : ∀ mod ∈ s.cdbModules, CdbParser.FileNamed mod)
    (hfirst : CdbParser.FirstNamed s.cdbModules) (hclash : s.NoClash disk) {loc : SourceLocation}
    {r₀ r : LineRecord} (hr₀ : r₀ ∈ s.cdbModules.flatMap asmRecords) (habout : r₀.IsAbout loc)
    (hr : r ∈ s.cdbModules.flatMap asmRecords) (hname : r.name = Path.stem loc.file)
    (hline : r.line = loc.line) : r.IsAbout loc := by
  obtain ⟨mod₀, hmod₀, hext₀, hlines₀, -, hmodFile₀⟩ := asmRecords_name hr₀
  obtain ⟨mod, hmod, hext, hlines, hmodName, hmodFile⟩ := asmRecords_name hr
  have hstem : Path.stem loc.file = Path.filename mod₀.name := by
    rw [← stem_of_asm (hnamed mod₀ hmod₀) hext₀, ← hmodFile₀]
    exact (stem_congr habout.1).symm
  have hsame : mod.name = mod₀.name := by
    refine hclash.stems mod mod₀ ⟨hmod, hext, hlines⟩ ⟨hmod₀, hext₀, hlines₀⟩ ?_
    rw [← hmodName, hname, filename_stem, hstem]
  rw [LineRecord.IsAbout, hmodFile, hfirst.eq hmod hmod₀ hsame hlines hlines₀, ← hmodFile₀]
  exact ⟨habout.1, hline⟩

/-- **Without a clash of names** a location that is shown is settable exactly if a C line or a MAP
    symbol is about it, or it is a line of an assembly module named by the stem of its file, that
    is, without a directory. -/
theorem settable_iff_of_noClash (hs : s.Indexed disk) (hkeep : s.KeepsFileName disk)
    (hnamed : ∀ mod ∈ s.cdbModules, CdbParser.FileNamed mod)
    (hfirst : CdbParser.FirstNamed s.cdbModules) (hclash : s.NoClash disk) {a : UInt16}
    {loc : SourceLocation} (h : s.lookupSourceAny a = some loc) :
    s.Settable disk loc ↔
      (∃ r ∈ s.fileRecords disk, r.IsAbout loc) ∨
        ∃ r ∈ s.cdbModules.flatMap asmRecords, r.name = Path.stem loc.file ∧ r.line = loc.line := by
  obtain ⟨r₀, hr₀, habout⟩ := lookupSourceAny_record hs hkeep h
  constructor
  · intro hset
    have hsome := ((settable_iff hs hkeep loc).mp hset).1
    rw [← answering_isSome hkeep] at hsome
    obtain ⟨r, hr⟩ := Option.isSome_iff_exists.mp hsome
    rcases answering_of_noClash hkeep hnamed hclash hr₀ habout hr with
      ⟨hfile, hr⟩ | ⟨-, hasm, hr⟩
    · exact Or.inl ⟨r, hfile, hr⟩
    · exact Or.inr ⟨r, hasm, hr⟩
  · intro hfiled
    have hsome : (s.answering disk loc).isSome := by
      rw [answering, Option.isSome_or, Bool.or_eq_true, firstRecord_isSome, firstRecord_isSome]
      rcases hfiled with ⟨r, hr, hrabout⟩ | ⟨r, hr, hname, hline⟩
      · exact Or.inl ⟨r, mem_records.mpr (Or.inr hr),
          (fileRecords_name hkeep hr).trans hrabout.1, hrabout.2⟩
      · exact Or.inr ⟨r, mem_records.mpr (Or.inl hr), hname, hline⟩
    obtain ⟨r, hr⟩ := Option.isSome_iff_exists.mp hsome
    have hrabout : r ∈ s.records disk ∧ r.IsAbout loc := by
      rcases answering_of_noClash hkeep hnamed hclash hr₀ habout hr with
        ⟨hfile, hrabout⟩ | ⟨hasm₀, hasm, hname, hline⟩
      · exact ⟨mem_records.mpr (Or.inr hfile), hrabout⟩
      · exact ⟨mem_records.mpr (Or.inl hasm),
          isAbout_of_stem hnamed hfirst hclash hasm₀ habout hasm hname hline⟩
    refine (settable_iff hs hkeep loc).mpr ⟨(answering_isSome hkeep loc).mp hsome, fun q hq => ?_⟩
    rw [← Option.some.inj (hr.symm.trans hq)]
    exact ⟨r, hrabout.1, hrabout.2, rfl⟩

/-- **Places shown and places settable**, for the modules of any CDB text, whatever the order of the
    hash tables, any MAP symbols and any address: the location that is shown takes a breakpoint
    exactly if its line is filed under its file name or its stem, and no stranger comes first there.
    Without a clash of names that comes down to this: a C line or a MAP symbol is about the location,
    or an assembly module named by the stem has the line. -/
theorem shown_settable (order : CdbParser.HashOrder) {content : Str} {disk : Disk} {s : Symbols}
    (hparse : CdbParser.parseText order content = some s.cdbModules) (hs : s.Indexed disk)
    (hkeep : s.KeepsFileName disk) {a : UInt16} {loc : SourceLocation}
    (h : s.lookupSourceAny a = some loc) :
    (s.Settable disk loc ↔ s.Clear disk loc) ∧
    (s.NoClash disk →
      (s.Settable disk loc ↔
        (∃ r ∈ s.fileRecords disk, r.IsAbout loc) ∨
          ∃ r ∈ s.cdbModules.flatMap asmRecords,
            r.name = Path.stem loc.file ∧ r.line = loc.line)) := by
  obtain ⟨hnamed, hfirst⟩ := CdbParser.parse_inv hparse
  exact ⟨settable_iff_clear hs hkeep loc,
    fun hclash => settable_iff_of_noClash hs hkeep hnamed hfirst hclash h⟩

end Symbols

/-! ## A module with a directory in its name -/

/-- The hash tables walked over in the order of their entries. -/
def entryOrder : CdbParser.HashOrder := ⟨id, id, List.Perm.refl, List.Perm.refl⟩

/-- A text as the compiler writes it: a C line and an assembly line, whose module has a
    directory in its name. -/
def clockText : Str :=
  str "M:clock\nL:A$clock/ura/build/clock$77:118\nL:C$clock.c$18$0_0$36:116\n"

/-- The symbols of the text. -/
def clockSymbols : Symbols :=
  Symbols.setCdbModules default ((CdbParser.parseText entryOrder clockText).getD []) {}

theorem clockSymbols_parsed :
    CdbParser.parseText entryOrder clockText = some clockSymbols.cdbModules := by
  have hsome : (CdbParser.parseText entryOrder clockText).isSome = true := by decide +kernel
  obtain ⟨modules, hmodules⟩ := Option.isSome_iff_exists.mp hsome
  show _ = some ((CdbParser.parseText entryOrder clockText).getD [])
  rw [hmodules, Option.getD_some]

theorem clockSymbols_keepsFileName : clockSymbols.KeepsFileName default :=
  Symbols.keepsFileName_default rfl rfl

/-- At 0x118 the assembly line 77 is shown, but no breakpoint can be set there. -/
theorem clockSymbols_unsettable :
    CdbParser.parseText entryOrder clockText = some clockSymbols.cdbModules ∧
    ∃ loc, clockSymbols.lookupSourceAny 0x118 = some loc ∧ ¬ clockSymbols.Settable default loc := by
  refine ⟨clockSymbols_parsed, ⟨str "clock/ura/build/clock.s", 77, true⟩, by decide +kernel, ?_⟩
  rintro ⟨a, ha, -⟩
  have hnone : clockSymbols.lookupAddress (str "clock/ura/build/clock.s") 77 = none := by
    decide +kernel
  rw [hnone] at ha
  cases ha

/-- At 0x116 the C line 18 is shown, and a breakpoint can be set there. -/
theorem shown_settable_clockSymbols :
    clockSymbols.Settable default ⟨str "clock.c", 18, false⟩ := by
  have hshown : clockSymbols.lookupSourceAny 0x116 = some ⟨str "clock.c", 18, false⟩ := by
    decide +kernel
  have hfirst : clockSymbols.firstRecord default (str "clock.c") 18
      = some ⟨str "clock.c", str "clock.c", 18, 0x116⟩ := by decide +kernel
  have hnot : (⟨str "clock.c", str "clock.c", 18, 0x116⟩ : LineRecord) ∉
      clockSymbols.cdbModules.flatMap asmRecords := by decide +kernel
  have hfiles : clockSymbols.Files (str "clock.c") 18 := by
    rw [← Symbols.firstRecord_isSome_iff_files clockSymbols_keepsFileName, hfirst]
    rfl
  refine (Symbols.shown_settable entryOrder clockSymbols_parsed rfl clockSymbols_keepsFileName
    hshown).1.mpr ⟨Or.inl hfiles, ?_, fun h => absurd hfiles h, fun h => absurd hfiles h⟩
  intro h
  obtain ⟨r, hr, hasm, -⟩ := Symbols.comesFirst_iff.mp h
  rw [← Option.some.inj (hfirst.symm.trans hr)] at hasm
  exact hnot hasm

end Udap
