/-
  ORIGINS — from which record does an answer of the index come?

  There are three kinds of records: the assembly lines and the C lines of the CDB file, and the
  symbols of the MAP file.  They share the keys of one table.  An assembly line is filed under the
  name of its module, the other two under the name of their file; whoever comes first stays.

  1. **Own records** — a record is `Own` for a path if it is about a file of that name, or if the path
     is one of assembly text and the record a line of an assembly module with its stem.

  2. **Addresses** — `lookup_address` answers with an own record unless a foreign one is in the way
     (`address_own_iff`): a line of an assembly module that has the whole file name as its name, or
     anything under the stem, which is asked for whatever the extension of the path.

  3. **Gaps** — the MAP symbols come behind the CDB records in each table.  But a table in which they
     stand is asked in front of one in which they do not, and the file name in front of the stem;
     `map_fills_gaps_iff` says when no answer of the CDB records is lost.
-/
import Udap.Dbg.Shown

set_option linter.unusedVariables false

namespace Udap

open Udap.Cxx Udap.Sdcc

namespace Symbols

variable {disk : Disk} {s : Symbols}

/-! ## Own records -/

/-- The file of the record has the file name of the path, as it is named or where it was found. -/
def InFile (disk : Disk) (s : Symbols) (path : Str) (r : LineRecord) : Prop :=
  Path.filename r.file = Path.filename path ∨
    Path.filename (sourcePath (s.resolveSourcePath disk) r.file) = Path.filename path

/-- The path is one of assembly text, and the record a line of an assembly module with its stem. -/
def AsmOfStem (s : Symbols) (path : Str) (r : LineRecord) : Prop :=
  isAsmFile path = true ∧ r ∈ s.cdbModules.flatMap asmRecords ∧ Path.stem r.file = Path.stem path

/-- The record is one of the file that the path names. -/
def Own (disk : Disk) (s : Symbols) (path : Str) (r : LineRecord) : Prop :=
  s.InFile disk path r ∨ s.AsmOfStem path r

/-- An address that is found was indexed from an own record of that line. -/
def AddressOwn (disk : Disk) (s : Symbols) (path : Str) (line : Int) : Prop :=
  ∀ a, s.lookupAddress path line = some a →
    ∃ r, s.answering disk ⟨path, line, false⟩ = some r ∧ r.line = line ∧ r.addr = a ∧
      s.Own disk path r

/-- No record has the file name of the path and the line. -/
def Unnamed (disk : Disk) (s : Symbols) (path : Str) (line : Int) : Prop :=
  ∀ r ∈ s.records disk, r.name = Path.filename path → r.line ≠ line

/-- The line of an assembly module whose file has another file name than the path and, if the path is
    one of assembly text, another stem. -/
def ForeignAsm (disk : Disk) (s : Symbols) (path : Str) (r : LineRecord) : Prop :=
  r ∈ s.cdbModules.flatMap asmRecords ∧ ¬ s.InFile disk path r ∧
    (isAsmFile path = true → Path.stem r.file ≠ Path.stem path)

/-- Nothing foreign is in the way. -/
structure Unmixed (disk : Disk) (s : Symbols) (path : Str) (line : Int) : Prop where
  /-- No line of a foreign assembly module comes first that has the file name as its name. -/
  module : ¬ s.ComesFirst disk (Path.filename path) line (s.ForeignAsm disk path)
  /-- Where the stem is asked for, no line of a foreign assembly module named by the stem does. -/
  stemModule : s.Unnamed disk path line →
    ¬ s.ComesFirst disk (Path.stem path) line (s.ForeignAsm disk path)
  /-- Nor does a C line or a MAP symbol of a file that has the stem as its name. -/
  stemFile : s.Unnamed disk path line →
    ¬ s.ComesFirst disk (Path.stem path) line fun r =>
      r ∉ s.cdbModules.flatMap asmRecords ∧ ¬ s.InFile disk path r

/-- What is not an assembly line is foreign if it is not in the file, and an assembly line if it is a
    foreign one. -/
theorem not_own_iff {path : Str} {r : LineRecord} :
    ¬ s.Own disk path r ↔ s.ForeignAsm disk path r ∨
      (r ∉ s.cdbModules.flatMap asmRecords ∧ ¬ s.InFile disk path r) := by
  rw [Own, AsmOfStem, ForeignAsm, not_or]
  by_cases hasm : r ∈ s.cdbModules.flatMap asmRecords
  · rw [or_iff_left (fun h => h.1 hasm)]
    constructor
    · rintro ⟨hfile, hstem⟩
      exact ⟨hasm, hfile, fun hpath hsame => hstem ⟨hpath, hasm, hsame⟩⟩
    · rintro ⟨-, hfile, hstem⟩
      exact ⟨hfile, fun h => hstem h.1 h.2.2⟩
  · rw [or_iff_right (fun h => hasm h.1)]
    constructor
    · rintro ⟨hfile, -⟩
      exact ⟨hasm, hfile⟩
    · rintro ⟨-, hfile⟩
      exact ⟨hfile, fun h => hasm h.2.1⟩

theorem unnamed_iff {path : Str} {line : Int} :
    s.Unnamed disk path line ↔ s.firstRecord disk (Path.filename path) line = none := by
  rw [← Option.not_isSome_iff_eq_none, firstRecord_isSome]
  constructor
  · rintro h ⟨r, hr, hname, hline⟩
    exact h r hr hname hline
  · intro h r hr hname hline
    exact h ⟨r, hr, hname, hline⟩

/-- C lines and MAP symbols are filed under the names of their own files. -/
theorem inFile_of_name {path : Str} {r : LineRecord} (h : r ∈ s.fileRecords disk)
    (hname : r.name = Path.filename path) : s.InFile disk path r := by
  rcases List.mem_append.mp h with h | h
  · obtain ⟨mod, -, hr⟩ := List.mem_flatMap.mp h
    obtain ⟨ln, -, rfl⟩ := List.mem_map.mp hr
    exact Or.inr hname
  · obtain ⟨sym, -, hr⟩ := List.mem_filterMap.mp h
    obtain ⟨loc, -, rfl⟩ := Option.map_eq_some_iff.mp hr
    exact Or.inl hname

/-- Where files are found under their own names, there is one file name. -/
theorem filename_of_inFile (hkeep : s.KeepsFileName disk) {path : Str} {r : LineRecord}
    (h : s.InFile disk path r) : Path.filename r.file = Path.filename path := by
  rcases h with h | h
  · exact h
  · rwa [filename_sourcePath hkeep] at h

theorem isAsmFile_congr {p q : Str} (h : Path.filename p = Path.filename q) :
    isAsmFile p = isAsmFile q := by
  unfold isAsmFile Path.extension
  rw [h]

/-- **The address comes from an own record** exactly if the record that answers is an own one. -/
theorem addressOwn_iff (hs : s.Indexed disk) (path : Str) (line : Int) :
    s.AddressOwn disk path line ↔
      ∀ r, s.answering disk ⟨path, line, false⟩ = some r → s.Own disk path r := by
  have haddr : s.lookupAddress path line
      = (s.answering disk ⟨path, line, false⟩).map LineRecord.addr := lookupAddress_eq hs path line
  constructor
  · intro h r hr
    obtain ⟨q, hq, -, -, hown⟩ := h r.addr (by rw [haddr, hr, Option.map_some])
    rwa [← Option.some.inj (hq.symm.trans hr)]
  · intro h a ha
    rw [haddr] at ha
    obtain ⟨r, hr, rfl⟩ := Option.map_eq_some_iff.mp ha
    refine ⟨r, hr, ?_, rfl, h r hr⟩
    rw [answering, Option.or_eq_some_iff] at hr
    rcases hr with hfirst | ⟨-, hfirst⟩
    · exact (firstRecord_some hfirst).2.2
    · exact (firstRecord_some hfirst).2.2

/-- The record that answers is an own one exactly if nothing foreign is in the way. -/
theorem unmixed_iff (path : Str) (line : Int) : s.Unmixed disk path line ↔
    ∀ r, s.answering disk ⟨path, line, false⟩ = some r → s.Own disk path r := by
  have hanswering : s.answering disk ⟨path, line, false⟩
      = (s.firstRecord disk (Path.filename path) line).or
        (s.firstRecord disk (Path.stem path) line) := rfl
  constructor
  · rintro ⟨hmodule, hstemModule, hstemFile⟩ r hr
    by_contra hown
    have hforeign := not_own_iff.mp hown
    rw [hanswering, Option.or_eq_some_iff] at hr
    rcases hr with hname | ⟨hnone, hstem⟩
    · rcases hforeign with hasm | ⟨hasm, hfile⟩
      · exact hmodule (comesFirst_iff.mpr ⟨r, hname, hasm⟩)
      · -- a C line or a MAP symbol under the file name is in the file
        obtain ⟨hmem, hfiled, -⟩ := firstRecord_some hname
        exact hfile (inFile_of_name ((mem_records.mp hmem).resolve_left hasm) hfiled)
    · have hunnamed := unnamed_iff.mpr hnone
      rcases hforeign with hasm | hfile
      · exact hstemModule hunnamed (comesFirst_iff.mpr ⟨r, hstem, hasm⟩)
      · exact hstemFile hunnamed (comesFirst_iff.mpr ⟨r, hstem, hfile⟩)
  · intro h
    have hstem : s.Unnamed disk path line → ∀ r,
        s.firstRecord disk (Path.stem path) line = some r → s.Own disk path r := by
      intro hunnamed r hr
      exact h r (by rw [hanswering, unnamed_iff.mp hunnamed, Option.none_or, hr])
    refine ⟨fun hfirst => ?_, fun hunnamed hfirst => ?_, fun hunnamed hfirst => ?_⟩
    · obtain ⟨r, hr, hasm⟩ := comesFirst_iff.mp hfirst
      exact not_own_iff.mpr (Or.inl hasm) (h r (by rw [hanswering, hr, Option.some_or]))
    · obtain ⟨r, hr, hasm⟩ := comesFirst_iff.mp hfirst
      exact not_own_iff.mpr (Or.inl hasm) (hstem hunnamed r hr)
    · obtain ⟨r, hr, hfile⟩ := comesFirst_iff.mp hfirst
      exact not_own_iff.mpr (Or.inr hfile) (hstem hunnamed r hr)

/-- No assembly line is in a file that is not one of assembly text. -/
theorem not_asm_of_inFile (hkeep : s.KeepsFileName disk) {path : Str} (hpath : isAsmFile path = false)
    {r : LineRecord} (h : s.Own disk path r) :
    r ∉ s.cdbModules.flatMap asmRecords ∧ Path.filename r.file = Path.filename path := by
  have hfile : Path.filename r.file = Path.filename path := by
    rcases h with h | ⟨h, -⟩
    · exact filename_of_inFile hkeep h
    · rw [hpath] at h
      exact absurd h Bool.false_ne_true
  refine ⟨?_, hfile⟩
  intro hasm
  obtain ⟨mod, -, hmod, -, -, hmodFile⟩ := asmRecords_name hasm
  rw [← hmodFile, isAsmFile_congr hfile, hpath] at hmod
  exact absurd hmod Bool.false_ne_true

/-- **For a C file or a header**: nothing foreign is in the way exactly if no assembly module with the
    name of the file comes first, and the stem has the line only if the file has it. -/
theorem unmixed_iff_of_source (hkeep : s.KeepsFileName disk) {path : Str}
    (hpath : isAsmFile path = false) (line : Int) :
    s.Unmixed disk path line ↔
      (∀ r, s.firstRecord disk (Path.filename path) line = some r →
        r ∉ s.cdbModules.flatMap asmRecords) ∧
      (s.Files (Path.stem path) line → s.Files (Path.filename path) line) := by
  rw [unmixed_iff, ← firstRecord_isSome_iff_files hkeep, ← firstRecord_isSome_iff_files hkeep]
  have hanswering : s.answering disk ⟨path, line, false⟩
      = (s.firstRecord disk (Path.filename path) line).or
        (s.firstRecord disk (Path.stem path) line) := rfl
  have hfiled : ∀ r ∈ s.fileRecords disk, r.line = line →
      Path.filename r.file = Path.filename path →
        (s.firstRecord disk (Path.filename path) line).isSome := by
    intro r hr hline hfile
    apply firstRecord_isSome.mpr
    exact ⟨r, mem_records.mpr (Or.inr hr), (fileRecords_name hkeep hr).trans hfile, hline⟩
  constructor
  · intro h
    constructor
    · intro r hr hasm
      have hown := h r (by rw [hanswering, hr, Option.some_or])
      exact (not_asm_of_inFile hkeep hpath hown).1 hasm
    · intro hsome
      obtain ⟨r, hr⟩ := Option.isSome_iff_exists.mp hsome
      cases hfirst : s.firstRecord disk (Path.filename path) line with
      | some q => rfl
      | none =>
        have hown := h r (by rw [hanswering, hfirst, Option.none_or, hr])
        obtain ⟨hnot, hfile⟩ := not_asm_of_inFile hkeep hpath hown
        obtain ⟨hmem, -, hline⟩ := firstRecord_some hr
        have hsome := hfiled r ((mem_records.mp hmem).resolve_left hnot) hline hfile
        rw [hfirst] at hsome
        exact hsome
  · rintro ⟨hname, hstem⟩ r hr
    rw [hanswering, Option.or_eq_some_iff] at hr
    rcases hr with hfirst | ⟨hnone, hr⟩
    · obtain ⟨hmem, hfiled, -⟩ := firstRecord_some hfirst
      exact Or.inl (inFile_of_name ((mem_records.mp hmem).resolve_left (hname r hfirst)) hfiled)
    · have hsome := hstem (by rw [hr, Option.isSome_some])
      rw [hnone] at hsome
      exact absurd hsome Bool.false_ne_true

/-- **For a file of assembly text**: nothing foreign is in the way exactly if no assembly module with
    the name of the file comes first, and where the file name does not have the line, no file with
    the stem for its name. -/
theorem unmixed_iff_of_asm (hkeep : s.KeepsFileName disk)
    (hnamed : ∀ mod ∈ s.cdbModules, CdbParser.FileNamed mod) {path : Str}
    (hpath : isAsmFile path = true) (line : Int) :
    s.Unmixed disk path line ↔
      (∀ r, s.firstRecord disk (Path.filename path) line = some r →
        r ∉ s.cdbModules.flatMap asmRecords) ∧
      (¬ s.Files (Path.filename path) line → ∀ r, s.firstRecord disk (Path.stem path) line = some r →
        r ∈ s.cdbModules.flatMap asmRecords) := by
  have hunnamed : s.Unnamed disk path line ↔ ¬ s.Files (Path.filename path) line := by
    rw [unnamed_iff, ← firstRecord_isSome_iff_files hkeep, Option.not_isSome_iff_eq_none]
  have hdistinct : Path.stem path ≠ Path.filename path := by
    intro heq
    have hsplit := Path.stem_append_extension path
    rw [heq, List.append_right_eq_self] at hsplit
    rw [isAsmFile, hsplit] at hpath
    exact absurd hpath (by decide)
  -- the stem of its file is the name of an assembly module
  have hstem : ∀ r ∈ s.cdbModules.flatMap asmRecords, Path.stem r.file = Path.filename r.name := by
    intro r hr
    obtain ⟨mod, hmod, hasm, -, hname, hmodFile⟩ := asmRecords_name hr
    rw [hname, hmodFile, stem_of_asm (hnamed mod hmod) hasm]
  have hforeign : ∀ r ∈ s.cdbModules.flatMap asmRecords, r.name = Path.filename path →
      s.ForeignAsm disk path r := by
    intro r hr hname
    have hlong : Path.stem r.file = Path.filename path := by
      rw [hstem r hr, hname, Path.filename_of_no_slash (Path.slash_not_mem_filename path)]
    refine ⟨hr, fun hin => hdistinct ?_, fun _ hsame => hdistinct (hsame.symm.trans hlong)⟩
    exact (stem_congr (filename_of_inFile hkeep hin)).symm.trans hlong
  constructor
  · rintro ⟨hmodule, -, hstemFile⟩
    constructor
    · intro r hr hasm
      exact hmodule (comesFirst_iff.mpr ⟨r, hr, hforeign r hasm (firstRecord_some hr).2.1⟩)
    · intro hfiles r hr
      by_contra hasm
      obtain ⟨hmem, hname, -⟩ := firstRecord_some hr
      have hown := fileRecords_name hkeep ((mem_records.mp hmem).resolve_left hasm)
      refine hstemFile (hunnamed.mpr hfiles) (comesFirst_iff.mpr ⟨r, hr, hasm, fun hin => ?_⟩)
      exact hdistinct (hname.symm.trans (hown.trans (filename_of_inFile hkeep hin)))
  · rintro ⟨hname, hstemAsm⟩
    refine ⟨fun hfirst => ?_, fun _ hfirst => ?_, fun hnone hfirst => ?_⟩
    · obtain ⟨r, hr, hasm, -⟩ := comesFirst_iff.mp hfirst
      exact hname r hr hasm
    · -- an assembly module that is named by the stem is an own one
      obtain ⟨r, hr, hasm, -, hother⟩ := comesFirst_iff.mp hfirst
      refine hother hpath ?_
      rw [hstem r hasm, (firstRecord_some hr).2.1, filename_stem]
    · obtain ⟨r, hr, hasm, -⟩ := comesFirst_iff.mp hfirst
      exact hasm (hstemAsm (hunnamed.mp hnone) r hr)

/-- **Addresses and their files**, for any modules, any MAP symbols, any path and any line: an address
    that is found was indexed from a record of the path's file, or of the assembly module with its
    stem, exactly if nothing foreign is in the way.  This comes down to the names, if files are found
    under their own names, for a path that is not one of assembly text, and for one that is if the
    assembly modules are named like their files, as in the modules of a text (`parse_inv`). -/
theorem address_own_iff (hs : s.Indexed disk) (path : Str) (line : Int) :
    (s.AddressOwn disk path line ↔ s.Unmixed disk path line) ∧
    (s.KeepsFileName disk → isAsmFile path = false →
      (s.AddressOwn disk path line ↔
        (∀ r, s.firstRecord disk (Path.filename path) line = some r →
          r ∉ s.cdbModules.flatMap asmRecords) ∧
        (s.Files (Path.stem path) line → s.Files (Path.filename path) line))) ∧
    (s.KeepsFileName disk → (∀ mod ∈ s.cdbModules, CdbParser.FileNamed mod) →
      isAsmFile path = true →
      (s.AddressOwn disk path line ↔
        (∀ r, s.firstRecord disk (Path.filename path) line = some r →
          r ∉ s.cdbModules.flatMap asmRecords) ∧
        (¬ s.Files (Path.filename path) line →
          ∀ r, s.firstRecord disk (Path.stem path) line = some r →
            r ∈ s.cdbModules.flatMap asmRecords))) := by
  have hown : s.AddressOwn disk path line ↔ s.Unmixed disk path line :=
    (addressOwn_iff hs path line).trans (unmixed_iff path line).symm
  refine ⟨hown, fun hkeep hpath => ?_, fun hkeep hnamed hpath => ?_⟩
  · exact hown.trans (unmixed_iff_of_source hkeep hpath line)
  · exact hown.trans (unmixed_iff_of_asm hkeep hnamed hpath line)

end Symbols

/-- The modules of a text with one line of the module `crt0`. -/
def crt0Modules : List CdbgInfoModule :=
  (CdbParser.parseText entryOrder (str "L:A$crt0$8:0104\n")).getD []

def crt0Symbols : Symbols := Symbols.setCdbModules default crt0Modules {}

/-- In `crt0.s` the line is the module's own. -/
theorem address_own_crt0 :
    crt0Symbols.lookupAddress (str "crt0.s") 8 = some 0x104 ∧
      crt0Symbols.AddressOwn default (str "crt0.s") 8 := by
  have hrecords : crt0Symbols.records default = [⟨str "crt0", str "crt0.s", 8, 0x104⟩] := by
    decide +kernel
  have hindexed : crt0Symbols.Indexed default := rfl
  have hfile : ∀ r ∈ crt0Symbols.records default,
      crt0Symbols.InFile default (str "crt0.s") r := by
    intro r hr
    rw [hrecords, List.mem_singleton] at hr
    rw [hr]
    exact Or.inl rfl
  have hfirst : ∀ {name p}, crt0Symbols.ComesFirst default name 8 p → ∃ r,
      crt0Symbols.InFile default (str "crt0.s") r ∧ p r := by
    rintro name p ⟨front, r, back, heq, -, -, hp, -⟩
    exact ⟨r, hfile r (by rw [heq]; exact List.mem_append_right _ List.mem_cons_self), hp⟩
  refine ⟨by decide +kernel, (Symbols.address_own_iff hindexed (str "crt0.s") 8).1.mpr
    ⟨fun h => ?_, fun _ h => ?_, fun _ h => ?_⟩⟩
  · obtain ⟨r, hr, hforeign⟩ := hfirst h
    exact hforeign.2.1 hr
  · obtain ⟨r, hr, hforeign⟩ := hfirst h
    exact hforeign.2.1 hr
  · obtain ⟨r, hr, hforeign⟩ := hfirst h
    exact hforeign.2 hr

/-- **A breakpoint in a C file is bound to assembly code**: line 8 of `crt0.c` has the address of
    line 8 of `crt0.s`, though there is no record of `crt0.c`. -/
theorem address_of_other_file :
    crt0Symbols.lookupAddress (str "crt0.c") 8 = some 0x104 ∧
      crt0Symbols.records default = [⟨str "crt0", str "crt0.s", 8, 0x104⟩] ∧
      ¬ crt0Symbols.AddressOwn default (str "crt0.c") 8 := by
  have haddr : crt0Symbols.lookupAddress (str "crt0.c") 8 = some 0x104 := by decide +kernel
  have hanswer : crt0Symbols.answering default ⟨str "crt0.c", 8, false⟩
      = some ⟨str "crt0", str "crt0.s", 8, 0x104⟩ := by decide +kernel
  refine ⟨haddr, by decide +kernel, ?_⟩
  intro h
  obtain ⟨r, hr, -, -, hown⟩ := h 0x104 haddr
  obtain rfl := Option.some.inj (hanswer.symm.trans hr)
  rcases hown with (hfile | hfile) | ⟨hasm, -⟩
  · exact absurd hfile (by decide +kernel)
  · exact absurd hfile (by decide +kernel)
  · exact absurd hasm (by decide +kernel)

/-! ## Gaps -/

namespace Symbols

section
variable (disk : Disk) (s : Symbols) (modules : List CdbgInfoModule) (symbols : List Symbol)

/-- The symbols when the CDB file is read, and no MAP file. -/
def withCdb : Symbols := { s with mapSymbols := [] }.setCdbModules disk modules

/-- The symbols when the MAP file is read as well. -/
def withMap : Symbols := (s.withCdb disk modules).setMapSymbols disk symbols

/-- Every answer of the CDB records is still the answer with the MAP symbols. -/
def OnlyFillsGaps : Prop :=
  (∀ a loc, (s.withCdb disk modules).lookupSourceAny a = some loc →
    (s.withMap disk modules symbols).lookupSourceAny a = some loc) ∧
  ∀ path line a, (s.withCdb disk modules).lookupAddress path line = some a →
    (s.withMap disk modules symbols).lookupAddress path line = some a

/-- The first MAP symbol of a file name and a line. -/
def firstSymbol (name : Str) (line : Int) : Option LineRecord :=
  (mapRecords symbols).find? fun r => r.name = name ∧ r.line = line

/-- No MAP symbol is in front of a CDB record: one at the address of an assembly line has a C line
    there, and one of a file and a line for which only the stem is filed has the address that is
    filed there. -/
structure Behind : Prop where
  shown : ∀ q ∈ modules.flatMap asmRecords, ∀ m ∈ mapRecords symbols, m.addr = q.addr →
    ∃ r ∈ modules.flatMap (lineRecords (s.resolveSourcePath disk)), r.addr = q.addr
  bound : ∀ path line m r, firstSymbol symbols (Path.filename path) line = some m →
    (s.withCdb disk modules).firstRecord disk (Path.filename path) line = none →
    (s.withCdb disk modules).firstRecord disk (Path.stem path) line = some r → m.addr = r.addr

end

/-! ### Locations -/

section
variable {resolve : Str → Option Str} {isAsm : Bool} {rs : List LineRecord} {a : UInt16}

/-- A table of locations has what a record is at. -/
theorem lookup_location_isSome :
    ((rs.map (LineRecord.location resolve isAsm)).lookup a).isSome ↔ ∃ r ∈ rs, r.addr = a := by
  induction rs with
  | nil => simp
  | cons r rs ih =>
    rw [List.map_cons, LineRecord.location, List.lookup_cons, List.exists_mem_cons_iff]
    by_cases h : r.addr = a
    · rw [h, beq_self_eq_true]
      exact iff_of_true rfl (Or.inl rfl)
    · rw [beq_eq_false_iff_ne.mpr (Ne.symm h), or_iff_right h]
      exact ih

theorem lookup_location_isAsm {loc : SourceLocation}
    (h : (rs.map (LineRecord.location resolve isAsm)).lookup a = some loc) : loc.isAsm = isAsm := by
  obtain ⟨r, -, heq⟩ := List.mem_map.mp (mem_of_lookup h)
  exact congrArg (fun e => e.2.isAsm) heq.symm

end

section
variable (disk : Disk) (s : Symbols) (modules : List CdbgInfoModule) (symbols : List Symbol)
  (a : UInt16)

/-- The last C line at an address. -/
def shownLine : Option SourceLocation :=
  ((modules.flatMap (lineRecords (s.resolveSourcePath disk))).map
    (LineRecord.location (s.resolveSourcePath disk) false)).reverse.lookup a

/-- The first MAP symbol at an address. -/
def shownSymbol : Option SourceLocation :=
  ((mapRecords symbols).map (LineRecord.location (s.resolveSourcePath disk) false)).lookup a

/-- The first assembly line at an address. -/
def shownAsm : Option SourceLocation :=
  ((modules.flatMap asmRecords).map (LineRecord.location (s.resolveSourcePath disk) true)).lookup a

variable {disk s modules symbols a}

/-- Before the MAP file is read: a C line, or else an assembly line. -/
theorem lookupSourceAny_withCdb : (s.withCdb disk modules).lookupSourceAny a
    = (shownLine disk s modules a).or (shownAsm disk s modules a) := by
  show ((rebuildSourceIndex (s.resolveSourcePath disk) modules []).sourceByAddr.lookup a).or
    ((rebuildSourceIndex (s.resolveSourcePath disk) modules []).asmByAddr.lookup a) = _
  rw [rebuildSourceIndex_eq]
  simp only [Table.lookup_emplaceAll, Table.lookup_assignAll, AList.lookup_empty, Option.or_none,
    Option.none_or]
  show ((shownLine disk s modules a).or none).or _ = _
  rw [Option.or_none]
  rfl

/-- With the MAP file: its symbol is between the two. -/
theorem lookupSourceAny_withMap : (s.withMap disk modules symbols).lookupSourceAny a
    = ((shownLine disk s modules a).or (shownSymbol disk s symbols a)).or
      (shownAsm disk s modules a) := by
  show ((rebuildSourceIndex (s.resolveSourcePath disk) modules symbols).sourceByAddr.lookup a).or
    ((rebuildSourceIndex (s.resolveSourcePath disk) modules symbols).asmByAddr.lookup a) = _
  rw [rebuildSourceIndex_eq]
  simp only [Table.lookup_emplaceAll, Table.lookup_assignAll, AList.lookup_empty, Option.or_none,
    Option.none_or]
  rfl

theorem shownLine_isSome : (shownLine disk s modules a).isSome ↔
    ∃ r ∈ modules.flatMap (lineRecords (s.resolveSourcePath disk)), r.addr = a := by
  rw [shownLine, ← List.map_reverse, lookup_location_isSome]
  simp only [List.mem_reverse]

/-- **Locations**: what is shown stays exactly if no MAP symbol hides an assembly line. -/
theorem shown_kept_iff :
    (∀ loc, (s.withCdb disk modules).lookupSourceAny a = some loc →
      (s.withMap disk modules symbols).lookupSourceAny a = some loc) ↔
    ∀ q ∈ modules.flatMap asmRecords, ∀ m ∈ mapRecords symbols, q.addr = a → m.addr = a →
      ∃ r ∈ modules.flatMap (lineRecords (s.resolveSourcePath disk)), r.addr = a := by
  have hbetween : (∀ loc, (shownLine disk s modules a).or (shownAsm disk s modules a) = some loc →
      ((shownLine disk s modules a).or (shownSymbol disk s symbols a)).or
        ((shownAsm disk s modules a).or none) = some loc) ↔ _ := Table.or_between_iff
  rw [Option.or_none] at hbetween
  rw [lookupSourceAny_withCdb, lookupSourceAny_withMap, hbetween]
  constructor
  · intro h q hq m hm hqa hma
    rw [← shownLine_isSome]
    obtain ⟨asm, hasm⟩ := Option.isSome_iff_exists.mp (lookup_location_isSome.mpr ⟨q, hq, hqa⟩)
    obtain ⟨sym, hsym⟩ := Option.isSome_iff_exists.mp (lookup_location_isSome.mpr ⟨m, hm, hma⟩)
    cases hline : shownLine disk s modules a with
    | some loc => rfl
    | none =>
      -- the two locations differ, since only one of them is one of assembly text
      have hsame : sym = asm := h asm sym hline hasm hsym
      have hfalse : sym.isAsm = false := lookup_location_isAsm hsym
      have htrue : asm.isAsm = true := lookup_location_isAsm hasm
      rw [hsame, htrue] at hfalse
      cases hfalse
  · intro h asm sym hline hasm hsym
    obtain ⟨q, hq, hqa⟩ := lookup_location_isSome.mp (Option.isSome_of_eq_some hasm)
    obtain ⟨m, hm, hma⟩ := lookup_location_isSome.mp (Option.isSome_of_eq_some hsym)
    have hsome := shownLine_isSome.mpr (h q hq m hm hqa hma)
    rw [hline] at hsome
    cases hsome

/-! ### Addresses -/

theorem records_withMap : (s.withMap disk modules symbols).records disk
    = (s.withCdb disk modules).records disk ++ mapRecords symbols := by
  show indexRecords _ modules symbols = indexRecords _ modules [] ++ mapRecords symbols
  rw [indexRecords, indexRecords]
  exact congrArg (· ++ mapRecords symbols) (List.append_nil _).symm

/-- The MAP symbols come last. -/
theorem firstRecord_withMap (name : Str) (line : Int) :
    (s.withMap disk modules symbols).firstRecord disk name line
      = ((s.withCdb disk modules).firstRecord disk name line).or (firstSymbol symbols name line) := by
  rw [firstRecord, records_withMap, List.find?_append]
  rfl

/-- **Addresses**: what is found stays exactly if no MAP symbol of the file name hides what is filed
    under the stem. -/
theorem bound_kept_iff (path : Str) (line : Int) :
    (∀ a, (s.withCdb disk modules).lookupAddress path line = some a →
      (s.withMap disk modules symbols).lookupAddress path line = some a) ↔
    ∀ m r, firstSymbol symbols (Path.filename path) line = some m →
      (s.withCdb disk modules).firstRecord disk (Path.filename path) line = none →
      (s.withCdb disk modules).firstRecord disk (Path.stem path) line = some r → m.addr = r.addr := by
  have hcdb : (s.withCdb disk modules).Indexed disk := setCdbModules_indexed disk modules _
  have hmap : (s.withMap disk modules symbols).Indexed disk := setMapSymbols_indexed disk symbols _
  rw [lookupAddress_eq hcdb, lookupAddress_eq hmap, firstRecord_withMap, firstRecord_withMap]
  simp only [Option.map_or]
  rw [Table.or_between_iff]
  simp only [Option.map_eq_none_iff, Option.map_eq_some_iff]
  constructor
  · intro h m r hm hnone hr
    exact h r.addr m.addr hnone ⟨r, hr, rfl⟩ ⟨m, hm, rfl⟩
  · rintro h _ _ hnone ⟨r, hr, rfl⟩ ⟨m, hm, rfl⟩
    exact h m r hm hnone hr

/-- **MAP symbols fill gaps**, for any modules and any MAP symbols: the answers of both lookups that
    the CDB records give stay, for every address, every path and every line, exactly if no MAP symbol
    is in front of a CDB record. -/
theorem map_fills_gaps_iff :
    s.OnlyFillsGaps disk modules symbols ↔ s.Behind disk modules symbols := by
  constructor
  · rintro ⟨hshown, hbound⟩
    constructor
    · intro q hq m hm hqm
      exact shown_kept_iff.mp (hshown q.addr) q hq m hm rfl hqm
    · intro path line
      exact (bound_kept_iff path line).mp (hbound path line)
  · rintro ⟨hshown, hbound⟩
    constructor
    · intro a
      apply shown_kept_iff.mpr
      rintro q hq m hm rfl hqm
      exact hshown q hq m hm hqm
    · intro path line
      exact (bound_kept_iff path line).mpr (hbound path line)

end

end Symbols

/-- A MAP symbol of a C line at the same address. -/
def bootSymbol : Symbol := { name := str "C$boot.c$3$0_0$1", address := 0x104 }

/-- **A MAP symbol hides a CDB record**: at 0x104 line 8 of `crt0.s` is shown, and with the symbol
    line 3 of `boot.c`. -/
theorem map_hides_asm_line :
    (Symbols.withCdb default {} crt0Modules).lookupSourceAny 0x104
        = some ⟨str "crt0.s", 8, true⟩ ∧
      (Symbols.withMap default {} crt0Modules [bootSymbol]).lookupSourceAny 0x104
        = some ⟨str "boot.c", 3, false⟩ ∧
      ¬ Symbols.OnlyFillsGaps default {} crt0Modules [bootSymbol] := by
  have hbefore : (Symbols.withCdb default {} crt0Modules).lookupSourceAny 0x104
      = some ⟨str "crt0.s", 8, true⟩ := by decide +kernel
  have hafter : (Symbols.withMap default {} crt0Modules [bootSymbol]).lookupSourceAny 0x104
      = some ⟨str "boot.c", 3, false⟩ := by decide +kernel
  refine ⟨hbefore, hafter, ?_⟩
  rintro ⟨hshown, -⟩
  rw [hshown 0x104 _ hbefore] at hafter
  exact absurd hafter (by decide)

end Udap
