/-
  STORED LINES — which lines of C does the parser keep?

  A line of C is kept if its record stands behind the record of the module that its file names; a
  record for any other module is dropped.  It does not matter which module is the current one.

  1. **Lines** — `linesOf` lists the lines of C that a text has readable records for, each behind the
     record of its module.

  2. **One line** — a record adds its line of C at the end of one module (`storeLine_lines`); the
     other records leave all lines of C where they are (`parseRaw_other`).

  3. **The run** — the parser stores the lines of the text and no others, whatever else stands in it
     and in whatever order it walks over its tables (`parse_lines`).
-/
import Udap.Sdcc.CdbAsm

set_option linter.unusedVariables false

namespace Udap.Sdcc.CdbParser

open Udap Udap.Cxx

/-! ## Lines -/

/-- The line of C on a line of the text, if one of the modules `names` is the one it is for. -/
def storedLine (names : List Str) (line : Str) : Option CdbgInfoLine :=
  ((cLine? line).filter fun x => names.contains x.2).map Prod.fst

/-- The lines of C behind the records of the modules `names`. -/
def linesBehind (names : List Str) : List Str → List CdbgInfoLine
  | [] => []
  | line :: lines =>
    (storedLine names line).toList ++ linesBehind (names ++ (moduleName? line).toList) lines

/-- The lines of C that are kept of a text: each behind the record of the module it is for. -/
def linesOf (content : Str) : List CdbgInfoLine := linesBehind [] (getLines content)

example : linesOf (str "L:C$a.c$1$0$0:100\nM:a\nL:C$a.c$2$0$0:102\nL:C$b.c$1$0$0:104\n")
    = [⟨str "a.c", 2, 0x102, str "local"⟩] := by decide +kernel

/-- All lines that the modules hold. -/
def allLines (data : List CdbgInfoModule) : List CdbgInfoLine := data.flatMap CdbgInfoModule.lines

theorem allLines_congr {a b : List CdbgInfoModule}
    (h : a.map CdbgInfoModule.lines = b.map CdbgInfoModule.lines) : allLines a = allLines b := by
  rw [allLines, allLines, List.flatMap_def, List.flatMap_def, h]

/-- Without a module of the name the line is dropped. -/
theorem storeLine_dropped {s : CdbParser} {name : Str}
    (h : name ∉ s.data.map CdbgInfoModule.name) (ln : CdbgInfoLine) : s.storeLine ln name = s := by
  have hne : ∀ mod ∈ s.data, mod.name ≠ name := by
    rintro mod hmod rfl
    exact h (List.mem_map_of_mem hmod)
  unfold storeLine
  rw [if_neg, modifyFirst_of_forall]
  · exact fun mod hmod heq => hne mod hmod (beq_iff_eq.mp heq)
  · intro hlast
    obtain ⟨mod, hmod, heq⟩ := Option.map_eq_some_iff.mp hlast
    exact hne mod (List.mem_of_getLast? hmod) heq

/-- The first module of a name gets the line. -/
theorem allLines_modifyFirst (ln : CdbgInfoLine) {name : Str} {data : List CdbgInfoModule}
    (h : name ∈ data.map CdbgInfoModule.name) :
    (allLines (modifyFirst (fun mod => mod.name == name) (addLine ln) data)).Perm
      (allLines data ++ [ln]) := by
  induction data with
  | nil => cases h
  | cons mod data ih =>
    unfold modifyFirst
    by_cases hname : mod.name = name
    · rw [if_pos (beq_iff_eq.mpr hname)]
      show (mod.lines ++ [ln] ++ allLines data).Perm (mod.lines ++ allLines data ++ [ln])
      rw [List.append_assoc, List.append_assoc]
      exact (List.perm_append_comm).append_left mod.lines
    · rw [if_neg (by simpa using hname)]
      have hrest : name ∈ data.map CdbgInfoModule.name := by
        rw [List.map_cons, List.mem_cons] at h
        exact h.resolve_left fun heq => hname heq.symm
      show (mod.lines ++ allLines _).Perm (mod.lines ++ allLines data ++ [ln])
      rw [List.append_assoc]
      exact (ih hrest).append_left mod.lines

/-- **A line is stored once**, in whichever of the modules of its name. -/
theorem storeLine_lines (ln : CdbgInfoLine) {name : Str} {s : CdbParser}
    (h : name ∈ s.data.map CdbgInfoModule.name) :
    (allLines (s.storeLine ln name).data).Perm (allLines s.data ++ [ln]) := by
  unfold storeLine
  split
  · rename_i hlast
    obtain ⟨mod, hmod, -⟩ := Option.map_eq_some_iff.mp hlast
    obtain ⟨front, hdata⟩ := List.getLast?_eq_some_iff.mp hmod
    show (allLines (modifyLast (addLine ln) s.data)).Perm _
    rw [hdata, modifyLast_concat, allLines, allLines, List.flatMap_append, List.flatMap_append,
      List.flatMap_singleton, List.flatMap_singleton, List.append_assoc]
    exact List.Perm.refl _
  · exact allLines_modifyFirst ln h

/-! ### The other records -/

/-- The record of a function, a symbol or a type. -/
theorem Edits.lines {parse : CdbParser → Option CdbParser} (hedits : Edits parse) {s t : CdbParser}
    (h : parse s = some t) : allLines t.data = allLines s.data := by
  cases hedits with
  | fails hparse =>
    rw [hparse] at h
    split at h
    · cases h
      rfl
    · cases h
  | skips hparse =>
    rw [hparse] at h
    cases h
    rfl
  | changes f hf hparse =>
    rw [hparse] at h
    cases h
    exact allLines_congr (map_modifyLast hf.lines s.data)

theorem parseFuncMarker_lines {content : Str} {isEnd : Bool} {s t : CdbParser}
    (h : parseFuncMarker content isEnd s = some t) : allLines t.data = allLines s.data := by
  rw [parseFuncMarker_eq true] at h
  obtain rfl := Option.some.inj h
  cases readMarker true isEnd content with
  | none => rfl
  | some m =>
    refine allLines_congr (map_modifyFirst ?_ s.data)
    exact fun mod => rfl

/-- A line record that is none of a line of C. -/
theorem parseLineInfo_lines {content : Str} {s t : CdbParser}
    (hcLine : ∀ rest, content = 67 :: rest → readCLine content = none)
    (h : parseLineInfo content s = some t) : allLines t.data = allLines s.data := by
  unfold parseLineInfo at h
  split at h
  · cases h
    rfl
  · exact parseFuncMarker_lines h
  · exact parseFuncMarker_lines h
  · exact parseFuncMarker_lines h
  · exact parseFuncMarker_lines h
  · rw [parseAsmLine_data h]
  · rename_i rest
    rw [parseCLine_eq, hcLine rest rfl] at h
    cases h
    rfl
  · cases h
    rfl

/-- Any record but that of a line of C. -/
theorem parseRaw_other {line : Str} (hline : cLine? line = none) {s t : CdbParser}
    (h : parseRaw line s = some t) : allLines t.data = allLines s.data := by
  rcases parseRaw_record h with ⟨-, rfl⟩ | ⟨type, content, hrecord, hparse⟩
  · rfl
  change (if type = 77 then some (parseModule content s)
    else if type = 70 then parseFunction content s
    else if type = 83 then parseSymbol content s
    else if type = 84 then parseType content s
    else if type = 76 then parseLineInfo content s
    else some s) = some t at hparse
  split_ifs at hparse with hM hF hS hT hL
  · cases hparse
    show allLines (s.data ++ _) = _
    rw [allLines, List.flatMap_append]
    exact List.append_nil _
  · exact (parseFunction_edits content).lines hparse
  · exact (parseSymbol_edits content).lines hparse
  · exact (parseType_edits content).lines hparse
  · refine parseLineInfo_lines ?_ hparse
    rintro rest rfl
    rwa [cLine?, hrecord, hL] at hline
  · cases hparse
    rfl

/-! ### The run -/

/-- **The step lemma**: a line of the text adds its line of C, if there is a module for it. -/
theorem parseRaw_lines {line : Str} {s t : CdbParser} (h : parseRaw line s = some t) :
    (allLines t.data).Perm
      (allLines s.data ++ (storedLine (s.data.map CdbgInfoModule.name) line).toList) := by
  unfold storedLine
  cases hline : cLine? line with
  | none =>
    rw [parseRaw_other hline h]
    show (allLines s.data).Perm (allLines s.data ++ [])
    rw [List.append_nil]
  | some x =>
    obtain ⟨ln, name⟩ := x
    rw [parseRaw_cLine hline] at h
    obtain rfl := Option.some.inj h
    rw [Option.filter_some]
    by_cases hname : name ∈ s.data.map CdbgInfoModule.name
    · rw [if_pos (List.contains_iff_mem.mpr hname)]
      exact storeLine_lines ln hname
    · rw [if_neg (by rwa [List.contains_iff_mem]), storeLine_dropped hname]
      show (allLines s.data).Perm (allLines s.data ++ [])
      rw [List.append_nil]

/-- **The run lemma.** -/
theorem exec_lines {lines : List Str} {s t : CdbParser} (h : Run.exec parseRaw lines s = some t) :
    (allLines t.data).Perm
      (allLines s.data ++ linesBehind (s.data.map CdbgInfoModule.name) lines) := by
  induction lines generalizing s with
  | nil =>
    obtain rfl : s = t := Option.some.inj h
    rw [linesBehind, List.append_nil]
  | cons line lines ih =>
    obtain ⟨u, hu, hrun⟩ := Run.exec_cons_eq_some.mp h
    have hrest := ih hrun
    rw [parseRaw_names hu] at hrest
    rw [linesBehind, ← List.append_assoc]
    exact hrest.trans ((parseRaw_lines hu).append_right _)

/-- The merge of the assembly lines moves no line of C. -/
theorem merge_lines (order : HashOrder) (s : CdbParser) :
    allLines (mergeAsmLines order s) = allLines s.data := by
  unfold mergeAsmLines
  generalize order.modules s.asmLines.toList = tables
  generalize s.data = data
  induction tables generalizing data with
  | nil => rfl
  | cons e tables ih =>
    rw [List.foldl_cons, ih, mergeModule]
    split
    · refine allLines_congr (map_modifyFirst ?_ data)
      exact fun mod => rfl
    · rw [allLines, List.flatMap_append]
      exact List.append_nil _

/-- **The parser stores the lines of the text**, and no others. -/
theorem parse_lines {order : HashOrder} {content : Str} {modules : List CdbgInfoModule}
    (h : parseText order content = some modules) : (allLines modules).Perm (linesOf content) := by
  obtain ⟨s, hs, rfl⟩ := Option.map_eq_some_iff.mp h
  rw [merge_lines]
  exact exec_lines hs

end Udap.Sdcc.CdbParser
