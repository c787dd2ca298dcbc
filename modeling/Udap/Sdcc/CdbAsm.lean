/-
  THE ASSEMBLY LINES — what `merge_asm_lines` makes of the records `A$module$line:address`.

  The records of one module may stand anywhere in the text, in front of its M: record, or without
  one.  The parser collects them in a hash table of hash tables and adds them to the modules at the
  end, when it walks over the tables in an order that is not specified.

  1. **Records** — `asmRecord?` reads the record on a line.  Such a line changes the table only, and
     the other lines do not look at it, so that a run is the run over the other lines and the table
     of the records (`exec_split`).  `Blind` says this of any view of the parser: the records of
     functions, symbols and types are the same edits whatever the state (`Edits`).

  2. **The table** — `collect`: the first record of a module and a line counts.

  3. **The merge** — `Merged` says what the modules are after some entries of the table;
     `mergeModule_merged` is the step and `merge_merged` the walk in any order.

  4. **Result** — `asm_merged_iff`, for every text on which the parser returns.
-/
import Udap.Sdcc.CdbMarkers

set_option linter.unusedVariables false

namespace Udap.Sdcc.CdbParser

open Udap Udap.Cxx

/-! ## Records -/

/-- An assembly record, as `parse_line_info` reads it. -/
structure AsmRecord where
  module : Str
  line : Int
  addr : UInt16
  deriving DecidableEq

/-- Read a record from its letter on. -/
def readAsmRecord (content : Str) : Option AsmRecord := do
  let d1 ← find content 36 0
  let d2 ← find content 36 (d1 + 1)
  let colon ← rfind content 58
  if colon ≤ d2 then none
  else do
    let line ← stoi ((content.drop (d2 + 1)).take (colon - d2 - 1))
    let addr ← stoul (content.drop (colon + 1)) 16
    some { module := (content.drop (d1 + 1)).take (d2 - d1 - 1), line := line,
           addr := UInt16.ofNat addr }

/-- The record on a line. -/
def asmRecord? (line : Str) : Option AsmRecord :=
  match recordOf line with
  | some (76, 65 :: rest) => readAsmRecord (65 :: rest)
  | _ => none

example : asmRecord? (str "L:A$crt0$8:0104") = some ⟨str "crt0", 8, 0x104⟩ := by decide +kernel

/-- Put a record into the table, unless there is one for its module and its line. -/
def addRecord (t : Table Str (Table Int UInt16)) (r : AsmRecord) : Table Str (Table Int UInt16) :=
  t.assign r.module (((t.lookup r.module).getD ∅).emplace r.line r.addr)

/-- The table of some records. -/
def collect (rs : List AsmRecord) : Table Str (Table Int UInt16) := rs.foldl addRecord ∅

/-- The parser with another table. -/
def withAsm (t : Table Str (Table Int UInt16)) (s : CdbParser) : CdbParser := { s with asmLines := t }

theorem parseAsmLine_eq (content : Str) (s : CdbParser) : parseAsmLine content s = some
    (match readAsmRecord content with
    | none => s
    | some r => s.withAsm (addRecord s.asmLines r)) := by
  unfold parseAsmLine readAsmRecord addressBehind
  cases hd1 : find content 36 0 with
  | none => rfl
  | some d1 =>
    dsimp only [Option.bind_eq_bind, Option.bind_some]
    cases hd2 : find content 36 (d1 + 1) with
    | none => rfl
    | some d2 =>
      dsimp only [Option.bind_some]
      cases hcolon : rfind content 58 with
      | none => rfl
      | some colon =>
        dsimp only [Option.bind_some]
        by_cases hle : colon ≤ d2
        · rw [if_pos hle, if_pos hle]
        rw [if_neg hle, if_neg hle, substr_of_le (find_lt hd1), Option.bind_some,
          substr_of_le (find_lt hd2), Option.bind_some]
        cases hline : stoi ((content.drop (d2 + 1)).take (colon - d2 - 1)) with
        | none => rfl
        | some line =>
          dsimp only [Option.bind_some]
          rw [substrFrom_of_le (rfind_lt hcolon), Option.bind_some, Option.bind_some]
          cases haddr : stoul (content.drop (colon + 1)) 16 with
          | none => rfl
          | some addr => rfl

/-! ### Views that the other lines do not look at -/

/-- A function whose addresses are not known. -/
def bareFunction (fn : CdbgInfoFunction) : CdbgInfoFunction :=
  { fn with startAddr := 0xFFFF, endAddr := 0xFFFF }

/-- A module with such functions. -/
def bare (mod : CdbgInfoModule) : CdbgInfoModule :=
  { mod with functions := mod.functions.map bareFunction }

/-- A change of a module that has nothing to do with the addresses of its functions, nor with its
    lines of C. -/
structure Plain (f : CdbgInfoModule → CdbgInfoModule) : Prop where
  bare : ∀ mod, bare (f mod) = f (bare mod)
  lines : ∀ mod, (f mod).lines = mod.lines

/-- **What the record of a function, a symbol or a type does**, whatever the state: it makes the
    parser fail if there is a module, or it is skipped, or it changes the current module. -/
inductive Edits (parse : CdbParser → Option CdbParser) : Prop
  | fails (h : ∀ s, parse s = if s.data.isEmpty then some s else none)
  | skips (h : ∀ s, parse s = some s)
  | changes (f : CdbgInfoModule → CdbgInfoModule) (hf : Plain f)
      (h : ∀ s, parse s = some (s.modifyCurrent f))

theorem bare_functions (mod : CdbgInfoModule) {fns bareFns : List CdbgInfoFunction}
    (h : fns.map bareFunction = bareFns) :
    bare { mod with functions := fns } = { bare mod with functions := bareFns } := by
  rw [← h]
  rfl

/-- With no module there is nothing to change. -/
theorem some_modifyCurrent (f : CdbgInfoModule → CdbgInfoModule) (s : CdbParser) :
    (if s.data.isEmpty then some s else some (s.modifyCurrent f)) = some (s.modifyCurrent f) := by
  by_cases hempty : s.data.isEmpty = true
  · rw [if_pos hempty, modifyCurrent, List.isEmpty_iff.mp hempty]
    exact congrArg some (congrArg (CdbParser.mk · s.asmLines) (List.isEmpty_iff.mp hempty))
  · rw [if_neg hempty]

theorem parseFunction_edits (content : Str) : Edits (parseFunction content) := by
  unfold parseFunction
  cases content.head? with
  | none => exact .fails fun s => rfl
  | some first =>
    cases find content 36 0 with
    | none => exact .skips fun s => ite_self _
    | some d1 =>
      dsimp only [Option.bind_eq_bind, Option.bind_some]
      cases find content 36 (d1 + 1) with
      | none => exact .skips fun s => ite_self _
      | some d2 =>
        dsimp only
        cases substr content (d1 + 1) (d2 - d1 - 1) with
        | none => exact .fails fun s => rfl
        | some full =>
          dsimp only [Option.bind_some]
          cases behindDot full with
          | none => exact .fails fun s => rfl
          | some name =>
            refine .changes _ ?_ fun s => some_modifyCurrent _ s
            exact ⟨fun mod => bare_functions mod List.map_append, fun mod => rfl⟩

theorem parseType_edits (content : Str) : Edits (parseType content) := by
  unfold parseType
  cases content.head? with
  | none => exact .fails fun s => rfl
  | some first =>
    dsimp only [Option.bind_eq_bind, Option.bind_some]
    cases find content 36 0 with
    | none => exact .skips fun s => ite_self _
    | some d1 =>
      dsimp only
      cases find content 91 0 with
      | none => exact .skips fun s => ite_self _
      | some bracket =>
        dsimp only
        cases substr content (d1 + 1) (sizeSub bracket (d1 + 1)) with
        | none => exact .fails fun s => rfl
        | some fullName =>
          dsimp only [Option.bind_some]
          cases behindDot fullName with
          | none => exact .fails fun s => rfl
          | some name =>
            dsimp only [Option.bind_some]
            cases bracketText content bracket with
            | none => exact .fails fun s => rfl
            | some typeInfo =>
              dsimp only [Option.bind_some]
              refine .changes _ ?_ fun s => some_modifyCurrent _ s
              exact ⟨fun mod => rfl, fun mod => rfl⟩

theorem parseSymbol_edits (content : Str) : Edits (parseSymbol content) := by
  unfold parseSymbol
  cases content.head? with
  | none => exact .fails fun s => rfl
  | some scopeChar =>
    dsimp only [Option.bind_eq_bind, Option.bind_some]
    cases find content 36 0 with
    | none => exact .skips fun s => ite_self _
    | some d1 =>
      dsimp only
      cases substr content 1 (sizeSub d1 1) with
      | none => exact .fails fun s => rfl
      | some scopeText =>
        dsimp only [Option.bind_some]
        cases find content 36 (d1 + 1) with
        | none => exact .skips fun s => ite_self _
        | some d2 =>
          dsimp only
          cases substr content (d1 + 1) (d2 - d1 - 1) with
          | none => exact .fails fun s => rfl
          | some name =>
            dsimp only [Option.bind_some]
            cases applyType content { name := name } with
            | none => exact .fails fun s => rfl
            | some symbol =>
              dsimp only [Option.bind_some]
              unfold storeSymbol
              by_cases hlocal : scopeChar = 76
              · simp only [if_pos hlocal]
                cases find scopeText 46 0 with
                | none => exact .skips fun s => ite_self _
                | some dot =>
                  dsimp only [Option.bind_eq_bind]
                  cases substrFrom scopeText (dot + 1) with
                  | none => exact .fails fun s => rfl
                  | some funcName =>
                    refine .changes _ ?_ fun s => some_modifyCurrent _ s
                    refine ⟨fun mod => bare_functions mod (modifyFirst_map ?_ ?_ _).symm,
                      fun mod => rfl⟩
                    · exact fun fn => rfl
                    · exact fun fn => rfl
              · simp only [if_neg hlocal]
                refine .changes _ ?_ fun s => some_modifyCurrent _ s
                exact ⟨fun mod => rfl, fun mod => rfl⟩

/-- **A view that no line looks at**, but for the markers and the assembly records. -/
structure Blind (v : CdbParser → CdbParser) : Prop where
  isEmpty : ∀ s, (v s).data.isEmpty = s.data.isEmpty
  opened : ∀ s content, parseModule content (v s) = v (parseModule content s)
  current : ∀ s f, Plain f → (v s).modifyCurrent f = v (s.modifyCurrent f)
  line : ∀ s ln name, (v s).storeLine ln name = v (s.storeLine ln name)

section
variable {v : CdbParser → CdbParser}

theorem Edits.view {parse : CdbParser → Option CdbParser} (h : Edits parse) (hview : Blind v)
    (s : CdbParser) : parse (v s) = (parse s).map v := by
  cases h with
  | fails h =>
    rw [h, h, hview.isEmpty]
    split <;> rfl
  | skips h =>
    rw [h, h]
    rfl
  | changes f hf h =>
    rw [h, h, hview.current s f hf]
    rfl

/-- A marker that cannot be read. -/
theorem parseFuncMarker_skipped (isGlobal : Bool) {isEnd : Bool} {content : Str}
    (h : readMarker isGlobal isEnd content = none) (s : CdbParser) :
    parseFuncMarker content isEnd s = some s := by
  rw [parseFuncMarker_eq isGlobal, h]

/-- A line record that is neither a marker nor one of assembly. -/
theorem parseLineInfo_view (hview : Blind v) {line content : Str}
    (hrecord : recordOf line = some (76, content)) (hasm : asmRecord? line = none)
    (hmarker : marker? line = none) (s : CdbParser) :
    parseLineInfo content (v s) = (parseLineInfo content s).map v := by
  unfold asmRecord? at hasm
  unfold marker? at hmarker
  rw [hrecord] at hasm hmarker
  unfold parseLineInfo
  split
  · rfl
  · rw [parseFuncMarker_skipped false hmarker, parseFuncMarker_skipped false hmarker]
    rfl
  · rw [parseFuncMarker_skipped false hmarker, parseFuncMarker_skipped false hmarker]
    rfl
  · rw [parseFuncMarker_skipped true hmarker, parseFuncMarker_skipped true hmarker]
    rfl
  · rw [parseFuncMarker_skipped true hmarker, parseFuncMarker_skipped true hmarker]
    rfl
  · rename_i rest
    have hnone : readAsmRecord (65 :: rest) = none := hasm
    rw [parseAsmLine_eq, parseAsmLine_eq, hnone]
    rfl
  · rename_i rest
    rw [parseCLine_eq, parseCLine_eq]
    cases readCLine (67 :: rest) with
    | none => rfl
    | some x => exact congrArg some (hview.line s x.1 x.2)
  · rfl

/-- **The step lemma** for a view. -/
theorem parseRaw_view (hview : Blind v) {line : Str} (hasm : asmRecord? line = none)
    (hmarker : marker? line = none) (s : CdbParser) :
    parseRaw line (v s) = (parseRaw line s).map v := by
  rw [parseRaw_eq, parseRaw_eq]
  cases hrecord : recordOf line with
  | none => rfl
  | some r =>
    obtain ⟨type, content⟩ := r
    show (if type = 77 then some (parseModule content (v s))
      else if type = 70 then parseFunction content (v s)
      else if type = 83 then parseSymbol content (v s)
      else if type = 84 then parseType content (v s)
      else if type = 76 then parseLineInfo content (v s)
      else some (v s)) = (if type = 77 then some (parseModule content s)
      else if type = 70 then parseFunction content s
      else if type = 83 then parseSymbol content s
      else if type = 84 then parseType content s
      else if type = 76 then parseLineInfo content s
      else some s).map v
    split_ifs with h77 h70 h83 h84 h76
    · exact congrArg some (hview.opened s content)
    · exact (parseFunction_edits content).view hview s
    · exact (parseSymbol_edits content).view hview s
    · exact (parseType_edits content).view hview s
    · rw [h76] at hrecord
      exact parseLineInfo_view hview hrecord hasm hmarker s
    · rfl

end

/-! ### The table -/

section
variable (t : Table Str (Table Int UInt16)) (s : CdbParser)

theorem withAsm_blind : Blind (withAsm t) where
  isEmpty _ := rfl
  opened _ _ := rfl
  current _ _ _ := rfl
  line s ln name := by
    show storeLine ln name { s with asmLines := t } = _
    unfold storeLine
    split <;> rfl

/-- **A line that is no assembly record does not look at the table.** -/
theorem parseRaw_withAsm {line : Str} (h : asmRecord? line = none) :
    parseRaw line (s.withAsm t) = (parseRaw line s).map (withAsm t) := by
  cases hmarker : marker? line with
  | none => exact parseRaw_view (withAsm_blind t) h hmarker s
  | some m =>
    rw [parseRaw_mark hmarker, parseRaw_mark hmarker]
    rfl

/-- An assembly record changes the table and nothing else. -/
theorem parseRaw_asm {line : Str} {r : AsmRecord} (h : asmRecord? line = some r) :
    parseRaw line s = some (s.withAsm (addRecord s.asmLines r)) := by
  unfold asmRecord? at h
  split at h
  · rename_i rest hrecord
    rw [parseRaw_eq, hrecord]
    show parseAsmLine (65 :: rest) s = _
    rw [parseAsmLine_eq, h]
  · cases h

end

/-- The lines that are no assembly records. -/
def others (lines : List Str) : List Str := lines.filter fun line => (asmRecord? line).isNone

/-- **A run in two parts**: over the lines that are no assembly records, and the table of those that
    are. -/
theorem exec_split (lines : List Str) (t : Table Str (Table Int UInt16)) (s : CdbParser) :
    Run.exec parseRaw lines (s.withAsm t) = (Run.exec parseRaw (others lines) s).map
      (withAsm ((lines.filterMap asmRecord?).foldl addRecord t)) := by
  induction lines generalizing t s with
  | nil => rfl
  | cons line lines ih =>
    unfold others
    cases hasm : asmRecord? line with
    | some r =>
      rw [List.filter_cons_of_neg (by rw [hasm]; exact Bool.false_ne_true),
        List.filterMap_cons_some hasm, List.foldl_cons, Run.exec_cons, parseRaw_asm _ hasm,
        Option.bind_some]
      exact ih (addRecord t r) s
    | none =>
      rw [List.filter_cons_of_pos (by rw [hasm]; rfl), List.filterMap_cons_none hasm,
        Run.exec_cons, Run.exec_cons, parseRaw_withAsm t s hasm]
      cases parseRaw line s with
      | none => rfl
      | some u => exact ih t u

/-- A run from the start: its table is that of its records, and its modules those of the others. -/
theorem exec_parts {lines : List Str} {s : CdbParser} (h : Run.exec parseRaw lines {} = some s) :
    s.asmLines = collect (lines.filterMap asmRecord?) ∧
      (Run.exec parseRaw (others lines) {}).map CdbParser.data = some s.data := by
  have hsplit := exec_split lines ∅ {}
  change Run.exec parseRaw lines {} = _ at hsplit
  rw [h] at hsplit
  obtain ⟨u, hu, rfl⟩ := Option.map_eq_some_iff.mp hsplit.symm
  refine ⟨rfl, ?_⟩
  rw [hu]
  rfl

/-! ## The table -/

/-- What the table has for a module and a line. -/
def lookupAsm (t : Table Str (Table Int UInt16)) (m : Str) (n : Int) : Option UInt16 :=
  (t.lookup m).bind fun lineMap => lineMap.lookup n

/-- The address of the first record for line `n` of module `m`. -/
def firstAddress (rs : List AsmRecord) (m : Str) (n : Int) : Option UInt16 :=
  (rs.find? fun r => r.module = m ∧ r.line = n).map AsmRecord.addr

theorem lookupAsm_addRecord (t : Table Str (Table Int UInt16)) (r : AsmRecord) (m : Str) (n : Int) :
    lookupAsm (addRecord t r) m n
      = (lookupAsm t m n).or (if r.module = m ∧ r.line = n then some r.addr else none) := by
  rw [lookupAsm, lookupAsm, addRecord, Table.lookup_assign]
  by_cases hm : m = r.module
  · subst hm
    rw [if_pos rfl, Option.some_or, Option.bind_some, Table.lookup_emplace]
    have hline : (if n = r.line then some r.addr else none)
        = if r.module = r.module ∧ r.line = n then some r.addr else none := by
      by_cases hn : n = r.line
      · rw [if_pos hn, if_pos ⟨rfl, hn.symm⟩]
      · rw [if_neg hn, if_neg fun h => hn h.2.symm]
    rw [hline]
    cases t.lookup r.module with
    | none => rw [Option.getD_none, AList.lookup_empty]; rfl
    | some lineMap => rfl
  · rw [if_neg hm, Option.none_or, if_neg fun h => hm h.1.symm, Option.or_none]

/-- **The first record counts.** -/
theorem lookupAsm_foldl (rs : List AsmRecord) (t : Table Str (Table Int UInt16)) (m : Str)
    (n : Int) :
    lookupAsm (rs.foldl addRecord t) m n = (lookupAsm t m n).or (firstAddress rs m n) := by
  induction rs generalizing t with
  | nil => rw [List.foldl_nil, firstAddress, List.find?_nil, Option.map_none, Option.or_none]
  | cons r rs ih =>
    rw [List.foldl_cons, ih, lookupAsm_addRecord, Option.or_assoc]
    congr 1
    rw [firstAddress, firstAddress, List.find?_cons]
    by_cases hr : r.module = m ∧ r.line = n
    · rw [if_pos hr, Option.some_or, decide_eq_true hr]
      rfl
    · rw [if_neg hr, Option.none_or, decide_eq_false hr]

/-- A module is in the table if there is a record for it. -/
theorem lookup_foldl_isSome (rs : List AsmRecord) (t : Table Str (Table Int UInt16)) (m : Str) :
    ((rs.foldl addRecord t).lookup m).isSome ↔ (t.lookup m).isSome ∨ ∃ r ∈ rs, r.module = m := by
  induction rs generalizing t with
  | nil => simp
  | cons r rs ih =>
    rw [List.foldl_cons, ih, List.exists_mem_cons_iff, ← or_assoc, addRecord, Table.lookup_assign]
    apply or_congr_left
    by_cases hm : m = r.module
    · rw [if_pos hm, Option.some_or]
      exact iff_of_true rfl (Or.inr hm.symm)
    · rw [if_neg hm, Option.none_or, or_iff_left fun h => hm h.symm]

theorem lookupAsm_collect (rs : List AsmRecord) (m : Str) (n : Int) :
    lookupAsm (collect rs) m n = firstAddress rs m n := by
  rw [collect, lookupAsm_foldl, lookupAsm, AList.lookup_empty]
  rfl

theorem lookup_collect_isSome (rs : List AsmRecord) (m : Str) :
    ((collect rs).lookup m).isSome ↔ ∃ r ∈ rs, r.module = m := by
  rw [collect, lookup_foldl_isSome, AList.lookup_empty]
  exact or_iff_right Bool.false_ne_true

/-! ## The merge -/

/-- A module without its assembly lines. -/
def noAsm (mod : CdbgInfoModule) : CdbgInfoModule := { mod with asmLines := ∅ }

/-- The module of a name that no M: record declares; its extension is a guess. -/
def stub (name : Str) : CdbgInfoModule := { name := name, file := name ++ str ".s" }

/-- **What the merge is to do** with the declared modules: every line that `look` knows is in a module
    of its name, and no other; behind the declared modules, which are otherwise as they were, stands
    one stub for each `known` name that none of them has. -/
structure Merged (declared : List CdbgInfoModule) (known : Str → Prop)
    (look : Str → Int → Option UInt16) (modules : List CdbgInfoModule) : Prop where
  found : ∀ m n a, look m n = some a →
    ∃ mod ∈ modules, mod.name = m ∧ mod.asmLines.lookup n = some a
  only : ∀ mod ∈ modules, ∀ n a, mod.asmLines.lookup n = some a → look mod.name n = some a
  parts : ∃ names : List Str, modules.map noAsm = declared ++ names.map stub ∧ names.Nodup ∧
    ∀ m, m ∈ names ↔ (∀ mod ∈ declared, mod.name ≠ m) ∧ known m

/-- The same for some entries of the table. -/
def MergedEntries (declared : List CdbgInfoModule) (done : List (Str × Table Int UInt16)) :
    List CdbgInfoModule → Prop :=
  Merged declared (fun m => m ∈ done.map Prod.fst)
    fun m n => (done.lookup m).bind fun lineMap => lineMap.lookup n

theorem mem_modifyFirst_of_neg {α : Type} {p : α → Bool} {f : α → α} {l : List α} {x : α}
    (hx : x ∈ l) (hp : p x = false) : x ∈ modifyFirst p f l := by
  induction l with
  | nil => cases hx
  | cons y l ih =>
    unfold modifyFirst
    rcases List.mem_cons.mp hx with rfl | hx
    · rw [if_neg (by rw [hp]; exact Bool.false_ne_true)]
      exact List.mem_cons_self
    · split
      · exact List.mem_cons_of_mem _ hx
      · exact List.mem_cons_of_mem _ (ih hx)

theorem exists_mem_modifyFirst {α : Type} {p : α → Bool} (f : α → α) {l : List α}
    (h : l.any p = true) : ∃ x ∈ l, p x = true ∧ f x ∈ modifyFirst p f l := by
  induction l with
  | nil => cases h
  | cons y l ih =>
    unfold modifyFirst
    by_cases hy : p y = true
    · rw [if_pos hy]
      exact ⟨y, List.mem_cons_self, hy, List.mem_cons_self⟩
    · rw [if_neg hy]
      rw [List.any_cons, Bool.not_eq_true _ |>.mp hy, Bool.false_or] at h
      obtain ⟨x, hx, hpx, hmem⟩ := ih h
      exact ⟨x, List.mem_cons_of_mem y hx, hpx, List.mem_cons_of_mem y hmem⟩

/-- A walk in any order adds the lines that the module did not have. -/
theorem lookup_addAsmLines (order : HashOrder) (lineMap : Table Int UInt16) (mod : CdbgInfoModule)
    (n : Int) : (addAsmLines order lineMap mod).asmLines.lookup n
      = (mod.asmLines.lookup n).or (lineMap.lookup n) := by
  have hperm := order.lines_perm lineMap.toList
  have hnodup : ((order.lines lineMap.toList).map Prod.fst).Nodup :=
    ((hperm.map Prod.fst).nodup_iff).mpr lineMap.toList_nodup
  show (mod.asmLines.emplaceAll (order.lines lineMap.toList)).lookup n = _
  rw [Table.lookup_emplaceAll, Table.lookup_perm hperm hnodup, Table.lookup_toList]

section
variable {declared modules : List CdbgInfoModule} {known : Str → Prop}
  {look : Str → Int → Option UInt16} {done : List (Str × Table Int UInt16)}

/-- The names of the modules: those declared, and the stubs. -/
theorem Merged.name_cases (h : Merged declared known look modules) {mod : CdbgInfoModule}
    (hmod : mod ∈ modules) : (∃ d ∈ declared, d.name = mod.name) ∨ known mod.name := by
  obtain ⟨names, hparts, -, hnames⟩ := h.parts
  have hmem : noAsm mod ∈ declared ++ names.map stub := by
    rw [← hparts]
    exact List.mem_map.mpr ⟨mod, hmod, rfl⟩
  rcases List.mem_append.mp hmem with hmem | hmem
  · exact Or.inl ⟨noAsm mod, hmem, rfl⟩
  · obtain ⟨name, hname, heq⟩ := List.mem_map.mp hmem
    obtain rfl : name = mod.name := congrArg CdbgInfoModule.name heq
    exact Or.inr ((hnames mod.name).mp hname).2

/-- A declared module is still there. -/
theorem Merged.declared_mem (h : Merged declared known look modules) {d : CdbgInfoModule}
    (hd : d ∈ declared) : ∃ mod ∈ modules, mod.name = d.name := by
  obtain ⟨names, hparts, -, -⟩ := h.parts
  have hmem : d ∈ modules.map noAsm := by
    rw [hparts]
    exact List.mem_append_left _ hd
  obtain ⟨mod, hmod, rfl⟩ := List.mem_map.mp hmem
  exact ⟨mod, hmod, rfl⟩

/-- **The step of the merge**: the entry of a name that was not there before. -/
theorem mergeModule_merged (order : HashOrder) (h : MergedEntries declared done modules)
    {e : Str × Table Int UInt16} (hnew : e.1 ∉ done.map Prod.fst) :
    MergedEntries declared (done ++ [e]) (mergeModule order modules e) := by
  have hnone : done.lookup e.1 = none := by
    rw [List.lookup_eq_none_iff]
    intro p hp
    apply bne_iff_ne.mpr
    intro heq
    rw [heq] at hnew
    exact hnew (List.mem_map.mpr ⟨p, hp, rfl⟩)
  -- the lines of the new name, and of the others
  have hown : ∀ n, ((done ++ [e]).lookup e.1).bind (fun t => t.lookup n) = e.2.lookup n := by
    intro n
    rw [List.lookup_append, hnone, Option.none_or, List.lookup_cons, beq_self_eq_true]
    rfl
  have hother : ∀ m, m ≠ e.1 → (done ++ [e]).lookup m = done.lookup m := by
    intro m hm
    rw [List.lookup_append, List.lookup_cons, beq_eq_false_iff_ne.mpr hm, List.lookup_nil,
      Option.or_none]
  have hempty : ∀ mod ∈ modules, mod.name = e.1 → ∀ n, mod.asmLines.lookup n = none := by
    intro mod hmod hname n
    cases hlook : mod.asmLines.lookup n with
    | none => rfl
    | some a =>
      have hthere := h.only mod hmod n a hlook
      rw [hname, hnone] at hthere
      cases hthere
  have honly : ∀ mod ∈ modules, ∀ n a, mod.asmLines.lookup n = some a →
      ((done ++ [e]).lookup mod.name).bind (fun t => t.lookup n) = some a := by
    intro mod hmod n a ha
    have hne : mod.name ≠ e.1 := by
      intro hname
      rw [hempty mod hmod hname n] at ha
      cases ha
    rw [hother mod.name hne]
    exact h.only mod hmod n a ha
  have hknown : ∀ m, m ∈ (done ++ [e]).map Prod.fst ↔ m ∈ done.map Prod.fst ∨ m = e.1 := by
    intro m
    rw [List.map_append, List.mem_append, List.map_singleton, List.mem_singleton]
  have hfilled : ∀ mod, (∀ n, mod.asmLines.lookup n = none) → ∀ n,
      (addAsmLines order e.2 mod).asmLines.lookup n = e.2.lookup n := by
    intro mod hmod n
    rw [lookup_addAsmLines, hmod n, Option.none_or]
  obtain ⟨names, hparts, hnodup, hnames⟩ := h.parts
  unfold mergeModule
  by_cases hany : modules.any (fun mod => mod.name == e.1) = true
  · rw [if_pos hany]
    obtain ⟨first, hfirst, hfirstName, hfirstMem⟩ :=
      exists_mem_modifyFirst (addAsmLines order e.2) hany
    have hname : first.name = e.1 := beq_iff_eq.mp hfirstName
    refine ⟨?_, ?_, names, ?_, hnodup, ?_⟩
    · intro m n a ha
      by_cases hm : m = e.1
      · subst hm
        rw [hown n] at ha
        refine ⟨_, hfirstMem, hname, ?_⟩
        rw [hfilled first (hempty first hfirst hname) n, ha]
      · rw [hother m hm] at ha
        obtain ⟨mod, hmod, rfl, hlook⟩ := h.found m n a ha
        exact ⟨mod, mem_modifyFirst_of_neg hmod (beq_eq_false_iff_ne.mpr hm), rfl, hlook⟩
    · refine forall_modifyFirst honly ?_
      intro mod hmod hmodName n a ha
      have hmodName' : mod.name = e.1 := beq_iff_eq.mp hmodName
      rw [hfilled mod (hempty mod hmod hmodName') n] at ha
      show ((done ++ [e]).lookup mod.name).bind _ = _
      rw [hmodName', hown n, ha]
    · rw [← hparts]
      refine map_modifyFirst ?_ modules
      exact fun mod => rfl
    · -- a module of the name was there, and it was a declared one
      have hdeclared : ∃ d ∈ declared, d.name = e.1 := by
        rcases Merged.name_cases h hfirst with ⟨d, hd, hdName⟩ | hthere
        · exact ⟨d, hd, hdName.trans hname⟩
        · exact absurd (hname ▸ hthere) hnew
      intro m
      rw [hnames m, hknown m]
      refine and_congr_right fun hnot => (or_iff_left ?_).symm
      rintro rfl
      obtain ⟨d, hd, hdName⟩ := hdeclared
      exact hnot d hd hdName
  · rw [if_neg hany]
    have habsent : ∀ mod ∈ modules, mod.name ≠ e.1 := by
      intro mod hmod hname
      exact hany (List.any_eq_true.mpr ⟨mod, hmod, beq_iff_eq.mpr hname⟩)
    have hstub : ∀ n, (addAsmLines order e.2 (stub e.1)).asmLines.lookup n = e.2.lookup n :=
      hfilled (stub e.1) fun n => AList.lookup_empty n
    have hnotDeclared : ∀ d ∈ declared, d.name ≠ e.1 := by
      intro d hd hdName
      obtain ⟨mod, hmod, hmodName⟩ := Merged.declared_mem h hd
      exact habsent mod hmod (hmodName.trans hdName)
    refine ⟨?_, ?_, names ++ [e.1], ?_, ?_, ?_⟩
    · intro m n a ha
      by_cases hm : m = e.1
      · subst hm
        rw [hown n] at ha
        refine ⟨_, List.mem_append_right _ (List.mem_singleton.mpr rfl), rfl, ?_⟩
        exact (hstub n).trans ha
      · rw [hother m hm] at ha
        obtain ⟨mod, hmod, rfl, hlook⟩ := h.found m n a ha
        exact ⟨mod, List.mem_append_left _ hmod, rfl, hlook⟩
    · intro mod hmod n a ha
      rcases List.mem_append.mp hmod with hmod | hmod
      · exact honly mod hmod n a ha
      · obtain rfl := List.mem_singleton.mp hmod
        have hline : e.2.lookup n = some a := (hstub n).symm.trans ha
        show ((done ++ [e]).lookup e.1).bind _ = _
        rw [hown n, hline]
    · rw [List.map_append, hparts, List.map_append, List.append_assoc]
      rfl
    · refine List.nodup_append.mpr ⟨hnodup, List.nodup_singleton _, ?_⟩
      rintro name hname _ hlast rfl
      rw [List.mem_singleton.mp hlast] at hname
      exact hnew ((hnames e.1).mp hname).2
    · intro m
      rw [List.mem_append, List.mem_singleton, hnames m, hknown m, and_or_left]
      apply or_congr_right
      constructor
      · rintro rfl
        exact ⟨hnotDeclared, rfl⟩
      · exact fun hm => hm.2

/-- **The walk over the entries**, whatever their order. -/
theorem foldl_merged (order : HashOrder) (es : List (Str × Table Int UInt16))
    (h : MergedEntries declared done modules)
    (hnodup : ((done ++ es).map Prod.fst).Nodup) :
    MergedEntries declared (done ++ es) (es.foldl (mergeModule order) modules) := by
  induction es generalizing done modules with
  | nil => rwa [List.append_nil]
  | cons e es ih =>
    have hnew : e.1 ∉ done.map Prod.fst := by
      intro hmem
      rw [List.map_append, List.map_cons] at hnodup
      exact (List.nodup_append.mp hnodup).2.2 e.1 hmem e.1 List.mem_cons_self rfl
    rw [List.append_cons] at hnodup ⊢
    exact ih (mergeModule_merged order h hnew) hnodup

end

/-- **What `merge_asm_lines` does** with the table of some records, for every order of the tables. -/
theorem merge_merged (order : HashOrder) (rs : List AsmRecord) {s : CdbParser} (hs : s.AllFresh)
    (hasm : s.asmLines = collect rs) :
    Merged s.data (fun m => ∃ r ∈ rs, r.module = m) (firstAddress rs) (mergeAsmLines order s) := by
  have hperm := order.modules_perm s.asmLines.toList
  have hnodup : ((order.modules s.asmLines.toList).map Prod.fst).Nodup :=
    ((hperm.map Prod.fst).nodup_iff).mpr s.asmLines.toList_nodup
  have hstart : MergedEntries s.data [] s.data := by
    refine ⟨?_, ?_, [], ?_, List.nodup_nil, ?_⟩
    · intro m n a ha
      cases ha
    · intro mod hmod n a ha
      rw [(hs mod hmod).2, AList.lookup_empty] at ha
      cases ha
    · rw [List.map_nil, List.append_nil]
      refine (List.map_congr_left ?_).trans (List.map_id _)
      intro mod hmod
      show { mod with asmLines := ∅ } = mod
      rw [← (hs mod hmod).2]
    · intro m
      exact iff_of_false List.not_mem_nil fun h => List.not_mem_nil h.2
  have hall := foldl_merged order (order.modules s.asmLines.toList) hstart (by rwa [List.nil_append])
  rw [List.nil_append] at hall
  have hlookup : ∀ m, (order.modules s.asmLines.toList).lookup m = s.asmLines.lookup m := by
    intro m
    rw [Table.lookup_perm hperm hnodup, Table.lookup_toList]
  have hlook : (fun m n => ((order.modules s.asmLines.toList).lookup m).bind
      fun lineMap : Table Int UInt16 => lineMap.lookup n) = firstAddress rs := by
    funext m n
    rw [hlookup m, hasm]
    exact lookupAsm_collect rs m n
  have hknown : (fun m => m ∈ (order.modules s.asmLines.toList).map Prod.fst)
      = fun m => ∃ r ∈ rs, r.module = m := by
    funext m
    apply propext
    rw [← lookup_collect_isSome, ← hasm, ← hlookup m, Option.isSome_iff_exists, List.mem_map]
    constructor
    · rintro ⟨⟨k, v⟩, he, rfl⟩
      exact ⟨v, (Table.lookup_iff_mem hnodup).mpr he⟩
    · rintro ⟨v, hv⟩
      exact ⟨(m, v), (Table.lookup_iff_mem hnodup).mp hv, rfl⟩
  rw [MergedEntries, hlook, hknown] at hall
  exact hall

/-! ## The result -/

/-- The assembly records of a text. -/
def asmRecordsOf (content : Str) : List AsmRecord := (getLines content).filterMap asmRecord?

/-- The text without them. -/
def withoutAsm (content : Str) : Str := unlines (others (getLines content))

theorem getLines_withoutAsm (content : Str) :
    getLines (withoutAsm content) = others (getLines content) := by
  apply getLines_unlines
  intro line hline
  exact newline_not_mem_getLines (List.mem_of_mem_filter hline)

/-- A run over lines that are no assembly records leaves the table empty. -/
theorem exec_others_asmLines {lines : List Str} {u : CdbParser}
    (h : Run.exec parseRaw (others lines) {} = some u) : u.asmLines = ∅ := by
  have hothers : others (others lines) = others lines := by
    unfold others
    rw [List.filter_filter]
    simp only [Bool.and_self]
  have hnone : (others lines).filterMap asmRecord? = [] := by
    rw [List.filterMap_eq_nil_iff]
    intro line hline
    exact Option.isNone_iff_eq_none.mp (List.mem_filter.mp hline).2
  have hsplit := exec_split (others lines) ∅ {}
  rw [hothers, hnone, List.foldl_nil, h, Option.map_some] at hsplit
  exact congrArg CdbParser.asmLines (Option.some.inj (h.symm.trans hsplit))

/-- Without assembly lines there is nothing to merge. -/
theorem mergeAsmLines_empty (order : HashOrder) {s : CdbParser} (h : s.asmLines = ∅) :
    mergeAsmLines order s = s.data := by
  have hnil : order.modules s.asmLines.toList = [] := by
    apply List.Perm.eq_nil
    rw [h]
    exact order.modules_perm _
  rw [mergeAsmLines, hnil, List.foldl_nil]

/-- **The assembly lines of a text**, in any order of its records and of the hash tables: the modules
    are those of the text without its assembly records, which are the declared ones in their order,
    and behind them one stub for each other name that has a record; a module's assembly lines are the
    first records for its name.  This is so if and only if the parser returns (`parse_ends_iff`). -/
theorem asm_merged_iff (order : HashOrder) (content : Str) :
    (∃ declared modules, parseText order (withoutAsm content) = some declared ∧
      parseText order content = some modules ∧
      declared.map CdbgInfoModule.name = (getLines content).filterMap moduleName? ∧
      Merged declared (fun m => ∃ r ∈ asmRecordsOf content, r.module = m)
        (firstAddress (asmRecordsOf content)) modules) ↔
      ∀ pre line post, getLines content = pre ++ line :: post → EmptyRecord line →
        ∀ earlier ∈ pre, ¬ ModuleRecord earlier := by
  rw [← parse_ends_iff order]
  constructor
  · rintro ⟨declared, modules, -, hmodules, -⟩
    exact ⟨modules, hmodules⟩
  · rintro ⟨modules, hmodules⟩
    obtain ⟨s, hs, rfl⟩ := Option.map_eq_some_iff.mp hmodules
    obtain ⟨htable, hothers⟩ := exec_parts hs
    obtain ⟨u, hu, hdata⟩ := Option.map_eq_some_iff.mp hothers
    have hfresh : s.AllFresh :=
      Run.exec_inv parseRaw_fresh _ _ _ (fun mod hmod => absurd hmod List.not_mem_nil) hs
    refine ⟨s.data, _, ?_, hmodules, exec_names hs, ?_⟩
    · rw [parseText, getLines_withoutAsm, hu, Option.map_some,
        mergeAsmLines_empty order (exec_others_asmLines hu), hdata]
    · exact merge_merged order (asmRecordsOf content) hfresh htable

/-- Two modules, one of them declared behind its lines, and the first of two records. -/
example : (parseText ⟨id, id, List.Perm.refl, List.Perm.refl⟩
    (str "L:A$main$3:200\nL:A$crt0$8:104\nM:main\nL:A$main$3:300")).map (List.map fun mod =>
      (mod.name, mod.asmLines.toList)) = some [(str "main", [(3, 0x200)]), (str "crt0", [(8, 0x104)])] := by
  decide +kernel

/-- A module, a function record without a content, and an assembly record: the parser does not
    return. -/
theorem asm_lost_behind_empty_record :
    asmRecordsOf (str "M:a\nF:\nL:A$a$1:100") = [⟨str "a", 1, 0x100⟩] ∧
      parseText ⟨id, id, List.Perm.refl, List.Perm.refl⟩ (str "M:a\nF:\nL:A$a$1:100") = none := by
  constructor
  · decide +kernel
  · have hrun : Run.exec parseRaw (getLines (str "M:a\nF:\nL:A$a$1:100")) {} = none := by
      decide +kernel
    rw [parseText, hrun, Option.map_none]

end Udap.Sdcc.CdbParser
