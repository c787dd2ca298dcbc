/-
  THE CDB PARSER — from the text of a `.cdb` file to the modules that the debugger holds.

  1. **State** — the modules read so far, of which the current one is always the last, and the
     assembly lines, which are merged into the modules at the end.

  2. **Records** — one definition for each `parse_…` method.  A method is partial: `none` stands for
     an element access or a `substr` outside the text.

  3. **Parsing** — a text is a run of `parseLine` over its lines, and then `mergeAsmLines`.  The
     merge walks over hash tables, whose order is not specified: `HashOrder` stands for any order.

  4. **What one line does** — a line is a record (`recordOf`), and `Change` says for every kind of
     record what it does to the modules.

  5. **What parsing keeps** — an assembly module is named like its file, without the extension
     (`FileNamed`), and of all modules of one name only the first has assembly lines
     (`FirstNamed`): `parse_inv`.
-/
import Udap.Lib.Run
import Udap.Cxx.Path
import Udap.Sdcc.Cdb
import Udap.Sdcc.Util

set_option linter.unusedVariables false

namespace Udap.Sdcc

open Udap Udap.Cxx

/-! ## The state of the parser -/

/-- `sdcc::cdb_parser` while it parses; `data` holds the current module at its end. -/
structure CdbParser where
  data : List CdbgInfoModule := []
  asmLines : Table Str (Table Int UInt16) := ∅

namespace CdbParser

/-- Change the last element of a list. -/
def modifyLast {α : Type} (f : α → α) : List α → List α
  | [] => []
  | [x] => [f x]
  | x :: y :: xs => x :: modifyLast f (y :: xs)

/-- Change the first element that satisfies `p`, if there is one. -/
def modifyFirst {α : Type} (p : α → Bool) (f : α → α) : List α → List α
  | [] => []
  | x :: xs => if p x then f x :: xs else x :: modifyFirst p f xs

/-- Change `*current_module_ptr_`. -/
def modifyCurrent (f : CdbgInfoModule → CdbgInfoModule) (s : CdbParser) : CdbParser :=
  { s with data := modifyLast f s.data }

/-- Text behind its first dot, if it has one. -/
def behindDot (name : Str) : Option Str :=
  match find name 46 0 with
  | some dot => substrFrom name (dot + 1)
  | none => some name

/-! ## Modules, functions and types -/

/-- `parse_module`. -/
def parseModule (content : Str) (s : CdbParser) : CdbParser :=
  { s with data := s.data ++ [{ name := content, file := content ++ str ".c" }] }

/-- `parse_function`. -/
def parseFunction (content : Str) (s : CdbParser) : Option CdbParser :=
  if s.data.isEmpty then some s
  else do
    -- `content[0]`
    let first ← content.head?
    let scope := if first = 71 then str "global" else str "local"
    match find content 36 0 with
    | none => some s
    | some d1 =>
      match find content 36 (d1 + 1) with
      | none => some s
      | some d2 => do
        let name ← substr content (d1 + 1) (d2 - d1 - 1)
        let name ← behindDot name
        some (s.modifyCurrent fun mod =>
          { mod with functions := mod.functions ++ [{ name := name, scope := scope }] })

/-- The text from a bracket to the last closing one. -/
def bracketText (content : Str) (bracket : Nat) : Option Str :=
  match rfind content 93 with
  | some endBracket => substr content bracket (sizeSub (endBracket + 1) bracket)
  | none => some []

/-- `parse_type`. -/
def parseType (content : Str) (s : CdbParser) : Option CdbParser :=
  if s.data.isEmpty then some s
  else do
    let first ← content.head?
    let scope := if first = 71 then str "global" else str "local"
    match find content 36 0 with
    | none => some s
    | some d1 =>
      match find content 91 0 with
      | none => some s
      | some bracket => do
        let fullName ← substr content (d1 + 1) (sizeSub bracket (d1 + 1))
        let name ← behindDot fullName
        let typeInfo ← bracketText content bracket
        some (s.modifyCurrent fun mod =>
          { mod with types := mod.types ++ [{ name := name, scope := scope, typeInfo := typeInfo }] })

/-! ## Symbols -/

/-- The size in the `{N}` in front of a type text; 1 where there is none or it cannot be read. -/
def sizeOf (typeInfo : Str) : Option Int :=
  if typeInfo.head? = some 123 then
    match find typeInfo 125 0 with
    | some close => do
      let digits ← substr typeInfo 1 (sizeSub close 1)
      -- a number that cannot be read stands for one byte
      some ((stoi digits).getD 1)
    | none => some 1
  else some 1

/-- The storage class of its letter. -/
def storageOf (sc : UInt8) (unchanged : StorageClass) : StorageClass :=
  -- B, R, I, E and A; other letters leave it
  if sc = 66 then .stack
  else if sc = 82 then .reg
  else if sc = 73 then .internal
  else if sc = 69 then .ext
  else if sc = 65 then .globalAuto
  else unchanged

/-- The text between the first `[` and the `]` behind it. -/
def regListOf (suffix : Str) : Option Str :=
  match find suffix 91 0 with
  | none => some []
  | some bracket =>
    match find suffix 93 bracket with
    | none => some []
    | some close => substr suffix (bracket + 1) (close - bracket - 1)

/-- The storage information behind the type of a symbol. -/
def applySuffix (suffix : Str) (symbol : CdbgInfoSymbol) : Option CdbgInfoSymbol := do
  let regList ← regListOf suffix
  -- `,storage,onStack,offset`, so that the first part is empty
  let parts := split suffix 44
  let storage :=
    match parts[1]?.bind List.head? with
    | some sc => storageOf sc symbol.storage
    | none => symbol.storage
  let offset :=
    match parts[3]? with
    | some text => if text.isEmpty then symbol.offset else (stoi text).getD symbol.offset
    | none => symbol.offset
  some { symbol with regList := regList, storage := storage, offset := offset }

/-- The type in parentheses and what follows it. -/
def applyType (content : Str) (symbol : CdbgInfoSymbol) : Option CdbgInfoSymbol :=
  match find content 40 0 with
  | none => some symbol
  | some p1 =>
    match find content 41 p1 with
    | none => some symbol
    | some p2 => do
      let typeInfo ← substr content (p1 + 1) (p2 - p1 - 1)
      let size ← sizeOf typeInfo
      let symbol := { symbol with typeInfo := typeInfo, size := max 1 (min size 4) }
      if p2 + 1 < content.length then do
        let suffix ← substrFrom content (p2 + 1)
        applySuffix suffix symbol
      else some symbol

/-- A symbol goes to the function it is local to, or to the module's globals. -/
def storeSymbol (scopeChar : UInt8) (scopeText : Str) (symbol : CdbgInfoSymbol) (s : CdbParser) :
    Option CdbParser :=
  -- L: the scope ends in a dot and the name of the function
  if scopeChar = 76 then
    match find scopeText 46 0 with
    | none => some s
    | some dot => do
      let funcName ← substrFrom scopeText (dot + 1)
      some (s.modifyCurrent fun mod =>
        let addLocal (func : CdbgInfoFunction) : CdbgInfoFunction :=
          { func with localSymbols := func.localSymbols ++ [{ symbol with scope := str "local" }] }
        { mod with
          functions := modifyFirst (fun func => func.name == funcName) addLocal mod.functions })
  else
    -- G, F, or else a field of a structure
    let scope := if scopeChar = 71 then str "global"
      else if scopeChar = 70 then str "local" else str "struct"
    some (s.modifyCurrent fun mod =>
      { mod with globalSymbols := mod.globalSymbols ++ [{ symbol with scope := scope }] })

/-- `parse_symbol`. -/
def parseSymbol (content : Str) (s : CdbParser) : Option CdbParser :=
  if s.data.isEmpty then some s
  else do
    let scopeChar ← content.head?
    match find content 36 0 with
    | none => some s
    | some d1 => do
      let scopeText ← substr content 1 (sizeSub d1 1)
      match find content 36 (d1 + 1) with
      | none => some s
      | some d2 => do
        let name ← substr content (d1 + 1) (d2 - d1 - 1)
        let symbol ← applyType content { name := name }
        storeSymbol scopeChar scopeText symbol s

/-! ## Lines and function markers -/

/-- Set the start or the end of a function. -/
def markFunction (isEnd : Bool) (addr : UInt16) (fn : CdbgInfoFunction) : CdbgInfoFunction :=
  if isEnd then { fn with endAddr := addr } else { fn with startAddr := addr }

/-- The address behind a colon: hexadecimal, cut to 16 bits. -/
def addressBehind (content : Str) (colon : Nat) : Option (Option UInt16) := do
  let text ← substrFrom content (colon + 1)
  some ((stoul text 16).map UInt16.ofNat)

/-- `parse_func_marker`: of the modules meant, the first that has the function. -/
def parseFuncMarker (content : Str) (isEnd : Bool) (s : CdbParser) : Option CdbParser :=
  match rfind content 58 with
  | none => some s
  | some colon => do
    match ← addressBehind content colon with
    | none => some s
    | some addr =>
      match find content 36 0 with
      | none => some s
      | some d1 =>
        match find content 36 (d1 + 1) with
        | none => some s
        | some d2 => do
          let modName ← substr content 0 d1
          let fnName ← substr content (d1 + 1) (d2 - d1 - 1)
          let hasFunction (fn : CdbgInfoFunction) : Bool := fn.name == fnName
          -- a global marker has no module, and then any module is meant
          let meant (mod : CdbgInfoModule) : Bool :=
            (modName.isEmpty || mod.name == modName) && mod.functions.any hasFunction
          let mark (mod : CdbgInfoModule) : CdbgInfoModule :=
            { mod with
              functions := modifyFirst hasFunction (markFunction isEnd addr) mod.functions }
          some { s with data := modifyFirst meant mark s.data }

/-- An assembly line `A$module$line:address`. -/
def parseAsmLine (content : Str) (s : CdbParser) : Option CdbParser :=
  match find content 36 0 with
  | none => some s
  | some d1 =>
    match find content 36 (d1 + 1) with
    | none => some s
    | some d2 =>
      match rfind content 58 with
      | none => some s
      | some colon =>
        if colon ≤ d2 then some s
        else do
          let modName ← substr content (d1 + 1) (d2 - d1 - 1)
          let number ← substr content (d2 + 1) (colon - d2 - 1)
          match stoi number with
          | none => some s
          | some lineNum =>
            match ← addressBehind content colon with
            | none => some s
            | some addr =>
              -- the first address of a line stays
              let lineMap := (s.asmLines.lookup modName).getD ∅
              some { s with asmLines := s.asmLines.assign modName (lineMap.emplace lineNum addr) }

/-- A C line goes to its module, and the module's file becomes that of the line if it was only
    guessed so far. -/
def addLine (ln : CdbgInfoLine) (mod : CdbgInfoModule) : CdbgInfoModule :=
  -- `parse_module` has only guessed the extension
  { mod with file := if mod.file = mod.name ++ str ".c" then ln.file else mod.file,
             lines := mod.lines ++ [ln] }

/-- The module of a C line: the current one if it has the name, else the first that has. -/
def storeLine (ln : CdbgInfoLine) (modName : Str) (s : CdbParser) : CdbParser :=
  if s.data.getLast?.map CdbgInfoModule.name = some modName then s.modifyCurrent (addLine ln)
  -- if no module has the name, the line is dropped
  else { s with data := modifyFirst (fun mod => mod.name == modName) (addLine ln) s.data }

/-- The address in the last part of a C line; 0 where it has none that can be read. -/
def lineAddress (last : Str) : Option UInt16 :=
  match find last 58 0 with
  | none => some 0
  | some colon => (addressBehind last colon).map fun address => address.getD 0

/-- The name of the module of a C file: the file without its extension. -/
def moduleNameOf (file : Str) : Option Str :=
  match rfind file 46 with
  | none => some []
  -- directories stay in front of the name
  | some dot => substr file 0 dot

/-- A C line `C$file$line$level_block:address`. -/
def parseCLine (content : Str) (s : CdbParser) : Option CdbParser :=
  match split content 36 with
  | c :: file :: number :: level :: rest => do
    -- backslashes become slashes
    let file := file.map fun b => if b = 92 then 47 else b
    match stoi number with
    | none => some s
    | some line => do
      let address ← lineAddress ((level :: rest).getLast (List.cons_ne_nil level rest))
      let modName ← moduleNameOf file
      some (s.storeLine { file := file, line := line, address := address, scope := str "local" }
        modName)
  | _ => some s

/-- `parse_line_info`. -/
def parseLineInfo (content : Str) (s : CdbParser) : Option CdbParser :=
  match content with
  | [] => some s
  -- `F…` and `XF…` of a static function, `G…` and `XG…` of a global one
  | 70 :: rest => parseFuncMarker rest false s
  | 88 :: 70 :: rest => parseFuncMarker rest true s
  | 71 :: rest => parseFuncMarker rest false s
  | 88 :: 71 :: rest => parseFuncMarker rest true s
  -- `A…` and `C…`
  | 65 :: _ => parseAsmLine content s
  | 67 :: _ => parseCLine content s
  | _ => some s

/-! ## Parsing -/

/-- `parse_line` on a trimmed line. -/
def parseLine (line : Str) (s : CdbParser) : Option CdbParser :=
  match line with
  | type :: 58 :: content =>
    -- M, F, S, T and L
    if type = 77 then some (parseModule content s)
    else if type = 70 then parseFunction content s
    else if type = 83 then parseSymbol content s
    else if type = 84 then parseType content s
    else if type = 76 then parseLineInfo content s
    else some s
  | _ => some s

/-- One round of the loop in `parse`: a line that is not blank. -/
def parseRaw (line : Str) (s : CdbParser) : Option CdbParser :=
  if (trim line).isEmpty then some s else parseLine (trim line) s

/-- The orders in which the hash tables of the parser are walked over. -/
structure HashOrder where
  modules : List (Str × Table Int UInt16) → List (Str × Table Int UInt16)
  lines : List (Int × UInt16) → List (Int × UInt16)
  modules_perm : ∀ l, (modules l).Perm l
  lines_perm : ∀ l, (lines l).Perm l

/-- Add assembly lines to a module. -/
def addAsmLines (order : HashOrder) (lineMap : Table Int UInt16) (mod : CdbgInfoModule) :
    CdbgInfoModule :=
  { mod with asmLines := mod.asmLines.emplaceAll (order.lines lineMap.toList) }

/-- The assembly lines of one name go to the first module of that name, or to a new one. -/
def mergeModule (order : HashOrder) (data : List CdbgInfoModule) (e : Str × Table Int UInt16) :
    List CdbgInfoModule :=
  if data.any (fun mod => mod.name == e.1) then
    modifyFirst (fun mod => mod.name == e.1) (addAsmLines order e.2) data
  else data ++ [addAsmLines order e.2 { name := e.1, file := e.1 ++ str ".s" }]

/-- `merge_asm_lines`. -/
def mergeAsmLines (order : HashOrder) (s : CdbParser) : List CdbgInfoModule :=
  (order.modules s.asmLines.toList).foldl (mergeModule order) s.data

/-- The modules of a text. -/
def parseText (order : HashOrder) (content : Str) : Option (List CdbgInfoModule) :=
  (Run.exec parseRaw (getLines content) {}).map (mergeAsmLines order)

/-! ## What the changes of a list do -/

theorem forall_modifyLast {α : Type} {P : α → Prop} {f : α → α} {l : List α}
    (h : ∀ x ∈ l, P x) (hf : ∀ x, l.getLast? = some x → P (f x)) : ∀ x ∈ modifyLast f l, P x := by
  induction l with
  | nil => exact h
  | cons x l ih =>
    cases l with
    | nil =>
      intro y hy
      rw [List.mem_singleton.mp hy]
      exact hf x rfl
    | cons y l =>
      refine List.forall_mem_cons.mpr ⟨h x List.mem_cons_self, ih ?_ ?_⟩
      · exact fun z hz => h z (List.mem_cons_of_mem x hz)
      · exact fun z hz => hf z (by rw [List.getLast?_cons_cons, hz])

theorem forall_modifyFirst {α : Type} {P : α → Prop} {p : α → Bool} {f : α → α} {l : List α}
    (h : ∀ x ∈ l, P x) (hf : ∀ x ∈ l, p x = true → P (f x)) : ∀ x ∈ modifyFirst p f l, P x := by
  induction l with
  | nil => exact h
  | cons x l ih =>
    unfold modifyFirst
    obtain ⟨hx, hl⟩ := List.forall_mem_cons.mp h
    split
    · rename_i hp
      exact List.forall_mem_cons.mpr ⟨hf x List.mem_cons_self hp, hl⟩
    · exact List.forall_mem_cons.mpr ⟨hx, ih hl fun y hy => hf y (List.mem_cons_of_mem x hy)⟩

theorem modifyLast_isEmpty {α : Type} (f : α → α) (l : List α) :
    (modifyLast f l).isEmpty = l.isEmpty := by
  cases l with
  | nil => rfl
  | cons x l => cases l <;> rfl

theorem modifyFirst_isEmpty {α : Type} (p : α → Bool) (f : α → α) (l : List α) :
    (modifyFirst p f l).isEmpty = l.isEmpty := by
  cases l with
  | nil => rfl
  | cons x l =>
    unfold modifyFirst
    split <;> rfl

theorem modifyLast_concat {α : Type} (f : α → α) (l : List α) (x : α) :
    modifyLast f (l ++ [x]) = l ++ [f x] := by
  induction l with
  | nil => rfl
  | cons y l ih =>
    cases l with
    | nil => rfl
    | cons z l => exact congrArg (y :: ·) ih

/-- A list stays the same but for what is not looked at. -/
theorem map_modifyLast {α β : Type} {g : α → β} {f : α → α} (hf : ∀ x, g (f x) = g x)
    (l : List α) : (modifyLast f l).map g = l.map g := by
  induction l with
  | nil => rfl
  | cons x l ih =>
    cases l with
    | nil => exact congrArg (fun y => [y]) (hf x)
    | cons y l => exact congrArg (g x :: ·) ih

theorem map_modifyFirst {α β : Type} {g : α → β} {p : α → Bool} {f : α → α}
    (hf : ∀ x, g (f x) = g x) (l : List α) : (modifyFirst p f l).map g = l.map g := by
  induction l with
  | nil => rfl
  | cons x l ih =>
    unfold modifyFirst
    split
    · rw [List.map_cons, List.map_cons, hf]
    · rw [List.map_cons, List.map_cons, ih]

theorem modifyFirst_map {α β : Type} {p : α → Bool} {q : β → Bool} {f : α → α} {g : β → β}
    {e : α → β} (hp : ∀ x, q (e x) = p x) (hf : ∀ x, e (f x) = g (e x)) (l : List α) :
    modifyFirst q g (l.map e) = (modifyFirst p f l).map e := by
  induction l with
  | nil => rfl
  | cons x l ih =>
    rw [List.map_cons, modifyFirst, modifyFirst, hp]
    by_cases hx : p x = true
    · rw [if_pos hx, if_pos hx, List.map_cons, hf]
    · rw [if_neg hx, if_neg hx, List.map_cons, ih]

theorem getElem?_modifyLast {α : Type} (f : α → α) (l : List α) (i : Nat) :
    (modifyLast f l)[i]? = if i + 1 = l.length then l[i]?.map f else l[i]? := by
  induction l generalizing i with
  | nil =>
    rw [modifyLast, List.getElem?_nil]
    split <;> rfl
  | cons x l ih =>
    cases l with
    | nil =>
      cases i with
      | zero => rfl
      | succ i => rfl
    | cons y l =>
      cases i with
      | zero =>
        rw [if_neg (by simp)]
        rfl
      | succ i =>
        show (modifyLast f (y :: l))[i]? = _
        rw [ih i, List.getElem?_cons_succ, List.length_cons, List.length_cons, List.length_cons]
        simp only [Nat.add_right_cancel_iff]

/-- What `modifyFirst` changes is where the search ends. -/
theorem getElem?_modifyFirst {α : Type} (p : α → Bool) (f : α → α) (l : List α) (i : Nat) :
    (modifyFirst p f l)[i]? = if l.findIdx? p = some i then l[i]?.map f else l[i]? := by
  induction l generalizing i with
  | nil =>
    rw [modifyFirst, List.getElem?_nil]
    split <;> rfl
  | cons x l ih =>
    rw [modifyFirst, List.findIdx?_cons]
    by_cases hp : p x = true
    · rw [if_pos hp, if_pos hp]
      cases i with
      | zero => rfl
      | succ i => rfl
    · rw [if_neg hp, if_neg hp]
      cases i with
      | zero =>
        rw [if_neg]
        · rfl
        · cases l.findIdx? p <;> simp
      | succ i =>
        rw [List.getElem?_cons_succ, List.getElem?_cons_succ, ih i]
        cases l.findIdx? p <;> simp

theorem modifyFirst_append {α : Type} (p : α → Bool) (f : α → α) (a b : List α) :
    modifyFirst p f (a ++ b) =
      if a.any p then modifyFirst p f a ++ b else a ++ modifyFirst p f b := by
  induction a with
  | nil => rfl
  | cons x a ih =>
    rw [List.cons_append, modifyFirst, modifyFirst, List.any_cons]
    by_cases hx : p x = true
    · rw [if_pos hx, if_pos hx, hx]
      rfl
    · rw [if_neg hx, if_neg hx, ih, Bool.not_eq_true _ |>.mp hx, Bool.false_or]
      split <;> rfl

theorem modifyFirst_of_forall {α : Type} {p : α → Bool} (f : α → α) {l : List α}
    (h : ∀ x ∈ l, ¬ p x = true) : modifyFirst p f l = l := by
  induction l with
  | nil => rfl
  | cons x l ih =>
    obtain ⟨hx, hl⟩ := List.forall_mem_cons.mp h
    rw [modifyFirst, if_neg hx, ih hl]

/-! ## What one line does -/

/-- The record on a line: its letter, and what stands behind the colon. -/
def recordOf (line : Str) : Option (UInt8 × Str) :=
  match trim line with
  | type :: 58 :: content => some (type, content)
  | _ => none

/-- The module that a line declares. -/
def moduleName? (line : Str) : Option Str :=
  match recordOf line with
  | some (77, name) => some name
  | _ => none

/-- Is the line a record of a function? -/
def FunctionRecord (line : Str) : Prop := (recordOf line).map Prod.fst = some 70

/-- Is it a line record, of whatever kind? -/
def LineRecord (line : Str) : Prop := (recordOf line).map Prod.fst = some 76

instance (line : Str) : Decidable (FunctionRecord line) :=
  inferInstanceAs (Decidable ((recordOf line).map Prod.fst = some 70))

instance (line : Str) : Decidable (LineRecord line) :=
  inferInstanceAs (Decidable ((recordOf line).map Prod.fst = some 76))

/-- A start or end marker of a function, as `parse_func_marker` reads it.  In front of the name of
    the function stands that of its module, if the function is static. -/
structure Marker where
  isGlobal : Bool
  isEnd : Bool
  module : Str
  name : Str
  addr : UInt16
  deriving DecidableEq

/-- Read a marker behind its letters. -/
def readMarker (isGlobal isEnd : Bool) (content : Str) : Option Marker := do
  let colon ← rfind content 58
  let addr ← stoul (content.drop (colon + 1)) 16
  let d1 ← find content 36 0
  let d2 ← find content 36 (d1 + 1)
  some { isGlobal := isGlobal, isEnd := isEnd, module := content.take d1,
         name := (content.drop (d1 + 1)).take (d2 - d1 - 1), addr := UInt16.ofNat addr }

/-- The marker on a line. -/
def marker? (line : Str) : Option Marker :=
  match recordOf line with
  | some (76, 70 :: rest) => readMarker false false rest
  | some (76, 88 :: 70 :: rest) => readMarker false true rest
  | some (76, 71 :: rest) => readMarker true false rest
  | some (76, 88 :: 71 :: rest) => readMarker true true rest
  | _ => none

example : marker? (str "L:XFsieve$run_sieve$0$0:BE")
    = some ⟨false, true, str "sieve", str "run_sieve", 0xBE⟩ := by decide +kernel

/-- Does the search for a function of this name accept the module? -/
def Marker.accepts (m : Marker) (mod : CdbgInfoModule) : Bool :=
  (m.module.isEmpty || mod.name == m.module) && mod.functions.any fun fn => fn.name == m.name

/-- Set the address in the module that was found. -/
def Marker.mark (m : Marker) (mod : CdbgInfoModule) : CdbgInfoModule :=
  { mod with functions :=
      modifyFirst (fun fn => fn.name == m.name) (markFunction m.isEnd m.addr) mod.functions }

/-- What the debugger knows of a function, but for its variables. -/
def signature (fn : CdbgInfoFunction) : Str × Str × UInt16 × UInt16 :=
  (fn.name, fn.scope, fn.startAddr, fn.endAddr)

/-- A module with more symbols or types. -/
structure Described (mod mod' : CdbgInfoModule) : Prop where
  name : mod'.name = mod.name
  file : mod'.file = mod.file
  functions : mod'.functions.map signature = mod.functions.map signature
  lines : mod'.lines = mod.lines
  asmLines : mod'.asmLines = mod.asmLines

/-- **What a line does** to the modules `a`, which become `b`. -/
inductive Change (line : Str) (a b : List CdbgInfoModule) : Prop
  | opened (name : Str) (hname : moduleName? line = some name)
      (h : b = a ++ [{ name := name, file := name ++ str ".c" }])
  | declared (fn : CdbgInfoFunction) (hrecord : FunctionRecord line)
      (hfn : fn.startAddr = 0xFFFF ∧ fn.endAddr = 0xFFFF)
      (h : b = modifyLast (fun mod => { mod with functions := mod.functions ++ [fn] }) a)
  | described (f : CdbgInfoModule → CdbgInfoModule) (hf : ∀ mod, Described mod (f mod))
      (h : b = modifyLast f a)
  | line (s : CdbParser) (ln : CdbgInfoLine) (name : Str)
      (hname : moduleNameOf ln.file = some name) (hs : s.data = a)
      (h : b = (s.storeLine ln name).data)
  | marked (m : Marker) (hmarker : marker? line = some m) (h : b = modifyFirst m.accepts m.mark a)
  | same (h : b = a)

theorem recordOf_eq_some {line content : Str} {type : UInt8} :
    recordOf line = some (type, content) ↔ trim line = type :: 58 :: content := by
  unfold recordOf
  constructor
  · intro h
    split at h
    · rename_i heq
      obtain ⟨rfl, rfl⟩ := Prod.mk.inj (Option.some.inj h)
      exact heq
    · cases h
  · intro h
    rw [h]
    rfl

/-- The loop of `parse` looks at records only. -/
theorem parseRaw_eq (line : Str) (s : CdbParser) :
    parseRaw line s = (recordOf line).elim (some s) fun r => parseLine (r.1 :: 58 :: r.2) s := by
  cases hrecord : recordOf line with
  | some r =>
    have hline : trim line = r.1 :: 58 :: r.2 := recordOf_eq_some.mp hrecord
    rw [parseRaw, hline]
    rfl
  | none =>
    unfold parseRaw parseLine
    split
    · rfl
    split
    · rename_i type content hline
      rw [recordOf_eq_some.mpr hline] at hrecord
      cases hrecord
    · rfl

theorem parseRaw_record {line : Str} {s t : CdbParser} (h : parseRaw line s = some t) :
    (recordOf line = none ∧ t = s) ∨
      ∃ type content, recordOf line = some (type, content) ∧
        parseLine (type :: 58 :: content) s = some t := by
  rw [parseRaw_eq] at h
  cases hrecord : recordOf line with
  | none =>
    rw [hrecord] at h
    exact Or.inl ⟨rfl, (Option.some.inj h).symm⟩
  | some r =>
    rw [hrecord] at h
    exact Or.inr ⟨r.1, r.2, rfl, h⟩

/-- `parse_func_marker` sets an address in the first function it finds, if the marker can be
    read. -/
theorem parseFuncMarker_eq (isGlobal isEnd : Bool) (content : Str) (s : CdbParser) :
    parseFuncMarker content isEnd s = some
      (match readMarker isGlobal isEnd content with
      | none => s
      | some m => { s with data := modifyFirst m.accepts m.mark s.data }) := by
  unfold parseFuncMarker readMarker addressBehind
  cases hcolon : rfind content 58 with
  | none => rfl
  | some colon =>
    dsimp only [Option.bind_eq_bind, Option.bind_some]
    rw [substrFrom_of_le (rfind_lt hcolon), Option.bind_some, Option.bind_some]
    cases haddr : stoul (content.drop (colon + 1)) 16 with
    | none => rfl
    | some addr =>
      dsimp only [Option.map_some, Option.bind_some]
      cases hd1 : find content 36 0 with
      | none => rfl
      | some d1 =>
        dsimp only [Option.bind_some]
        cases hd2 : find content 36 (d1 + 1) with
        | none => rfl
        | some d2 =>
          dsimp only [Option.bind_some]
          rw [substr_of_le (Nat.zero_le _), substr_of_le (find_lt hd1)]
          rfl

theorem changed_by_marker {line : Str} {isGlobal isEnd : Bool} {content : Str} {s t : CdbParser}
    (hmarker : marker? line = readMarker isGlobal isEnd content)
    (h : parseFuncMarker content isEnd s = some t) : Change line s.data t.data := by
  rw [parseFuncMarker_eq isGlobal] at h
  obtain rfl := Option.some.inj h
  cases hread : readMarker isGlobal isEnd content with
  | none => exact .same rfl
  | some m => exact .marked m (hmarker.trans hread) rfl

theorem parseFunction_change {line content : Str} {s t : CdbParser}
    (hrecord : FunctionRecord line) (h : parseFunction content s = some t) :
    Change line s.data t.data := by
  unfold parseFunction at h
  split at h
  · cases h
    exact .same rfl
  simp only [Option.bind_eq_bind, Option.bind_eq_some_iff] at h
  obtain ⟨first, -, h⟩ := h
  split at h
  · cases h
    exact .same rfl
  split at h
  · cases h
    exact .same rfl
  simp only [Option.bind_eq_some_iff] at h
  obtain ⟨full, -, name, -, h⟩ := h
  cases h
  exact .declared _ hrecord ⟨rfl, rfl⟩ rfl

theorem parseType_change {line content : Str} {s t : CdbParser}
    (h : parseType content s = some t) : Change line s.data t.data := by
  unfold parseType at h
  split at h
  · cases h
    exact .same rfl
  simp only [Option.bind_eq_bind, Option.bind_eq_some_iff] at h
  obtain ⟨first, -, h⟩ := h
  split at h
  · cases h
    exact .same rfl
  split at h
  · cases h
    exact .same rfl
  simp only [Option.bind_eq_some_iff] at h
  obtain ⟨full, -, name, -, typeInfo, -, h⟩ := h
  cases h
  refine .described _ ?_ rfl
  exact fun mod => ⟨rfl, rfl, rfl, rfl, rfl⟩

theorem parseSymbol_change {line content : Str} {s t : CdbParser}
    (h : parseSymbol content s = some t) : Change line s.data t.data := by
  unfold parseSymbol at h
  split at h
  · cases h
    exact .same rfl
  simp only [Option.bind_eq_bind, Option.bind_eq_some_iff] at h
  obtain ⟨scopeChar, -, h⟩ := h
  split at h
  · cases h
    exact .same rfl
  simp only [Option.bind_eq_some_iff] at h
  obtain ⟨scopeText, -, h⟩ := h
  split at h
  · cases h
    exact .same rfl
  simp only [Option.bind_eq_some_iff] at h
  obtain ⟨name, -, symbol, -, h⟩ := h
  unfold storeSymbol at h
  split at h
  · split at h
    · cases h
      exact .same rfl
    · simp only [Option.bind_eq_bind, Option.bind_eq_some_iff] at h
      obtain ⟨funcName, -, h⟩ := h
      cases h
      refine .described _ ?_ rfl
      intro mod
      refine ⟨rfl, rfl, map_modifyFirst (g := signature) ?_ mod.functions, rfl, rfl⟩
      exact fun fn => rfl
  · cases h
    refine .described _ ?_ rfl
    exact fun mod => ⟨rfl, rfl, rfl, rfl, rfl⟩

theorem parseAsmLine_data {content : Str} {s t : CdbParser}
    (h : parseAsmLine content s = some t) : t.data = s.data := by
  unfold parseAsmLine at h
  split at h
  · cases h
    rfl
  split at h
  · cases h
    rfl
  split at h
  · cases h
    rfl
  split at h
  · cases h
    rfl
  simp only [Option.bind_eq_bind, Option.bind_eq_some_iff] at h
  obtain ⟨modName, -, number, -, h⟩ := h
  split at h
  · cases h
    rfl
  simp only [Option.bind_eq_some_iff] at h
  obtain ⟨address, -, h⟩ := h
  split at h <;> cases h <;> rfl

theorem parseCLine_change {line content : Str} {s t : CdbParser}
    (h : parseCLine content s = some t) : Change line s.data t.data := by
  unfold parseCLine at h
  split at h
  · split at h
    · cases h
      exact .same rfl
    simp only [Option.bind_eq_bind, Option.bind_eq_some_iff] at h
    obtain ⟨address, -, modName, hname, h⟩ := h
    cases h
    exact .line s _ modName hname rfl rfl
  · cases h
    exact .same rfl

/-- **The step lemma** of the parser: what a line does. -/
theorem parseRaw_change {line : Str} {s t : CdbParser} (h : parseRaw line s = some t) :
    Change line s.data t.data := by
  rcases parseRaw_record h with ⟨-, rfl⟩ | ⟨type, content, hrecord, hline⟩
  · exact .same rfl
  change (if type = 77 then some (parseModule content s)
    else if type = 70 then parseFunction content s
    else if type = 83 then parseSymbol content s
    else if type = 84 then parseType content s
    else if type = 76 then parseLineInfo content s
    else some s) = some t at hline
  split at hline
  · rename_i htype
    cases hline
    exact .opened content (by rw [moduleName?, hrecord, htype]; rfl) rfl
  split at hline
  · rename_i htype
    have hfunction : FunctionRecord line := by
      rw [FunctionRecord, hrecord, htype]
      rfl
    exact parseFunction_change hfunction hline
  split at hline
  · exact parseSymbol_change hline
  split at hline
  · exact parseType_change hline
  split at hline
  · rename_i htype
    rw [htype] at hrecord
    unfold parseLineInfo at hline
    split at hline
    · cases hline
      exact .same rfl
    · exact changed_by_marker (by rw [marker?, hrecord]; rfl) hline
    · exact changed_by_marker (by rw [marker?, hrecord]; rfl) hline
    · exact changed_by_marker (by rw [marker?, hrecord]; rfl) hline
    · exact changed_by_marker (by rw [marker?, hrecord]; rfl) hline
    · exact .same (parseAsmLine_data hline)
    · exact parseCLine_change hline
    · cases hline
      exact .same rfl
  · cases hline
    exact .same rfl

/-! ## The names of assembly modules -/

/-- An assembly module is named like its file, without the extension. -/
def FileNamed (mod : CdbgInfoModule) : Prop :=
  ∀ ext, ext = str ".s" ∨ ext = str ".asm" → Path.extension mod.file = ext →
    mod.file = mod.name ++ ext

/-- A module as it is before the merge. -/
def Fresh (mod : CdbgInfoModule) : Prop := FileNamed mod ∧ mod.asmLines = ∅

/-- The invariant of the run over the lines. -/
def AllFresh (s : CdbParser) : Prop := ∀ mod ∈ s.data, Fresh mod

theorem Fresh.congr {mod mod' : CdbgInfoModule} (h : Fresh mod) (hname : mod'.name = mod.name)
    (hfile : mod'.file = mod.file) (hasm : mod'.asmLines = mod.asmLines) : Fresh mod' := by
  unfold Fresh FileNamed
  rw [hname, hfile, hasm]
  exact h

/-- A file cut at its last dot names a module. -/
theorem fileNamed_of_cut {mod : CdbgInfoModule} {t : Str} (ht : (46 : UInt8) ∉ t)
    (h : mod.file = mod.name ++ 46 :: t) : FileNamed mod := by
  intro ext hext hmod
  have hne : Path.extension mod.file ≠ [] := by
    rw [hmod]
    rcases hext with rfl | rfl <;> decide
  obtain ⟨a, t', hcut, ht', hext'⟩ := Path.cut_of_extension hne
  have h1 := Path.rfind_append_cons mod.name ht
  have h2 := Path.rfind_append_cons a ht'
  rw [← h] at h1
  rw [← hcut, h1] at h2
  have htail : 46 :: t = 46 :: t' :=
    (List.append_inj (h.symm.trans hcut) (Option.some.inj h2)).2
  rw [← hmod, hext', ← htail]
  exact h

theorem modifyCurrent_fresh {s : CdbParser} (hs : s.AllFresh) {f : CdbgInfoModule → CdbgInfoModule}
    (hf : ∀ mod, Fresh mod → Fresh (f mod)) : (s.modifyCurrent f).AllFresh := by
  refine forall_modifyLast hs fun mod hmod => hf mod (hs mod ?_)
  exact List.mem_of_getLast? hmod

theorem parseModule_fresh (content : Str) {s : CdbParser} (hs : s.AllFresh) :
    (parseModule content s).AllFresh := by
  intro mod hmod
  rcases List.mem_append.mp hmod with hmod | hmod
  · exact hs mod hmod
  · rw [List.mem_singleton.mp hmod]
    exact ⟨fileNamed_of_cut (t := str "c") (by decide) rfl, rfl⟩

/-- A C line is stored in a module that its file names. -/
theorem addLine_fresh {ln : CdbgInfoLine} {mod : CdbgInfoModule} (hmod : Fresh mod)
    (hname : ∀ dot, rfind ln.file 46 = some dot → mod.name = ln.file.take dot) :
    Fresh (addLine ln mod) := by
  refine ⟨?_, hmod.2⟩
  by_cases hguess : mod.file = mod.name ++ str ".c"
  · have hfile : (addLine ln mod).file = ln.file := if_pos hguess
    intro ext hext hmodExt
    rw [hfile] at hmodExt
    have hne : Path.extension ln.file ≠ [] := by
      rw [hmodExt]
      rcases hext with rfl | rfl <;> decide
    obtain ⟨a, t, hcut, ht, hext'⟩ := Path.cut_of_extension hne
    have hdot := Path.rfind_append_cons a ht
    rw [← hcut] at hdot
    have htake : mod.name = a := by
      rw [hname _ hdot, hcut, List.take_left]
    show (addLine ln mod).file = mod.name ++ ext
    rw [hfile, htake, ← hmodExt, hext']
    exact hcut
  · have hfile : (addLine ln mod).file = mod.file := if_neg hguess
    intro ext hext hmodExt
    rw [hfile] at hmodExt ⊢
    exact hmod.1 ext hext hmodExt

theorem storeLine_fresh {ln : CdbgInfoLine} {modName : Str} {s : CdbParser} (hs : s.AllFresh)
    (hname : ∀ dot, rfind ln.file 46 = some dot → modName = ln.file.take dot) :
    (s.storeLine ln modName).AllFresh := by
  unfold storeLine
  split
  · rename_i hcurrent
    refine forall_modifyLast hs fun mod hmod => ?_
    rw [hmod] at hcurrent
    have hmodName : mod.name = modName := Option.some.inj hcurrent
    exact addLine_fresh (hs mod (List.mem_of_getLast? hmod))
      fun dot hdot => hmodName.trans (hname dot hdot)
  · refine forall_modifyFirst hs fun mod hmod hp => ?_
    exact addLine_fresh (hs mod hmod) fun dot hdot => (beq_iff_eq.mp hp).trans (hname dot hdot)

theorem moduleNameOf_eq {file name : Str} (h : moduleNameOf file = some name) {dot : Nat}
    (hdot : rfind file 46 = some dot) : name = file.take dot := by
  simp only [moduleNameOf, hdot, substr, List.drop_zero] at h
  split at h
  · exact (Option.some.inj h).symm
  · cases h

/-- **A line keeps it.** -/
theorem parseRaw_fresh (line : Str) (s t : CdbParser) (hs : s.AllFresh)
    (h : parseRaw line s = some t) : t.AllFresh := by
  cases parseRaw_change h with
  | opened name hname hdata =>
    unfold AllFresh
    rw [hdata]
    exact parseModule_fresh name hs
  | declared fn hrecord hfn hdata =>
    unfold AllFresh
    rw [hdata]
    exact modifyCurrent_fresh hs fun mod hmod => hmod.congr rfl rfl rfl
  | described f hf hdata =>
    unfold AllFresh
    rw [hdata]
    exact modifyCurrent_fresh hs fun mod hmod =>
      hmod.congr (hf mod).name (hf mod).file (hf mod).asmLines
  | line s' ln name hname hs' hdata =>
    unfold AllFresh
    rw [hdata]
    refine storeLine_fresh ?_ fun dot hdot => moduleNameOf_eq hname hdot
    unfold AllFresh
    rw [hs']
    exact hs
  | marked m hmarker hdata =>
    unfold AllFresh
    rw [hdata]
    exact forall_modifyFirst hs fun mod hmod _ => (hs mod hmod).congr rfl rfl rfl
  | same hdata =>
    unfold AllFresh
    rw [hdata]
    exact hs

/-! ## The merge -/

/-- Of all modules of one name, only the first has assembly lines. -/
def FirstNamed (data : List CdbgInfoModule) : Prop :=
  data.Pairwise fun a b => b.asmLines ≠ ∅ → a.name ≠ b.name

/-- Two modules of one name that both have assembly lines are the same. -/
theorem FirstNamed.eq {data : List CdbgInfoModule} (h : FirstNamed data) {a b : CdbgInfoModule}
    (ha : a ∈ data) (hb : b ∈ data) (hname : a.name = b.name) (hasma : a.asmLines ≠ ∅)
    (hasmb : b.asmLines ≠ ∅) : a = b := by
  refine List.Pairwise.forall_of_forall_of_flip
    (R := fun a b => a.name = b.name → a.asmLines ≠ ∅ → b.asmLines ≠ ∅ → a = b)
    (fun _ _ _ _ _ => rfl) ?_ ?_ ha hb hname hasma hasmb
  · exact h.imp fun hab hname _ hasmb => absurd hname (hab hasmb)
  · exact h.imp fun hab hname hasmb _ => absurd hname.symm (hab hasmb)

theorem modifyFirst_firstNamed {data : List CdbgInfoModule} (h : FirstNamed data) (name : Str)
    {f : CdbgInfoModule → CdbgInfoModule} (hf : ∀ mod, (f mod).name = mod.name) :
    FirstNamed (modifyFirst (fun mod => mod.name == name) f data) := by
  induction data with
  | nil => exact h
  | cons mod data ih =>
    obtain ⟨hmod, hdata⟩ := List.pairwise_cons.mp h
    unfold modifyFirst
    split
    · refine List.pairwise_cons.mpr ⟨fun b hb hasm => ?_, hdata⟩
      rw [hf]
      exact hmod b hb hasm
    · rename_i hne
      refine List.pairwise_cons.mpr ⟨?_, ih hdata⟩
      refine forall_modifyFirst hmod fun b _ hb _ heq => ?_
      rw [heq, hf, hb] at hne
      exact hne rfl

theorem mergeModule_firstNamed (order : HashOrder) {data : List CdbgInfoModule}
    (h : FirstNamed data) (e : Str × Table Int UInt16) : FirstNamed (mergeModule order data e) := by
  unfold mergeModule
  split
  · exact modifyFirst_firstNamed h e.1 fun mod => rfl
  · rename_i hnone
    refine List.pairwise_append.mpr ⟨h, List.pairwise_singleton _ _, ?_⟩
    rintro a ha b hb - heq
    rw [List.mem_singleton.mp hb] at heq
    exact hnone (List.any_eq_true.mpr ⟨a, ha, beq_iff_eq.mpr heq⟩)

theorem mergeModule_fileNamed (order : HashOrder) {data : List CdbgInfoModule}
    (h : ∀ mod ∈ data, FileNamed mod) (e : Str × Table Int UInt16) :
    ∀ mod ∈ mergeModule order data e, FileNamed mod := by
  unfold mergeModule
  split
  · exact forall_modifyFirst h fun mod hmod _ => h mod hmod
  · intro mod hmod
    rcases List.mem_append.mp hmod with hmod | hmod
    · exact h mod hmod
    · rw [List.mem_singleton.mp hmod]
      exact fileNamed_of_cut (t := str "s") (by decide) rfl

/-- **What parsing keeps**, for every text and every order of the hash tables. -/
theorem parse_inv {order : HashOrder} {content : Str} {modules : List CdbgInfoModule}
    (h : parseText order content = some modules) :
    (∀ mod ∈ modules, FileNamed mod) ∧ FirstNamed modules := by
  obtain ⟨s, hs, rfl⟩ := Option.map_eq_some_iff.mp h
  have hfresh : s.AllFresh :=
    Run.exec_inv parseRaw_fresh _ _ _ (fun mod hmod => absurd hmod List.not_mem_nil) hs
  have hfile : ∀ mod ∈ s.data, FileNamed mod := fun mod hmod => (hfresh mod hmod).1
  have hfirst : FirstNamed s.data := by
    refine List.pairwise_of_forall_mem_list fun a _ b hb hasm => ?_
    exact absurd (hfresh b hb).2 hasm
  have hfold : ∀ (es : List (Str × Table Int UInt16)) (data : List CdbgInfoModule),
      (∀ mod ∈ data, FileNamed mod) → FirstNamed data →
      (∀ mod ∈ es.foldl (mergeModule order) data, FileNamed mod) ∧
        FirstNamed (es.foldl (mergeModule order) data) := by
    intro es
    induction es with
    | nil => exact fun data h1 h2 => ⟨h1, h2⟩
    | cons e es ih =>
      exact fun data h1 h2 =>
        ih _ (mergeModule_fileNamed order h1 e) (mergeModule_firstNamed order h2 e)
  exact hfold _ _ hfile hfirst

end CdbParser

end Udap.Sdcc
