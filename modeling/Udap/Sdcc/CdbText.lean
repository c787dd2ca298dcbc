/-
  CDB TEXT — does the parser give back the modules that a text was written from?

  1. **Records** — `CdbModule`, with its functions, symbols and types, is what the compiler writes
     about; each carries what makes it writable, such as a name without `$`.  `lines` are its records
     in the order of the compiler.

  2. **Meaning** — `info` is what the debugger is to know of a module, field by field.

  3. **Round trip** — each kind of record is one lemma about the method that reads it, and changes
     the current module and nothing else (`withModule`).  The rest is an induction over the symbols
     of a function, the functions and the declarations of a module, and the modules (`parse_records`).
-/
import Udap.Sdcc.CdbParser

set_option linter.unusedVariables false

namespace Udap.Sdcc

open Udap Udap.Cxx

/-! ## What is written -/

/-- The bytes of a name: no white space, and nothing that the parser searches for. -/
def isNameByte (c : UInt8) : Bool :=
  !isSpace c && c != 36 && c != 46 && c != 40 && c != 91 && c != 58

/-- The name of a module, a function, a symbol or a type. -/
structure Name where
  text : Str
  plain : text.all isNameByte = true

/-- Text without a certain byte. -/
structure TextWithout (c : UInt8) where
  text : Str
  free : c ∉ text

/-- The symbol of an `S:` record: `$name$level({size}type),storage,bank,offset`, and registers in
    brackets if it has any. -/
structure CdbSymbol where
  name : Name
  level : TextWithout 40
  byteSize : Int
  byteSize_int : InInt byteSize
  type : TextWithout 41
  storage : UInt8
  storage_letter : (65 ≤ storage ∧ storage ≤ 90) ∨ (97 ≤ storage ∧ storage ≤ 122)
  bank : Int
  offset : Int
  offset_int : InInt offset
  registers : Option (TextWithout 93)

/-- The function of an `F:` record: `$name$signature`, and its local symbols. -/
structure CdbFunction where
  name : Name
  isGlobal : Bool
  signature : Str
  locals : List CdbSymbol

/-- What a module declares behind its functions: types `$name[fields]` and symbols. -/
inductive CdbDecl where
  | type (isGlobal : Bool) (name : Name) (fields : Str)
  | symbol (isGlobal : Bool) (symbol : CdbSymbol)

/-- A module; its functions have different names. -/
structure CdbModule where
  name : Name
  functions : List CdbFunction
  distinct : (functions.map fun f => f.name.text).Nodup
  decls : List CdbDecl

/-- The scope of a record: global, or the file of its module. -/
def scopeText (isGlobal : Bool) (module : Name) : Str :=
  if isGlobal then [71] else 70 :: module.text

/-- The scope of a local symbol. -/
def localScope (module function : Name) : Str := 76 :: (module.text ++ 46 :: function.text)

/-- The type with its size in front. -/
def CdbSymbol.typeText (r : CdbSymbol) : Str := 123 :: (Cxx.toString r.byteSize ++ 125 :: r.type.text)

/-- What follows the type. -/
def CdbSymbol.suffix (r : CdbSymbol) : Str :=
  44 :: r.storage :: 44 :: (Cxx.toString r.bank ++ 44 :: (Cxx.toString r.offset ++
    match r.registers with
    | none => []
    | some list => 44 :: 91 :: (list.text ++ [93])))

/-- The content of a symbol record. -/
def CdbSymbol.content (scope : Str) (r : CdbSymbol) : Str :=
  scope ++ 36 :: (r.name.text ++ 36 :: (r.level.text ++ 40 :: (r.typeText ++ 41 :: r.suffix)))

/-- The records of a function. -/
def CdbFunction.lines (module : Name) (f : CdbFunction) : List Str :=
  (str "F:" ++ (scopeText f.isGlobal module ++ 36 :: (f.name.text ++ 36 :: f.signature))) ::
    f.locals.map fun r => str "S:" ++ r.content (localScope module f.name)

/-- The record of a declaration. -/
def CdbDecl.line (module : Name) : CdbDecl → Str
  | .type isGlobal name fields =>
    str "T:" ++ (scopeText isGlobal module ++ 36 :: (name.text ++ 91 :: (fields ++ [93])))
  | .symbol isGlobal r => str "S:" ++ r.content (scopeText isGlobal module)

/-- The records of a module. -/
def CdbModule.lines (m : CdbModule) : List Str :=
  (str "M:" ++ m.name.text) :: m.functions.flatMap (CdbFunction.lines m.name) ++
    m.decls.map (CdbDecl.line m.name)

/-! ## What it means -/

/-- The storage class of a letter. -/
def letterClass : UInt8 → StorageClass
  | 66 => .stack
  | 82 => .reg
  | 73 => .internal
  | 69 => .ext
  | 65 => .globalAuto
  | _ => .unknown

def scopeName (isGlobal : Bool) : Str := if isGlobal then str "global" else str "local"

def CdbSymbol.info (scope : Str) (r : CdbSymbol) : CdbgInfoSymbol where
  name := r.name.text
  scope := scope
  typeInfo := r.typeText
  storage := letterClass r.storage
  offset := r.offset
  size := max 1 (min r.byteSize 4)
  regList := (r.registers.map TextWithout.text).getD []

def CdbFunction.info (f : CdbFunction) : CdbgInfoFunction where
  name := f.name.text
  scope := scopeName f.isGlobal
  localSymbols := f.locals.map (CdbSymbol.info (str "local"))

/-- The symbol that a declaration declares, if it does. -/
def CdbDecl.symbol? : CdbDecl → Option CdbgInfoSymbol
  | .type _ _ _ => none
  | .symbol isGlobal r => some (r.info (scopeName isGlobal))

/-- The type that a declaration declares, if it does. -/
def CdbDecl.type? : CdbDecl → Option CdbgInfoType
  | .type isGlobal name fields =>
    some { name := name.text, scope := scopeName isGlobal, typeInfo := 91 :: (fields ++ [93]) }
  | .symbol _ _ => none

def CdbModule.info (m : CdbModule) : CdbgInfoModule where
  name := m.name.text
  file := m.name.text ++ str ".c"
  functions := m.functions.map CdbFunction.info
  globalSymbols := m.decls.filterMap CdbDecl.symbol?
  types := m.decls.filterMap CdbDecl.type?

/-! ## The bytes that are searched for -/

theorem Name.not_mem (n : Name) {c : UInt8} (hc : isNameByte c = false) : c ∉ n.text := by
  intro h
  have hplain := List.all_eq_true.mp n.plain c h
  rw [hc] at hplain
  cases hplain

theorem scopeText_not_mem (isGlobal : Bool) (module : Name) {c : UInt8} (hc : isNameByte c = false)
    (h71 : c ≠ 71) (h70 : c ≠ 70) : c ∉ scopeText isGlobal module := by
  unfold scopeText
  split
  · simpa using h71
  · simpa using ⟨h70, module.not_mem hc⟩

theorem localScope_not_mem (module function : Name) {c : UInt8} (hc : isNameByte c = false)
    (h76 : c ≠ 76) (h46 : c ≠ 46) : c ∉ localScope module function := by
  simpa [localScope] using ⟨h76, module.not_mem hc, h46, function.not_mem hc⟩

/-- A printed number is digits and perhaps a sign. -/
theorem not_mem_toString (i : Int) {c : UInt8} (hc : isDigit c = false) (h45 : c ≠ 45) :
    c ∉ Cxx.toString i := by
  intro h
  rcases toString_chars i c h with hd | rfl
  · rw [hc] at hd
    cases hd
  · exact h45 rfl

theorem typeText_not_mem (r : CdbSymbol) : (41 : UInt8) ∉ r.typeText := by
  have hsize : (41 : UInt8) ∉ Cxx.toString r.byteSize := not_mem_toString _ (by decide) (by decide)
  simpa [CdbSymbol.typeText] using ⟨hsize, r.type.free⟩

/-! ## Reading a symbol -/

namespace CdbParser

/-- The size in front of the type. -/
theorem sizeOf_typeText (r : CdbSymbol) (hsize : r.typeText.length < 2 ^ 64) :
    sizeOf r.typeText = some r.byteSize := by
  have hdigits : (125 : UInt8) ∉ Cxx.toString r.byteSize := not_mem_toString _ (by decide) (by decide)
  have hclose : find r.typeText 125 0 = some ((Cxx.toString r.byteSize).length + 1) :=
    find_first (a := 123 :: Cxx.toString r.byteSize) (by simpa using hdigits) r.type.text
  have hlength : (Cxx.toString r.byteSize).length + 1 < 2 ^ 64 := by
    have hlt := find_lt hclose
    omega
  have hread : substr r.typeText 1 (Cxx.toString r.byteSize).length
      = some (Cxx.toString r.byteSize) := by
    rw [substr_of_le (by simp [CdbSymbol.typeText])]
    exact congrArg some List.take_left
  rw [sizeOf, if_pos (by rfl), hclose]
  show (substr r.typeText 1 (sizeSub _ 1)).bind _ = _
  rw [sizeSub_of_le (by omega) hlength, Nat.add_sub_cancel, hread, Option.bind_some,
    stoi_toString r.byteSize_int, Option.getD_some]

theorem storageOf_letter (c : UInt8) : storageOf c .unknown = letterClass c := by
  unfold storageOf letterClass
  split_ifs <;> simp_all

/-- What stands in front of the registers. -/
def fieldsText (r : CdbSymbol) : Str :=
  44 :: r.storage :: 44 :: (Cxx.toString r.bank ++ 44 :: Cxx.toString r.offset)

theorem suffix_none {r : CdbSymbol} (h : r.registers = none) : r.suffix = fieldsText r := by
  rw [CdbSymbol.suffix, h]
  simp [fieldsText]

theorem suffix_some {r : CdbSymbol} {list : TextWithout 93} (h : r.registers = some list) :
    r.suffix = (fieldsText r ++ [44]) ++ 91 :: (list.text ++ 93 :: []) := by
  rw [CdbSymbol.suffix, h]
  simp [fieldsText]

theorem letter_ne (r : CdbSymbol) {c : UInt8} (hc : c < 65 ∨ (90 < c ∧ c < 97)) : r.storage ≠ c := by
  rintro rfl
  have hletter := r.storage_letter
  simp only [UInt8.le_iff_toNat_le, UInt8.lt_iff_toNat_lt] at hletter hc
  simp at hletter hc
  omega

theorem bracket_not_mem_fields (r : CdbSymbol) : (91 : UInt8) ∉ fieldsText r ++ [44] := by
  have hbank : (91 : UInt8) ∉ Cxx.toString r.bank := not_mem_toString _ (by decide) (by decide)
  have hoffset : (91 : UInt8) ∉ Cxx.toString r.offset := not_mem_toString _ (by decide) (by decide)
  have hletter : (91 : UInt8) ≠ r.storage := (letter_ne r (Or.inr (by decide))).symm
  simp [fieldsText, hbank, hoffset, hletter]

/-- The registers in brackets. -/
theorem regListOf_suffix (r : CdbSymbol) :
    regListOf r.suffix = some ((r.registers.map TextWithout.text).getD []) := by
  have hfree := bracket_not_mem_fields r
  cases hregisters : r.registers with
  | none =>
    have hnone : find (fieldsText r) 91 0 = none :=
      find_none fun h => hfree (List.mem_append_left _ h)
    rw [suffix_none hregisters, regListOf, hnone]
    rfl
  | some list =>
    obtain ⟨hopen, hclose, hread⟩ := cut_between (d := 93) hfree list.free []
    rw [suffix_some hregisters, regListOf, hopen]
    dsimp only
    rw [find_skip (by decide), hclose]
    exact hread

/-- The fields between commas. -/
theorem split_suffix (r : CdbSymbol) : ∃ rest, split r.suffix 44
    = [] :: [r.storage] :: Cxx.toString r.bank :: Cxx.toString r.offset :: rest := by
  have hbank : (44 : UInt8) ∉ Cxx.toString r.bank := not_mem_toString _ (by decide) (by decide)
  have hoffset : (44 : UInt8) ∉ Cxx.toString r.offset := not_mem_toString _ (by decide) (by decide)
  have hletter : (44 : UInt8) ∉ [r.storage] := by
    simpa using (letter_ne r (Or.inl (by decide))).symm
  have hfirst : ∀ t, split (44 :: r.storage :: 44 :: (Cxx.toString r.bank ++ 44 :: t)) 44
      = [] :: [r.storage] :: Cxx.toString r.bank :: split t 44 := by
    intro t
    have hempty : split ([] ++ 44 :: ([r.storage] ++ 44 :: (Cxx.toString r.bank ++ 44 :: t))) 44
        = [] :: split ([r.storage] ++ 44 :: (Cxx.toString r.bank ++ 44 :: t)) 44 :=
      split_cons List.not_mem_nil _
    rw [split_cons hletter, split_cons hbank] at hempty
    exact hempty
  unfold CdbSymbol.suffix
  rw [hfirst]
  cases r.registers with
  | none =>
    rw [List.append_nil, split_single hoffset]
    exact ⟨[], rfl⟩
  | some list =>
    dsimp only
    rw [split_cons hoffset]
    exact ⟨_, rfl⟩

/-- The storage information. -/
theorem applySuffix_suffix (r : CdbSymbol) (symbol : CdbgInfoSymbol)
    (hstorage : symbol.storage = .unknown) :
    applySuffix r.suffix symbol = some { symbol with
      regList := (r.registers.map TextWithout.text).getD [], storage := letterClass r.storage,
      offset := r.offset } := by
  obtain ⟨rest, hparts⟩ := split_suffix r
  have hne : (Cxx.toString r.offset).isEmpty = false :=
    List.isEmpty_eq_false_iff.mpr (toString_ne_nil r.offset)
  rw [applySuffix, regListOf_suffix, hparts, hstorage]
  simp [hne, stoi_toString r.offset_int, storageOf_letter]

/-- **The type of a symbol**, its size and its storage. -/
theorem applyType_content (r : CdbSymbol) {front : Str} (hfront : (40 : UInt8) ∉ front)
    (hsize : r.typeText.length < 2 ^ 64) (scope : Str) :
    (applyType (front ++ 40 :: (r.typeText ++ 41 :: r.suffix)) { name := r.name.text }).map
        (fun symbol => { symbol with scope := scope })
      = some (r.info scope) := by
  obtain ⟨hopen, hclose, htype⟩ := cut_between (d := 41) hfront (typeText_not_mem r) r.suffix
  have hbehind : substrFrom (front ++ 40 :: (r.typeText ++ 41 :: r.suffix))
      (front.length + 1 + r.typeText.length + 1) = some r.suffix := by
    have hsplit : front ++ 40 :: (r.typeText ++ 41 :: r.suffix)
        = (front ++ 40 :: r.typeText) ++ 41 :: r.suffix := by simp
    have hlength : front.length + 1 + r.typeText.length = (front ++ 40 :: r.typeText).length := by
      rw [List.length_append, List.length_cons]
      omega
    rw [hsplit, hlength, substrFrom_of_le (by simp), drop_separator]
  have hinside : front.length + 1 + r.typeText.length + 1
      < (front ++ 40 :: (r.typeText ++ 41 :: r.suffix)).length := by
    have hsuffix : 0 < r.suffix.length := by
      rw [CdbSymbol.suffix, List.length_cons]
      omega
    simp only [List.length_append, List.length_cons]
    omega
  rw [applyType, hopen]
  dsimp only
  rw [find_skip (by decide), hclose]
  dsimp only
  rw [htype]
  show Option.map _ ((sizeOf r.typeText).bind _) = _
  rw [sizeOf_typeText r hsize, Option.bind_some, if_pos hinside, hbehind]
  show Option.map _ (applySuffix r.suffix _) = _
  rw [applySuffix_suffix r _ rfl]
  rfl

/-- **The content of a symbol record**: the symbol is stored under its scope. -/
theorem parseSymbol_content (r : CdbSymbol) {scopeChar : UInt8} {rest : Str}
    (hdollar : (36 : UInt8) ∉ scopeChar :: rest) (hparen : (40 : UInt8) ∉ scopeChar :: rest)
    (hsize : (r.content (scopeChar :: rest)).length < 2 ^ 64) {s : CdbParser}
    (hdata : s.data.isEmpty = false) :
    ∃ symbol : CdbgInfoSymbol, (∀ scope, { symbol with scope := scope } = r.info scope) ∧
      parseSymbol (r.content (scopeChar :: rest)) s = storeSymbol scopeChar rest symbol s := by
  have hname : (36 : UInt8) ∉ r.name.text := r.name.not_mem (by decide)
  have hfront : (40 : UInt8) ∉ scopeChar :: rest ++ 36 :: (r.name.text ++ 36 :: r.level.text) := by
    have hparenName : (40 : UInt8) ∉ r.name.text := r.name.not_mem (by decide)
    have hparenLevel := r.level.free
    simp only [List.mem_append, List.mem_cons, not_or] at hparen ⊢
    exact ⟨hparen, by decide, hparenName, by decide, hparenLevel⟩
  have hsplit : r.content (scopeChar :: rest)
      = (scopeChar :: rest ++ 36 :: (r.name.text ++ 36 :: r.level.text)) ++
          40 :: (r.typeText ++ 41 :: r.suffix) := by
    simp [CdbSymbol.content]
  have htypeSize : r.typeText.length < 2 ^ 64 := by
    rw [hsplit] at hsize
    simp only [List.length_append, List.length_cons] at hsize
    omega
  -- whatever the scope is to be, it is the same symbol
  obtain ⟨symbol, happly, -⟩ := Option.map_eq_some_iff.mp (applyType_content r hfront htypeSize [])
  have hinfo : ∀ scope, { symbol with scope := scope } = r.info scope := by
    intro scope
    have hscope := applyType_content r hfront htypeSize scope
    rw [happly] at hscope
    exact Option.some.inj hscope
  refine ⟨symbol, hinfo, ?_⟩
  obtain ⟨hfirst, hsecond, hread⟩ := cut_between hdollar hname
    (r.level.text ++ 40 :: (r.typeText ++ 41 :: r.suffix))
  have hrest : substr (r.content (scopeChar :: rest)) 1 (sizeSub (scopeChar :: rest).length 1)
      = some rest := by
    have hlt : (scopeChar :: rest).length < 2 ^ 64 := Nat.lt_trans (find_lt hfirst) hsize
    rw [sizeSub_of_le (by simp) hlt, List.length_cons, Nat.add_sub_cancel,
      substr_of_le (by simp [CdbSymbol.content])]
    exact congrArg some List.take_left
  have hhead : (r.content (scopeChar :: rest)).head? = some scopeChar := rfl
  change find (r.content (scopeChar :: rest)) 36 0 = _ at hfirst
  change find (r.content (scopeChar :: rest)) 36 _ = _ at hsecond
  change substr (r.content (scopeChar :: rest)) _ _ = _ at hread
  rw [← hsplit] at happly
  simp only [parseSymbol, hdata, Bool.false_eq_true, if_false, Option.bind_eq_bind, hhead,
    Option.bind_some, hfirst, hrest, hsecond, hread, happly]

/-! ## The current module -/

/-- The state behind a module's record: that module is the current one. -/
def withModule (s : CdbParser) (mod : CdbgInfoModule) : CdbParser :=
  { s with data := s.data ++ [mod] }

theorem modifyCurrent_withModule (f : CdbgInfoModule → CdbgInfoModule) (s : CdbParser)
    (mod : CdbgInfoModule) : (withModule s mod).modifyCurrent f = withModule s (f mod) := by
  rw [modifyCurrent, withModule, modifyLast_concat]
  rfl

theorem withModule_isEmpty (s : CdbParser) (mod : CdbgInfoModule) :
    (withModule s mod).data.isEmpty = false := by
  rw [withModule, List.isEmpty_eq_false_iff]
  exact List.append_ne_nil_of_right_ne_nil _ (List.cons_ne_nil _ _)

theorem scopeText_head (isGlobal : Bool) (module : Name) : ∃ first rest,
    scopeText isGlobal module = first :: rest ∧
      (if first = 71 then str "global" else str "local") = scopeName isGlobal := by
  cases isGlobal with
  | true => exact ⟨71, [], rfl, rfl⟩
  | false => exact ⟨70, module.text, rfl, rfl⟩

/-- A name has no `module.` in front. -/
theorem behindDot_name (n : Name) : behindDot n.text = some n.text := by
  have hdot : (46 : UInt8) ∉ n.text := n.not_mem (by decide)
  rw [behindDot, find_none (by rwa [List.drop_zero])]

/-- **The content of a function record.** -/
theorem parseFunction_content (isGlobal : Bool) (module name : Name) (signature : Str)
    (s : CdbParser) (mod : CdbgInfoModule) :
    parseFunction (scopeText isGlobal module ++ 36 :: (name.text ++ 36 :: signature))
        (withModule s mod)
      = some (withModule s { mod with functions := mod.functions ++
          [{ name := name.text, scope := scopeName isGlobal }] }) := by
  have hscope : (36 : UInt8) ∉ scopeText isGlobal module :=
    scopeText_not_mem isGlobal module (by decide) (by decide) (by decide)
  have hname : (36 : UInt8) ∉ name.text := name.not_mem (by decide)
  obtain ⟨hfirst, hsecond, hread⟩ := cut_between hscope hname signature
  obtain ⟨first, rest, hhead, hglobal⟩ := scopeText_head isGlobal module
  have hhead' : (scopeText isGlobal module ++ 36 :: (name.text ++ 36 :: signature)).head?
      = some first := by
    rw [hhead]
    rfl
  simp only [parseFunction, withModule_isEmpty, Bool.false_eq_true, if_false, Option.bind_eq_bind,
    hhead', Option.bind_some, hglobal, hfirst, hsecond, hread, behindDot_name,
    modifyCurrent_withModule]

/-- **The content of a type record.** -/
theorem parseType_content (isGlobal : Bool) (module name : Name) (fields : Str)
    (hsize : (scopeText isGlobal module ++ 36 :: (name.text ++ 91 :: (fields ++ [93]))).length
      < 2 ^ 64) (s : CdbParser) (mod : CdbgInfoModule) :
    parseType (scopeText isGlobal module ++ 36 :: (name.text ++ 91 :: (fields ++ [93])))
        (withModule s mod)
      = some (withModule s { mod with types := mod.types ++
          [{ name := name.text, scope := scopeName isGlobal, typeInfo := 91 :: (fields ++ [93]) }] }) := by
  have hscope : (36 : UInt8) ∉ scopeText isGlobal module :=
    scopeText_not_mem isGlobal module (by decide) (by decide) (by decide)
  have hname : (91 : UInt8) ∉ name.text := name.not_mem (by decide)
  obtain ⟨hfirst, -, hread⟩ := cut_between hscope hname (fields ++ [93])
  obtain ⟨first, rest, hhead, hglobal⟩ := scopeText_head isGlobal module
  generalize hcontent : scopeText isGlobal module ++ 36 :: (name.text ++ 91 :: (fields ++ [93]))
    = content at *
  have hhead' : content.head? = some first := by
    rw [← hcontent, hhead]
    rfl
  have hsplit : content = (scopeText isGlobal module ++ 36 :: name.text) ++ 91 :: (fields ++ [93]) := by
    rw [← hcontent]
    simp
  have hlength : (scopeText isGlobal module ++ 36 :: name.text).length
      = (scopeText isGlobal module).length + 1 + name.text.length := by
    rw [List.length_append, List.length_cons]
    omega
  have hbracket : find content 91 0
      = some ((scopeText isGlobal module).length + 1 + name.text.length) := by
    have hscope' : (91 : UInt8) ∉ scopeText isGlobal module :=
      scopeText_not_mem isGlobal module (by decide) (by decide) (by decide)
    have hfront : (91 : UInt8) ∉ scopeText isGlobal module ++ 36 :: name.text := by
      simp only [List.mem_append, List.mem_cons, not_or]
      exact ⟨hscope', by decide, hname⟩
    rw [hsplit, find_first hfront, hlength]
  have hfull : content.length = (scopeText isGlobal module).length + 1 + name.text.length +
      fields.length + 2 := by
    rw [hsplit, List.length_append, hlength, List.length_cons, List.length_append,
      List.length_singleton]
    omega
  have hname' : substr content ((scopeText isGlobal module).length + 1)
      (sizeSub ((scopeText isGlobal module).length + 1 + name.text.length)
        ((scopeText isGlobal module).length + 1)) = some name.text := by
    rw [sizeSub_of_le (by omega) (by omega), ← hread, Nat.sub_sub]
  have htext : bracketText content ((scopeText isGlobal module).length + 1 + name.text.length)
      = some (91 :: (fields ++ [93])) := by
    have hlast : rfind content 93 = some (content.length - 1) := by
      have hend : content = (scopeText isGlobal module ++ 36 :: (name.text ++ 91 :: fields)) ++
          93 :: [] := by
        rw [← hcontent]
        simp
      rw [hend, Path.rfind_append_cons _ List.not_mem_nil, ← List.length_dropLast,
        List.dropLast_concat]
    have hdrop : content.drop ((scopeText isGlobal module).length + 1 + name.text.length)
        = 91 :: (fields ++ [93]) := by
      rw [hsplit, ← hlength, List.drop_left]
    rw [bracketText, hlast]
    dsimp only
    rw [sizeSub_of_le (by omega) (by omega), substr_of_le (by omega), hdrop,
      List.take_of_length_le (by simp; omega)]
  simp only [parseType, withModule_isEmpty, Bool.false_eq_true, if_false, Option.bind_eq_bind,
    hhead', Option.bind_some, hglobal, hfirst, hbracket, hname', htext, behindDot_name,
    modifyCurrent_withModule]

/-! ## Whole lines -/

/-- Does the text end with something else than white space? -/
def EndsPlain (t : Str) : Prop := ∃ front c, t = front ++ [c] ∧ isTrimmed c = false

theorem EndsPlain.append {t : Str} (h : EndsPlain t) (a : Str) : EndsPlain (a ++ t) := by
  obtain ⟨front, c, rfl, hc⟩ := h
  exact ⟨a ++ front, c, (List.append_assoc _ _ _).symm, hc⟩

theorem EndsPlain.cons {t : Str} (h : EndsPlain t) (x : UInt8) : EndsPlain (x :: t) := h.append [x]

theorem endsPlain_of_forall {t : Str} (hne : t ≠ []) (h : ∀ c ∈ t, isTrimmed c = false) :
    EndsPlain t := by
  obtain ⟨front, c, rfl⟩ := (List.eq_nil_or_concat' t).resolve_left hne
  exact ⟨front, c, rfl, h c (List.mem_append_right front List.mem_cons_self)⟩

/-- The loop hands such a line over as it is. -/
theorem parseRaw_line (type : UInt8) (htype : isTrimmed type = false) {rest : Str}
    (hend : EndsPlain rest) (s : CdbParser) :
    parseRaw (type :: rest) s = parseLine (type :: rest) s := by
  obtain ⟨front, c, rfl, hc⟩ := hend
  have htrim : trim (type :: (front ++ [c])) = type :: (front ++ [c]) := trim_eq_self htype hc front
  rw [parseRaw, htrim]
  rfl

theorem isTrimmed_of_name {c : UInt8} (h : isNameByte c = true) : isTrimmed c = false := by
  by_contra hspace
  rcases blank_cases hspace with rfl | rfl | rfl | rfl <;> exact absurd h (by decide)

theorem isTrimmed_of_number (i : Int) : ∀ c ∈ Cxx.toString i, isTrimmed c = false := by
  intro c hc
  by_contra hspace
  have hno : ∀ b : UInt8, isDigit b = false → b ≠ 45 → b ∉ Cxx.toString i :=
    fun b => not_mem_toString i
  rcases blank_cases hspace with rfl | rfl | rfl | rfl <;> exact hno _ (by decide) (by decide) hc

/-- The suffix of a symbol ends with a digit or a bracket. -/
theorem suffix_endsPlain (r : CdbSymbol) : EndsPlain r.suffix := by
  have hnumber : EndsPlain (Cxx.toString r.offset) :=
    endsPlain_of_forall (toString_ne_nil r.offset) (isTrimmed_of_number r.offset)
  cases hregisters : r.registers with
  | none =>
    rw [suffix_none hregisters]
    exact (((((hnumber.cons 44).append _).cons 44).cons r.storage).cons 44)
  | some list =>
    rw [suffix_some hregisters]
    exact ⟨fieldsText r ++ [44] ++ 91 :: list.text, 93, by simp, rfl⟩

/-- **A module record** opens its module. -/
theorem parseRaw_module (name : Name) (s : CdbParser) :
    parseRaw (str "M:" ++ name.text) s
      = some (withModule s { name := name.text, file := name.text ++ str ".c" }) := by
  have hend : EndsPlain (58 :: name.text) := by
    refine endsPlain_of_forall (List.cons_ne_nil _ _) (List.forall_mem_cons.mpr ⟨rfl, ?_⟩)
    intro c hc
    exact isTrimmed_of_name (List.all_eq_true.mp name.plain c hc)
  exact parseRaw_line 77 rfl hend s

/-- **A function record** adds its function. -/
theorem parseRaw_function (f : CdbFunction) (module : Name) (s : CdbParser) (mod : CdbgInfoModule) :
    parseRaw (str "F:" ++ (scopeText f.isGlobal module ++ 36 :: (f.name.text ++ 36 :: f.signature)))
        (withModule s mod)
      = some (withModule s { mod with functions := mod.functions ++
          [{ name := f.name.text, scope := scopeName f.isGlobal }] }) := by
  -- trimming may shorten the signature, which the parser does not read
  have hsplit : str "F:" ++ (scopeText f.isGlobal module ++ 36 :: (f.name.text ++ 36 :: f.signature))
      = 70 :: (58 :: (scopeText f.isGlobal module ++ 36 :: f.name.text)) ++ 36 :: f.signature := by
    simp [str]
  obtain ⟨signature, htrim⟩ := trim_append (x := 70) (c := 36) rfl rfl
    (58 :: (scopeText f.isGlobal module ++ 36 :: f.name.text)) f.signature
  have hparse : parseRaw (70 :: (58 :: (scopeText f.isGlobal module ++ 36 :: f.name.text)) ++
      36 :: f.signature) (withModule s mod) = parseFunction (scopeText f.isGlobal module ++
        36 :: (f.name.text ++ 36 :: signature)) (withModule s mod) := by
    rw [parseRaw, htrim]
    have hback : 58 :: (scopeText f.isGlobal module ++ 36 :: f.name.text) ++ 36 :: signature
        = 58 :: (scopeText f.isGlobal module ++ 36 :: (f.name.text ++ 36 :: signature)) := by simp
    rw [List.cons_append, hback]
    rfl
  rw [hsplit, hparse, parseFunction_content]

/-- A symbol record is read and stored under its scope. -/
theorem parseRaw_symbol (r : CdbSymbol) {scopeChar : UInt8} {rest : Str}
    (hdollar : (36 : UInt8) ∉ scopeChar :: rest) (hparen : (40 : UInt8) ∉ scopeChar :: rest)
    (hsize : (str "S:" ++ r.content (scopeChar :: rest)).length < 2 ^ 64) (s : CdbParser)
    (mod : CdbgInfoModule) :
    ∃ symbol : CdbgInfoSymbol, (∀ scope, { symbol with scope := scope } = r.info scope) ∧
      parseRaw (str "S:" ++ r.content (scopeChar :: rest)) (withModule s mod)
        = storeSymbol scopeChar rest symbol (withModule s mod) := by
  have hend : EndsPlain (58 :: r.content (scopeChar :: rest)) :=
    ((((((((suffix_endsPlain r).cons 41).append _).cons 40).append _).cons 36).append _).cons
      36).append _ |>.cons 58
  have hcontent : (r.content (scopeChar :: rest)).length < 2 ^ 64 := by
    rw [List.length_append] at hsize
    omega
  obtain ⟨symbol, hinfo, hparse⟩ :=
    parseSymbol_content r hdollar hparen hcontent (withModule_isEmpty s mod)
  exact ⟨symbol, hinfo, (parseRaw_line 83 rfl hend _).trans hparse⟩

/-- **The record of a local symbol** adds it to its function, which is the last one. -/
theorem parseRaw_local (r : CdbSymbol) (module function : Name)
    (hsize : (str "S:" ++ r.content (localScope module function)).length < 2 ^ 64) (s : CdbParser)
    (mod : CdbgInfoModule) {fs : List CdbgInfoFunction} {fn : CdbgInfoFunction}
    (hfs : ∀ x ∈ fs, x.name ≠ function.text) (hfn : fn.name = function.text) :
    parseRaw (str "S:" ++ r.content (localScope module function))
        (withModule s { mod with functions := fs ++ [fn] })
      = some (withModule s { mod with functions := fs ++
          [{ fn with localSymbols := fn.localSymbols ++ [r.info (str "local")] }] }) := by
  have hnone : ¬ fs.any (fun func => func.name == function.text) = true := by simpa using hfs
  have hfirst : ∀ (f : CdbgInfoFunction → CdbgInfoFunction),
      modifyFirst (fun func => func.name == function.text) f (fs ++ [fn]) = fs ++ [f fn] := by
    intro f
    rw [modifyFirst_append, if_neg hnone, modifyFirst, if_pos (beq_iff_eq.mpr hfn)]
  obtain ⟨symbol, hinfo, hparse⟩ := parseRaw_symbol r
    (localScope_not_mem module function (by decide) (by decide) (by decide))
    (localScope_not_mem module function (by decide) (by decide) (by decide)) hsize s
    { mod with functions := fs ++ [fn] }
  have hdot : find (module.text ++ 46 :: function.text) 46 0 = some module.text.length :=
    find_first (module.not_mem (by decide)) _
  have hbehind : substrFrom (module.text ++ 46 :: function.text) (module.text.length + 1)
      = some function.text := by
    rw [substrFrom_of_le (by simp), drop_separator]
  have hstore : parseRaw (str "S:" ++ r.content (localScope module function))
      (withModule s { mod with functions := fs ++ [fn] }) = storeSymbol 76
        (module.text ++ 46 :: function.text) symbol
        (withModule s { mod with functions := fs ++ [fn] }) := hparse
  rw [hstore, storeSymbol, if_pos rfl, hdot]
  dsimp only
  rw [hbehind]
  show some (CdbParser.modifyCurrent _ _) = _
  rw [modifyCurrent_withModule]
  dsimp only
  rw [hfirst, hinfo]

/-- **The record of a declaration** adds its symbol or its type. -/
theorem parseRaw_decl (d : CdbDecl) (module : Name) (hsize : (d.line module).length < 2 ^ 64)
    (s : CdbParser) (mod : CdbgInfoModule) :
    parseRaw (d.line module) (withModule s mod) = some (withModule s { mod with
      globalSymbols := mod.globalSymbols ++ d.symbol?.toList,
      types := mod.types ++ d.type?.toList }) := by
  cases d with
  | type isGlobal name fields =>
    have hcontent : (scopeText isGlobal module ++ 36 :: (name.text ++ 91 :: (fields ++ [93]))).length
        < 2 ^ 64 := by
      rw [CdbDecl.line, List.length_append] at hsize
      omega
    have hend : EndsPlain (58 :: (scopeText isGlobal module ++
        36 :: (name.text ++ 91 :: (fields ++ [93])))) :=
      ⟨58 :: (scopeText isGlobal module ++ 36 :: (name.text ++ 91 :: fields)), 93, by simp, rfl⟩
    have hparse := parseType_content isGlobal module name fields hcontent s mod
    refine (parseRaw_line 84 rfl hend _).trans (hparse.trans ?_)
    rw [CdbDecl.symbol?, CdbDecl.type?, Option.toList_none, List.append_nil]
    rfl
  | symbol isGlobal r =>
    have hdollar : (36 : UInt8) ∉ scopeText isGlobal module :=
      scopeText_not_mem isGlobal module (by decide) (by decide) (by decide)
    have hparen : (40 : UInt8) ∉ scopeText isGlobal module :=
      scopeText_not_mem isGlobal module (by decide) (by decide) (by decide)
    have hstore : ∃ symbol : CdbgInfoSymbol, (∀ scope, { symbol with scope := scope } = r.info scope) ∧
        parseRaw (str "S:" ++ r.content (scopeText isGlobal module)) (withModule s mod)
          = some (withModule s { mod with globalSymbols := mod.globalSymbols ++
              [{ symbol with scope := scopeName isGlobal }] }) := by
      cases isGlobal with
      | true =>
        obtain ⟨symbol, hinfo, hparse⟩ := parseRaw_symbol r hdollar hparen hsize s mod
        refine ⟨symbol, hinfo, hparse.trans ?_⟩
        exact congrArg some (modifyCurrent_withModule _ s mod)
      | false =>
        obtain ⟨symbol, hinfo, hparse⟩ := parseRaw_symbol r hdollar hparen hsize s mod
        refine ⟨symbol, hinfo, hparse.trans ?_⟩
        exact congrArg some (modifyCurrent_withModule _ s mod)
    obtain ⟨symbol, hinfo, hparse⟩ := hstore
    rw [hinfo] at hparse
    apply hparse.trans
    rw [CdbDecl.symbol?, CdbDecl.type?, Option.toList_none, List.append_nil]
    rfl

/-! ## Whole texts -/

section
variable (module : Name) (s : CdbParser) (mod : CdbgInfoModule)

/-- The local symbols of the last function. -/
theorem exec_locals (function : Name) {fs : List CdbgInfoFunction}
    (hfs : ∀ x ∈ fs, x.name ≠ function.text) (rs : List CdbSymbol)
    (hsize : ∀ r ∈ rs, (str "S:" ++ r.content (localScope module function)).length < 2 ^ 64)
    {fn : CdbgInfoFunction} (hfn : fn.name = function.text) :
    Run.exec parseRaw (rs.map fun r => str "S:" ++ r.content (localScope module function))
        (withModule s { mod with functions := fs ++ [fn] })
      = some (withModule s { mod with functions := fs ++ [{ fn with
          localSymbols := fn.localSymbols ++ rs.map (CdbSymbol.info (str "local")) }] }) := by
  induction rs generalizing fn with
  | nil => simp
  | cons r rs ih =>
    obtain ⟨hr, hrs⟩ := List.forall_mem_cons.mp hsize
    have hrest := ih hrs (show CdbgInfoFunction.name { fn with
      localSymbols := fn.localSymbols ++ [r.info (str "local")] } = function.text from hfn)
    rw [List.map_cons, Run.exec_cons, parseRaw_local r module function hr s mod hfs hfn,
      Option.bind_some, hrest, List.map_cons, List.append_assoc, List.singleton_append]

/-- A function behind others. -/
theorem exec_function (f : CdbFunction)
    (hsize : ∀ line ∈ f.lines module, line.length < 2 ^ 64) {fs : List CdbgInfoFunction}
    (hfs : ∀ x ∈ fs, x.name ≠ f.name.text) :
    Run.exec parseRaw (f.lines module) (withModule s { mod with functions := fs })
      = some (withModule s { mod with functions := fs ++ [f.info] }) := by
  have hlocals : ∀ r ∈ f.locals, (str "S:" ++ r.content (localScope module f.name)).length < 2 ^ 64 :=
    fun r hr => hsize _ (List.mem_cons_of_mem _ (List.mem_map_of_mem hr))
  have hrest := exec_locals module s mod f.name hfs f.locals hlocals
    (show CdbgInfoFunction.name { name := f.name.text, scope := scopeName f.isGlobal } = f.name.text
      from rfl)
  rw [CdbFunction.lines, Run.exec_cons, parseRaw_function, Option.bind_some, hrest]
  rfl

/-- **The functions of a module**, behind those that are there. -/
theorem exec_functions (functions : List CdbFunction)
    (hsize : ∀ line ∈ functions.flatMap (CdbFunction.lines module), line.length < 2 ^ 64)
    (hdistinct : (functions.map fun f => f.name.text).Nodup) {fs : List CdbgInfoFunction}
    (hfs : ∀ x ∈ fs, ∀ f ∈ functions, x.name ≠ f.name.text) :
    Run.exec parseRaw (functions.flatMap (CdbFunction.lines module))
        (withModule s { mod with functions := fs })
      = some (withModule s { mod with functions := fs ++ functions.map CdbFunction.info }) := by
  induction functions generalizing fs with
  | nil => simp
  | cons f functions ih =>
    rw [List.flatMap_cons] at hsize ⊢
    obtain ⟨hf, hrest⟩ := List.forall_mem_append.mp hsize
    obtain ⟨hnew, hdistinct⟩ := List.nodup_cons.mp hdistinct
    have hone := exec_function module s mod f hf fun x hx => hfs x hx f List.mem_cons_self
    -- the new function has another name than those to come
    have hmore : ∀ x ∈ fs ++ [f.info], ∀ f' ∈ functions, x.name ≠ f'.name.text := by
      intro x hx f' hf'
      rcases List.mem_append.mp hx with hx | hx
      · exact hfs x hx f' (List.mem_cons_of_mem f hf')
      · rw [List.mem_singleton.mp hx]
        intro heq
        exact hnew (List.mem_map.mpr ⟨f', hf', heq.symm⟩)
    rw [Run.exec_append, hone, Option.bind_some, ih hrest hdistinct hmore, List.map_cons,
      List.append_assoc, List.singleton_append]

/-- **The declarations of a module.** -/
theorem exec_decls (decls : List CdbDecl)
    (hsize : ∀ line ∈ decls.map (CdbDecl.line module), line.length < 2 ^ 64) :
    Run.exec parseRaw (decls.map (CdbDecl.line module)) (withModule s mod)
      = some (withModule s { mod with
          globalSymbols := mod.globalSymbols ++ decls.filterMap CdbDecl.symbol?,
          types := mod.types ++ decls.filterMap CdbDecl.type? }) := by
  induction decls generalizing mod with
  | nil => simp
  | cons d decls ih =>
    rw [List.map_cons] at hsize ⊢
    obtain ⟨hd, hrest⟩ := List.forall_mem_cons.mp hsize
    have hcons : ∀ {α : Type} (g : CdbDecl → Option α),
        (d :: decls).filterMap g = (g d).toList ++ decls.filterMap g := by
      intro α g
      rw [List.filterMap_cons]
      cases g d with
      | none => rfl
      | some a => rfl
    rw [Run.exec_cons, parseRaw_decl d module hd, Option.bind_some, ih _ hrest, hcons, hcons,
      ← List.append_assoc, ← List.append_assoc]

end

/-- **A module** is added behind those that are there. -/
theorem exec_module (m : CdbModule) (hsize : ∀ line ∈ m.lines, line.length < 2 ^ 64)
    (s : CdbParser) : Run.exec parseRaw m.lines s = some (withModule s m.info) := by
  rw [CdbModule.lines] at hsize ⊢
  obtain ⟨hfront, hdecls⟩ := List.forall_mem_append.mp hsize
  have hnone : ∀ x ∈ ([] : List CdbgInfoFunction), ∀ f ∈ m.functions, x.name ≠ f.name.text :=
    fun x hx => absurd hx List.not_mem_nil
  have hfunctions := exec_functions m.name s
    { name := m.name.text, file := m.name.text ++ str ".c" } m.functions
    (List.forall_mem_cons.mp hfront).2 m.distinct hnone
  rw [Run.exec_append, Run.exec_cons, parseRaw_module, Option.bind_some, hfunctions,
    Option.bind_some, exec_decls m.name s _ m.decls hdecls]
  rfl

theorem exec_modules (ms : List CdbModule)
    (hsize : ∀ line ∈ ms.flatMap CdbModule.lines, line.length < 2 ^ 64) (s : CdbParser) :
    Run.exec parseRaw (ms.flatMap CdbModule.lines) s
      = some { s with data := s.data ++ ms.map CdbModule.info } := by
  induction ms generalizing s with
  | nil => simp
  | cons m ms ih =>
    rw [List.flatMap_cons] at hsize ⊢
    obtain ⟨hm, hms⟩ := List.forall_mem_append.mp hsize
    rw [Run.exec_append, exec_module m hm, Option.bind_some, ih hms, withModule, List.map_cons,
      List.append_assoc, List.singleton_append]

/-- A line is not longer than its text. -/
theorem length_of_mem_getLines {content line : Str} (h : line ∈ getLines content) :
    line.length ≤ content.length := by
  have hpart : line ∈ content.splitOn 10 := by
    unfold getLines at h
    dsimp only at h
    split at h
    · exact List.mem_of_mem_dropLast h
    · exact h
  have hjoin : ∀ l : List Str, line ∈ l → line.length ≤ ([10].intercalate l).length := by
    intro l hl
    induction l with
    | nil => exact absurd hl List.not_mem_nil
    | cons x l ih =>
      rcases List.mem_cons.mp hl with rfl | hl
      · cases l with
        | nil => simp
        | cons y l => simp [List.intercalate_cons_of_ne_nil]
      · have hne : l ≠ [] := List.ne_nil_of_mem hl
        have hrest := ih hl
        rw [List.intercalate_cons_of_ne_nil hne, List.length_append, List.length_append]
        omega
  have hlength := hjoin _ hpart
  rwa [List.intercalate_splitOn] at hlength

/-- **The round trip.**  From a text whose lines are the records of some modules, the parser delivers
    these modules, with all that they hold and nothing else. -/
theorem parse_records (order : HashOrder) {content : Str} (hsize : content.length < 2 ^ 64)
    {ms : List CdbModule} (h : getLines content = ms.flatMap CdbModule.lines) :
    parseText order content = some (ms.map CdbModule.info) := by
  have hlines : ∀ line ∈ ms.flatMap CdbModule.lines, line.length < 2 ^ 64 := by
    intro line hline
    rw [← h] at hline
    exact Nat.lt_of_le_of_lt (length_of_mem_getLines hline) hsize
  have hempty : order.modules (Table.toList ∅) = [] := by
    have hperm := order.modules_perm (Table.toList ∅)
    exact List.perm_nil.mp hperm
  rw [parseText, h, exec_modules ms hlines, Option.map_some, mergeAsmLines]
  dsimp only
  rw [hempty]
  rfl

end CdbParser

/-! ## One module of the compiler -/

/-- A symbol in a register, or on the stack where it has none. -/
def clockSymbol (name : Name) (storage : UInt8)
    (h : (65 ≤ storage ∧ storage ≤ 90) ∨ (97 ≤ storage ∧ storage ≤ 122)) (offset : Int)
    (hoffset : InInt offset) (registers : Option (TextWithout 93)) : CdbSymbol where
  name := name
  level := ⟨str "0_1$0", by decide⟩
  byteSize := 97
  byteSize_int := by decide
  type := ⟨str "SI:S", by decide⟩
  storage := storage
  storage_letter := h
  bank := 1
  offset := offset
  offset_int := hoffset
  registers := registers

/-- A module with a global function, its two local symbols, a type and a symbol of the file. -/
def clock : CdbModule where
  name := ⟨str "clock", by decide⟩
  functions := [{
    name := ⟨str "clock_init", by decide⟩
    isGlobal := true
    signature := str "0_0$0(\x7b2\x7dDF,SV:S),Z,0,0,0,0,0"
    locals := [
      clockSymbol ⟨str "i", by decide⟩ 82 (by decide) 0 (by decide) (some ⟨str "c,b", by decide⟩),
      clockSymbol ⟨str "hour", by decide⟩ 66 (by decide) (-2) (by decide) none] }]
  distinct := List.nodup_singleton _
  decls := [.type false ⟨str "dim_s", by decide⟩ (str "(\x7b0\x7dS:S$w$0_0$0(\x7b2\x7dSI:S),Z,0,0)"),
    .symbol false (clockSymbol ⟨str "clk", by decide⟩ 69 (by decide) 0 (by decide) none)]

/-- What it is written as, and what is read. -/
theorem parse_records_clock :
    clock.lines = [str "M:clock", str "F:G$clock_init$0_0$0(\x7b2\x7dDF,SV:S),Z,0,0,0,0,0",
      str "S:Lclock.clock_init$i$0_1$0(\x7b97\x7dSI:S),R,1,0,[c,b]",
      str "S:Lclock.clock_init$hour$0_1$0(\x7b97\x7dSI:S),B,1,-2",
      str "T:Fclock$dim_s[(\x7b0\x7dS:S$w$0_0$0(\x7b2\x7dSI:S),Z,0,0)]",
      str "S:Fclock$clk$0_1$0(\x7b97\x7dSI:S),E,1,0"] ∧
    CdbParser.parseText ⟨id, id, List.Perm.refl, List.Perm.refl⟩ (unlines clock.lines)
      = some [clock.info] := by
  have hlines : clock.lines.all (fun line => !line.contains 10) = true := by decide +kernel
  have hfree : ∀ line ∈ clock.lines, (10 : UInt8) ∉ line := by
    intro line hline
    simpa using List.all_eq_true.mp hlines line hline
  have hrecords : getLines (unlines clock.lines) = [clock].flatMap CdbModule.lines := by
    rw [getLines_unlines hfree, List.flatMap_singleton]
  exact ⟨by decide +kernel, CdbParser.parse_records _ (by decide +kernel) hrecords⟩

end Udap.Sdcc
