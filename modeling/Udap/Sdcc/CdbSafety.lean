/-
  THE CDB PARSER RUNS TO ITS END — which texts make it read outside of a line.

  Every record is cut up by positions found in it.  Each search is checked before its result is
  used, and a position found is inside the line (`find_lt`), so no `substr` starts past the end and
  every number conversion is caught.  What is not checked is the first character of the records of
  functions, symbols and types: `content[0]` of a record with nothing behind its colon.

  1. **Records** — a method ends (`Ends`) on every content that is not empty, and on the empty one
     as long as there is no module; line records always end.
  2. **Lines** — `parseRaw_cases`: a line fails exactly if it is an empty record (`EmptyRecord`)
     behind a module record (`ModuleRecord`).
  3. **Texts** — `parse_ends_iff`, by induction on the lines.
-/
import Udap.Sdcc.CdbParser

set_option linter.unusedVariables false

namespace Udap.Sdcc.CdbParser

open Udap Udap.Cxx

/-! ## Records -/

/-- The method ends, and there are modules behind it if there were before it. -/
def Ends (s : CdbParser) (r : Option CdbParser) : Prop :=
  ∃ t, r = some t ∧ t.data.isEmpty = s.data.isEmpty

theorem ends_same (s : CdbParser) : Ends s (some s) := ⟨s, rfl, rfl⟩

theorem ends_modifyCurrent (s : CdbParser) (f : CdbgInfoModule → CdbgInfoModule) :
    Ends s (some (s.modifyCurrent f)) := ⟨_, rfl, modifyLast_isEmpty f s.data⟩

theorem behindDot_ends (name : Str) : ∃ text, behindDot name = some text := by
  unfold behindDot
  split
  · rename_i dot hdot
    exact ⟨_, substrFrom_of_le (find_lt hdot)⟩
  · exact ⟨name, rfl⟩

theorem parseFunction_ends {content : Str} (hcontent : content ≠ []) (s : CdbParser) :
    Ends s (parseFunction content s) := by
  obtain ⟨first, rest, rfl⟩ := List.exists_cons_of_ne_nil hcontent
  unfold parseFunction
  split
  · exact ends_same s
  simp only [List.head?_cons, Option.bind_eq_bind, Option.bind_some]
  split
  · exact ends_same s
  rename_i d1 hd1
  split
  · exact ends_same s
  rename_i d2 hd2
  obtain ⟨name, hname⟩ := behindDot_ends (((first :: rest).drop (d1 + 1)).take (d2 - d1 - 1))
  rw [substr_of_le (find_lt hd1), Option.bind_some, hname, Option.bind_some]
  exact ends_modifyCurrent s _

theorem bracketText_ends {content : Str} {bracket : Nat} (h : bracket ≤ content.length) :
    ∃ text, bracketText content bracket = some text := by
  unfold bracketText
  split
  · exact ⟨_, substr_of_le h _⟩
  · exact ⟨[], rfl⟩

theorem parseType_ends {content : Str} (hcontent : content ≠ []) (s : CdbParser) :
    Ends s (parseType content s) := by
  obtain ⟨first, rest, rfl⟩ := List.exists_cons_of_ne_nil hcontent
  unfold parseType
  split
  · exact ends_same s
  simp only [List.head?_cons, Option.bind_eq_bind, Option.bind_some]
  split
  · exact ends_same s
  rename_i d1 hd1
  split
  · exact ends_same s
  rename_i bracket hbracket
  obtain ⟨name, hname⟩ :=
    behindDot_ends (((first :: rest).drop (d1 + 1)).take (sizeSub bracket (d1 + 1)))
  obtain ⟨typeInfo, htype⟩ := bracketText_ends (Nat.le_of_lt (find_lt hbracket))
  rw [substr_of_le (find_lt hd1), Option.bind_some, hname, Option.bind_some, htype,
    Option.bind_some]
  exact ends_modifyCurrent s _

/-! ### Symbols -/

theorem sizeOf_ends (typeInfo : Str) : ∃ size, sizeOf typeInfo = some size := by
  unfold sizeOf
  split
  · split
    · rename_i close hclose
      have hlt := find_lt hclose
      rw [substr_of_le (by omega)]
      exact ⟨_, rfl⟩
    · exact ⟨1, rfl⟩
  · exact ⟨1, rfl⟩

theorem regListOf_ends (suffix : Str) : ∃ regs, regListOf suffix = some regs := by
  unfold regListOf
  split
  · exact ⟨[], rfl⟩
  rename_i bracket hbracket
  split
  · exact ⟨[], rfl⟩
  · exact ⟨_, substr_of_le (find_lt hbracket) _⟩

theorem applySuffix_ends (suffix : Str) (symbol : CdbgInfoSymbol) :
    ∃ result, applySuffix suffix symbol = some result := by
  obtain ⟨regs, hregs⟩ := regListOf_ends suffix
  unfold applySuffix
  rw [hregs]
  exact ⟨_, rfl⟩

theorem applyType_ends (content : Str) (symbol : CdbgInfoSymbol) :
    ∃ result, applyType content symbol = some result := by
  unfold applyType
  split
  · exact ⟨symbol, rfl⟩
  rename_i p1 hp1
  split
  · exact ⟨symbol, rfl⟩
  rename_i p2 hp2
  obtain ⟨size, hsize⟩ := sizeOf_ends ((content.drop (p1 + 1)).take (p2 - p1 - 1))
  rw [substr_of_le (find_lt hp1), Option.bind_eq_bind, Option.bind_some, hsize, Option.bind_eq_bind,
    Option.bind_some]
  split
  · rename_i hmore
    rw [substrFrom_of_le (by omega)]
    exact applySuffix_ends _ _
  · exact ⟨_, rfl⟩

theorem storeSymbol_ends (scopeChar : UInt8) (scopeText : Str) (symbol : CdbgInfoSymbol)
    (s : CdbParser) : Ends s (storeSymbol scopeChar scopeText symbol s) := by
  unfold storeSymbol
  split
  · split
    · exact ends_same s
    · rename_i dot hdot
      rw [substrFrom_of_le (find_lt hdot)]
      exact ends_modifyCurrent s _
  · exact ends_modifyCurrent s _

theorem parseSymbol_ends {content : Str} (hcontent : content ≠ []) (s : CdbParser) :
    Ends s (parseSymbol content s) := by
  obtain ⟨first, rest, rfl⟩ := List.exists_cons_of_ne_nil hcontent
  unfold parseSymbol
  split
  · exact ends_same s
  simp only [List.head?_cons, Option.bind_eq_bind, Option.bind_some]
  split
  · exact ends_same s
  rename_i d1 hd1
  rw [substr_of_le (by simp), Option.bind_some]
  split
  · exact ends_same s
  rename_i d2 hd2
  obtain ⟨symbol, hsymbol⟩ := applyType_ends (first :: rest)
    { name := ((first :: rest).drop (d1 + 1)).take (d2 - d1 - 1) }
  rw [substr_of_le (find_lt hd1), Option.bind_some, hsymbol, Option.bind_some]
  exact storeSymbol_ends _ _ _ s

/-! ### Lines and function markers -/

theorem addressBehind_ends {content : Str} {colon : Nat} (h : colon < content.length) :
    ∃ address, addressBehind content colon = some address := by
  unfold addressBehind
  rw [substrFrom_of_le h]
  exact ⟨_, rfl⟩

theorem parseFuncMarker_ends (content : Str) (isEnd : Bool) (s : CdbParser) :
    Ends s (parseFuncMarker content isEnd s) := by
  unfold parseFuncMarker
  split
  · exact ends_same s
  rename_i colon hcolon
  obtain ⟨address, haddress⟩ := addressBehind_ends (rfind_lt hcolon)
  rw [haddress, Option.bind_eq_bind, Option.bind_some]
  split
  · exact ends_same s
  split
  · exact ends_same s
  rename_i d1 hd1
  split
  · exact ends_same s
  rw [substr_of_le (Nat.zero_le _), substr_of_le (find_lt hd1)]
  exact ⟨_, rfl, modifyFirst_isEmpty _ _ s.data⟩

theorem parseAsmLine_ends (content : Str) (s : CdbParser) : Ends s (parseAsmLine content s) := by
  unfold parseAsmLine
  split
  · exact ends_same s
  rename_i d1 hd1
  split
  · exact ends_same s
  rename_i d2 hd2
  split
  · exact ends_same s
  rename_i colon hcolon
  split
  · exact ends_same s
  rw [substr_of_le (find_lt hd1), substr_of_le (find_lt hd2), Option.bind_eq_bind, Option.bind_some,
    Option.bind_eq_bind, Option.bind_some]
  split
  · exact ends_same s
  obtain ⟨address, haddress⟩ := addressBehind_ends (rfind_lt hcolon)
  rw [haddress, Option.bind_some]
  split
  · exact ends_same s
  · exact ⟨_, rfl, rfl⟩

theorem storeLine_isEmpty (ln : CdbgInfoLine) (modName : Str) (s : CdbParser) :
    (s.storeLine ln modName).data.isEmpty = s.data.isEmpty := by
  unfold storeLine
  split
  · exact modifyLast_isEmpty _ s.data
  · exact modifyFirst_isEmpty _ _ s.data

theorem lineAddress_ends (last : Str) : ∃ address, lineAddress last = some address := by
  unfold lineAddress
  split
  · exact ⟨0, rfl⟩
  · rename_i colon hcolon
    obtain ⟨address, haddress⟩ := addressBehind_ends (find_lt hcolon)
    rw [haddress]
    exact ⟨_, rfl⟩

theorem moduleNameOf_ends (file : Str) : ∃ name, moduleNameOf file = some name := by
  unfold moduleNameOf
  split
  · exact ⟨[], rfl⟩
  · exact ⟨_, substr_of_le (Nat.zero_le _) _⟩

theorem parseCLine_ends (content : Str) (s : CdbParser) : Ends s (parseCLine content s) := by
  unfold parseCLine
  split
  · rename_i c file number level rest hparts
    split
    · exact ends_same s
    obtain ⟨address, haddress⟩ :=
      lineAddress_ends ((level :: rest).getLast (List.cons_ne_nil level rest))
    obtain ⟨modName, hmodName⟩ := moduleNameOf_ends (file.map fun b => if b = 92 then 47 else b)
    dsimp only
    rw [haddress, hmodName]
    exact ⟨_, rfl, storeLine_isEmpty _ _ s⟩
  · exact ends_same s

/-- A line record ends whatever it holds: this method does check for an empty content. -/
theorem parseLineInfo_ends (content : Str) (s : CdbParser) : Ends s (parseLineInfo content s) := by
  unfold parseLineInfo
  split
  · exact ends_same s
  · exact parseFuncMarker_ends _ _ s
  · exact parseFuncMarker_ends _ _ s
  · exact parseFuncMarker_ends _ _ s
  · exact parseFuncMarker_ends _ _ s
  · exact parseAsmLine_ends _ s
  · exact parseCLine_ends _ s
  · exact ends_same s

/-! ## Lines -/

/-- A record of a function, a symbol or a type with nothing behind its colon. -/
def EmptyRecord (line : Str) : Prop :=
  trim line = str "F:" ∨ trim line = str "S:" ∨ trim line = str "T:"

instance (line : Str) : Decidable (EmptyRecord line) := inferInstanceAs (Decidable (_ ∨ _))

/-- A record that starts a module. -/
def ModuleRecord (line : Str) : Prop := str "M:" <+: trim line

instance (line : Str) : Decidable (ModuleRecord line) := inferInstanceAs (Decidable (_ <+: _))

/-- The first character of an empty record is read as soon as there is a module. -/
theorem parse_empty_record {s : CdbParser} (hs : s.data.isEmpty = false) :
    parseFunction [] s = none ∧ parseSymbol [] s = none ∧ parseType [] s = none := by
  have hne : ¬ s.data.isEmpty = true := by rw [hs]; exact Bool.false_ne_true
  refine ⟨?_, ?_, ?_⟩
  · rw [parseFunction, if_neg hne]
    rfl
  · rw [parseSymbol, if_neg hne]
    rfl
  · rw [parseType, if_neg hne]
    rfl

theorem parse_record_before_modules {s : CdbParser} (hs : s.data.isEmpty = true) (content : Str) :
    parseFunction content s = some s ∧ parseSymbol content s = some s ∧
      parseType content s = some s :=
  ⟨if_pos hs, if_pos hs, if_pos hs⟩

theorem moduleRecord_iff {line : Str} :
    ModuleRecord line ↔ ∃ content, recordOf line = some (77, content) := by
  constructor
  · rintro ⟨content, h⟩
    exact ⟨content, recordOf_eq_some.mpr h.symm⟩
  · rintro ⟨content, h⟩
    exact ⟨content, (recordOf_eq_some.mp h).symm⟩

theorem emptyRecord_iff {line : Str} :
    EmptyRecord line ↔
      ∃ type, (type = 70 ∨ type = 83 ∨ type = 84) ∧ recordOf line = some (type, []) := by
  constructor
  · rintro (h | h | h)
    · exact ⟨70, Or.inl rfl, recordOf_eq_some.mpr h⟩
    · exact ⟨83, Or.inr (Or.inl rfl), recordOf_eq_some.mpr h⟩
    · exact ⟨84, Or.inr (Or.inr rfl), recordOf_eq_some.mpr h⟩
  · rintro ⟨type, rfl | rfl | rfl, h⟩
    · exact Or.inl (recordOf_eq_some.mp h)
    · exact Or.inr (Or.inl (recordOf_eq_some.mp h))
    · exact Or.inr (Or.inr (recordOf_eq_some.mp h))

/-- What may come of a line: it fails if it is an empty record behind a module record; every other
    line ends, and from a module record on there are modules. -/
def Outcome (line : Str) (s : CdbParser) (r : Option CdbParser) : Prop :=
  (EmptyRecord line ∧ s.data.isEmpty = false ∧ r = none) ∨
    ((EmptyRecord line → s.data.isEmpty = true) ∧ ∃ t, r = some t ∧
      (t.data.isEmpty = true ↔ s.data.isEmpty = true ∧ ¬ ModuleRecord line))

theorem outcome_of_ends {line : Str} {s : CdbParser} {r : Option CdbParser}
    (hempty : ¬ EmptyRecord line) (hmodule : ¬ ModuleRecord line) (h : Ends s r) :
    Outcome line s r := by
  obtain ⟨t, ht, hdata⟩ := h
  refine Or.inr ⟨fun h => absurd h hempty, t, ht, ?_⟩
  rw [hdata, and_iff_left hmodule]

/-- A record whose method looks at its first character. -/
theorem outcome_firstRead {line content : Str} {type : UInt8} {s : CdbParser}
    {method : Str → CdbParser → Option CdbParser} (hrecord : recordOf line = some (type, content))
    (htype : type = 70 ∨ type = 83 ∨ type = 84) (hends : content ≠ [] → Ends s (method content s))
    (hfails : s.data.isEmpty = false → method [] s = none)
    (hskips : s.data.isEmpty = true → method content s = some s) :
    Outcome line s (method content s) := by
  have hmodule : ¬ ModuleRecord line := by
    rw [moduleRecord_iff, hrecord]
    rintro ⟨content', heq⟩
    obtain rfl : type = 77 := (Prod.mk.inj (Option.some.inj heq)).1
    exact absurd htype (by decide)
  by_cases hcontent : content = []
  · subst hcontent
    have hempty : EmptyRecord line := emptyRecord_iff.mpr ⟨type, htype, hrecord⟩
    cases hdata : s.data.isEmpty with
    | false => exact Or.inl ⟨hempty, hdata, hfails hdata⟩
    | true =>
      refine Or.inr ⟨fun _ => hdata, s, hskips hdata, ?_⟩
      rw [hdata, and_iff_left hmodule]
  · refine outcome_of_ends ?_ hmodule (hends hcontent)
    rw [emptyRecord_iff, hrecord]
    rintro ⟨type', -, heq⟩
    exact hcontent (Prod.mk.inj (Option.some.inj heq)).2

/-- **The step lemma**, with one case for each letter. -/
theorem parseRaw_cases (line : Str) (s : CdbParser) : Outcome line s (parseRaw line s) := by
  rw [parseRaw_eq]
  cases hrecord : recordOf line with
  | none =>
    refine outcome_of_ends ?_ ?_ (ends_same s)
    · rw [emptyRecord_iff, hrecord]
      rintro ⟨type, -, h⟩
      cases h
    · rw [moduleRecord_iff, hrecord]
      rintro ⟨content, h⟩
      cases h
  | some record =>
    obtain ⟨type, content⟩ := record
    show Outcome line s (if type = 77 then some (parseModule content s)
      else if type = 70 then parseFunction content s
      else if type = 83 then parseSymbol content s
      else if type = 84 then parseType content s
      else if type = 76 then parseLineInfo content s
      else some s)
    split
    · rename_i hM
      rw [hM] at hrecord
      have hmodule : ModuleRecord line := moduleRecord_iff.mpr ⟨content, hrecord⟩
      have hdata : (parseModule content s).data.isEmpty = false := by
        show (s.data ++ [_]).isEmpty = false
        simp
      refine Or.inr ⟨fun hempty => ?_, _, rfl, ?_⟩
      · obtain ⟨type', htype, heq⟩ := emptyRecord_iff.mp hempty
        rw [hrecord] at heq
        obtain rfl : 77 = type' := (Prod.mk.inj (Option.some.inj heq)).1
        exact absurd htype (by decide)
      · rw [hdata]
        exact iff_of_false Bool.false_ne_true fun h => h.2 hmodule
    rename_i hM
    split
    · rename_i hF
      exact outcome_firstRead hrecord (Or.inl hF) (fun hc => parseFunction_ends hc s)
        (fun hs => (parse_empty_record hs).1) fun hs => (parse_record_before_modules hs content).1
    rename_i hF
    split
    · rename_i hS
      exact outcome_firstRead hrecord (Or.inr (Or.inl hS)) (fun hc => parseSymbol_ends hc s)
        (fun hs => (parse_empty_record hs).2.1)
        fun hs => (parse_record_before_modules hs content).2.1
    rename_i hS
    split
    · rename_i hT
      exact outcome_firstRead hrecord (Or.inr (Or.inr hT)) (fun hc => parseType_ends hc s)
        (fun hs => (parse_empty_record hs).2.2)
        fun hs => (parse_record_before_modules hs content).2.2
    rename_i hT
    refine outcome_of_ends ?_ ?_ ?_
    · rw [emptyRecord_iff, hrecord]
      rintro ⟨type', htype, heq⟩
      obtain rfl : type = type' := (Prod.mk.inj (Option.some.inj heq)).1
      rcases htype with h | h | h
      · exact hF h
      · exact hS h
      · exact hT h
    · rw [moduleRecord_iff, hrecord]
      rintro ⟨content', heq⟩
      exact hM (Prod.mk.inj (Option.some.inj heq)).1
    · split
      · exact parseLineInfo_ends content s
      · exact ends_same s

/-! ## Texts -/

/-- The run over the lines of a text ends if and only if no empty record stands behind a module
    record. -/
theorem exec_parseRaw_isSome (lines : List Str) (s : CdbParser) :
    (Run.exec parseRaw lines s).isSome = true ↔
      ∀ pre line post, lines = pre ++ line :: post → EmptyRecord line →
        s.data.isEmpty = true ∧ ∀ earlier ∈ pre, ¬ ModuleRecord earlier := by
  induction lines generalizing s with
  | nil =>
    refine ⟨fun _ pre line post h => ?_, fun _ => rfl⟩
    exact absurd h (by simp)
  | cons first rest ih =>
    rw [Run.exec_cons]
    rcases parseRaw_cases first s with ⟨hempty, hdata, hfail⟩ | ⟨hguard, t, ht, hmods⟩
    · rw [hfail]
      refine ⟨fun h => absurd h Bool.false_ne_true, fun h => ?_⟩
      have hnone := (h [] first rest rfl hempty).1
      rw [hdata] at hnone
      exact absurd hnone Bool.false_ne_true
    · rw [ht, Option.bind_some, ih t]
      constructor
      · intro h pre line post hsplit hempty
        cases pre with
        | nil =>
          obtain ⟨rfl, -⟩ := List.cons.inj hsplit
          exact ⟨hguard hempty, fun earlier hearlier => absurd hearlier List.not_mem_nil⟩
        | cons first' pre =>
          obtain ⟨rfl, hrest⟩ := List.cons.inj hsplit
          obtain ⟨hdata, hpre⟩ := h pre line post hrest hempty
          obtain ⟨hs, hfirst⟩ := hmods.mp hdata
          exact ⟨hs, List.forall_mem_cons.mpr ⟨hfirst, hpre⟩⟩
      · intro h pre line post hsplit hempty
        obtain ⟨hs, hpre⟩ := h (first :: pre) line post (by rw [hsplit, List.cons_append]) hempty
        obtain ⟨hfirst, hpre⟩ := List.forall_mem_cons.mp hpre
        exact ⟨hmods.mpr ⟨hs, hfirst⟩, hpre⟩

/-- **When the parser ends.**  For every text and every order of the hash tables the parser returns
    a list of modules if and only if no line behind a module record is an empty record of a
    function, a symbol or a type. -/
theorem parse_ends_iff (order : HashOrder) (content : Str) :
    (∃ modules, parseText order content = some modules) ↔
      ∀ pre line post, getLines content = pre ++ line :: post → EmptyRecord line →
        ∀ earlier ∈ pre, ¬ ModuleRecord earlier := by
  rw [← Option.isSome_iff_exists, parseText, Option.isSome_map, exec_parseRaw_isSome]
  refine forall₅_congr fun pre line post _ _ => ?_
  exact and_iff_right rfl

/-- A module and a function record without a content: `content[0]` is past its end. -/
theorem parse_fails_at_empty_record :
    getLines (str "M:a\nF:\n") = [str "M:a", str "F:"] ∧
      parseText ⟨id, id, List.Perm.refl, List.Perm.refl⟩ (str "M:a\nF:\n") = none := by
  refine ⟨by decide, ?_⟩
  have hrun : Run.exec parseRaw (getLines (str "M:a\nF:\n")) {} = none := by decide +kernel
  rw [parseText, hrun, Option.map_none]

end Udap.Sdcc.CdbParser
