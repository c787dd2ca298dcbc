/-
  FUNCTION MARKERS — do the addresses of a function come from its own records?

  The records `L:G$name…` and `L:XG$name…` have the start and the end of a global function, the
  records `L:Fmodule$name…` and `L:XFmodule$name…` those of a static one.  Global variables have
  records of the same form.

  1. **Functions** — `functions` is every function of every module, in their order, and `declared`
     those that the records of a text declare, with no address yet.

  2. **One line** — the record of a function adds it at the end (`parseRaw_declares`); a marker sets
     an address in the first function that it `hits` (`parseRaw_functions`).

  3. **The run** — over a text whose functions come first, the functions are the declared ones after
     all the markers, one behind another (`parse_functions`).

  4. **The result** — they are right if and only if the last marker that ends at a function has the
     address of the last one that is meant for it (`addressesRight_iff_found`).  The search does not
     look at the scope, and goes through all modules for a global function.

  5. **Strangers** — so what can go wrong is in the names: a marker of another scope or module may
     come to a function, and the function's own markers may be caught by one that is declared earlier
     (`Undisturbed`, `addresses_right_iff`).
-/
import Udap.Sdcc.CdbLines

set_option linter.unusedVariables false

namespace Udap.Sdcc

open Udap Udap.Cxx

/-- A function, with the name of its module. -/
structure FunctionEntry where
  module : Str
  name : Str
  scope : Str
  startAddr : UInt16
  endAddr : UInt16
  deriving DecidableEq

/-- The functions of a module. -/
def functionsOf (mod : CdbgInfoModule) : List FunctionEntry :=
  mod.functions.map fun fn => ⟨mod.name, fn.name, fn.scope, fn.startAddr, fn.endAddr⟩

/-- All functions. -/
def functions (data : List CdbgInfoModule) : List FunctionEntry := data.flatMap functionsOf

namespace FunctionEntry

/-- The addresses `start` and `last`. -/
def withAddresses (e : FunctionEntry) (start last : UInt16) : FunctionEntry :=
  { e with startAddr := start, endAddr := last }

end FunctionEntry

namespace CdbParser

/-! ## Functions and markers -/

/-- The scope and the name in the record of a function, as `parse_function` reads them. -/
def readFunction (content : Str) : Option (Str × Str) := do
  let first ← content.head?
  let d1 ← find content 36 0
  let d2 ← find content 36 (d1 + 1)
  let name ← behindDot ((content.drop (d1 + 1)).take (d2 - d1 - 1))
  some (if first = 71 then str "global" else str "local", name)

/-- The function that a line declares, in the module `current`. -/
def declares (current : Option Str) (line : Str) : Option FunctionEntry := do
  let module ← current
  let (70, content) ← recordOf line | none
  let (scope, name) ← readFunction content
  some ⟨module, name, scope, 0xFFFF, 0xFFFF⟩

/-- The functions that some lines declare, behind the record of the module `current`, if any. -/
def declared : Option Str → List Str → List FunctionEntry
  | _, [] => []
  | current, line :: lines =>
    (declares current line).toList ++ declared ((moduleName? line).or current) lines

example : declared none [str "F:G$a$0$0", str "M:m", str "F:G$f$0$0", str "F:Fm$g$0$0"]
    = [⟨str "m", str "f", str "global", 0xFFFF, 0xFFFF⟩,
       ⟨str "m", str "g", str "local", 0xFFFF, 0xFFFF⟩] := by decide +kernel

namespace Marker

/-- Does the search accept the function? -/
def hits (m : Marker) (e : FunctionEntry) : Bool :=
  (m.module.isEmpty || e.module == m.module) && e.name == m.name

/-- Is it a record of the function? -/
def isOf (m : Marker) (e : FunctionEntry) : Bool :=
  e.name == m.name &&
    if m.isGlobal then m.module.isEmpty && e.scope == str "global"
    else e.scope != str "global" && e.module == m.module

/-- Set the address. -/
def set (m : Marker) (e : FunctionEntry) : FunctionEntry :=
  if m.isEnd then { e with endAddr := m.addr } else { e with startAddr := m.addr }

/-- The search ends at function number `k`. -/
def endsAt (m : Marker) (es : List FunctionEntry) (k : Nat) : Bool := es.findIdx? m.hits == some k

end Marker

/-- Set the addresses that some markers have, one after another. -/
def setAll (ms : List Marker) (es : List FunctionEntry) : List FunctionEntry :=
  ms.foldl (fun es m => modifyFirst m.hits m.set es) es

/-- The address of the last marker. -/
def lastAddr (unset : UInt16) (ms : List Marker) : UInt16 :=
  (ms.getLast?.map Marker.addr).getD unset

/-! ## One line -/

/-- A module is accepted if the search accepts one of its functions. -/
theorem accepts_eq_any (m : Marker) (mod : CdbgInfoModule) :
    m.accepts mod = (functionsOf mod).any m.hits := by
  unfold Marker.accepts functionsOf
  rw [List.any_map]
  cases hmod : m.module.isEmpty || mod.name == m.module with
  | true =>
    rw [Bool.true_and]
    refine congrArg mod.functions.any (funext fun fn => ?_)
    show _ = ((m.module.isEmpty || mod.name == m.module) && fn.name == m.name)
    rw [hmod, Bool.true_and]
  | false =>
    rw [Bool.false_and]
    refine (List.any_eq_false.mpr fun fn _ => ?_).symm
    show ¬ ((m.module.isEmpty || mod.name == m.module) && fn.name == m.name) = true
    rw [hmod, Bool.false_and]
    exact Bool.false_ne_true

theorem functionsOf_mark {m : Marker} {mod : CdbgInfoModule} (h : m.accepts mod = true) :
    functionsOf (m.mark mod) = modifyFirst m.hits m.set (functionsOf mod) := by
  have hmod : (m.module.isEmpty || mod.name == m.module) = true := (Bool.and_eq_true_iff.mp h).1
  refine (modifyFirst_map (p := fun fn => fn.name == m.name) (f := markFunction m.isEnd m.addr)
    ?_ ?_ mod.functions).symm
  · intro fn
    show ((m.module.isEmpty || mod.name == m.module) && fn.name == m.name) = _
    rw [hmod, Bool.true_and]
  · intro fn
    unfold markFunction Marker.set
    cases m.isEnd <;> rfl

/-- **The search over modules is a search over functions.** -/
theorem functions_mark (m : Marker) (data : List CdbgInfoModule) :
    functions (modifyFirst m.accepts m.mark data) = modifyFirst m.hits m.set (functions data) := by
  induction data with
  | nil => rfl
  | cons mod data ih =>
    have hcons : functions (mod :: data) = functionsOf mod ++ functions data := List.flatMap_cons
    rw [hcons, modifyFirst_append, ← accepts_eq_any, modifyFirst]
    by_cases haccepts : m.accepts mod = true
    · rw [if_pos haccepts, if_pos haccepts, ← functionsOf_mark haccepts]
      exact List.flatMap_cons
    · rw [if_neg haccepts, if_neg haccepts, ← ih]
      exact List.flatMap_cons

/-- What does not change the functions of a module does not change the list of all. -/
theorem functions_congr {a b : List CdbgInfoModule} (h : b.map functionsOf = a.map functionsOf) :
    functions b = functions a := by
  rw [functions, functions, List.flatMap_def, List.flatMap_def, h]

theorem functionsOf_described {mod mod' : CdbgInfoModule} (h : Described mod mod') :
    functionsOf mod' = functionsOf mod := by
  have hmap : ∀ mod : CdbgInfoModule, functionsOf mod
      = (mod.functions.map signature).map fun x => ⟨mod.name, x.1, x.2.1, x.2.2.1, x.2.2.2⟩ := by
    intro mod
    rw [List.map_map]
    rfl
  rw [hmap, hmap mod, h.functions, h.name]

/-- A line that is neither the record of a function nor a marker leaves the functions alone. -/
theorem Change.functions_eq {line : Str} {a b : List CdbgInfoModule} (h : Change line a b)
    (hfunction : ¬ FunctionRecord line) (hmarker : marker? line = none) :
    functions b = functions a := by
  cases h with
  | opened name hname h =>
    rw [h, functions, List.flatMap_append]
    exact List.append_nil _
  | declared fn hrecord hfn h => exact absurd hrecord hfunction
  | described f hf h =>
    rw [h]
    refine functions_congr (map_modifyLast ?_ a)
    exact fun mod => functionsOf_described (hf mod)
  | line s ln name hname hs h =>
    rw [h, ← hs]
    unfold storeLine
    split
    · refine functions_congr (map_modifyLast ?_ s.data)
      exact fun mod => rfl
    · refine functions_congr (map_modifyFirst ?_ s.data)
      exact fun mod => rfl
  | marked m hsome h =>
    rw [hmarker] at hsome
    cases hsome
  | same h => rw [h]

/-! ### Records of functions -/

/-- The name of the current module. -/
def currentName (s : CdbParser) : Option Str := s.data.getLast?.map CdbgInfoModule.name

/-- Add a function to a module. -/
def addFunction (scope name : Str) (mod : CdbgInfoModule) : CdbgInfoModule :=
  { mod with functions := mod.functions ++ [{ name := name, scope := scope }] }

/-- `parse_function` adds what it can read to the current module. -/
theorem parseFunction_data {content : Str} {s t : CdbParser}
    (h : parseFunction content s = some t) :
    t.data = (readFunction content).elim s.data fun x => modifyLast (addFunction x.1 x.2) s.data := by
  unfold parseFunction at h
  split at h
  · rename_i hempty
    obtain rfl := Option.some.inj h
    rw [List.isEmpty_iff.mp hempty]
    cases readFunction content <;> rfl
  unfold readFunction
  simp only [Option.bind_eq_bind, Option.bind_eq_some_iff] at h
  obtain ⟨first, hfirst, h⟩ := h
  rw [hfirst, Option.bind_eq_bind, Option.bind_some]
  split at h
  · rename_i hd1
    obtain rfl := Option.some.inj h
    rw [hd1]
    rfl
  rename_i d1 hd1
  split at h
  · rename_i hd2
    obtain rfl := Option.some.inj h
    rw [hd1, Option.bind_eq_bind, Option.bind_some, hd2]
    rfl
  rename_i d2 hd2
  simp only [Option.bind_eq_some_iff] at h
  obtain ⟨full, hfull, name, hname, h⟩ := h
  obtain rfl := Option.some.inj h
  rw [substr_of_le (find_lt hd1)] at hfull
  obtain rfl := Option.some.inj hfull
  rw [hd1, Option.bind_eq_bind, Option.bind_some, hd2, Option.bind_eq_bind, Option.bind_some, hname]
  rfl

/-- What is added to the last module is the last of all functions. -/
theorem functions_addFunction (scope name : Str) (data : List CdbgInfoModule) :
    functions (modifyLast (addFunction scope name) data) = functions data ++
      ((data.getLast?.map CdbgInfoModule.name).map fun module =>
        ⟨module, name, scope, 0xFFFF, 0xFFFF⟩ : Option FunctionEntry).toList := by
  cases hlast : data.getLast? with
  | none =>
    rw [List.getLast?_eq_none_iff.mp hlast]
    rfl
  | some mod =>
    obtain ⟨front, rfl⟩ := List.getLast?_eq_some_iff.mp hlast
    have hone : functionsOf (addFunction scope name mod)
        = functionsOf mod ++ [⟨mod.name, name, scope, 0xFFFF, 0xFFFF⟩] := List.map_append
    rw [modifyLast_concat, functions, functions, List.flatMap_append, List.flatMap_append,
      List.flatMap_singleton, List.flatMap_singleton, hone, List.append_assoc]
    rfl

theorem declares_record {line content : Str} (h : recordOf line = some (70, content))
    (current : Option Str) :
    declares current line = current.bind fun module =>
      (readFunction content).map fun x => ⟨module, x.2, x.1, 0xFFFF, 0xFFFF⟩ := by
  unfold declares
  cases current with
  | none => rfl
  | some module =>
    rw [h]
    show (readFunction content).bind _ = (readFunction content).map _
    cases readFunction content <;> rfl

theorem declares_eq_none {line : Str} (h : ¬ FunctionRecord line) (current : Option Str) :
    declares current line = none := by
  unfold declares
  cases current with
  | none => rfl
  | some module =>
    cases hrecord : recordOf line with
    | none => rfl
    | some record =>
      obtain ⟨type, content⟩ := record
      have htype : type ≠ 70 := by
        rintro rfl
        exact h (by rw [FunctionRecord, hrecord]; rfl)
      dsimp only [Option.bind_eq_bind, Option.bind_some]
      split
      · rename_i heq
        exact absurd (Prod.mk.inj heq).1 htype
      · rfl

/-- **A marker on a line**: which letters it has, what is read behind them, and that nothing but
    `parse_func_marker` looks at the record. -/
theorem marker?_eq_some {line : Str} {m : Marker} (h : marker? line = some m) :
    ∃ (isGlobal isEnd : Bool) (letters rest : Str), recordOf line = some (76, letters ++ rest) ∧
      readMarker isGlobal isEnd rest = some m ∧
      ∀ s, parseLineInfo (letters ++ rest) s = parseFuncMarker rest isEnd s := by
  unfold marker? at h
  split at h
  · rename_i rest hrecord
    exact ⟨false, false, [70], rest, hrecord, h, fun s => rfl⟩
  · rename_i rest hrecord
    exact ⟨false, true, [88, 70], rest, hrecord, h, fun s => rfl⟩
  · rename_i rest hrecord
    exact ⟨true, false, [71], rest, hrecord, h, fun s => rfl⟩
  · rename_i rest hrecord
    exact ⟨true, true, [88, 71], rest, hrecord, h, fun s => rfl⟩
  · cases h

/-- A marker is a line record. -/
theorem marker?_eq_none {line : Str} (h : ¬ LineRecord line) : marker? line = none := by
  cases hmarker : marker? line with
  | none => rfl
  | some m =>
    obtain ⟨isGlobal, isEnd, letters, rest, hrecord, -, -⟩ := marker?_eq_some hmarker
    refine absurd ?_ h
    rw [LineRecord, hrecord]
    rfl

/-- **The step lemma** in front of the line records: a line adds the function it declares. -/
theorem parseRaw_declares {line : Str} (hline : ¬ LineRecord line) {s t : CdbParser}
    (h : parseRaw line s = some t) :
    functions t.data = functions s.data ++ (declares (currentName s) line).toList := by
  by_cases hfunction : FunctionRecord line
  · rcases parseRaw_record h with ⟨hnone, rfl⟩ | ⟨type, content, hrecord, hparse⟩
    · rw [FunctionRecord, hnone] at hfunction
      cases hfunction
    · rw [FunctionRecord, hrecord] at hfunction
      obtain rfl : type = 70 := Option.some.inj hfunction
      -- what the parser reads is what `declares` reads
      have hmethod : parseFunction content s = some t := hparse
      rw [parseFunction_data hmethod, declares_record hrecord]
      cases readFunction content with
      | none => cases currentName s <;> exact (List.append_nil _).symm
      | some x =>
        apply (functions_addFunction x.1 x.2 s.data).trans
        rw [← currentName]
        cases currentName s <;> rfl
  · rw [(parseRaw_change h).functions_eq hfunction (marker?_eq_none hline),
      declares_eq_none hfunction, Option.toList_none, List.append_nil]

/-- The current module is the one whose record came last. -/
theorem parseRaw_currentName {line : Str} {s t : CdbParser} (h : parseRaw line s = some t) :
    currentName t = (moduleName? line).or (currentName s) := by
  unfold currentName
  rw [← List.getLast?_map, parseRaw_names h, List.getLast?_append, List.getLast?_map]
  cases moduleName? line <;> rfl

/-! ### Markers -/

/-- A marker does nothing else than to set its address. -/
theorem parseRaw_mark {line : Str} {m : Marker} (hmarker : marker? line = some m) (s : CdbParser) :
    parseRaw line s = some { s with data := modifyFirst m.accepts m.mark s.data } := by
  obtain ⟨isGlobal, isEnd, letters, rest, hrecord, hread, hline⟩ := marker?_eq_some hmarker
  rw [parseRaw_eq, hrecord]
  show parseLineInfo (letters ++ rest) s = _
  rw [hline, parseFuncMarker_eq isGlobal, hread]

/-- **The step lemma** behind the records of functions. -/
theorem parseRaw_functions {line : Str} (hfunction : ¬ FunctionRecord line) {s t : CdbParser}
    (h : parseRaw line s = some t) :
    functions t.data = setAll (marker? line).toList (functions s.data) := by
  cases hmarker : marker? line with
  | none => exact (parseRaw_change h).functions_eq hfunction hmarker
  | some m =>
    rw [parseRaw_mark hmarker] at h
    obtain rfl := Option.some.inj h
    exact functions_mark m s.data

/-! ## The run -/

theorem lastAddr_cons (unset : UInt16) (m : Marker) (ms : List Marker) :
    lastAddr unset (m :: ms) = lastAddr m.addr ms := by
  unfold lastAddr
  rw [List.getLast?_cons, Option.map_some, Option.getD_some]
  cases ms.getLast? <;> rfl

/-- A search looks at names only. -/
theorem endsAt_congr {m : Marker} {es es' : List FunctionEntry} (h : es.map m.hits = es'.map m.hits)
    (k : Nat) : m.endsAt es k = m.endsAt es' k := by
  have hfind : ∀ l : List FunctionEntry, l.findIdx? m.hits = (l.map m.hits).findIdx? id := by
    intro l
    rw [List.findIdx?_map]
    rfl
  rw [Marker.endsAt, Marker.endsAt, hfind, h, ← hfind]

/-- Setting an address moves no search. -/
theorem endsAt_modifyFirst (m m' : Marker) (es : List FunctionEntry) (k : Nat) :
    m'.endsAt (modifyFirst m.hits m.set es) k = m'.endsAt es k := by
  refine endsAt_congr (map_modifyFirst (fun e => ?_) es) k
  unfold Marker.set
  split <;> rfl

/-- **What a list of markers does** to function number `k`. -/
theorem getElem?_setAll (ms : List Marker) (es : List FunctionEntry) (k : Nat) :
    (setAll ms es)[k]? = es[k]?.map fun e => e.withAddresses
      (lastAddr e.startAddr (ms.filter fun m => !m.isEnd && m.endsAt es k))
      (lastAddr e.endAddr (ms.filter fun m => m.isEnd && m.endsAt es k)) := by
  induction ms generalizing es with
  | nil =>
    show es[k]? = es[k]?.map fun e => e.withAddresses e.startAddr e.endAddr
    cases es[k]? <;> rfl
  | cons m ms ih =>
    show (setAll ms (modifyFirst m.hits m.set es))[k]? = _
    rw [ih, getElem?_modifyFirst]
    simp only [endsAt_modifyFirst]
    cases hk : es[k]? with
    | none => split <;> rfl
    | some e =>
      by_cases hends : es.findIdx? m.hits = some k
      · have htrue : m.endsAt es k = true := beq_iff_eq.mpr hends
        rw [if_pos hends, Option.map_some, Option.map_some, Option.map_some]
        cases hend : m.isEnd with
        | true =>
          rw [List.filter_cons_of_neg (by rw [hend]; exact Bool.false_ne_true),
            List.filter_cons_of_pos (by rw [hend, htrue]; rfl), lastAddr_cons, Marker.set,
            if_pos hend]
          rfl
        | false =>
          rw [List.filter_cons_of_pos (by rw [hend, htrue]; rfl),
            List.filter_cons_of_neg (by rw [hend]; exact Bool.false_ne_true), lastAddr_cons,
            Marker.set, if_neg (by rw [hend]; exact Bool.false_ne_true)]
          rfl
      · have hfalse : m.endsAt es k = false := beq_eq_false_iff_ne.mpr hends
        rw [if_neg hends, Option.map_some, Option.map_some,
          List.filter_cons_of_neg (by rw [hfalse, Bool.and_false]; exact Bool.false_ne_true),
          List.filter_cons_of_neg (by rw [hfalse, Bool.and_false]; exact Bool.false_ne_true)]

/-- Behind the records of functions. -/
theorem exec_markers {lines : List Str} (hfunctions : ∀ line ∈ lines, ¬ FunctionRecord line)
    {s t : CdbParser} (h : Run.exec parseRaw lines s = some t) :
    functions t.data = setAll (lines.filterMap marker?) (functions s.data) := by
  induction lines generalizing s with
  | nil =>
    obtain rfl : s = t := Option.some.inj h
    rfl
  | cons line lines ih =>
    obtain ⟨hline, hlines⟩ := List.forall_mem_cons.mp hfunctions
    obtain ⟨u, hu, hrun⟩ := Run.exec_cons_eq_some.mp h
    rw [ih hlines hrun, parseRaw_functions hline hu]
    cases hmarker : marker? line with
    | none => rw [List.filterMap_cons_none hmarker]; rfl
    | some m => rw [List.filterMap_cons_some hmarker]; rfl

/-- In front of the line records. -/
theorem exec_declared {lines : List Str} (hlines : ∀ line ∈ lines, ¬ LineRecord line)
    {s t : CdbParser} (h : Run.exec parseRaw lines s = some t) :
    functions t.data = functions s.data ++ declared (currentName s) lines := by
  induction lines generalizing s with
  | nil =>
    obtain rfl : s = t := Option.some.inj h
    exact (List.append_nil _).symm
  | cons line lines ih =>
    obtain ⟨hline, hlines⟩ := List.forall_mem_cons.mp hlines
    obtain ⟨u, hu, hrun⟩ := Run.exec_cons_eq_some.mp h
    rw [ih hlines hrun, parseRaw_declares hline hu, parseRaw_currentName hu, declared,
      List.append_assoc]

/-- What stands behind the records of functions declares none. -/
theorem declared_append {post : List Str} (hpost : ∀ line ∈ post, ¬ FunctionRecord line)
    (current : Option Str) (pre : List Str) :
    declared current (pre ++ post) = declared current pre := by
  induction pre generalizing current with
  | nil =>
    rw [List.nil_append, declared]
    induction post generalizing current with
    | nil => rfl
    | cons line post ih =>
      obtain ⟨hline, hpost⟩ := List.forall_mem_cons.mp hpost
      rw [declared, declares_eq_none hline, ih hpost]
      rfl
  | cons line pre ih => rw [List.cons_append, declared, declared, ih]

/-- No address of a declared function is set. -/
theorem declared_unset {current : Option Str} {lines : List Str} {e : FunctionEntry}
    (h : e ∈ declared current lines) : e.startAddr = 0xFFFF ∧ e.endAddr = 0xFFFF := by
  induction lines generalizing current with
  | nil => cases h
  | cons line lines ih =>
    rw [declared] at h
    rcases List.mem_append.mp h with h | h
    · have hdeclares := Option.mem_toList.mp h
      unfold declares at hdeclares
      simp only [Option.bind_eq_bind, Option.bind_eq_some_iff] at hdeclares
      obtain ⟨module, -, record, -, hdeclares⟩ := hdeclares
      split at hdeclares
      · simp only [Option.bind_eq_some_iff] at hdeclares
        obtain ⟨x, -, hx⟩ := hdeclares
        obtain rfl := Option.some.inj hx
        exact ⟨rfl, rfl⟩
      · cases hdeclares
    · exact ih h

/-- The merge knows no functions. -/
theorem functions_merge (order : HashOrder) (s : CdbParser) :
    functions (mergeAsmLines order s) = functions s.data := by
  have hone : ∀ (data : List CdbgInfoModule) (e : Str × Table Int UInt16),
      functions (mergeModule order data e) = functions data := by
    intro data e
    unfold mergeModule
    split
    · refine functions_congr (map_modifyFirst ?_ data)
      exact fun mod => rfl
    · rw [functions, List.flatMap_append]
      exact List.append_nil _
  have hfold : ∀ (es : List (Str × Table Int UInt16)) (data : List CdbgInfoModule),
      functions (es.foldl (mergeModule order) data) = functions data := by
    intro es
    induction es with
    | nil => exact fun data => rfl
    | cons e es ih =>
      intro data
      rw [List.foldl_cons, ih, hone]
  exact hfold _ s.data

/-- The markers of a text. -/
def markersOf (content : Str) : List Marker := (getLines content).filterMap marker?

/-- The markers of a text whose search ends at the declared function number `k`. -/
def found (content : Str) (k : Nat) (isEnd : Bool) : List Marker :=
  (markersOf content).filter fun m =>
    m.isEnd == isEnd && m.endsAt (declared none (getLines content)) k

/-- The markers that are the records of a function. -/
def records (content : Str) (e : FunctionEntry) (isEnd : Bool) : List Marker :=
  (markersOf content).filter fun m => m.isEnd == isEnd && m.isOf e

/-- **The run lemma.**  If the functions come first, they are the declared ones after all the
    markers. -/
theorem parse_functions (order : HashOrder) {content : Str} {pre post : List Str}
    (hlines : getLines content = pre ++ post) (hpre : ∀ line ∈ pre, ¬ LineRecord line)
    (hpost : ∀ line ∈ post, ¬ FunctionRecord line) {modules : List CdbgInfoModule}
    (h : parseText order content = some modules) :
    functions modules = setAll (markersOf content) (declared none (getLines content)) := by
  obtain ⟨u, hu, rfl⟩ := Option.map_eq_some_iff.mp h
  rw [hlines] at hu
  obtain ⟨s, hs, hrun⟩ := Run.exec_append_eq_some.mp hu
  have hmarkers : markersOf content = post.filterMap marker? := by
    have hnone : pre.filterMap marker? = [] := by
      refine List.filterMap_eq_nil_iff.mpr fun line hline => ?_
      exact marker?_eq_none (hpre line hline)
    rw [markersOf, hlines, List.filterMap_append, hnone, List.nil_append]
  have hdeclared : functions s.data = declared none (getLines content) := by
    rw [exec_declared hpre hs, hlines, declared_append hpost]
    rfl
  rw [functions_merge, exec_markers hpost hrun, hmarkers, hdeclared]

/-! ## The result -/

/-- A function with the addresses of its own last records. -/
def ownAddresses (content : Str) (e : FunctionEntry) : FunctionEntry :=
  e.withAddresses (lastAddr 0xFFFF (records content e false))
    (lastAddr 0xFFFF (records content e true))

/-- The functions are those of the text, and each has the addresses of its own last records. -/
def AddressesRight (content : Str) (modules : List CdbgInfoModule) : Prop :=
  functions modules = (declared none (getLines content)).map (ownAddresses content)

/-- Function number `k` behind the markers of a text. -/
theorem getElem?_marked (content : Str) {k : Nat} {e : FunctionEntry}
    (hk : (declared none (getLines content))[k]? = some e) :
    (setAll (markersOf content) (declared none (getLines content)))[k]? = some
      (e.withAddresses (lastAddr 0xFFFF (found content k false))
        (lastAddr 0xFFFF (found content k true))) := by
  obtain ⟨hstart, hend⟩ := declared_unset (List.mem_of_getElem? hk)
  rw [getElem?_setAll, hk, Option.map_some, hstart, hend]
  unfold found
  simp only [beq_true, beq_false]

/-- **By the search**, for a text whose functions come first: the parser returns, and every function
    has the addresses of its own last records, exactly if for each function the last marker whose
    search ends there has the address of the last one that is a record of the function; the first
    condition is that the parser returns at all (`parse_ends_iff`). -/
theorem addressesRight_iff_found (order : HashOrder) {content : Str} {pre post : List Str}
    (hlines : getLines content = pre ++ post) (hpre : ∀ line ∈ pre, ¬ LineRecord line)
    (hpost : ∀ line ∈ post, ¬ FunctionRecord line) :
    (∃ modules, parseText order content = some modules ∧ AddressesRight content modules) ↔
      (∀ pre line post, getLines content = pre ++ line :: post → EmptyRecord line →
        ∀ earlier ∈ pre, ¬ ModuleRecord earlier) ∧
      ∀ (k : Nat) (e : FunctionEntry), (declared none (getLines content))[k]? = some e →
        ∀ isEnd, lastAddr 0xFFFF (found content k isEnd)
          = lastAddr 0xFFFF (records content e isEnd) := by
  rw [← parse_ends_iff order]
  constructor
  · rintro ⟨modules, hmodules, hright⟩
    refine ⟨⟨modules, hmodules⟩, fun k e hk isEnd => ?_⟩
    rw [AddressesRight, parse_functions order hlines hpre hpost hmodules] at hright
    have hsame := getElem?_marked content hk
    rw [hright, List.getElem?_map, hk] at hsame
    have haddresses := Option.some.inj hsame
    cases isEnd with
    | true => exact (congrArg FunctionEntry.endAddr haddresses).symm
    | false => exact (congrArg FunctionEntry.startAddr haddresses).symm
  · rintro ⟨⟨modules, hmodules⟩, hall⟩
    refine ⟨modules, hmodules, ?_⟩
    rw [AddressesRight, parse_functions order hlines hpre hpost hmodules]
    refine List.ext_getElem? fun k => ?_
    rw [List.getElem?_map]
    cases hk : (declared none (getLines content))[k]? with
    | none => rw [getElem?_setAll, hk, Option.map_none, Option.map_none]
    | some e =>
      rw [getElem?_marked content hk, hall k e hk, hall k e hk]
      rfl

/-! ## Strangers -/

/-- The marker has the name of the function and, unless its module is left empty, the module. -/
def Marker.Names (m : Marker) (e : FunctionEntry) : Prop :=
  e.name = m.name ∧ (m.module = [] ∨ e.module = m.module)

/-- It names the function, and none of the functions in front. -/
def Marker.ComesTo (m : Marker) (front : List FunctionEntry) (e : FunctionEntry) : Prop :=
  m.Names e ∧ ∀ e' ∈ front, ¬ m.Names e'

instance (m : Marker) (e : FunctionEntry) : Decidable (m.Names e) :=
  inferInstanceAs (Decidable (_ ∧ _))

instance (m : Marker) (front : List FunctionEntry) (e : FunctionEntry) :
    Decidable (m.ComesTo front e) :=
  inferInstanceAs (Decidable (_ ∧ _))

/-- The markers on some lines that come to the function `e` behind those in `front`. -/
def coming (lines : List Str) (front : List FunctionEntry) (e : FunctionEntry) (isEnd : Bool) :
    List Marker :=
  (lines.filterMap marker?).filter fun m => m.isEnd = isEnd ∧ m.ComesTo front e

/-- The marker of another function or variable comes to the function. -/
def Marker.StrangeTo (m : Marker) (front : List FunctionEntry) (e : FunctionEntry) : Prop :=
  m.ComesTo front e ∧ ¬ m.isOf e = true

/-- The function `e`, declared behind those in front, keeps its own start (or end). -/
structure Undisturbed (content : Str) (front : List FunctionEntry) (e : FunctionEntry)
    (isEnd : Bool) : Prop where
  /-- A stranger that comes to it last has the address of its own last record. -/
  strangers : ∀ before m after, markersOf content = before ++ m :: after → m.isEnd = isEnd →
    m.StrangeTo front e → (∀ m' ∈ after, m'.isEnd = isEnd → ¬ m'.ComesTo front e) →
      m.addr = lastAddr 0xFFFF (records content e isEnd)
  /-- If one that is declared earlier catches its own records, then the last of them has the address
      of a function without records, or there is such a stranger. -/
  caught : ∀ m ∈ records content e isEnd, (∃ e' ∈ front, m.Names e') →
    lastAddr 0xFFFF (records content e isEnd) = 0xFFFF ∨
      ∃ m' ∈ markersOf content, m'.isEnd = isEnd ∧ m'.StrangeTo front e

theorem Marker.hits_iff {m : Marker} {e : FunctionEntry} : m.hits e = true ↔ m.Names e := by
  rw [Marker.hits, Marker.Names, Bool.and_eq_true, Bool.or_eq_true, List.isEmpty_iff, beq_iff_eq,
    beq_iff_eq, and_comm]

/-- The search ends at the function to which the marker comes. -/
theorem Marker.endsAt_iff {m : Marker} {front back : List FunctionEntry} {e : FunctionEntry} :
    m.endsAt (front ++ e :: back) front.length = true ↔ m.ComesTo front e := by
  rw [Marker.endsAt, beq_iff_eq, List.findIdx?_append, Marker.ComesTo]
  cases hfront : front.findIdx? m.hits with
  | some i =>
    obtain ⟨hlt, hhits, -⟩ := List.findIdx?_eq_some_iff_getElem.mp hfront
    rw [Option.some_or]
    refine iff_of_false (fun h => ?_) fun h => ?_
    · rw [Option.some.inj h] at hlt
      exact Nat.lt_irrefl _ hlt
    · exact h.2 _ (List.getElem_mem hlt) (Marker.hits_iff.mp hhits)
  | none =>
    have hnone : ∀ e' ∈ front, ¬ m.Names e' := by
      intro e' he' hnames
      have hfalse := List.findIdx?_eq_none_iff.mp hfront e' he'
      rw [Marker.hits_iff.mpr hnames] at hfalse
      cases hfalse
    rw [Option.none_or, and_iff_left hnone, ← Marker.hits_iff, List.findIdx?_cons]
    by_cases hhits : m.hits e = true
    · rw [if_pos hhits]
      exact iff_of_true (congrArg some (Nat.zero_add _)) hhits
    · rw [if_neg hhits]
      refine iff_of_false (fun h => ?_) hhits
      obtain ⟨i, hi, hlen⟩ := Option.map_eq_some_iff.mp h
      obtain ⟨j, -, rfl⟩ := Option.map_eq_some_iff.mp hi
      omega

/-- A function's own record names it, and has the same name and module as any other. -/
theorem Marker.isOf_eq {m : Marker} {e : FunctionEntry} (h : m.isOf e = true) :
    m.name = e.name ∧ m.module = if e.scope = str "global" then [] else e.module := by
  rw [Marker.isOf, Bool.and_eq_true, beq_iff_eq] at h
  refine ⟨h.1.symm, ?_⟩
  have hscope := h.2
  split at hscope
  · rw [Bool.and_eq_true, List.isEmpty_iff, beq_iff_eq] at hscope
    rw [if_pos hscope.2, hscope.1]
  · rw [Bool.and_eq_true, bne_iff_ne, beq_iff_eq] at hscope
    rw [if_neg hscope.1, hscope.2]

theorem Marker.names_of_isOf {m : Marker} {e : FunctionEntry} (h : m.isOf e = true) :
    m.Names e := by
  obtain ⟨hname, hmodule⟩ := Marker.isOf_eq h
  refine ⟨hname.symm, ?_⟩
  split at hmodule
  · exact Or.inl hmodule
  · exact Or.inr hmodule.symm

/-- The search cannot tell a function's own records apart. -/
theorem Marker.names_congr {m m' : Marker} {e : FunctionEntry} (h : m.isOf e = true)
    (h' : m'.isOf e = true) (e' : FunctionEntry) : m.Names e' ↔ m'.Names e' := by
  obtain ⟨hname, hmodule⟩ := Marker.isOf_eq h
  obtain ⟨hname', hmodule'⟩ := Marker.isOf_eq h'
  rw [Marker.Names, Marker.Names, hname, hname', hmodule, hmodule']

/-- The last address among some of the markers, from the place of the last of them. -/
theorem lastAddr_filter {unset : UInt16} {p : Marker → Bool} {before after : List Marker}
    {m : Marker} (hm : p m = true) (hafter : ∀ m' ∈ after, ¬ p m' = true) :
    lastAddr unset ((before ++ m :: after).filter p) = m.addr := by
  rw [lastAddr, List.filter_append, List.filter_cons_of_pos hm, List.filter_eq_nil_iff.mpr hafter,
    List.getLast?_concat]
  rfl

/-- Of some markers there is a last one, or none. -/
theorem exists_last (p : Marker → Bool) (ms : List Marker) :
    (∀ m ∈ ms, ¬ p m = true) ∨ ∃ before m after, ms = before ++ m :: after ∧ p m = true ∧
      ∀ m' ∈ after, ¬ p m' = true := by
  cases hlast : ms.reverse.find? p with
  | none =>
    refine Or.inl fun m hm => ?_
    exact List.find?_eq_none.mp hlast m (List.mem_reverse.mpr hm)
  | some m =>
    obtain ⟨hp, after, before, heq, hafter⟩ := List.find?_eq_some_iff_append.mp hlast
    refine Or.inr ⟨before.reverse, m, after.reverse, ?_, hp, fun m' hm' hp' => ?_⟩
    · rw [← List.reverse_reverse ms, heq, List.reverse_append, List.reverse_cons,
        List.append_assoc, List.singleton_append]
    · have hnot := hafter m' (List.mem_reverse.mp hm')
      rw [hp'] at hnot
      cases hnot

section
variable {content : Str} {front back : List FunctionEntry} {e : FunctionEntry} {isEnd : Bool}
  {m : Marker} {before after : List Marker}

theorem mem_coming : m ∈ coming (getLines content) front e isEnd ↔
    m ∈ markersOf content ∧ m.isEnd = isEnd ∧ m.ComesTo front e := by
  rw [coming, List.mem_filter, decide_eq_true_eq]
  rfl

theorem mem_ownRecords : m ∈ records content e isEnd ↔
    m ∈ markersOf content ∧ m.isEnd = isEnd ∧ m.isOf e = true := by
  rw [records, List.mem_filter, Bool.and_eq_true, beq_iff_eq]

/-- What the search finds is what comes to the function. -/
theorem found_eq_coming (hdeclared : declared none (getLines content) = front ++ e :: back) :
    found content front.length isEnd = coming (getLines content) front e isEnd := by
  rw [found, hdeclared]
  refine List.filter_congr fun m _ => Bool.eq_iff_iff.mpr ?_
  rw [Bool.and_eq_true, beq_iff_eq, Marker.endsAt_iff, decide_eq_true_eq]

theorem lastAddr_coming (heq : markersOf content = before ++ m :: after) (hend : m.isEnd = isEnd)
    (hcomes : m.ComesTo front e) (hafter : ∀ m' ∈ after, m'.isEnd = isEnd → ¬ m'.ComesTo front e) :
    lastAddr 0xFFFF (coming (getLines content) front e isEnd) = m.addr := by
  show lastAddr 0xFFFF ((markersOf content).filter _) = m.addr
  rw [heq]
  refine lastAddr_filter (decide_eq_true ⟨hend, hcomes⟩) fun m' hm' hcome => ?_
  obtain ⟨hend', hcome'⟩ := of_decide_eq_true hcome
  exact hafter m' hm' hend' hcome'

/-- An own record that comes to the function brings all of them with it. -/
theorem comesTo_of_own {m' : Marker} (hcomes : m.ComesTo front e) (hm : m.isOf e = true)
    (hm' : m'.isOf e = true) : m'.ComesTo front e := by
  refine ⟨Marker.names_of_isOf hm', fun e' he' hnames => ?_⟩
  exact hcomes.2 e' he' ((Marker.names_congr hm' hm e').mp hnames)

theorem undisturbed_of_lastAddr (h : lastAddr 0xFFFF (coming (getLines content) front e isEnd)
    = lastAddr 0xFFFF (records content e isEnd)) : Undisturbed content front e isEnd := by
  constructor
  · intro before m after heq hend hstrange hafter
    rw [← h, lastAddr_coming heq hend hstrange.1 hafter]
  · rintro m hm ⟨e', he', hnames⟩
    by_contra hneither
    obtain ⟨hset, hnone⟩ := not_or.mp hneither
    refine hset (h.symm.trans ?_)
    -- nothing comes to the function: not its own records, and no stranger
    have hempty : coming (getLines content) front e isEnd = [] := by
      refine List.eq_nil_iff_forall_not_mem.mpr fun m' hm' => ?_
      obtain ⟨hmarker, hend, hcomes⟩ := mem_coming.mp hm'
      by_cases hisOf : m'.isOf e = true
      · exact (comesTo_of_own hcomes hisOf (mem_ownRecords.mp hm).2.2).2 e' he' hnames
      · exact hnone ⟨m', hmarker, hend, hcomes, hisOf⟩
    rw [hempty]
    rfl

theorem Undisturbed.lastAddr_eq (h : Undisturbed content front e isEnd) :
    lastAddr 0xFFFF (coming (getLines content) front e isEnd)
      = lastAddr 0xFFFF (records content e isEnd) := by
  rcases exists_last (fun m => decide (m.isEnd = isEnd ∧ m.ComesTo front e)) (markersOf content)
    with hnone | ⟨before, m, after, heq, hm, hafter⟩
  · have hempty : coming (getLines content) front e isEnd = [] := List.filter_eq_nil_iff.mpr hnone
    rw [hempty]
    cases hrecords : records content e isEnd with
    | nil => rfl
    | cons m ms =>
      -- a function in front catches the own records, and no stranger comes
      have hmem : m ∈ records content e isEnd := by
        rw [hrecords]
        exact List.mem_cons_self
      obtain ⟨hmarker, hend, hisOf⟩ := mem_ownRecords.mp hmem
      have hfront : ∃ e' ∈ front, m.Names e' := by
        by_contra hnot
        refine hnone m hmarker (decide_eq_true ⟨hend, Marker.names_of_isOf hisOf, ?_⟩)
        exact fun e' he' hnames => hnot ⟨e', he', hnames⟩
      rw [← hrecords]
      rcases h.caught m hmem hfront with hunset | ⟨m', hm', hend', hstrange⟩
      · exact hunset.symm
      · exact absurd (decide_eq_true ⟨hend', hstrange.1⟩) (hnone m' hm')
  · obtain ⟨hend, hcomes⟩ := of_decide_eq_true hm
    have hlast : ∀ m' ∈ after, m'.isEnd = isEnd → ¬ m'.ComesTo front e :=
      fun m' hm' hend' hcomes' => hafter m' hm' (decide_eq_true ⟨hend', hcomes'⟩)
    rw [lastAddr_coming heq hend hcomes hlast]
    by_cases hisOf : m.isOf e = true
    · -- a later own record would come to the function as well
      rw [records, heq, lastAddr_filter]
      · rw [Bool.and_eq_true, beq_iff_eq]
        exact ⟨hend, hisOf⟩
      · intro m' hm' hown
        rw [Bool.and_eq_true, beq_iff_eq] at hown
        exact hlast m' hm' hown.1 (comesTo_of_own hcomes hisOf hown.2)
    · exact h.strangers before m after heq hend ⟨hcomes, hisOf⟩ hlast

/-- **One function**: the last marker that comes to it has the address of its own last record exactly
    if it is undisturbed. -/
theorem lastAddr_found_iff (hdeclared : declared none (getLines content) = front ++ e :: back) :
    lastAddr 0xFFFF (found content front.length isEnd) = lastAddr 0xFFFF (records content e isEnd) ↔
      Undisturbed content front e isEnd := by
  rw [found_eq_coming hdeclared]
  exact ⟨undisturbed_of_lastAddr, Undisturbed.lastAddr_eq⟩

end

/-- **When the addresses are right**, for a text whose functions come first: the parser returns, and
    every function has the addresses of its own last records.  This is so if and only if no record
    that is not to be empty is empty behind a module (`parse_ends_iff`), and every declared function
    is undisturbed by the markers of others and by the functions in front of it. -/
theorem addresses_right_iff (order : HashOrder) {content : Str} {pre post : List Str}
    (hlines : getLines content = pre ++ post) (hpre : ∀ line ∈ pre, ¬ LineRecord line)
    (hpost : ∀ line ∈ post, ¬ FunctionRecord line) :
    (∃ modules, parseText order content = some modules ∧ AddressesRight content modules) ↔
      (∀ pre line post, getLines content = pre ++ line :: post → EmptyRecord line →
        ∀ earlier ∈ pre, ¬ ModuleRecord earlier) ∧
      ∀ front e back, declared none (getLines content) = front ++ e :: back →
        ∀ isEnd, Undisturbed content front e isEnd := by
  rw [addressesRight_iff_found order hlines hpre hpost]
  refine and_congr_right fun _ => ?_
  constructor
  · intro h front e back hdeclared isEnd
    refine (lastAddr_found_iff hdeclared).mp (h front.length e ?_ isEnd)
    rw [hdeclared, List.getElem?_append_right (Nat.le_refl _), Nat.sub_self, List.getElem?_cons_zero]
  · intro h k e hk isEnd
    obtain ⟨hlt, hget⟩ := List.getElem?_eq_some_iff.mp hk
    have hdeclared : declared none (getLines content) = (declared none (getLines content)).take k ++
        e :: (declared none (getLines content)).drop (k + 1) := by
      rw [← hget, List.cons_getElem_drop_succ, List.take_append_drop]
    have hlength : ((declared none (getLines content)).take k).length = k :=
      List.length_take_of_le (Nat.le_of_lt hlt)
    have hone := (lastAddr_found_iff hdeclared).mpr (h _ e _ hdeclared isEnd)
    rwa [hlength] at hone

/-- A function is undisturbed if only its own markers have its name, and no function in front. -/
theorem undisturbed_of_names {content : Str} {front : List FunctionEntry} {e : FunctionEntry}
    {isEnd : Bool} (hmarkers : ∀ m ∈ markersOf content, m.name = e.name → m.isOf e = true)
    (hfront : ∀ e' ∈ front, e'.name ≠ e.name) : Undisturbed content front e isEnd := by
  constructor
  · intro before m after heq hend hstrange hafter
    have hm : m ∈ markersOf content := by
      rw [heq]
      exact List.mem_append_right _ List.mem_cons_self
    exact absurd (hmarkers m hm hstrange.1.1.1.symm) hstrange.2
  · rintro m hm ⟨e', he', hnames⟩
    have hisOf := (Bool.and_eq_true_iff.mp (List.mem_filter.mp hm).2).2
    exact absurd (hnames.1.trans (Marker.isOf_eq hisOf).1) (hfront e' he')

/-- A static function and a global one with their markers. -/
def distinctNames : Str :=
  str "M:a\nF:Fa$f$0_0$0({2}DF,SV:S)\nM:b\nF:G$g$0_0$0({2}DF,SV:S)\n" ++
    str "L:G$g$0$0:100\nL:XFa$f$0$0:BE"

/-- The same with one name. -/
def sameName : Str :=
  str "M:a\nF:Fa$f$0_0$0({2}DF,SV:S)\nM:b\nF:G$f$0_0$0({2}DF,SV:S)\n" ++ str "L:G$f$0$0:100"

/-- With different names the addresses are right. -/
theorem distinct_names_right : ∃ modules,
    parseText ⟨id, id, List.Perm.refl, List.Perm.refl⟩ distinctNames = some modules ∧
      AddressesRight distinctNames modules := by
  have hdeclared : declared none (getLines distinctNames)
      = [⟨str "a", str "f", str "local", 0xFFFF, 0xFFFF⟩,
        ⟨str "b", str "g", str "global", 0xFFFF, 0xFFFF⟩] := by decide +kernel
  refine (addresses_right_iff ⟨id, id, List.Perm.refl, List.Perm.refl⟩
    (List.take_append_drop 4 (getLines distinctNames)).symm (by decide +kernel)
    (by decide +kernel)).mpr ⟨?_, fun front e back hsplit isEnd => ?_⟩
  · refine (parse_ends_iff ⟨id, id, List.Perm.refl, List.Perm.refl⟩ _).mp ?_
    exact Option.isSome_iff_exists.mp (by decide +kernel)
  · rw [hdeclared] at hsplit
    cases front with
    | nil =>
      obtain ⟨rfl, -⟩ := List.cons.inj hsplit
      exact undisturbed_of_names (by decide +kernel) (by decide)
    | cons first front =>
      obtain ⟨rfl, hrest⟩ := List.cons.inj hsplit
      cases front with
      | nil =>
        obtain ⟨rfl, -⟩ := List.cons.inj hrest
        exact undisturbed_of_names (by decide +kernel) (by decide)
      | cons second front =>
        have hnil := (List.cons.inj hrest).2
        exact absurd hnil.symm (List.append_ne_nil_of_right_ne_nil front (List.cons_ne_nil e back))

/-- **A static function takes the start of a global one** that has its name: the search finds the
    first function of any scope in any module. -/
theorem same_name_wrong :
    getLines sameName = (getLines sameName).take 4 ++ (getLines sameName).drop 4 ∧
      (∀ line ∈ (getLines sameName).take 4, ¬ LineRecord line) ∧
      (∀ line ∈ (getLines sameName).drop 4, ¬ FunctionRecord line) ∧
      ∃ modules,
        parseText ⟨id, id, List.Perm.refl, List.Perm.refl⟩ sameName = some modules ∧
        functions modules = [⟨str "a", str "f", str "local", 0x100, 0xFFFF⟩,
          ⟨str "b", str "f", str "global", 0xFFFF, 0xFFFF⟩] ∧
        ¬ AddressesRight sameName modules := by
  have hfunctions : (parseText ⟨id, id, List.Perm.refl, List.Perm.refl⟩ sameName).map functions
      = some [⟨str "a", str "f", str "local", 0x100, 0xFFFF⟩,
        ⟨str "b", str "f", str "global", 0xFFFF, 0xFFFF⟩] := by decide +kernel
  obtain ⟨modules, hmodules, hlist⟩ := Option.map_eq_some_iff.mp hfunctions
  refine ⟨by decide +kernel, by decide +kernel, by decide +kernel, modules, hmodules, hlist, ?_⟩
  intro hright
  rw [AddressesRight, hlist] at hright
  exact absurd hright (by decide +kernel)

end CdbParser

end Udap.Sdcc
