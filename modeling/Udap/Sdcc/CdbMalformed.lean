/-
  RECORDS WITHOUT AN ADDRESS — what does a malformed line record leave in the modules?

  The three forms of a line record find their address in three ways.  A marker and an assembly record
  take the number that `std::stoul` finds at the start of the text behind the last colon, so that
  `12G` is the address 0x12; a line of C takes the number behind the first colon of its last part, and
  the address 0 if it finds none.

  1. **Functions** — `passed` is what a text makes of a list of functions.  Setting an address is
     undone by the next marker that comes to the function (`passed_modifyFirst`).

  2. **Idle records** — `Idle` says when a record makes no difference between the lines in front of it
     and those behind it, with one lemma for each form of record.

  3. **Result** — `malformed_harmless_iff`, for every record of every text.
-/
import Udap.Sdcc.CdbResults
import Udap.Sdcc.CdbStored

set_option linter.unusedVariables false

namespace Udap.Sdcc.CdbParser

open Udap Udap.Cxx

/-! ## Functions -/

/-- What some lines make of the functions `es`, behind the record of the module `current`. -/
def passed : Option Str → List FunctionEntry → List Str → List FunctionEntry
  | _, es, [] => es
  | current, es, line :: lines =>
    passed ((moduleName? line).or current)
      (setAll (marker? line).toList (es ++ (declares current line).toList)) lines

/-- A function whose addresses are not known. -/
def unset (e : FunctionEntry) : FunctionEntry := e.withAddresses 0xFFFF 0xFFFF

/-- A line record declares nothing. -/
theorem declares_line {line : Str} (h : LineRecord line) (current : Option Str) :
    declares current line = none := by
  apply declares_eq_none
  intro hfunction
  rw [FunctionRecord, h] at hfunction
  cases hfunction

/-- **The step lemma**: a line declares a function at the end, or sets an address. -/
theorem parseRaw_passed {line : Str} {s t : CdbParser} (h : parseRaw line s = some t) :
    functions t.data = setAll (marker? line).toList
      (functions s.data ++ (declares (currentName s) line).toList) := by
  by_cases hline : LineRecord line
  · have hfunction : ¬ FunctionRecord line := by
      intro hfunction
      rw [FunctionRecord, hline] at hfunction
      cases hfunction
    rw [parseRaw_functions hfunction h, declares_line hline, Option.toList_none, List.append_nil]
  · rw [parseRaw_declares hline h, marker?_eq_none hline]
    rfl

/-- **The run lemma.** -/
theorem exec_passed {lines : List Str} {s t : CdbParser} (h : Run.exec parseRaw lines s = some t) :
    functions t.data = passed (currentName s) (functions s.data) lines := by
  induction lines generalizing s with
  | nil =>
    obtain rfl : s = t := Option.some.inj h
    rfl
  | cons line lines ih =>
    obtain ⟨u, hu, hrun⟩ := Run.exec_cons_eq_some.mp h
    rw [ih hrun, parseRaw_passed hu, parseRaw_currentName hu, passed]

/-! ### Searches -/

theorem hits_unset (m : Marker) (es : List FunctionEntry) :
    (es.map unset).map m.hits = es.map m.hits := by
  rw [List.map_map]
  rfl

/-- What is added at the end is not found first. -/
theorem endsAt_append {m : Marker} {es : List FunctionEntry} {k : Nat} (hk : k < es.length)
    (ds : List FunctionEntry) : m.endsAt (es ++ ds) k = m.endsAt es k := by
  rw [Marker.endsAt, Marker.endsAt, List.findIdx?_append]
  cases es.findIdx? m.hits with
  | some i => rfl
  | none =>
    rw [Option.none_or]
    cases hfind : ds.findIdx? m.hits with
    | none => rfl
    | some i =>
      refine beq_eq_false_iff_ne.mpr fun h => ?_
      have heq : i + es.length = k := Option.some.inj h
      omega

theorem endsAt_setAll (m : Marker) (ms : List Marker) (es : List FunctionEntry) (k : Nat) :
    m.endsAt (setAll ms es) k = m.endsAt es k := by
  induction ms generalizing es with
  | nil => rfl
  | cons m' ms ih =>
    show m.endsAt (setAll ms (modifyFirst m'.hits m'.set es)) k = _
    rw [ih, endsAt_modifyFirst]

theorem lastAddr_append (a : UInt16) (ms ms' : List Marker) :
    lastAddr a (ms ++ ms') = lastAddr (lastAddr a ms) ms' := by
  unfold lastAddr
  rw [List.getLast?_append]
  cases ms'.getLast? <;> rfl

/-- **What some lines do** to function number `k`. -/
theorem getElem?_passed {lines : List Str} {current : Option Str} {es : List FunctionEntry} {k : Nat}
    {e : FunctionEntry} (hk : es[k]? = some e) : (passed current es lines)[k]? = some (e.withAddresses
      (lastAddr e.startAddr ((lines.filterMap marker?).filter fun m => !m.isEnd && m.endsAt es k))
      (lastAddr e.endAddr ((lines.filterMap marker?).filter fun m => m.isEnd && m.endsAt es k))) := by
  induction lines generalizing current es e with
  | nil => exact hk
  | cons line lines ih =>
    have hlt : k < es.length := (List.getElem?_eq_some_iff.mp hk).1
    have hstep : (setAll (marker? line).toList (es ++ (declares current line).toList))[k]? = some
        (e.withAddresses
          (lastAddr e.startAddr ((marker? line).toList.filter fun m => !m.isEnd && m.endsAt es k))
          (lastAddr e.endAddr ((marker? line).toList.filter fun m => m.isEnd && m.endsAt es k))) := by
      rw [getElem?_setAll, List.getElem?_append_left hlt, hk, Option.map_some]
      simp only [endsAt_append hlt]
    have hlines : (line :: lines).filterMap marker?
        = (marker? line).toList ++ lines.filterMap marker? := by
      cases hmarker : marker? line with
      | none => rw [List.filterMap_cons_none hmarker]; rfl
      | some m => rw [List.filterMap_cons_some hmarker]; rfl
    rw [passed, ih hstep, hlines, List.filter_append, List.filter_append, lastAddr_append,
      lastAddr_append]
    simp only [endsAt_setAll, endsAt_append hlt]
    rfl

/-- No address of a function is known when it is declared. -/
theorem unset_of_declares {current : Option Str} {declaration : Str} {e : FunctionEntry}
    (h : declares current declaration = some e) :
    e.startAddr = 0xFFFF ∧ e.endAddr = 0xFFFF ∧ unset e = e := by
  obtain ⟨hstart, hend⟩ : e.startAddr = 0xFFFF ∧ e.endAddr = 0xFFFF := by
    have hmem : e ∈ declared current [declaration] := by
      rw [declared, h]
      exact List.mem_cons_self
    exact declared_unset hmem
  refine ⟨hstart, hend, ?_⟩
  obtain ⟨module, name, scope, start, last⟩ := e
  obtain rfl : start = 0xFFFF := hstart
  obtain rfl : last = 0xFFFF := hend
  rfl

theorem map_unset_passed (lines : List Str) (current : Option Str) (es : List FunctionEntry) :
    (passed current es lines).map unset
      = es.map unset ++ declared current lines := by
  induction lines generalizing current es with
  | nil => exact (List.append_nil _).symm
  | cons line lines ih =>
    have hset : ∀ (ms : List Marker) (es : List FunctionEntry),
        (setAll ms es).map unset = es.map unset := by
      intro ms
      induction ms with
      | nil => exact fun _ => rfl
      | cons m ms ih =>
        intro es
        show (setAll ms (modifyFirst m.hits m.set es)).map _ = _
        refine (ih _).trans (map_modifyFirst (fun e => ?_) es)
        unfold Marker.set
        split <;> rfl
    have hdeclares : (declares current line).toList.map unset
        = (declares current line).toList := by
      cases hdeclares : declares current line with
      | none => rfl
      | some e => exact congrArg (fun e => [e]) (unset_of_declares hdeclares).2.2
    rw [passed, ih, hset, List.map_append, hdeclares, declared, List.append_assoc]

/-! ### Setting an address -/

section
variable {m m' : Marker} {es : List FunctionEntry} {k : Nat}

/-- A later marker for the same address. -/
theorem modifyFirst_overwritten (hm : m.endsAt es k = true) (hm' : m'.endsAt es k = true)
    (hend : m'.isEnd = m.isEnd) :
    modifyFirst m'.hits m'.set (modifyFirst m.hits m.set es) = modifyFirst m'.hits m'.set es := by
  have hset : ∀ e, m'.set (m.set e) = m'.set e := by
    intro e
    unfold Marker.set
    rw [hend]
    split <;> rfl
  have hsame : m'.endsAt (modifyFirst m.hits m.set es) k = true := by
    rw [endsAt_modifyFirst, hm']
  refine List.ext_getElem? fun i => ?_
  rw [getElem?_modifyFirst, getElem?_modifyFirst, getElem?_modifyFirst, beq_iff_eq.mp hm,
    beq_iff_eq.mp hm', beq_iff_eq.mp hsame]
  by_cases hi : some k = some i
  · rw [if_pos hi, if_pos hi, if_pos hi, Option.map_map]
    exact congrArg (es[i]?.map ·) (funext hset)
  · rw [if_neg hi, if_neg hi, if_neg hi]

/-- A marker for another address. -/
theorem modifyFirst_comm (hm : m.endsAt es k = true)
    (hother : m'.endsAt es k = true → m'.isEnd ≠ m.isEnd) :
    modifyFirst m'.hits m'.set (modifyFirst m.hits m.set es)
      = modifyFirst m.hits m.set (modifyFirst m'.hits m'.set es) := by
  have hsame : ∀ i, ((modifyFirst m.hits m.set es).findIdx? m'.hits = some i) ↔
      (es.findIdx? m'.hits = some i) := by
    intro i
    rw [← beq_iff_eq, ← beq_iff_eq (a := es.findIdx? m'.hits)]
    exact Bool.eq_iff_iff.mp (endsAt_modifyFirst m m' es i)
  have hsame' : ∀ i, ((modifyFirst m'.hits m'.set es).findIdx? m.hits = some i) ↔
      (es.findIdx? m.hits = some i) := by
    intro i
    rw [← beq_iff_eq, ← beq_iff_eq (a := es.findIdx? m.hits)]
    exact Bool.eq_iff_iff.mp (endsAt_modifyFirst m' m es i)
  refine List.ext_getElem? fun i => ?_
  simp only [getElem?_modifyFirst, hsame, hsame']
  by_cases hi : es.findIdx? m.hits = some i
  · obtain rfl : k = i := Option.some.inj ((beq_iff_eq.mp hm).symm.trans hi)
    by_cases hi' : es.findIdx? m'.hits = some k
    · have hne := hother (beq_iff_eq.mpr hi')
      rw [if_pos hi, if_pos hi', if_pos hi', if_pos hi, Option.map_map, Option.map_map]
      refine congrArg (es[k]?.map ·) (funext fun e => ?_)
      show m'.set (m.set e) = m.set (m'.set e)
      unfold Marker.set
      cases hend : m.isEnd with
      | true => rw [hend, ne_eq, Bool.not_eq_true] at hne; rw [hne]; rfl
      | false => rw [hend, ne_eq, Bool.not_eq_false] at hne; rw [hne]; rfl
    · rw [if_pos hi, if_neg hi', if_neg hi', if_pos hi]
  · rw [if_neg hi, if_neg hi]

end

/-- **An address that is set** makes no difference if a later marker for it comes to the function. -/
theorem passed_modifyFirst {m : Marker} {k : Nat} {lines : List Str} {current : Option Str}
    {es : List FunctionEntry} (hm : m.endsAt es k = true)
    (hlater : ∃ m' ∈ lines.filterMap marker?, m'.isEnd = m.isEnd ∧ m'.endsAt es k = true) :
    passed current (modifyFirst m.hits m.set es) lines = passed current es lines := by
  induction lines generalizing current es with
  | nil =>
    obtain ⟨m', hm', -⟩ := hlater
    cases hm'
  | cons line lines ih =>
    have hany : es.any m.hits = true := by
      obtain ⟨hlt, hhits, -⟩ := List.findIdx?_eq_some_iff_getElem.mp (beq_iff_eq.mp hm)
      exact List.any_eq_true.mpr ⟨_, List.getElem_mem hlt, hhits⟩
    have hlt : k < es.length := (List.findIdx?_eq_some_iff_getElem.mp (beq_iff_eq.mp hm)).1
    have happend : modifyFirst m.hits m.set es ++ (declares current line).toList
        = modifyFirst m.hits m.set (es ++ (declares current line).toList) := by
      rw [modifyFirst_append, if_pos hany]
    have hmore : m.endsAt (es ++ (declares current line).toList) k = true := by
      rw [endsAt_append hlt, hm]
    rw [passed, passed, happend]
    cases hmarker : marker? line with
    | none =>
      rw [List.filterMap_cons_none hmarker] at hlater
      refine ih hmore ?_
      simpa only [Option.toList_none, setAll, List.foldl_nil, endsAt_append hlt] using hlater
    | some m' =>
      rw [List.filterMap_cons_some hmarker, List.exists_mem_cons_iff] at hlater
      show passed _ (modifyFirst m'.hits m'.set (modifyFirst m.hits m.set _)) lines
        = passed _ (modifyFirst m'.hits m'.set _) lines
      by_cases hover : m'.isEnd = m.isEnd ∧ m'.endsAt es k = true
      · rw [modifyFirst_overwritten hmore (by rw [endsAt_append hlt, hover.2]) hover.1]
      · rw [modifyFirst_comm hmore]
        · refine ih (by rw [endsAt_modifyFirst, hmore]) ?_
          obtain ⟨m'', hm'', hend, hends⟩ := hlater.resolve_left hover
          refine ⟨m'', hm'', hend, ?_⟩
          rw [endsAt_modifyFirst, endsAt_append hlt, hends]
        · intro hends hend
          rw [endsAt_append hlt] at hends
          exact hover ⟨hend, hends⟩

/-! ## Idle records -/

/-- The current module behind some lines. -/
def moduleBehind (current : Option Str) (lines : List Str) : Option Str :=
  (lines.filterMap moduleName?).getLast?.or current

/-- A marker sets no address that stays: if it comes to a function, declared in front of it, then one
    behind it does as well, or the function has the address already. -/
def Marker.Idle (m : Marker) (pre post : List Str) : Prop :=
  ∀ before declaration between e, pre = before ++ declaration :: between →
    declares (moduleBehind none before) declaration = some e →
    m.ComesTo (declared none before) e →
      coming post (declared none before) e m.isEnd ≠ [] ∨
        lastAddr 0xFFFF (coming between (declared none before) e m.isEnd) = m.addr

/-- **A record that makes no difference** between the lines in front of it and those behind it. -/
structure Idle (pre : List Str) (line : Str) (post : List Str) : Prop where
  /-- An assembly record: one in front of it is for the same line, or else the first such one behind
      it has the same address. -/
  asm : ∀ r, asmRecord? line = some r →
    firstAddress (pre.filterMap asmRecord?) r.module r.line = none →
      firstAddress (post.filterMap asmRecord?) r.module r.line = some r.addr
  /-- A line of C: its module is not declared in front of it. -/
  cLine : ∀ ln name, cLine? line = some (ln, name) → name ∉ pre.filterMap moduleName?
  /-- A marker: its function, if there is one, has the same address in the end. -/
  marker : ∀ m, marker? line = some m → m.Idle pre post

/-! ### Assembly records -/

/-- One record less. -/
theorem firstAddress_eq_iff {front back : List AsmRecord} {r : AsmRecord} :
    firstAddress (front ++ back) = firstAddress (front ++ r :: back) ↔
      (firstAddress front r.module r.line = none →
        firstAddress back r.module r.line = some r.addr) := by
  have happend : ∀ (a b : List AsmRecord) (m : Str) (n : Int),
      firstAddress (a ++ b) m n = (firstAddress a m n).or (firstAddress b m n) := by
    intro a b m n
    rw [firstAddress, List.find?_append, Option.map_or]
    rfl
  have hcons : ∀ (m : Str) (n : Int), firstAddress (r :: back) m n
      = if r.module = m ∧ r.line = n then some r.addr else firstAddress back m n := by
    intro m n
    rw [firstAddress, List.find?_cons]
    by_cases hr : r.module = m ∧ r.line = n
    · rw [if_pos hr, decide_eq_true hr]
      rfl
    · rw [if_neg hr, decide_eq_false hr]
      rfl
  constructor
  · intro h hnone
    have hsame := congrFun (congrFun h r.module) r.line
    rwa [happend, happend, hnone, Option.none_or, Option.none_or, hcons, if_pos ⟨rfl, rfl⟩] at hsame
  · intro h
    funext m n
    rw [happend, happend, hcons]
    split
    · rename_i hr
      obtain ⟨rfl, rfl⟩ := hr
      cases hfront : firstAddress front r.module r.line with
      | some a => rfl
      | none => rw [Option.none_or, Option.none_or, h hfront]
    · rfl

section
variable {pre post : List Str} {line : Str} {s t : CdbParser}

/-- The records of a text without a line that is none of them. -/
theorem filterMap_middle {α : Type} {f : Str → Option α} (h : f line = none) :
    (pre ++ line :: post).filterMap f = (pre ++ post).filterMap f := by
  rw [List.filterMap_append, List.filterMap_cons_none h, List.filterMap_append]

theorem data_eq_of_asm {r : AsmRecord} (hline : asmRecord? line = some r)
    (hs : Run.exec parseRaw (pre ++ post) {} = some s)
    (ht : Run.exec parseRaw (pre ++ line :: post) {} = some t) : s.data = t.data := by
  have hothers : others (pre ++ line :: post) = others (pre ++ post) := by
    unfold others
    rw [List.filter_append, List.filter_cons_of_neg, List.filter_append]
    rw [hline]
    exact Bool.false_ne_true
  have hdata := (exec_parts ht).2
  rw [hothers, (exec_parts hs).2] at hdata
  exact Option.some.inj hdata

/-! ### Lines of C -/

theorem linesBehind_append (names pre post : List Str) : linesBehind names (pre ++ post)
    = linesBehind names pre ++ linesBehind (names ++ pre.filterMap moduleName?) post := by
  induction pre generalizing names with
  | nil => rw [List.filterMap_nil, List.append_nil]; rfl
  | cons line pre ih =>
    have hnames : (moduleName? line).toList ++ pre.filterMap moduleName?
        = (line :: pre).filterMap moduleName? := by
      cases hname : moduleName? line with
      | none => rw [List.filterMap_cons_none hname]; rfl
      | some name => rw [List.filterMap_cons_some hname]; rfl
    rw [List.cons_append, linesBehind, ih, linesBehind, List.append_assoc, List.append_assoc, hnames]

theorem data_eq_iff_of_cLine {ln : CdbgInfoLine} {name : Str} (hline : cLine? line = some (ln, name))
    (hmodule : moduleName? line = none) (hs : Run.exec parseRaw (pre ++ post) {} = some s)
    (ht : Run.exec parseRaw (pre ++ line :: post) {} = some t) :
    s.data = t.data ↔ name ∉ pre.filterMap moduleName? := by
  constructor
  · intro heq hname
    -- one line more is stored
    have hstored : storedLine (pre.filterMap moduleName?) line = some ln := by
      rw [storedLine, hline, Option.filter_some, if_pos (List.contains_iff_mem.mpr hname)]
      rfl
    have hlines : (allLines s.data).length = (linesBehind [] (pre ++ post)).length :=
      (exec_lines hs).length_eq
    have hlines' : (allLines t.data).length = (linesBehind [] (pre ++ line :: post)).length :=
      (exec_lines ht).length_eq
    rw [heq, hlines', linesBehind_append, linesBehind_append, linesBehind, List.nil_append, hstored,
      hmodule, Option.toList_none, List.append_nil] at hlines
    simp at hlines
  · intro hname
    obtain ⟨u, hu, hrest⟩ := Run.exec_append_eq_some.mp hs
    obtain ⟨u', hu', hrest'⟩ := Run.exec_append_eq_some.mp ht
    obtain rfl := Option.some.inj (hu.symm.trans hu')
    have hnames : u.data.map CdbgInfoModule.name = pre.filterMap moduleName? := exec_names hu
    rw [Run.exec_cons, parseRaw_cLine hline, storeLine_dropped (by rw [hnames]; exact hname),
      Option.bind_some, hrest] at hrest'
    exact congrArg CdbParser.data (Option.some.inj hrest')

end

/-! ### Markers -/

section
variable {lines pre post before between : List Str} {line declaration : Str}
  {front back es : List FunctionEntry} {e : FunctionEntry} {current : Option Str}

theorem moduleBehind_cons (line : Str) (lines : List Str) (current : Option Str) :
    moduleBehind current (line :: lines) = moduleBehind ((moduleName? line).or current) lines := by
  unfold moduleBehind
  cases hname : moduleName? line with
  | none => rw [List.filterMap_cons_none hname, Option.none_or]
  | some name =>
    rw [List.filterMap_cons_some hname, List.getLast?_cons, Option.some_or]
    cases (lines.filterMap moduleName?).getLast? <;> rfl

theorem passed_append (a b : List Str) (current : Option Str) (es : List FunctionEntry) :
    passed current es (a ++ b) = passed (moduleBehind current a) (passed current es a) b := by
  induction a generalizing current es with
  | nil => rfl
  | cons line a ih => rw [List.cons_append, passed, ih, passed, moduleBehind_cons]

theorem declared_concat (a b : List Str) (current : Option Str) :
    declared current (a ++ b) = declared current a ++ declared (moduleBehind current a) b := by
  induction a generalizing current with
  | nil => rfl
  | cons line a ih =>
    rw [List.cons_append, declared, ih, declared, moduleBehind_cons, List.append_assoc]

/-- Every declared function has its line. -/
theorem exists_declaration (h : declared current lines = front ++ e :: back) :
    ∃ before declaration between, lines = before ++ declaration :: between ∧
      declares (moduleBehind current before) declaration = some e ∧
      declared current before = front := by
  induction lines generalizing current front with
  | nil => exact absurd h.symm (List.append_ne_nil_of_right_ne_nil front (List.cons_ne_nil e back))
  | cons line lines ih =>
    rw [declared] at h
    cases hdeclares : declares current line with
    | none =>
      rw [hdeclares, Option.toList_none, List.nil_append] at h
      obtain ⟨before, declaration, between, rfl, hdeclaration, hfront⟩ := ih h
      refine ⟨line :: before, declaration, between, rfl, ?_, ?_⟩
      · rwa [moduleBehind_cons]
      · rw [declared, hdeclares, hfront]
        rfl
    | some first =>
      rw [hdeclares] at h
      cases front with
      | nil =>
        obtain ⟨rfl, -⟩ := List.cons.inj h
        exact ⟨[], line, lines, rfl, hdeclares, rfl⟩
      | cons first' front =>
        obtain ⟨rfl, hrest⟩ := List.cons.inj h
        obtain ⟨before, declaration, between, rfl, hdeclaration, hfront⟩ := ih hrest
        refine ⟨line :: before, declaration, between, rfl, ?_, ?_⟩
        · rwa [moduleBehind_cons]
        · rw [declared, hdeclares, hfront]
          rfl

/-- A search among functions, by their declarations. -/
theorem endsAt_of_unset (hes : es.map unset = front ++ e :: back) (m : Marker) :
    m.endsAt es front.length = true ↔ m.ComesTo front e := by
  have hsame : m.endsAt es front.length = m.endsAt (front ++ e :: back) front.length := by
    apply endsAt_congr
    rw [← hes, hits_unset]
  rw [hsame, Marker.endsAt_iff]

/-- **A declared function** behind more lines has the addresses of the markers that came to it. -/
theorem getElem?_declared (hpre : pre = before ++ declaration :: between)
    (hdeclares : declares (moduleBehind none before) declaration = some e) :
    (passed none [] pre)[(declared none before).length]? = some (e.withAddresses
      (lastAddr 0xFFFF (coming between (declared none before) e false))
      (lastAddr 0xFFFF (coming between (declared none before) e true))) := by
  obtain ⟨hstart, hend, hunset⟩ := unset_of_declares hdeclares
  have hfront : (passed none [] before).map unset = declared none before :=
    map_unset_passed before none []
  have hlength : (passed none [] before).length = (declared none before).length := by
    rw [← hfront, List.length_map]
  have hmarker : marker? declaration = none := by
    apply marker?_eq_none
    intro hline
    rw [declares_line hline] at hdeclares
    cases hdeclares
  have hes : (passed none [] before ++ [e]).map unset = declared none before ++ e :: [] := by
    rw [List.map_append, hfront, List.map_singleton, hunset]
  have hat : (passed none [] before ++ [e])[(declared none before).length]? = some e := by
    rw [← hlength, List.getElem?_append_right (Nat.le_refl _), Nat.sub_self]
    rfl
  rw [hpre, passed_append, passed, hmarker, hdeclares]
  refine (getElem?_passed hat).trans ?_
  have hcoming : ∀ isEnd, ((between.filterMap marker?).filter fun m =>
      m.isEnd == isEnd && m.endsAt (passed none [] before ++ [e]) (declared none before).length)
        = coming between (declared none before) e isEnd := by
    intro isEnd
    refine List.filter_congr fun m _ => Bool.eq_iff_iff.mpr ?_
    rw [Bool.and_eq_true, beq_iff_eq, endsAt_of_unset hes, decide_eq_true_eq]
  have hstarts := hcoming false
  have hends := hcoming true
  simp only [beq_true, beq_false] at hstarts hends
  rw [hstart, hend, hstarts, hends]

/-- The function of a declaration, among those behind more lines. -/
theorem endsAt_declared (hpre : pre = before ++ declaration :: between)
    (hdeclares : declares (moduleBehind none before) declaration = some e) (m : Marker) :
    m.endsAt (passed none [] pre) (declared none before).length = true ↔
      m.ComesTo (declared none before) e := by
  have hes : (passed none [] pre).map unset = declared none before ++ e ::
      declared ((moduleName? declaration).or (moduleBehind none before)) between := by
    rw [map_unset_passed, hpre, declared_concat, declared, hdeclares]
    rfl
  exact endsAt_of_unset hes m

/-- The markers behind it that come to it. -/
theorem coming_eq (hpre : pre = before ++ declaration :: between)
    (hdeclares : declares (moduleBehind none before) declaration = some e) (lines : List Str)
    (isEnd : Bool) : ((lines.filterMap marker?).filter fun m => m.isEnd == isEnd &&
      m.endsAt (passed none [] pre) (declared none before).length)
        = coming lines (declared none before) e isEnd := by
  refine List.filter_congr fun m _ => Bool.eq_iff_iff.mpr ?_
  rw [Bool.and_eq_true, beq_iff_eq, endsAt_declared hpre hdeclares, decide_eq_true_eq]

variable {s t u : CdbParser} {m : Marker}

theorem moduleName?_of_line (h : LineRecord line) : moduleName? line = none := by
  cases hname : moduleName? line with
  | none => rfl
  | some name =>
    rw [LineRecord, moduleName?_eq_some.mp hname] at h
    cases h

/-- Setting an address that is there already. -/
theorem modifyFirst_same {k : Nat} (hk : es[k]? = some e) (hends : m.endsAt es k = true)
    (hset : m.set e = e) : modifyFirst m.hits m.set es = es := by
  refine List.ext_getElem? fun i => ?_
  rw [getElem?_modifyFirst, beq_iff_eq.mp hends]
  split
  · rename_i hi
    rw [← Option.some.inj hi, hk, Option.map_some, hset]
  · rfl

/-- The search of a marker ends at a function that one of the lines declares. -/
theorem exists_declared {k : Nat} (hends : m.endsAt (passed none [] pre) k = true) :
    ∃ before declaration between e, pre = before ++ declaration :: between ∧
      declares (moduleBehind none before) declaration = some e ∧
      (declared none before).length = k := by
  have hlt : k < (declared none pre).length := by
    have hlength := congrArg List.length (map_unset_passed pre none [])
    rw [List.length_map, List.map_nil, List.nil_append] at hlength
    rw [← hlength]
    exact (List.findIdx?_eq_some_iff_getElem.mp (beq_iff_eq.mp hends)).1
  have hsplit : declared none pre
      = (declared none pre).take k ++ (declared none pre)[k] :: (declared none pre).drop (k + 1) := by
    rw [List.cons_getElem_drop_succ, List.take_append_drop]
  obtain ⟨before, declaration, between, hpre, hdeclares, hfront⟩ := exists_declaration hsplit
  refine ⟨before, declaration, between, _, hpre, hdeclares, ?_⟩
  rw [hfront, List.length_take_of_le (Nat.le_of_lt hlt)]

/-- An address that is set, and that no later marker sets, was there already if nothing is to be seen
    of it. -/
theorem addr_of_same {starts ends : List Marker}
    (h : e.withAddresses (lastAddr e.startAddr starts) (lastAddr e.endAddr ends)
      = (m.set e).withAddresses (lastAddr (m.set e).startAddr starts)
          (lastAddr (m.set e).endAddr ends))
    (hnone : (if m.isEnd then ends else starts) = []) :
    (if m.isEnd then e.endAddr else e.startAddr) = m.addr := by
  cases hend : m.isEnd with
  | true =>
    rw [hend, if_pos rfl] at hnone
    have hlast := congrArg FunctionEntry.endAddr h
    rwa [hnone, Marker.set, hend] at hlast
  | false =>
    rw [hend, if_neg Bool.false_ne_true] at hnone
    have hfirst := congrArg FunctionEntry.startAddr h
    rwa [hnone, Marker.set, hend] at hfirst

/-- **A marker** behind the lines `pre`: the runs with and without it go on to the same functions. -/
theorem functions_eq_iff (hmarker : marker? line = some m) (hu : Run.exec parseRaw pre {} = some u)
    (hs : Run.exec parseRaw post u = some s) (ht : Run.exec parseRaw (line :: post) u = some t) :
    functions s.data = functions t.data ↔ m.Idle pre post := by
  have hline : LineRecord line := by
    by_contra hnot
    rw [marker?_eq_none hnot] at hmarker
    cases hmarker
  have hes : functions u.data = passed none [] pre := exec_passed hu
  have hfunctions : functions s.data = passed (currentName u) (passed none [] pre) post := by
    rw [exec_passed hs, hes]
  have hfunctions' : functions t.data = passed ((moduleName? line).or (currentName u))
      (modifyFirst m.hits m.set (passed none [] pre)) post := by
    rw [exec_passed ht, passed, hes, declares_line hline, hmarker, Option.toList_none, List.append_nil]
    rfl
  rw [hfunctions, hfunctions', moduleName?_of_line hline, Option.none_or]
  constructor
  · intro heq before declaration between e hpre hdeclares hcomes
    have hends := (endsAt_declared hpre hdeclares m).mpr hcomes
    obtain ⟨x, hx, hk⟩ : ∃ x, x = e.withAddresses _ _ ∧ _ = some x :=
      ⟨_, rfl, getElem?_declared hpre hdeclares⟩
    have hk' : (modifyFirst m.hits m.set (passed none [] pre))[(declared none before).length]?
        = some (m.set x) := by
      rw [getElem?_modifyFirst, if_pos (beq_iff_eq.mp hends), hk, Option.map_some]
    have hsame := congrArg (fun l => l[(declared none before).length]?) heq
    rw [getElem?_passed hk, getElem?_passed hk'] at hsame
    simp only [endsAt_modifyFirst] at hsame
    refine or_iff_not_imp_left.mpr fun hnone => ?_
    -- nothing comes later, so that the address is the one that was set
    have haddr := addr_of_same (Option.some.inj hsame) (by
      rw [← not_not.mp hnone, ← coming_eq hpre hdeclares]
      cases m.isEnd <;> simp only [beq_true, beq_false, if_true, Bool.false_eq_true, if_false])
    rw [← haddr, hx]
    cases m.isEnd <;> rfl
  · intro h
    cases hfind : (passed none [] pre).findIdx? m.hits with
    | none =>
      rw [modifyFirst_of_forall]
      intro x hx hhits
      have hfalse := List.findIdx?_eq_none_iff.mp hfind x hx
      rw [hhits] at hfalse
      cases hfalse
    | some k =>
      have hends : m.endsAt (passed none [] pre) k = true := beq_iff_eq.mpr hfind
      obtain ⟨before, declaration, between, e, hpre, hdeclares, rfl⟩ := exists_declared hends
      have hcomes := (endsAt_declared hpre hdeclares m).mp hends
      rcases h before declaration between _ hpre hdeclares hcomes with hlater | haddr
      · refine (passed_modifyFirst hends ?_).symm
        obtain ⟨m', hm'⟩ := List.exists_mem_of_ne_nil _ hlater
        rw [← coming_eq hpre hdeclares] at hm'
        obtain ⟨hmem, hm'⟩ := List.mem_filter.mp hm'
        obtain ⟨hend, hends'⟩ := Bool.and_eq_true_iff.mp hm'
        exact ⟨m', hmem, beq_iff_eq.mp hend, hends'⟩
      · rw [modifyFirst_same (getElem?_declared hpre hdeclares) hends]
        unfold Marker.set
        rw [← haddr]
        cases m.isEnd <;> rfl

end

/-! ## The result -/

/-- Does a record end in a colon and hexadecimal digits? -/
def HasAddress (content : Str) : Prop :=
  ∃ colon ∈ rfind content 58, content.drop (colon + 1) ≠ [] ∧
    ∀ c ∈ content.drop (colon + 1), isHexDigit c = true

instance (content : Str) : Decidable (HasAddress content) :=
  inferInstanceAs (Decidable (∃ colon ∈ rfind content 58, _))

/-- An empty record stands behind the record of a module: the parser does not return
    (`parse_ends_iff`). -/
def Stops (lines : List Str) : Prop :=
  ∃ front record back, lines = front ++ record :: back ∧ EmptyRecord record ∧
    ∃ earlier ∈ front, ModuleRecord earlier

theorem stops_iff (lines : List Str) : Stops lines ↔ Run.exec parseRaw lines {} = none := by
  rw [← Option.not_isSome_iff_eq_none, exec_parseRaw_isSome]
  constructor
  · rintro ⟨front, record, back, heq, hempty, earlier, hmem, hmodule⟩ h
    exact (h front record back heq hempty).2 earlier hmem hmodule
  · intro h
    by_contra hnone
    refine h fun front record back heq hempty => ⟨rfl, fun earlier hmem hmodule => ?_⟩
    exact hnone ⟨front, record, back, heq, hempty, earlier, hmem, hmodule⟩

section
variable {pre post : List Str} {line content : Str}

/-- A line record ends, and leaves the modules to the next lines. -/
theorem exec_behind_line (hrecord : recordOf line = some (76, content)) (s : CdbParser) :
    (Run.exec parseRaw (line :: post) s).isSome = (Run.exec parseRaw post s).isSome := by
  obtain ⟨t, ht, hdata⟩ := parseLineInfo_ends content s
  have hline : parseRaw line s = some t := by
    rw [parseRaw_eq, hrecord]
    exact ht
  rw [Run.exec_cons, hline, Option.bind_some, Bool.eq_iff_iff, exec_parseRaw_isSome,
    exec_parseRaw_isSome, hdata]

/-- A record that no reader reads is skipped. -/
theorem parseRaw_skipped (hrecord : recordOf line = some (76, content))
    (hasm : asmRecord? line = none) (hmarker : marker? line = none) (hcLine : cLine? line = none)
    (s : CdbParser) : parseRaw line s = some s := by
  unfold asmRecord? at hasm
  unfold marker? at hmarker
  unfold cLine? at hcLine
  rw [hrecord] at hasm hmarker hcLine
  rw [parseRaw_eq, hrecord]
  show parseLineInfo content s = some s
  unfold parseLineInfo
  split
  · rfl
  · exact parseFuncMarker_skipped false hmarker s
  · exact parseFuncMarker_skipped false hmarker s
  · exact parseFuncMarker_skipped true hmarker s
  · exact parseFuncMarker_skipped true hmarker s
  · rename_i rest
    have hnone : readAsmRecord (65 :: rest) = none := hasm
    rw [parseAsmLine_eq, hnone]
  · rename_i rest
    have hnone : readCLine (67 :: rest) = none := hcLine
    rw [parseCLine_eq, hnone]
    rfl
  · rfl

/-- Only one reader reads a record. -/
theorem readers_of_asm {r : AsmRecord} (h : asmRecord? line = some r) :
    marker? line = none ∧ cLine? line = none := by
  unfold asmRecord? at h
  split at h
  · rename_i rest hrecord
    rw [marker?, cLine?, hrecord]
    exact ⟨rfl, rfl⟩
  · cases h

theorem readers_of_cLine {x : CdbgInfoLine × Str} (h : cLine? line = some x) :
    asmRecord? line = none ∧ marker? line = none := by
  unfold cLine? at h
  split at h
  · rename_i rest hrecord
    rw [asmRecord?, marker?, hrecord]
    exact ⟨rfl, rfl⟩
  · cases h

/-- For each form of a record, one part of `Idle`. -/
theorem idle_iff_of_asm {r : AsmRecord} (hasm : asmRecord? line = some r) : Idle pre line post ↔
    (firstAddress (pre.filterMap asmRecord?) r.module r.line = none →
      firstAddress (post.filterMap asmRecord?) r.module r.line = some r.addr) := by
  obtain ⟨hmarker, hcLine⟩ := readers_of_asm hasm
  refine ⟨fun h => h.asm r hasm, fun h => ⟨fun q hq => ?_, fun ln name hname => ?_, fun m hm => ?_⟩⟩
  · rw [← Option.some.inj (hasm.symm.trans hq)]
    exact h
  · rw [hcLine] at hname
    cases hname
  · rw [hmarker] at hm
    cases hm

theorem idle_iff_of_cLine {ln : CdbgInfoLine} {name : Str} (hcLine : cLine? line = some (ln, name)) :
    Idle pre line post ↔ name ∉ pre.filterMap moduleName? := by
  obtain ⟨hasm, hmarker⟩ := readers_of_cLine hcLine
  refine ⟨fun h => h.cLine ln name hcLine, fun h => ⟨fun q hq => ?_, fun ln' name' hname => ?_,
    fun m hm => ?_⟩⟩
  · rw [hasm] at hq
    cases hq
  · obtain ⟨rfl, rfl⟩ := Prod.mk.inj (Option.some.inj (hcLine.symm.trans hname))
    exact h
  · rw [hmarker] at hm
    cases hm

theorem idle_iff_of_marker (hasm : asmRecord? line = none) (hcLine : cLine? line = none) :
    Idle pre line post ↔ ∀ m, marker? line = some m → m.Idle pre post := by
  refine ⟨fun h => h.marker, fun h => ⟨fun q hq => ?_, fun ln name hname => ?_, h⟩⟩
  · rw [hasm] at hq
    cases hq
  · rw [hcLine] at hname
    cases hname

/-- **One record of a run**: it makes no difference exactly if it is idle. -/
theorem exec_idle_iff (hrecord : recordOf line = some (76, content)) {s t : CdbParser}
    (hs : Run.exec parseRaw (pre ++ post) {} = some s)
    (ht : Run.exec parseRaw (pre ++ line :: post) {} = some t) :
    (s.data = t.data ∧ firstAddress ((pre ++ post).filterMap asmRecord?)
      = firstAddress ((pre ++ line :: post).filterMap asmRecord?)) ↔ Idle pre line post := by
  have hline : LineRecord line := by
    rw [LineRecord, hrecord]
    rfl
  cases hasm : asmRecord? line with
  | some r =>
    rw [and_iff_right (data_eq_of_asm hasm hs ht), List.filterMap_append, List.filterMap_append,
      List.filterMap_cons_some hasm, firstAddress_eq_iff, idle_iff_of_asm hasm]
  | none =>
    rw [and_iff_left (congrArg firstAddress (filterMap_middle hasm).symm)]
    cases hcLine : cLine? line with
    | some x =>
      rw [data_eq_iff_of_cLine hcLine (moduleName?_of_line hline) hs ht, idle_iff_of_cLine hcLine]
    | none =>
      obtain ⟨u, hu, hrest⟩ := Run.exec_append_eq_some.mp hs
      obtain ⟨u', hu', hrest'⟩ := Run.exec_append_eq_some.mp ht
      obtain rfl := Option.some.inj (hu.symm.trans hu')
      rw [idle_iff_of_marker hasm hcLine]
      cases hmarker : marker? line with
      | none =>
        rw [Run.exec_cons, parseRaw_skipped hrecord hasm hmarker hcLine, Option.bind_some,
          hrest] at hrest'
        refine iff_of_true (congrArg CdbParser.data (Option.some.inj hrest')) fun m hm => ?_
        cases hm
      | some m =>
        have hiff := functions_eq_iff hmarker hu hrest hrest'
        constructor
        · intro hdata m' hm'
          obtain rfl := Option.some.inj hm'
          exact hiff.mp (congrArg functions hdata)
        · intro h
          obtain ⟨v, hv, hrun⟩ := Run.exec_cons_eq_some.mp hrest'
          have hbare : bareAll u = bareAll v := by
            rw [parseRaw_mark hmarker] at hv
            obtain rfl := Option.some.inj hv
            exact congrArg (CdbParser.mk · ∅) (bare_mark m u.data).symm
          have hsame := exec_bare hrest hrun hbare
          exact eq_of_bare (congrArg CdbParser.data hsame) (hiff.mpr (h m rfl))

end

/-- **When a record without an address makes no difference**, for every line record of every text:
    if it has no address, the result of the parser is the same without it.  This is so if and only if
    it has an address, or the parser does not return at all, or the record is idle where it stands. -/
theorem malformed_harmless_iff (order order' : HashOrder) {text rest line content : Str}
    {pre post : List Str} (htext : getLines text = pre ++ line :: post)
    (hrest : getLines rest = pre ++ post) (hrecord : recordOf line = some (76, content)) :
    (¬ HasAddress content → Unchanged order order' text rest) ↔
      HasAddress content ∨ Stops (getLines text) ∨ Idle pre line post := by
  have hiff : Unchanged order order' text rest ↔ Stops (getLines text) ∨ Idle pre line post := by
    have hends : (Run.exec parseRaw (getLines rest) {}).isSome
        = (Run.exec parseRaw (getLines text) {}).isSome := by
      rw [htext, hrest, Run.exec_append, Run.exec_append]
      cases Run.exec parseRaw pre {} with
      | none => rfl
      | some s => exact (exec_behind_line hrecord s).symm
    rw [stops_iff]
    cases ht : Run.exec parseRaw (getLines text) {} with
    | none =>
      rw [ht, Option.isSome_none, Option.isSome_eq_false_iff, Option.isNone_iff_eq_none] at hends
      refine iff_of_true ?_ (Or.inl rfl)
      rw [Unchanged, parseText, parseText, hends, ht]
      exact Option.rel_none_none
    | some t =>
      rw [ht, Option.isSome_some] at hends
      obtain ⟨s, hs⟩ := Option.isSome_iff_exists.mp hends
      have hline : LineRecord line := by
        rw [LineRecord, hrecord]
        rfl
      have hnames : (getLines rest).filterMap moduleName? = (getLines text).filterMap moduleName? := by
        rw [htext, hrest, filterMap_middle (moduleName?_of_line hline)]
      rw [unchanged_iff order order' hs ht hnames, or_iff_right (Option.some_ne_none t)]
      rw [htext] at ht
      rw [hrest] at hs
      rw [asmRecordsOf, asmRecordsOf, htext, hrest]
      exact exec_idle_iff hrecord hs ht
  rw [hiff]
  exact or_iff_not_imp_left.symm

/-- A marker whose digits are followed by something else has no address, but a number. -/
example : ¬ HasAddress (str "G$f$0$0:12G") ∧
    marker? (str "L:G$f$0$0:12G") = some ⟨true, false, [], str "f", 0x12⟩ := by
  decide +kernel

/-- A line of a module that is not declared, with no address: the result is the same without it. -/
theorem line_of_no_module_harmless :
    Unchanged ⟨id, id, List.Perm.refl, List.Perm.refl⟩ ⟨id, id, List.Perm.refl, List.Perm.refl⟩
      (str "M:main\nL:C$other.c$5$0_0$1\n") (str "M:main\n") := by
  have hread : cLine? (str "L:C$other.c$5$0_0$1")
      = some (⟨str "other.c", 5, 0, str "local"⟩, str "other") := by decide +kernel
  have hidle : Idle [str "M:main"] (str "L:C$other.c$5$0_0$1") [] :=
    (idle_iff_of_cLine hread).mpr (by decide +kernel)
  have htext : getLines (str "M:main\nL:C$other.c$5$0_0$1\n")
      = [str "M:main"] ++ str "L:C$other.c$5$0_0$1" :: [] := by decide +kernel
  have hrest : getLines (str "M:main\n") = [str "M:main"] ++ [] := by decide +kernel
  have hrecord : recordOf (str "L:C$other.c$5$0_0$1") = some (76, str "C$other.c$5$0_0$1") := by
    decide +kernel
  exact (malformed_harmless_iff _ _ htext hrest hrecord).mpr (Or.inr (Or.inr hidle))
    (by decide +kernel)

/-- **A line of C without an address** is stored, with the address 0. -/
theorem line_without_address_stored :
    getLines (str "M:main\nL:C$main.c$5$0_0$1\n") = [str "M:main"] ++ str "L:C$main.c$5$0_0$1" :: [] ∧
      getLines (str "M:main\n") = [str "M:main"] ++ [] ∧
      recordOf (str "L:C$main.c$5$0_0$1") = some (76, str "C$main.c$5$0_0$1") ∧
      ¬ HasAddress (str "C$main.c$5$0_0$1") ∧
      ((parseText ⟨id, id, List.Perm.refl, List.Perm.refl⟩ (str "M:main\nL:C$main.c$5$0_0$1\n")).map
        fun modules => modules.map CdbgInfoModule.lines) = some [[⟨str "main.c", 5, 0, str "local"⟩]] ∧
      ((parseText ⟨id, id, List.Perm.refl, List.Perm.refl⟩ (str "M:main\n")).map
        fun modules => modules.map CdbgInfoModule.lines) = some [[]] ∧
      ¬ Unchanged ⟨id, id, List.Perm.refl, List.Perm.refl⟩ ⟨id, id, List.Perm.refl, List.Perm.refl⟩
        (str "M:main\nL:C$main.c$5$0_0$1\n") (str "M:main\n") := by
  have hlines : ((parseText ⟨id, id, List.Perm.refl, List.Perm.refl⟩
      (str "M:main\nL:C$main.c$5$0_0$1\n")).map fun modules => modules.map CdbgInfoModule.lines)
        = some [[⟨str "main.c", 5, 0, str "local"⟩]] := by decide +kernel
  have hnone : ((parseText ⟨id, id, List.Perm.refl, List.Perm.refl⟩ (str "M:main\n")).map
      fun modules => modules.map CdbgInfoModule.lines) = some [[]] := by decide +kernel
  refine ⟨by decide +kernel, by decide +kernel, by decide +kernel, by decide +kernel, hlines, hnone, ?_⟩
  intro h
  obtain ⟨modules, hmodules, hwith⟩ := Option.map_eq_some_iff.mp hlines
  obtain ⟨modules', hmodules', hwithout⟩ := Option.map_eq_some_iff.mp hnone
  rw [Unchanged, hmodules, hmodules', Option.rel_some_some] at h
  have hcount : declaredCount (str "M:main\nL:C$main.c$5$0_0$1\n") = 1 := by decide +kernel
  have hsame := congrArg (List.map fun x => x.1.lines) h.declared
  rw [hcount, List.map_map, List.map_map] at hsame
  change (modules'.take 1).map CdbgInfoModule.lines = (modules.take 1).map CdbgInfoModule.lines at hsame
  rw [List.map_take, List.map_take, hwith, hwithout] at hsame
  exact absurd hsame (by decide)

end Udap.Sdcc.CdbParser
