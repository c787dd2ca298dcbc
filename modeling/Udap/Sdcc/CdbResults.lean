/-
  RESULTS — when do two texts have the same modules?

  The parser collects assembly lines in hash tables and walks over them in an order that is not
  specified.  So two results are the same if they differ in nothing but the order of what comes out
  of these tables: the assembly lines of a module, and the modules that no M: record declares.

  1. **Results** — `SameModules` compares two results.  They are the same exactly if the declared
     modules are the same in front of the merge, and the first assembly records (`same_iff`,
     `unchanged_iff`).

  2. **Bare runs** — no line looks at the addresses of functions, so that two runs that differ in them
     differ in nothing else (`exec_bare`, `eq_of_bare`).
-/
import Udap.Sdcc.CdbAsm

set_option linter.unusedVariables false

namespace Udap.Sdcc.CdbParser

open Udap Udap.Cxx

/-! ## Results -/

/-- A module, with its hash table of assembly lines as a function. -/
def shape (mod : CdbgInfoModule) : CdbgInfoModule × (Int → Option UInt16) :=
  (noAsm mod, fun n => mod.asmLines.lookup n)

/-- **The same modules**: the first `k` one by one, and those behind them, which come out of a hash
    table, in any order. -/
structure SameModules (k : Nat) (a b : List CdbgInfoModule) : Prop where
  declared : (a.take k).map shape = (b.take k).map shape
  stubs : ((a.drop k).map shape).Perm ((b.drop k).map shape)

theorem SameModules.symm {k : Nat} {a b : List CdbgInfoModule} (h : SameModules k a b) :
    SameModules k b a := ⟨h.declared.symm, h.stubs.symm⟩

/-- Modules with the assembly lines that `look` knows, behind modules with the names `seen`: they are
    in the first module of a name. -/
def dress (look : Str → Int → Option UInt16) :
    List Str → List CdbgInfoModule → List (CdbgInfoModule × (Int → Option UInt16))
  | _, [] => []
  | seen, mod :: mods =>
    (mod, if seen.contains mod.name then fun _ => none else look mod.name) ::
      dress look (seen ++ [mod.name]) mods

section
variable {look : Str → Int → Option UInt16}

theorem dress_append (seen : List Str) (a b : List CdbgInfoModule) : dress look seen (a ++ b)
    = dress look seen a ++ dress look (seen ++ a.map CdbgInfoModule.name) b := by
  induction a generalizing seen with
  | nil => rw [List.map_nil, List.append_nil]; rfl
  | cons mod a ih =>
    rw [List.cons_append, dress, ih, dress, List.map_cons, List.append_assoc]
    rfl

theorem length_dress (seen : List Str) (a : List CdbgInfoModule) :
    (dress look seen a).length = a.length := by
  induction a generalizing seen with
  | nil => rfl
  | cons mod a ih => rw [dress, List.length_cons, List.length_cons, ih]

/-- Stubs of new names have all their lines. -/
theorem dress_stubs {seen names : List Str} (hnodup : names.Nodup) (hnew : ∀ m ∈ names, m ∉ seen) :
    dress look seen (names.map stub) = names.map fun m => (stub m, look m) := by
  induction names generalizing seen with
  | nil => rfl
  | cons name names ih =>
    obtain ⟨hname, hnames⟩ := List.forall_mem_cons.mp hnew
    obtain ⟨hnot, hnodup⟩ := List.nodup_cons.mp hnodup
    have hrest : ∀ m ∈ names, m ∉ seen ++ [name] := by
      intro m hm hmem
      rcases List.mem_append.mp hmem with hmem | hmem
      · exact hnames m hm hmem
      · rw [List.mem_singleton.mp hmem] at hm
        exact hnot hm
    have hfirst : ¬ seen.contains (stub name).name = true :=
      fun h => hname (List.contains_iff_mem.mp h)
    rw [List.map_cons, List.map_cons, dress, if_neg hfirst]
    exact congrArg _ (ih hnodup hrest)

variable {declared modules : List CdbgInfoModule} {known : Str → Prop}

/-- The assembly lines of a module, by its place. -/
theorem Merged.lookup_eq (h : Merged declared known look modules) (hfirst : FirstNamed modules)
    {front back : List CdbgInfoModule} {mod : CdbgInfoModule} (heq : modules = front ++ mod :: back)
    (n : Int) : mod.asmLines.lookup n
      = (if (front.map CdbgInfoModule.name).contains mod.name then fun _ => none
          else look mod.name) n := by
  have hmod : mod ∈ modules := by
    rw [heq]
    exact List.mem_append_right _ List.mem_cons_self
  have hpairs := hfirst
  rw [heq] at hpairs
  obtain ⟨-, hbehind, hfront⟩ := List.pairwise_append.mp hpairs
  by_cases hseen : (front.map CdbgInfoModule.name).contains mod.name = true
  · rw [if_pos hseen]
    obtain ⟨x, hx, hname⟩ := List.mem_map.mp (List.contains_iff_mem.mp hseen)
    have hempty : mod.asmLines = ∅ := by
      by_contra hne
      exact hfront x hx mod List.mem_cons_self hne hname
    rw [hempty]
    exact AList.lookup_empty n
  · rw [if_neg hseen]
    cases hlook : look mod.name n with
    | none =>
      cases hlookup : mod.asmLines.lookup n with
      | none => rfl
      | some a =>
        rw [h.only mod hmod n a hlookup] at hlook
        cases hlook
    | some a =>
      obtain ⟨x, hx, hname, hlookup⟩ := h.found mod.name n a hlook
      rw [heq] at hx
      rcases List.mem_append.mp hx with hx | hx
      · exact absurd (List.contains_iff_mem.mpr (List.mem_map.mpr ⟨x, hx, hname⟩)) hseen
      · rcases List.mem_cons.mp hx with rfl | hx
        · exact hlookup
        · -- only the first module of a name has lines
          have hne : x.asmLines ≠ ∅ := by
            intro hempty
            rw [hempty, AList.lookup_empty] at hlookup
            cases hlookup
          exact absurd hname.symm ((List.pairwise_cons.mp hbehind).1 x hx hne)

theorem Merged.map_shape (h : Merged declared known look modules) (hfirst : FirstNamed modules) :
    ∃ names : List Str, modules.map shape
        = dress look [] declared ++ names.map (fun m => (stub m, look m)) ∧ names.Nodup ∧
      ∀ m, m ∈ names ↔ (∀ mod ∈ declared, mod.name ≠ m) ∧ known m := by
  obtain ⟨names, hparts, hnodup, hnames⟩ := h.parts
  have hall : ∀ front back, modules = front ++ back →
      back.map shape = dress look (front.map CdbgInfoModule.name) (back.map noAsm) := by
    intro front back
    induction back generalizing front with
    | nil => exact fun _ => rfl
    | cons mod back ih =>
      intro heq
      have hlookup := funext (h.lookup_eq hfirst heq)
      have hrest := ih (front ++ [mod]) (by rw [heq, List.append_assoc]; rfl)
      rw [List.map_append] at hrest
      rw [List.map_cons, List.map_cons, dress, hrest, shape, hlookup]
      rfl
  refine ⟨names, ?_, hnodup, hnames⟩
  rw [hall [] modules rfl, hparts, dress_append, dress_stubs hnodup]
  · rfl
  · intro m hm hmem
    obtain ⟨mod, hmod, hname⟩ := List.mem_map.mp hmem
    exact ((hnames m).mp hm).1 mod hmod hname

end

/-- **When two results are the same**: the declared modules are, and so is what is known of the
    assembly lines. -/
theorem same_iff {declared declared' a b : List CdbgInfoModule}
    {look look' : Str → Int → Option UInt16} {k : Nat} (hk : declared.length = k)
    (hk' : declared'.length = k)
    (ha : Merged declared (fun m => ∃ n, (look m n).isSome) look a) (hfirst : FirstNamed a)
    (hb : Merged declared' (fun m => ∃ n, (look' m n).isSome) look' b) (hfirst' : FirstNamed b) :
    SameModules k a b ↔ declared = declared' ∧ look = look' := by
  obtain ⟨names, hshape, hnodup, hnames⟩ := ha.map_shape hfirst
  obtain ⟨names', hshape', hnodup', hnames'⟩ := hb.map_shape hfirst'
  constructor
  · intro h
    constructor
    · obtain ⟨_, hparts, -, -⟩ := ha.parts
      obtain ⟨_, hparts', -, -⟩ := hb.parts
      have hfst := congrArg (List.map Prod.fst) h.declared
      rw [List.map_map, List.map_map] at hfst
      change (a.take k).map noAsm = (b.take k).map noAsm at hfst
      rwa [List.map_take, List.map_take, hparts, hparts', List.take_left' hk,
        List.take_left' hk'] at hfst
    · -- a line that one of the results has, the other one has too
      have hmono : ∀ {c d : List CdbgInfoModule} {declared declared' known known' look look'},
          SameModules k c d → Merged declared known look c → Merged declared' known' look' d →
          ∀ m n v, look m n = some v → look' m n = some v := by
        intro c d _ _ _ _ look look' hsame hc hd m n v hv
        obtain ⟨mod, hmod, rfl, hlookup⟩ := hc.found m n v hv
        have hthere : ∃ mod' ∈ d, shape mod' = shape mod := by
          rw [← List.take_append_drop k c] at hmod
          rcases List.mem_append.mp hmod with hmod | hmod
          · have hmem := List.mem_map_of_mem (f := shape) hmod
            rw [hsame.declared] at hmem
            obtain ⟨mod', hmod', heq⟩ := List.mem_map.mp hmem
            exact ⟨mod', List.mem_of_mem_take hmod', heq⟩
          · obtain ⟨mod', hmod', heq⟩ :=
              List.mem_map.mp (hsame.stubs.mem_iff.mp (List.mem_map_of_mem hmod))
            exact ⟨mod', List.mem_of_mem_drop hmod', heq⟩
        obtain ⟨mod', hmod', heq⟩ := hthere
        have hname : mod'.name = mod.name := congrArg (fun x => x.1.name) heq
        rw [← hname]
        refine hd.only mod' hmod' n v ?_
        exact (congrArg (fun x => x.2 n) heq).trans hlookup
      funext m n
      refine Option.ext fun v => ?_
      exact ⟨hmono h ha hb m n v, hmono h.symm hb ha m n v⟩
  · rintro ⟨rfl, rfl⟩
    have hlength : (dress look [] declared).length = k := (length_dress [] declared).trans hk
    have hperm : names.Perm names' := by
      rw [List.perm_ext_iff_of_nodup hnodup hnodup']
      exact fun m => (hnames m).trans (hnames' m).symm
    constructor
    · rw [List.map_take, List.map_take, hshape, hshape', List.take_left' hlength,
        List.take_left' hlength]
    · rw [List.map_drop, List.map_drop, hshape, hshape', List.drop_left' hlength,
        List.drop_left' hlength]
      exact hperm.map _

/-- How many modules a text declares. -/
def declaredCount (content : Str) : Nat := ((getLines content).filterMap moduleName?).length

/-- The result of the parser does not change when `rest` takes the place of the text. -/
def Unchanged (order order' : HashOrder) (text rest : Str) : Prop :=
  Option.Rel (SameModules (declaredCount text)) (parseText order rest) (parseText order' text)

/-- What is known of some records. -/
theorem exists_firstAddress {rs : List AsmRecord} {m : Str} :
    (∃ n, (firstAddress rs m n).isSome) ↔ ∃ r ∈ rs, r.module = m := by
  simp only [firstAddress, Option.isSome_map, List.find?_isSome, decide_eq_true_eq]
  constructor
  · rintro ⟨n, r, hr, hname, -⟩
    exact ⟨r, hr, hname⟩
  · rintro ⟨r, hr, hname⟩
    exact ⟨r.line, r, hr, hname, rfl⟩

/-- The merge behind a run. -/
theorem exec_merged (order : HashOrder) {lines : List Str} {s : CdbParser}
    (h : Run.exec parseRaw lines {} = some s) :
    Merged s.data (fun m => ∃ n, (firstAddress (lines.filterMap asmRecord?) m n).isSome)
      (firstAddress (lines.filterMap asmRecord?)) (mergeAsmLines order s) := by
  have hfresh : s.AllFresh :=
    Run.exec_inv parseRaw_fresh _ _ _ (fun mod hmod => absurd hmod List.not_mem_nil) h
  simp only [exists_firstAddress]
  exact merge_merged order _ hfresh (exec_parts h).1

/-- **When two texts have the same result**, if they declare the same modules. -/
theorem unchanged_iff (order order' : HashOrder) {text rest : Str} {s t : CdbParser}
    (hs : Run.exec parseRaw (getLines rest) {} = some s)
    (ht : Run.exec parseRaw (getLines text) {} = some t)
    (hnames : (getLines rest).filterMap moduleName? = (getLines text).filterMap moduleName?) :
    Unchanged order order' text rest ↔
      s.data = t.data ∧ firstAddress (asmRecordsOf rest) = firstAddress (asmRecordsOf text) := by
  have hrest : parseText order rest = some (mergeAsmLines order s) := by
    rw [parseText, hs, Option.map_some]
  have htext : parseText order' text = some (mergeAsmLines order' t) := by
    rw [parseText, ht, Option.map_some]
  have hcount : ∀ {lines : List Str} {u : CdbParser}, Run.exec parseRaw lines {} = some u →
      u.data.length = (lines.filterMap moduleName?).length := by
    intro lines u hu
    have hall : u.data.map CdbgInfoModule.name = lines.filterMap moduleName? := exec_names hu
    rw [← hall, List.length_map]
  rw [Unchanged, hrest, htext, Option.rel_some_some]
  exact same_iff ((hcount hs).trans (congrArg List.length hnames)) (hcount ht)
    (exec_merged order hs) (parse_inv hrest).2 (exec_merged order' ht) (parse_inv htext).2

/-! ## Bare runs -/

/-- The modules without the addresses of their functions, and no assembly lines. -/
def bareAll (s : CdbParser) : CdbParser := ⟨s.data.map bare, ∅⟩

theorem map_modifyLast_comm {α β : Type} {e : α → β} {f : α → α} {g : β → β}
    (hf : ∀ x, e (f x) = g (e x)) (l : List α) :
    modifyLast g (l.map e) = (modifyLast f l).map e := by
  induction l with
  | nil => rfl
  | cons x l ih =>
    cases l with
    | nil => exact congrArg (fun y => [y]) (hf x).symm
    | cons y l => exact congrArg (e x :: ·) ih

theorem bareAll_blind : Blind bareAll where
  isEmpty s := List.isEmpty_map
  opened s content := by
    show CdbParser.mk (s.data.map bare ++ _) ∅ = ⟨(s.data ++ _).map bare, ∅⟩
    rw [List.map_append]
    rfl
  current s f hf :=
    congrArg (CdbParser.mk · ∅) (map_modifyLast_comm (fun mod => hf.bare mod) s.data)
  line s ln name := by
    have hnames : (bareAll s).data.getLast?.map CdbgInfoModule.name
        = s.data.getLast?.map CdbgInfoModule.name := by
      show (s.data.map bare).getLast?.map _ = _
      rw [List.getLast?_map, Option.map_map]
      rfl
    have hline : ∀ mod, bare (addLine ln mod) = addLine ln (bare mod) := fun mod => rfl
    unfold storeLine
    rw [hnames]
    split
    · exact congrArg (CdbParser.mk · ∅) (map_modifyLast_comm hline s.data)
    · exact congrArg (CdbParser.mk · ∅) (modifyFirst_map (fun mod => rfl) hline s.data)

/-- Setting an address is not seen. -/
theorem bare_mark (m : Marker) (data : List CdbgInfoModule) :
    (modifyFirst m.accepts m.mark data).map bare = data.map bare := by
  refine map_modifyFirst (fun mod => ?_) data
  have hone : ∀ fn, bareFunction (markFunction m.isEnd m.addr fn) = bareFunction fn := by
    intro fn
    unfold markFunction
    split <;> rfl
  exact bare_functions mod (map_modifyFirst hone mod.functions)

/-- **The step lemma**: the addresses of functions have no influence on anything else. -/
theorem parseRaw_bare {line : Str} {s s' t t' : CdbParser} (h : parseRaw line s = some t)
    (h' : parseRaw line s' = some t') (hsame : bareAll s = bareAll s') : bareAll t = bareAll t' := by
  cases hasm : asmRecord? line with
  | some r =>
    rw [parseRaw_asm _ hasm] at h h'
    obtain rfl := Option.some.inj h
    obtain rfl := Option.some.inj h'
    exact hsame
  | none =>
    cases hmarker : marker? line with
    | some m =>
      rw [parseRaw_mark hmarker] at h h'
      obtain rfl := Option.some.inj h
      obtain rfl := Option.some.inj h'
      show CdbParser.mk _ ∅ = ⟨_, ∅⟩
      rw [bare_mark, bare_mark]
      exact hsame
    | none =>
      have hview := parseRaw_view bareAll_blind hasm hmarker s
      rw [hsame, parseRaw_view bareAll_blind hasm hmarker s', h, h'] at hview
      exact (Option.some.inj hview).symm

/-- **The run lemma.** -/
theorem exec_bare {lines : List Str} {s s' t t' : CdbParser}
    (h : Run.exec parseRaw lines s = some t) (h' : Run.exec parseRaw lines s' = some t')
    (hsame : bareAll s = bareAll s') : bareAll t = bareAll t' := by
  induction lines generalizing s s' with
  | nil =>
    obtain rfl : s = t := Option.some.inj h
    obtain rfl : s' = t' := Option.some.inj h'
    exact hsame
  | cons line lines ih =>
    obtain ⟨u, hu, hrun⟩ := Run.exec_cons_eq_some.mp h
    obtain ⟨u', hu', hrun'⟩ := Run.exec_cons_eq_some.mp h'
    exact ih hrun hrun' (parseRaw_bare hu hu' hsame)

/-- The modules are what they are without the addresses, and the addresses. -/
theorem eq_of_bare {a b : List CdbgInfoModule} (hbare : a.map bare = b.map bare)
    (hfunctions : functions a = functions b) : a = b := by
  have hfns : ∀ {fns fns' : List CdbgInfoFunction}, fns.map bareFunction = fns'.map bareFunction →
      fns.map signature = fns'.map signature → fns = fns' := by
    intro fns
    induction fns with
    | nil =>
      intro fns' h _
      exact (List.map_eq_nil_iff.mp h.symm).symm
    | cons fn fns ih =>
      intro fns' h hsig
      cases fns' with
      | nil => cases h
      | cons fn' fns' =>
        obtain ⟨hfn, hrest⟩ := List.cons.inj h
        obtain ⟨hsigFn, hsigRest⟩ := List.cons.inj hsig
        obtain ⟨name, scope, locals, start, last⟩ := fn
        obtain ⟨name', scope', locals', start', last'⟩ := fn'
        cases hfn
        cases hsigFn
        rw [ih hrest hsigRest]
  induction a generalizing b with
  | nil => exact (List.map_eq_nil_iff.mp hbare.symm).symm
  | cons mod a ih =>
    cases b with
    | nil => cases hbare
    | cons mod' b =>
      obtain ⟨hmod, hrest⟩ := List.cons.inj hbare
      have hfunctionsBare := congrArg CdbgInfoModule.functions hmod
      have hlength : (functionsOf mod).length = (functionsOf mod').length := by
        have h := congrArg List.length hfunctionsBare
        change (mod.functions.map _).length = (mod'.functions.map _).length at h
        rw [functionsOf, functionsOf, List.length_map, List.length_map]
        rwa [List.length_map, List.length_map] at h
      have hsplit : functionsOf mod ++ functions a = functionsOf mod' ++ functions b := hfunctions
      obtain ⟨hone, hmore⟩ := List.append_inj hsplit hlength
      have hsig := congrArg (List.map fun e : FunctionEntry =>
        (e.name, e.scope, e.startAddr, e.endAddr)) hone
      rw [functionsOf, functionsOf, List.map_map, List.map_map] at hsig
      have hsame : mod.functions = mod'.functions := hfns hfunctionsBare hsig
      have heq : mod = mod' := by
        obtain ⟨name, file, fns, globals, types, lines, asm⟩ := mod
        obtain ⟨name', file', fns', globals', types', lines', asm'⟩ := mod'
        obtain ⟨rfl, rfl, -, rfl, rfl, rfl, rfl⟩ := CdbgInfoModule.mk.inj hmod
        obtain rfl : fns = fns' := hsame
        rfl
      rw [heq, ih hrest hmore]

end Udap.Sdcc.CdbParser
