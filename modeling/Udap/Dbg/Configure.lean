/-
  SETTING UP — the requests before a program runs: one launch, one `configurationDone`, and any
  breakpoint requests, in any order.

  1. **Session** — what the handlers in `dap::target::run` do for them (`Session.handle`): a
     `configurationDone` tells the client that the program has stopped at its entry, but only if it
     was launched by then.

  2. **Breakpoints across a launch** — a launch resolves the lines of source files again.  It does
     not do so for the names of functions: what was asked for before has found no symbol, and is
     forgotten (`launched_stored`).

  3. **The order** — `setup_iff`: in which orders the same addresses are armed as with the launch
     first, and the client is told of the entry once.
-/
import Udap.Dbg.Relaunch

set_option linter.unusedVariables false

namespace Udap

open Udap.Cxx Udap.Dap Udap.Sdcc Udap.Run

/-! ## The session -/

/-- A request before the program runs. -/
inductive SetupRequest where
  | launch (args : LaunchArgs)
  | configurationDone
  | breakpoints (r : Dbg.BpRequest)

namespace SetupRequest

def launch? : SetupRequest → Option LaunchArgs
  | .launch args => some args
  | _ => none

def breakpoints? : SetupRequest → Option Dbg.BpRequest
  | .breakpoints r => some r
  | _ => none

def isDone : SetupRequest → Bool
  | .configurationDone => true
  | _ => false

def isFunction : SetupRequest → Bool
  | .breakpoints r => r.names?.isSome
  | _ => false

end SetupRequest

/-- The target, the flag `launched` of `dap::target::run`, and how many `stopped` events with the
    reason `entry` were sent. -/
structure Session (C : Type) where
  target : Z80Target C
  launched : Bool := false
  entries : Nat := 0

namespace Session

variable {C : Type} (h : Host C)

/-- One request; none where the launch throws. -/
def handle (r : SetupRequest) (s : Session C) : Option (Session C) :=
  match r with
  | .launch args => (s.target.launch h args).map fun t => { s with target := t, launched := true }
  | .configurationDone => some { s with entries := if s.launched then s.entries + 1 else s.entries }
  | .breakpoints r =>
    some { s with target := { s.target with dbg := s.target.dbg.handle r } }

/-- The breakpoint requests among others. -/
def requested (rs : List SetupRequest) : List Dbg.BpRequest :=
  rs.filterMap SetupRequest.breakpoints?

variable {h}

/-- **Without a launch** the requests change the breakpoints and count the entries alone. -/
theorem exec_quiet {rs : List SetupRequest} (hquiet : ∀ r ∈ rs, r.launch? = none) (s : Session C) :
    exec (handle h) rs s = some
      { target := { s.target with dbg := s.target.dbg.run (requested rs) }
        launched := s.launched
        entries := if s.launched then s.entries + rs.countP SetupRequest.isDone else s.entries } := by
  induction rs generalizing s with
  | nil =>
    rw [exec_nil, List.countP_nil, Nat.add_zero, ite_self]
    rfl
  | cons r rs ih =>
    obtain ⟨hr, hrs⟩ := List.forall_mem_cons.mp hquiet
    rw [exec_cons]
    cases r with
    | launch args => cases hr
    | configurationDone =>
      rw [handle, Option.bind_some, ih hrs, List.countP_cons_of_pos rfl]
      cases hlaunched : s.launched with
      | false => rfl
      | true =>
        simp only [if_true, Nat.add_assoc, Nat.add_comm 1]
        rfl
    | breakpoints r =>
      rw [handle, Option.bind_some, ih hrs, List.countP_cons_of_neg (by exact Bool.false_ne_true)]
      rfl

end Session

/-! ## Breakpoints across a launch -/

namespace Dbg

/-- The most recent answer is the last one. -/
theorem latest_eq_getLast? {α : Type} (pick : BpRequest → Option α) (reqs : List BpRequest) :
    latest pick reqs = (reqs.filterMap pick).getLast? := by
  rw [latest, List.getLast?_eq_head?_reverse, ← List.filterMap_reverse, List.head?_filterMap]

/-- Requests of which `pick` says nothing can be left out. -/
theorem latest_filter {α : Type} {pick : BpRequest → Option α} {q : BpRequest → Bool}
    (hq : ∀ r, q r = false → pick r = none) (reqs : List BpRequest) :
    latest pick (reqs.filter q) = latest pick reqs := by
  rw [latest_eq_getLast?, latest_eq_getLast?, List.filterMap_filter]
  congr 2
  funext r
  cases hr : q r with
  | false => exact (hq r hr).symm
  | true => rfl

theorem latest_eq_none {α : Type} {pick : BpRequest → Option α} {reqs : List BpRequest}
    (h : ∀ r ∈ reqs, pick r = none) : latest pick reqs = none := by
  rw [latest_eq_getLast?, List.filterMap_eq_nil_iff.mpr h]
  rfl

theorem latest_append {α : Type} (pick : BpRequest → Option α) (reqs reqs' : List BpRequest) :
    latest pick (reqs ++ reqs') = (latest pick reqs').or (latest pick reqs) := by
  rw [latest_eq_getLast?, latest_eq_getLast?, latest_eq_getLast?, List.filterMap_append,
    List.getLast?_append]

theorem latest_isSome {α : Type} {pick : BpRequest → Option α} {reqs : List BpRequest}
    {r : BpRequest} (hr : r ∈ reqs) (hpick : (pick r).isSome = true) :
    (latest pick reqs).isSome = true := by
  obtain ⟨x, hx⟩ := Option.isSome_iff_exists.mp hpick
  have hmem : x ∈ reqs.filterMap pick := List.mem_filterMap.mpr ⟨r, hr, hx⟩
  rw [latest_eq_getLast?, List.getLast?_isSome]
  exact List.ne_nil_of_mem hmem

/-- Not a request for functions. -/
def BpRequest.notFunction (r : BpRequest) : Bool := r.names?.isNone

/-- No request is about the file `path`. -/
def Free (path : Str) (reqs : List BpRequest) : Prop := ∀ r ∈ reqs, r.linesOn path = none

/-- What is stored for a file if no request is about the listing. -/
theorem storedLines_free {path : Str} {reqs : List BpRequest} (hfree : Free path reqs) (file : Str) :
    storedLines path reqs file =
      if file = [] then none
      else (latest (BpRequest.linesOn file) reqs).filter fun lines => !lines.isEmpty := by
  unfold storedLines
  by_cases hempty : file = []
  · rw [if_pos (Or.inl hempty), if_pos hempty]
  · by_cases hpath : file = path
    · subst hpath
      rw [if_pos (Or.inr rfl), if_neg hempty, latest_eq_none hfree]
      rfl
    · rw [if_neg (not_or.mpr ⟨hempty, hpath⟩), if_neg hempty]

/-- A target that was just created. -/
theorem created_stored : Stored {} [] := stored_nil {} (by decide) []

/-- **What a launch keeps.**  The lines and the references asked for are as if they had been asked
    for after it; the functions are forgotten. -/
theorem launched_stored {d : Dbg} {reqs : List BpRequest} (hd : Stored d reqs)
    (hsymbols : d.symbols = {}) (hfree : Free d.virtualLstPath reqs) {path : Str} (hpath : path ≠ [])
    (hfree' : Free path reqs) (symbols : Symbols) (listing : List UInt16) :
    Stored { Z80Target.rearmed d symbols with virtualLstPath := path, fullListingAddrs := listing }
      (reqs.filter BpRequest.notFunction) := by
  have hlines : ∀ file, latest (BpRequest.linesOn file) (reqs.filter BpRequest.notFunction)
      = latest (BpRequest.linesOn file) reqs := by
    intro file
    refine latest_filter (fun r hr => ?_) reqs
    cases r with
    | source path ref lines => cases hr
    | function names => rfl
    | instruction refs => rfl
  have hrefs : latest BpRequest.refs? (reqs.filter BpRequest.notFunction)
      = latest BpRequest.refs? reqs := by
    refine latest_filter (fun r hr => ?_) reqs
    cases r with
    | source path ref lines => rfl
    | function names => rfl
    | instruction refs => cases hr
  -- before the launch there are no symbols, so that no function is found
  have hnames : latest BpRequest.names? (reqs.filter BpRequest.notFunction) = none := by
    refine latest_eq_none fun r hr => ?_
    exact Option.isNone_iff_eq_none.mp (List.mem_filter.mp hr).2
  have hkept : Free path (reqs.filter BpRequest.notFunction) := fun r hr =>
    hfree' r (List.mem_filter.mp hr).1
  constructor
  case virtualLst => exact hpath
  case byFile =>
    intro file
    show d.sourceBreakpointsByFile.lookup file = storedLines path _ file
    rw [hd.byFile, storedLines_free hfree, storedLines_free hkept, hlines]
  case addresses => exact mem_sourceAddresses { d with symbols := symbols }
  case asm =>
    show d.asmBreakpoints = _
    rw [hd.asm, latest_eq_none hfree]
    dsimp only
    rw [latest_eq_none hkept]
    rfl
  case functions =>
    show d.functionBreakpoints = _
    rw [hd.functions, hnames, hsymbols]
    exact List.filterMap_eq_nil_iff.mpr fun name hname => rfl
  case instructions =>
    show d.instructionBreakpoints = _
    rw [hd.instructions, hrefs]
  case all => exact mem_rebuildAll _

/-- The address of a line that the most recent request on its file asks for. -/
def ByFile (symbols : Symbols) (reqs : List BpRequest) (a : UInt16) : Prop :=
  ∃ file lines line, file ≠ [] ∧ latest (BpRequest.linesOn file) reqs = some lines ∧ line ∈ lines ∧
    symbols.lookupAddress file line = some a

/-- An address that the most recent request for instructions asks for. -/
def ByReference (reqs : List BpRequest) (a : UInt16) : Prop :=
  ∃ refs ref, latest BpRequest.refs? reqs = some refs ∧ ref ∈ refs ∧ referenceAddr ref = some a

/-- The address of a function that the most recent request for functions asks for. -/
def ByFunction (symbols : Symbols) (reqs : List BpRequest) (a : UInt16) : Prop :=
  ∃ names name, latest BpRequest.names? reqs = some names ∧ name ∈ names ∧
    symbols.lookupFunctionAddress name = some a

/-- What is armed if no request is about the listing. -/
theorem armed_iff {d : Dbg} {reqs : List BpRequest} (hd : Stored d reqs)
    (hfree : Free d.virtualLstPath reqs) (a : UInt16) :
    a ∈ d.allBreakpoints ↔
      (ByFile d.symbols reqs a ∨ ByReference reqs a) ∨ ByFunction d.symbols reqs a := by
  have hsource : a ∈ d.sourceBreakpointAddresses ↔ ByFile d.symbols reqs a := by
    rw [hd.addresses]
    constructor
    · rintro ⟨file, lines, line, hlookup, hline, ha⟩
      obtain ⟨hne, -, lines', hlines', hline'⟩ :=
        mem_storedLines.mp ⟨lines, (hd.byFile file).symm.trans hlookup, hline⟩
      exact ⟨file, lines', line, hne, hlines', hline', ha⟩
    · rintro ⟨file, lines, line, hne, hlines, hline, ha⟩
      have hpath : file ≠ d.virtualLstPath := by
        rintro rfl
        rw [latest_eq_none hfree] at hlines
        cases hlines
      obtain ⟨lines', hstored, hline'⟩ := mem_storedLines.mpr ⟨hne, hpath, lines, hlines, hline⟩
      exact ⟨file, lines', line, (hd.byFile file).trans hstored, hline', ha⟩
  have hasm : a ∉ d.asmBreakpoints := by
    rw [hd.asm, latest_eq_none hfree]
    exact Finset.notMem_empty a
  rw [hd.all, hsource, hd.instructions, hd.functions, mem_filterMap_getD, mem_filterMap_getD,
    or_iff_left hasm, or_assoc]
  rfl

end Dbg

/-! ## The order -/

namespace Session

variable {C : Type} {h : Host C}

open Dbg

/-- The requests behind the launch. -/
def behindLaunch (rs : List SetupRequest) : List SetupRequest :=
  (rs.dropWhile fun r => r.launch?.isNone).drop 1

/-- One launch, one `configurationDone`, and breakpoint requests none of which is about the virtual
    listing, whose path the launch changes. -/
structure Setup (args : LaunchArgs) (rs : List SetupRequest) : Prop where
  launch : rs.filterMap SetupRequest.launch? = [args]
  done : rs.countP SetupRequest.isDone = 1
  free : Free ({} : Dbg).virtualLstPath (requested rs)
  free_launched : Free (virtualPath (Path.stem args.program)) (requested rs)

/-- The same breakpoint requests, with those for one file or of one kind in the same order. -/
structure SameRequests (reqs reqs' : List BpRequest) : Prop where
  files : ∀ file, reqs.filterMap (BpRequest.linesOn file) = reqs'.filterMap (BpRequest.linesOn file)
  functions : reqs.filterMap BpRequest.names? = reqs'.filterMap BpRequest.names?
  instructions : reqs.filterMap BpRequest.refs? = reqs'.filterMap BpRequest.refs?

/-- A setup is cut at its launch. -/
theorem Setup.cut {args : LaunchArgs} {rs : List SetupRequest} (hrs : Setup args rs) :
    ∃ pre post, rs = pre ++ .launch args :: post ∧ (∀ r ∈ pre, r.launch? = none) ∧
      (∀ r ∈ post, r.launch? = none) ∧ behindLaunch rs = post := by
  obtain ⟨pre, r, post, rfl, hpre, hr, hpost⟩ := List.filterMap_eq_cons_iff.mp hrs.launch
  cases r with
  | configurationDone => cases hr
  | breakpoints r => cases hr
  | launch args' =>
    obtain rfl : args' = args := Option.some.inj hr
    refine ⟨pre, post, rfl, hpre, List.filterMap_eq_nil_iff.mp hpost, ?_⟩
    rw [behindLaunch, List.dropWhile_append_of_pos fun r hr => by rw [hpre r hr]; rfl]
    rfl

theorem requested_cut (pre post : List SetupRequest) (args : LaunchArgs) :
    requested (pre ++ .launch args :: post) = requested pre ++ requested post := by
  rw [requested, List.filterMap_append]
  rfl

/-- **Where a setup ends**: with the breakpoints of its requests, but for the functions asked for
    before the launch, and with an entry for each `configurationDone` behind it. -/
theorem exec_setup {args : LaunchArgs} (hprogram : args.program ≠ []) {pre post : List SetupRequest}
    (hpre : ∀ r ∈ pre, r.launch? = none) (hpost : ∀ r ∈ post, r.launch? = none)
    (hrs : Setup args (pre ++ .launch args :: post)) {m : Computer C} {s : Session C}
    (hs : exec (handle h) (pre ++ .launch args :: post) { target := { computer := m } } = some s)
    {symbols : Symbols} (hsymbols : Z80Target.loadedSymbols h args = some symbols) :
    Stored s.target.dbg ((requested pre).filter BpRequest.notFunction ++ requested post) ∧
      s.target.dbg.symbols = symbols ∧
      s.target.dbg.virtualLstPath = virtualPath (Path.stem args.program) ∧
      s.entries = post.countP SetupRequest.isDone := by
  obtain ⟨u, hu, hs⟩ := exec_append_eq_some.mp hs
  obtain ⟨v, hv, hs⟩ := exec_cons_eq_some.mp hs
  rw [exec_quiet hpre] at hu
  obtain rfl := Option.some.inj hu
  obtain ⟨t, ht, rfl⟩ := Option.map_eq_some_iff.mp hv
  rw [Z80Target.launch_program hprogram, hsymbols, Option.bind_some] at ht
  obtain ⟨l, -, rfl⟩ := Option.map_eq_some_iff.mp ht
  rw [exec_quiet hpost] at hs
  obtain rfl := Option.some.inj hs
  have hfree : ∀ {path}, Free path (requested (pre ++ .launch args :: post)) →
      Free path (requested pre) := by
    intro path hfree r hr
    apply hfree r
    rw [requested_cut]
    exact List.mem_append_left _ hr
  have hbefore := run_stored created_stored (requested pre)
  rw [List.nil_append] at hbefore
  obtain ⟨hsymbolsBefore, hpathBefore, -⟩ := run_frame {} (requested pre)
  have hafter := launched_stored hbefore hsymbolsBefore (by rw [hpathBefore]; exact hfree hrs.free)
    (virtualPath_ne_nil (Path.stem args.program)) (hfree hrs.free_launched) symbols l.addrs
  obtain ⟨hsymbolsAfter, hpathAfter, -⟩ := run_frame
    { Z80Target.rearmed (run {} (requested pre)) symbols with
      virtualLstPath := virtualPath (Path.stem args.program), fullListingAddrs := l.addrs }
    (requested post)
  refine ⟨run_stored hafter (requested post), hsymbolsAfter, hpathAfter, ?_⟩
  show 0 + post.countP SetupRequest.isDone = _
  exact Nat.zero_add _

/-- A setup ends if the launch does. -/
theorem exists_exec_setup {args : LaunchArgs} (hprogram : args.program ≠ [])
    {rs : List SetupRequest} (hrs : Setup args rs) {symbols : Symbols}
    (hsymbols : Z80Target.loadedSymbols h args = some symbols)
    (hint : ∀ pos, InInt (h.decoder.length (h.loadBinary args.program).1 pos)) (s : Session C) :
    ∃ t, exec (handle h) rs s = some t := by
  obtain ⟨pre, post, rfl, hpre, hpost, -⟩ := hrs.cut
  obtain ⟨n, hlisting, -⟩ :=
    Decoder.buildFullListing_eq (s := symbols) hint (Nat.lt_succ_self memorySize)
  have hlaunch : ∀ t : Z80Target C, ∃ u, t.launch h args = some u := by
    intro t
    rw [Z80Target.launch_program hprogram, hsymbols, Option.bind_some, hlisting]
    exact ⟨_, rfl⟩
  rw [exec_append, exec_quiet hpre, Option.bind_some, exec_cons]
  obtain ⟨u, hu⟩ := hlaunch { s.target with dbg := s.target.dbg.run (requested pre) }
  rw [handle, hu, Option.map_some, Option.bind_some, exec_quiet hpost]
  exact ⟨_, rfl⟩

/-- Some request for functions is behind the launch. -/
def FunctionsBehind (rs : List SetupRequest) : Prop := ∃ r ∈ behindLaunch rs, r.isFunction = true

/-- The functions asked for behind a launch are the ones that count after it. -/
theorem byFunction_cut (symbols : Symbols) (pre post : List SetupRequest) (a : UInt16) :
    ByFunction symbols ((requested pre).filter BpRequest.notFunction ++ requested post) a ↔
      (∃ r ∈ post, r.isFunction = true) ∧ ByFunction symbols (requested pre ++ requested post) a := by
  have hbefore : latest BpRequest.names? ((requested pre).filter BpRequest.notFunction) = none := by
    refine latest_eq_none fun r hr => ?_
    exact Option.isNone_iff_eq_none.mp (List.mem_filter.mp hr).2
  unfold ByFunction
  rw [latest_append, latest_append, hbefore, Option.or_none]
  constructor
  · rintro ⟨names, name, hnames, hname, ha⟩
    constructor
    · rw [latest_eq_getLast?] at hnames
      obtain ⟨r, hr, hpick⟩ := List.mem_filterMap.mp (List.mem_of_getLast? hnames)
      obtain ⟨r', hr', hbp⟩ := List.mem_filterMap.mp hr
      refine ⟨r', hr', ?_⟩
      cases r' with
      | launch args => cases hbp
      | configurationDone => cases hbp
      | breakpoints r' =>
        obtain rfl : r' = r := Option.some.inj hbp
        exact Option.isSome_of_eq_some hpick
    · exact ⟨names, name, by rw [hnames, Option.some_or], hname, ha⟩
  · rintro ⟨⟨r, hr, hfunction⟩, names, name, hnames, hname, ha⟩
    have hsome : (latest BpRequest.names? (requested post)).isSome = true := by
      cases r with
      | launch args => cases hfunction
      | configurationDone => cases hfunction
      | breakpoints r => exact latest_isSome (List.mem_filterMap.mpr ⟨_, hr, rfl⟩) hfunction
    rw [Option.or_of_isSome hsome] at hnames
    exact ⟨names, name, hnames, hname, ha⟩

/-- The lines and the references asked for before a launch count as if asked for behind it. -/
theorem latest_cut {α : Type} {pick : BpRequest → Option α}
    (hpick : ∀ r, r.notFunction = false → pick r = none) (reqs reqs' : List BpRequest) :
    latest pick (reqs.filter BpRequest.notFunction ++ reqs') = latest pick (reqs ++ reqs') := by
  rw [latest_append, latest_append, latest_filter hpick]

/-- **What a setup arms**, and the entries it tells of. -/
theorem armed_setup {args : LaunchArgs} (hprogram : args.program ≠ []) {rs : List SetupRequest}
    (hrs : Setup args rs) {m : Computer C} {s : Session C}
    (hs : exec (handle h) rs { target := { computer := m } } = some s)
    {symbols : Symbols} (hsymbols : Z80Target.loadedSymbols h args = some symbols) :
    (∀ a, a ∈ s.target.dbg.allBreakpoints ↔
      (ByFile symbols (requested rs) a ∨ ByReference (requested rs) a) ∨
        FunctionsBehind rs ∧ ByFunction symbols (requested rs) a) ∧
      s.entries = (behindLaunch rs).countP SetupRequest.isDone := by
  obtain ⟨pre, post, rfl, hpre, hpost, hbehind⟩ := hrs.cut
  obtain ⟨hstored, rfl, hpath, hentries⟩ := exec_setup hprogram hpre hpost hrs hs hsymbols
  refine ⟨fun a => ?_, by rw [hentries, hbehind]⟩
  have hfree : Free s.target.dbg.virtualLstPath
      ((requested pre).filter BpRequest.notFunction ++ requested post) := by
    intro r hr
    rw [hpath]
    apply hrs.free_launched r
    rw [requested_cut]
    rcases List.mem_append.mp hr with hr | hr
    · exact List.mem_append_left _ (List.mem_filter.mp hr).1
    · exact List.mem_append_right _ hr
  have hlines : ∀ file r, BpRequest.notFunction r = false → r.linesOn file = none := by
    intro file r hr
    cases r with
    | source path ref lines => cases hr
    | function names => rfl
    | instruction refs => rfl
  have hrefs : ∀ r, BpRequest.notFunction r = false → r.refs? = none := by
    intro r hr
    cases r with
    | source path ref lines => rfl
    | function names => rfl
    | instruction refs => cases hr
  rw [armed_iff hstored hfree, byFunction_cut, requested_cut, FunctionsBehind, hbehind]
  unfold ByFile ByReference
  simp only [latest_cut (hlines _), latest_cut hrefs]

/-- With the launch first, the functions asked for are asked for behind it. -/
theorem functionsBehind_of_head? {args : LaunchArgs} {rs : List SetupRequest}
    (hhead : rs.head? = some (.launch args)) {symbols : Symbols} {a : UInt16}
    (ha : ByFunction symbols (requested rs) a) : FunctionsBehind rs := by
  obtain ⟨post, rfl⟩ : ∃ post, rs = .launch args :: post := by
    cases rs with
    | nil => cases hhead
    | cons r post =>
      obtain rfl : r = .launch args := Option.some.inj hhead
      exact ⟨post, rfl⟩
  exact ((byFunction_cut symbols [] post a).mp ha).1

/-- What is asked for does not depend on the order of requests for different things. -/
theorem SameRequests.latest_eq {reqs reqs' : List BpRequest} (same : SameRequests reqs reqs') :
    (∀ file, latest (BpRequest.linesOn file) reqs = latest (BpRequest.linesOn file) reqs') ∧
      latest BpRequest.names? reqs = latest BpRequest.names? reqs' ∧
      latest BpRequest.refs? reqs = latest BpRequest.refs? reqs' := by
  refine ⟨fun file => ?_, ?_, ?_⟩
  · rw [latest_eq_getLast?, latest_eq_getLast?, same.files]
  · rw [latest_eq_getLast?, latest_eq_getLast?, same.functions]
  · rw [latest_eq_getLast?, latest_eq_getLast?, same.instructions]

/-- **Which orders set a program up as the launch first would.**  The client is told of the entry
    once exactly if the `configurationDone` is behind the launch.  The same addresses are armed
    exactly if a request for functions is behind the launch too, or if each function asked for is
    entered at an address that is armed in any case. -/
theorem setup_iff {args : LaunchArgs} (hprogram : args.program ≠ []) {rs rs' : List SetupRequest}
    (hrs : Setup args rs) (hrs' : Setup args rs') (hhead : rs'.head? = some (.launch args))
    (same : SameRequests (requested rs) (requested rs')) {m : Computer C} {s s' : Session C}
    (hs : exec (handle h) rs { target := { computer := m } } = some s)
    (hs' : exec (handle h) rs' { target := { computer := m } } = some s')
    {symbols : Symbols} (hsymbols : Z80Target.loadedSymbols h args = some symbols) :
    s.target.dbg.allBreakpoints = s'.target.dbg.allBreakpoints ∧ s.entries = 1 ↔
      (FunctionsBehind rs ∨ ∀ a, ByFunction symbols (requested rs) a →
        ByFile symbols (requested rs) a ∨ ByReference (requested rs) a) ∧
      ∃ r ∈ behindLaunch rs, r.isDone = true := by
  obtain ⟨harmed, hentries⟩ := armed_setup hprogram hrs hs hsymbols
  obtain ⟨harmed', -⟩ := armed_setup hprogram hrs' hs' hsymbols
  obtain ⟨hlines, hnames, hrefs⟩ := same.latest_eq
  -- with the launch first, no request for functions is lost
  have hfirst : ∀ a, a ∈ s'.target.dbg.allBreakpoints ↔
      (ByFile symbols (requested rs) a ∨ ByReference (requested rs) a) ∨
        ByFunction symbols (requested rs) a := by
    intro a
    rw [harmed', and_iff_right_of_imp (functionsBehind_of_head? hhead)]
    unfold ByFile ByReference ByFunction
    simp only [hlines, hnames, hrefs]
  refine and_congr ?_ ?_
  · constructor
    · intro heq
      by_cases hbehind : FunctionsBehind rs
      · exact Or.inl hbehind
      · refine Or.inr fun a ha => ?_
        have hmem : a ∈ s'.target.dbg.allBreakpoints := (hfirst a).mpr (Or.inr ha)
        rw [← heq, harmed] at hmem
        rcases hmem with hmem | hmem
        · exact hmem
        · exact absurd hmem.1 hbehind
    · intro hcase
      refine Finset.ext fun a => ?_
      rw [harmed, hfirst]
      rcases hcase with hbehind | hcovered
      · rw [and_iff_right hbehind]
      · constructor
        · rintro (ha | ⟨-, ha⟩)
          · exact Or.inl ha
          · exact Or.inr ha
        · rintro (ha | ha)
          · exact Or.inl ha
          · exact Or.inl (hcovered a ha)
  · -- there is only one `configurationDone`, so those behind the launch are one or none
    have hle : (behindLaunch rs).countP SetupRequest.isDone ≤ 1 := by
      rw [← hrs.done]
      apply List.Sublist.countP_le
      exact (List.drop_sublist 1 _).trans (List.dropWhile_sublist _)
    rw [hentries, ← List.countP_pos_iff]
    omega

/-! ### A function asked for too early -/

/-- A host with a program of one function, `_main`. -/
def mainHost : Host (Reg → UInt16) :=
  { Z80Target.storeHost with
    disk := { (default : Disk) with
      fileExists := fun path => some (path == str "/clock.map")
      read := fun path =>
        if path = str "/clock.map" then some (str "00000100 _main\n") else none } }

def mainArgs : LaunchArgs := { program := str "/clock.ihx" }

def askMain : SetupRequest := .breakpoints (.function [str "main"])

def askLine : SetupRequest := .breakpoints (.source (str "/clock.c") 0 [7])

theorem mainHost_loads : ∃ symbols, Z80Target.loadedSymbols mainHost mainArgs = some symbols ∧
    symbols.lookupFunctionAddress (str "main") = some 0x100 := by
  apply Option.bind_eq_some_iff.mp
  decide +kernel

theorem mainHost_ends {rs : List SetupRequest} (hrs : Setup mainArgs rs)
    (s : Session (Reg → UInt16)) : ∃ t, exec (handle mainHost) rs s = some t := by
  obtain ⟨symbols, hsymbols, -⟩ := mainHost_loads
  refine exists_exec_setup (by decide) hrs hsymbols (fun pos => ?_) s
  show InInt (Decoder.loadDecoder.length _ pos)
  have hpos := Decoder.loadDecoder_lawful.length_pos (mainHost.loadBinary mainArgs.program).1 pos
  have hle := Decoder.loadDecoder_lawful.length_le (mainHost.loadBinary mainArgs.program).1 pos
  exact ⟨by omega, by omega⟩

theorem setup_of_asked {rs : List SetupRequest}
    (hlaunch : rs.filterMap SetupRequest.launch? = [mainArgs])
    (hdone : rs.countP SetupRequest.isDone = 1)
    (hsource : ∀ r ∈ requested rs, r = .function [str "main"] ∨ r = .source (str "/clock.c") 0 [7]) :
    Setup mainArgs rs := by
  have hfree : ∀ path, path ≠ str "/clock.c" → Free path (requested rs) := by
    intro path hpath r hr
    rcases hsource r hr with rfl | rfl
    · rfl
    · exact if_neg hpath.symm
  exact ⟨hlaunch, hdone, hfree _ (by decide), hfree _ (by decide)⟩

/-- The line is asked for before the launch, the function behind it. -/
def lineFirst : List SetupRequest := [askLine, .launch mainArgs, askMain, .configurationDone]

def launchFirst : List SetupRequest := [.launch mainArgs, askLine, askMain, .configurationDone]

theorem setup_iff_lineFirst :
    ∃ s s', exec (handle mainHost) lineFirst { target := Z80Target.created } = some s ∧
      exec (handle mainHost) launchFirst { target := Z80Target.created } = some s' ∧
      s.target.dbg.allBreakpoints = s'.target.dbg.allBreakpoints ∧ s.entries = 1 := by
  have hsource : ∀ r ∈ [Dbg.BpRequest.source (str "/clock.c") 0 [7], .function [str "main"]],
      r = .function [str "main"] ∨ r = .source (str "/clock.c") 0 [7] := by
    intro r hr
    rcases List.mem_cons.mp hr with rfl | hr
    · exact Or.inr rfl
    · exact Or.inl (List.mem_singleton.mp hr)
  have hline : Setup mainArgs lineFirst := setup_of_asked rfl rfl hsource
  have hlaunch : Setup mainArgs launchFirst := setup_of_asked rfl rfl hsource
  obtain ⟨symbols, hsymbols, -⟩ := mainHost_loads
  obtain ⟨s, hs⟩ := mainHost_ends hline { target := Z80Target.created }
  obtain ⟨s', hs'⟩ := mainHost_ends hlaunch { target := Z80Target.created }
  refine ⟨s, s', hs, hs', ?_⟩
  refine (setup_iff (by decide) hline hlaunch rfl ⟨fun file => rfl, rfl, rfl⟩ hs hs' hsymbols).mpr ?_
  constructor
  · exact Or.inl ⟨askMain, List.mem_cons_self, rfl⟩
  · exact ⟨.configurationDone, List.mem_cons_of_mem _ List.mem_cons_self, rfl⟩

def mainLast : List SetupRequest := [.launch mainArgs, askMain, .configurationDone]

def mainEarly : List SetupRequest := [askMain, .configurationDone, .launch mainArgs]

/-- **The order counts**: `main` and the `configurationDone` before the launch leave `main` unarmed
    and the client without an entry. -/
theorem setup_order_counts :
    ∃ s s', Setup mainArgs mainEarly ∧ Setup mainArgs mainLast ∧
      requested mainEarly = requested mainLast ∧
      exec (handle mainHost) mainEarly { target := Z80Target.created } = some s ∧
      exec (handle mainHost) mainLast { target := Z80Target.created } = some s' ∧
      0x100 ∉ s.target.dbg.allBreakpoints ∧ 0x100 ∈ s'.target.dbg.allBreakpoints ∧
      s.entries = 0 ∧ s'.entries = 1 := by
  have hsource : ∀ r ∈ [Dbg.BpRequest.function [str "main"]],
      r = .function [str "main"] ∨ r = .source (str "/clock.c") 0 [7] := by
    intro r hr
    exact Or.inl (List.mem_singleton.mp hr)
  have hearly : Setup mainArgs mainEarly := setup_of_asked rfl rfl hsource
  have hlast : Setup mainArgs mainLast := setup_of_asked rfl rfl hsource
  obtain ⟨symbols, hsymbols, hmain⟩ := mainHost_loads
  obtain ⟨s, hs⟩ := mainHost_ends hearly { target := Z80Target.created }
  obtain ⟨s', hs'⟩ := mainHost_ends hlast { target := Z80Target.created }
  obtain ⟨harmed, hentries⟩ := armed_setup (by decide) hearly hs hsymbols
  obtain ⟨harmed', hentries'⟩ := armed_setup (by decide) hlast hs' hsymbols
  refine ⟨s, s', hearly, hlast, rfl, hs, hs', ?_, ?_, hentries, hentries'⟩
  · rw [harmed]
    rintro ((⟨file, lines, line, -, hlines, -⟩ | ⟨refs, ref, hrefs, -⟩) | ⟨⟨r, hr, -⟩, -⟩)
    · cases hlines
    · cases hrefs
    · cases hr
  · rw [harmed']
    refine Or.inr ⟨⟨askMain, List.mem_cons_self, rfl⟩, ?_⟩
    exact ⟨[str "main"], str "main", rfl, List.mem_singleton.mpr rfl, hmain⟩

end Session

end Udap
