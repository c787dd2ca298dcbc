/-
  LAUNCHING AGAIN — what stays of the program before?

  1. **Requests** — the methods of `z80_target` that answer for the program: stepping, the stack,
     scopes and variables, memory, sources and breakpoints, on the whole state (`answer`).  They do
     not ask what is armed; `continue` does, and is none of them.

  2. **Two targets** — `Agree` is what two targets have in common if none of these requests tells them
     apart: the order in which source breakpoints are stored, and what is armed, are left open.  It
     is kept by every one of them (`answer_agree`), and two targets with the same stored breakpoints
     come to agree by a launch if their histories are the same, and without a program their source
     roots (`launch_agree`).

  3. **The history stays** — `launch` does not clear it, so that `step_back` brings the computer of
     an earlier program back (`history_survives_launch`).
-/
import Udap.Dbg.Launch
import Udap.Dbg.Variables

set_option linter.unusedVariables false

namespace Udap

open Udap.Cxx Udap.Dap Udap.Sdcc

/-! ## The requests -/

/-- A call of one of the target's methods, other than `continue`. -/
inductive TargetRequest where
  | command (c : Command)
  | stack
  | scopes
  | vars (scope : Str)
  | memory (addr : UInt16) (count : Int)
  | source (path : Str)
  | breakpoints (r : Dbg.BpRequest)

deriving instance DecidableEq for FrameInfo
deriving instance DecidableEq for ScopeInfo
deriving instance DecidableEq for VariableInfo
deriving instance DecidableEq for SourceInfo

/-- What it returns. -/
inductive TargetReply where
  | done
  | stack (frames : List FrameInfo)
  | scopes (scopes : List ScopeInfo)
  | vars (infos : List VariableInfo)
  | memory (bytes : List UInt8)
  | source (info : Option SourceInfo)
  | breakpoints (infos : List BreakpointInfo)
  deriving DecidableEq

namespace Dbg

/-- The reply to a breakpoint request, and the state behind it. -/
def reply (d : Dbg) : BpRequest → List BreakpointInfo × Dbg
  | .source path ref lines => d.setSourceBreakpoints path ref lines
  | .function names => d.setFunctionBreakpoints names
  | .instruction refs => d.setInstructionBreakpoints refs

end Dbg

namespace Z80Target

variable {C : Type} (h : Host C)

/-- The methods that step. -/
def command (c : Command) (t : Z80Target C) : Z80Target C :=
  let d := (Debugger.mk (Emulation.start t.computer t.launched) t.history).run h.z80 t.dbg.symbols c
  { t with computer := d.computer, history := d.history }

/-- `z80_target::read_memory`. -/
def readMemory (addr : UInt16) (count : Int) (t : Z80Target C) : List UInt8 :=
  (List.range (min count.toNat (memorySize - addr.toNat))).map fun i =>
    t.computer.memory (UInt16.ofNat (addr.toNat + i))

/-- `z80_target::get_source`: the listing is built now if it was not before. -/
def getSource (path : Str) (t : Z80Target C) : Option (Option SourceInfo × Z80Target C) :=
  if path = t.dbg.virtualLstPath then
    (if t.fullListingBuilt then some t else t.buildFullListing h).map fun t =>
      (some { content := t.listing.content, mimeType := str "text/x-asm" }, t)
  else
    let realPath := (t.dbg.symbols.resolveSourcePath h.disk path).getD path
    some ((h.disk.read realPath).map fun content =>
      { content := content, mimeType := str "text/x-c" }, t)

/-- `regPC` of the CPU. -/
def pc (t : Z80Target C) : UInt16 := h.z80.getReg t.computer.cpu .regPC

/-- One call. -/
def answer (r : TargetRequest) (t : Z80Target C) : Option (TargetReply × Z80Target C) :=
  match r with
  | .command c => some (.done, t.command h c)
  | .stack => some (.stack (getStack t.dbg.symbols t.dbg.virtualLstPath t.listing (t.pc h)), t)
  | .scopes => some (.scopes (h.z80.getScopes t.dbg.symbols t.computer), t)
  | .vars scope => some (.vars (h.z80.getVariables t.dbg.symbols t.computer scope), t)
  | .memory addr count => some (.memory (t.readMemory addr count), t)
  | .source path => (t.getSource h path).map fun r => (.source r.1, r.2)
  | .breakpoints r => some (.breakpoints (t.dbg.reply r).1, { t with dbg := (t.dbg.reply r).2 })

/-- The replies to calls one after another. -/
def replies : List TargetRequest → Z80Target C → Option (List TargetReply)
  | [], _ => some []
  | r :: rs, t => (t.answer h r).bind fun a => (replies rs a.2).map (a.1 :: ·)

/-! ## Two targets that no request tells apart -/

/-- Two targets agree: they differ at most in how the source breakpoints are stored and in what is
    armed.  A `continue` can still tell them apart, by an armed address. -/
structure Agree (t u : Z80Target C) : Prop where
  computer : t.computer = u.computer
  symbols : t.dbg.symbols = u.dbg.symbols
  virtualLstPath : t.dbg.virtualLstPath = u.dbg.virtualLstPath
  fullListingAddrs : t.dbg.fullListingAddrs = u.dbg.fullListingAddrs
  byFile : ∀ file, t.dbg.sourceBreakpointsByFile.lookup file
    = u.dbg.sourceBreakpointsByFile.lookup file
  listing : t.listing = u.listing
  fullListingBuilt : t.fullListingBuilt = u.fullListingBuilt
  history : t.history = u.history
  launched : t.launched = u.launched

variable {h}

/-- What a breakpoint request is answered depends on the symbols, the listing and the lines stored
    for its file. -/
theorem reply_congr {d e : Dbg} (hsymbols : d.symbols = e.symbols)
    (hpath : d.virtualLstPath = e.virtualLstPath) (haddrs : d.fullListingAddrs = e.fullListingAddrs)
    (hfiles : ∀ file, d.sourceBreakpointsByFile.lookup file = e.sourceBreakpointsByFile.lookup file)
    (r : Dbg.BpRequest) :
    (d.reply r).1 = (e.reply r).1 ∧ (d.reply r).2.symbols = (e.reply r).2.symbols ∧
      (d.reply r).2.virtualLstPath = (e.reply r).2.virtualLstPath ∧
      (d.reply r).2.fullListingAddrs = (e.reply r).2.fullListingAddrs ∧
      ∀ file, (d.reply r).2.sourceBreakpointsByFile.lookup file
        = (e.reply r).2.sourceBreakpointsByFile.lookup file := by
  have haddr : d.listingAddr = e.listingAddr := by
    funext line
    rw [Dbg.listingAddr, Dbg.listingAddr, haddrs]
  cases r with
  | source path ref lines =>
    have hvirtual : d.isVirtual path = e.isVirtual path := by
      rw [Dbg.isVirtual, Dbg.isVirtual, hpath]
    rw [Dbg.reply, Dbg.reply, Dbg.setSourceBreakpoints, Dbg.setSourceBreakpoints, hvirtual]
    split
    · refine ⟨?_, hsymbols, hpath, haddrs, hfiles⟩
      have hline : d.listingReply = e.listingReply := by
        funext line
        rw [Dbg.listingReply, Dbg.listingReply, haddr]
      rw [hline]
    · have hstored : ∀ file, (d.setSourceBreakpointsForFile path lines).sourceBreakpointsByFile.lookup file
          = (e.setSourceBreakpointsForFile path lines).sourceBreakpointsByFile.lookup file := by
        intro file
        by_cases hempty : path = []
        · rw [Dbg.setSourceBreakpointsForFile, Dbg.setSourceBreakpointsForFile, hempty,
            List.isEmpty_nil, if_pos rfl, if_pos rfl]
          exact hfiles file
        · rw [Dbg.lookup_setForFile d hempty, Dbg.lookup_setForFile e hempty, hfiles file]
      have hkept : (d.setSourceBreakpointsForFile path lines).symbols
          = (e.setSourceBreakpointsForFile path lines).symbols := by
        rw [Dbg.setForFile_frame d, Dbg.setForFile_frame e]
        exact hsymbols
      refine ⟨?_, hkept, ?_, ?_, hstored⟩
      · dsimp only
        have hline : (d.setSourceBreakpointsForFile path lines).resolveLine path
            = (e.setSourceBreakpointsForFile path lines).resolveLine path := by
          funext line
          rw [Dbg.resolveLine, Dbg.resolveLine, hkept]
        rw [Dbg.resolveSourceBreakpointsForFile, Dbg.resolveSourceBreakpointsForFile, hstored path, hline]
      · rw [Dbg.setForFile_frame d, Dbg.setForFile_frame e]
        exact hpath
      · rw [Dbg.setForFile_frame d, Dbg.setForFile_frame e]
        exact haddrs
  | function names =>
    refine ⟨?_, hsymbols, hpath, haddrs, hfiles⟩
    have hname : d.functionReply = e.functionReply := by
      funext name
      rw [Dbg.functionReply, Dbg.functionReply, hsymbols]
    rw [Dbg.reply, Dbg.reply, Dbg.setFunctionBreakpoints, Dbg.setFunctionBreakpoints, hname]
  | instruction refs => exact ⟨rfl, hsymbols, hpath, haddrs, hfiles⟩

theorem getSource_agree {t u : Z80Target C} (a : Agree t u) (path : Str) :
    Option.Rel (fun p q => p.1 = q.1 ∧ Agree p.2 q.2) (t.getSource h path) (u.getSource h path) := by
  rw [getSource, getSource, ← a.virtualLstPath, ← a.fullListingBuilt, ← a.symbols]
  split
  · split
    · refine Option.Rel.some ⟨?_, a⟩
      dsimp only
      rw [a.listing]
    · rw [buildFullListing, buildFullListing, ← a.computer, ← a.symbols]
      cases h.decoder.buildFullListing t.computer.memory t.dbg.symbols (memorySize + 1) with
      | none => exact Option.Rel.none
      | some l =>
        refine Option.Rel.some ⟨rfl, ?_⟩
        exact { a with fullListingAddrs := rfl, listing := rfl, fullListingBuilt := rfl }
  · exact Option.Rel.some ⟨rfl, a⟩

/-- **Every request keeps two targets in agreement**, and gives both the same reply. -/
theorem answer_agree {t u : Z80Target C} (a : Agree t u) (r : TargetRequest) :
    Option.Rel (fun p q => p.1 = q.1 ∧ Agree p.2 q.2) (t.answer h r) (u.answer h r) := by
  cases r with
  | command c =>
    have hrun : t.command h c = { t with
        computer := (u.command h c).computer, history := (u.command h c).history } := by
      rw [command, command, a.computer, a.launched, a.history, a.symbols]
    refine Option.Rel.some ⟨rfl, ?_⟩
    dsimp only
    rw [hrun]
    exact { a with computer := rfl, history := rfl }
  | stack =>
    refine Option.Rel.some ⟨?_, a⟩
    rw [pc, pc, a.computer, a.symbols, a.virtualLstPath, a.listing]
  | scopes =>
    refine Option.Rel.some ⟨?_, a⟩
    rw [a.computer, a.symbols]
  | vars scope =>
    refine Option.Rel.some ⟨?_, a⟩
    rw [a.computer, a.symbols]
  | memory addr count =>
    refine Option.Rel.some ⟨?_, a⟩
    rw [readMemory, readMemory, a.computer]
  | source path =>
    have hsource := getSource_agree (h := h) a path
    rw [answer, answer]
    generalize t.getSource h path = x at hsource ⊢
    generalize u.getSource h path = y at hsource ⊢
    cases hsource with
    | none => exact Option.Rel.none
    | some heq => exact Option.Rel.some ⟨congrArg TargetReply.source heq.1, heq.2⟩
  | breakpoints r =>
    obtain ⟨hreply, hsymbols, hpath, haddrs, hfiles⟩ :=
      reply_congr a.symbols a.virtualLstPath a.fullListingAddrs a.byFile r
    refine Option.Rel.some ⟨by rw [hreply], ?_⟩
    exact { a with symbols := hsymbols, virtualLstPath := hpath, fullListingAddrs := haddrs,
                   byFile := hfiles }

/-- No sequence of these requests tells two targets apart that agree. -/
theorem replies_agree {t u : Z80Target C} (a : Agree t u) (rs : List TargetRequest) :
    t.replies h rs = u.replies h rs := by
  induction rs generalizing t u with
  | nil => rfl
  | cons r rs ih =>
    have hstep := answer_agree (h := h) a r
    rw [replies, replies]
    generalize t.answer h r = x at hstep ⊢
    generalize u.answer h r = y at hstep ⊢
    cases hstep with
    | none => rfl
    | some heq =>
      rw [Option.bind_some, Option.bind_some, heq.1, ih heq.2]

/-! ## The launch -/

/-- **After a launch two targets agree** if they hold the same source breakpoints and the same
    history; and the same source root, if no program is launched. -/
theorem launch_agree (hreset : ∀ c c', h.reset c = h.reset c') {t u : Z80Target C}
    (hstored : ∀ file, t.dbg.sourceBreakpointsByFile.lookup file
      = u.dbg.sourceBreakpointsByFile.lookup file)
    (hhistory : t.history = u.history) {args : LaunchArgs}
    (hroot : args.program = [] → t.dbg.symbols.sourceRoot = u.dbg.symbols.sourceRoot) :
    Option.Rel Agree (t.launch h args) (u.launch h args) := by
  have hcpu : ∀ entry, entered h t.computer.cpu entry = entered h u.computer.cpu entry := by
    intro entry
    rw [entered, entered, hreset t.computer.cpu u.computer.cpu]
  by_cases hprogram : args.program = []
  · rw [launch_empty hprogram, launch_empty hprogram]
    apply Option.Rel.some
    constructor
    case computer => rw [hcpu]
    case symbols => rw [hroot hprogram]
    case byFile => exact hstored
    case history => exact hhistory
    all_goals rfl
  · rw [launch_program hprogram, launch_program hprogram]
    cases loadedSymbols h args with
    | none => exact Option.Rel.none
    | some symbols =>
      dsimp only [Option.bind_some]
      cases h.decoder.buildFullListing (h.loadBinary args.program).1 symbols (memorySize + 1) with
      | none => exact Option.Rel.none
      | some l =>
        apply Option.Rel.some
        constructor
        case computer => rw [hcpu]
        case byFile => exact hstored
        case history => exact hhistory
        all_goals rfl

/-- **What a launch leaves for these requests** is nothing but the history, and without a program the
    source root: of two targets with the same stored breakpoints that have these in common, every
    sequence of such requests gets the same replies, whatever was loaded or run before.  What a launch
    without a program leaves armed is seen by `continue` alone. -/
theorem launch_forgets (hreset : ∀ c c', h.reset c = h.reset c') {t u : Z80Target C}
    (hstored : ∀ file, t.dbg.sourceBreakpointsByFile.lookup file
      = u.dbg.sourceBreakpointsByFile.lookup file)
    (hhistory : t.history = u.history) {args : LaunchArgs}
    (hroot : args.program = [] → t.dbg.symbols.sourceRoot = u.dbg.symbols.sourceRoot)
    (rs : List TargetRequest) :
    (t.launch h args).bind (replies h rs) = (u.launch h args).bind (replies h rs) := by
  have hlaunch := launch_agree hreset hstored hhistory hroot
  generalize t.launch h args = x at hlaunch ⊢
  generalize u.launch h args = y at hlaunch ⊢
  cases hlaunch with
  | none => rfl
  | some a => exact replies_agree a rs

/-! ## The history stays -/

theorem command_dbg (c : Command) (t : Z80Target C) : (t.command h c).dbg = t.dbg := rfl

/-- A host with the CPU that stores. -/
def storeHost : Host (Reg → UInt16) where
  z80 := Debugger.storeCpu
  reset := fun _ _ => 0
  decoder := Decoder.loadDecoder
  order := ⟨List.reverse, List.reverse, List.reverse_perm, List.reverse_perm⟩
  disk := default

/-- A target that was just created. -/
def created : Z80Target (Reg → UInt16) where
  computer := { cpu := fun _ => 0, memory := fun _ => 0 }

/-- A target that was launched and has taken a step in. -/
def stepped : Option (Z80Target (Reg → UInt16)) :=
  (created.launch storeHost {}).map (command storeHost .stepIn)

/-- **A step back brings the program before back**: a target that was just created and one that was
    launched before and has taken a step hold the same breakpoints and are launched with the same
    arguments, but a step back takes only the second away from its entry. -/
theorem history_survives_launch :
    ∃ t, stepped = some t ∧
      (∀ file, t.dbg.sourceBreakpointsByFile.lookup file
        = created.dbg.sourceBreakpointsByFile.lookup file) ∧
      (created.launch storeHost { startAddress := some 0x1234 }).bind
        (replies storeHost [.command .stepBack, .stack]) ≠
      (t.launch storeHost { startAddress := some 0x1234 }).bind
        (replies storeHost [.command .stepBack, .stack]) := by
  have hsome : stepped.isSome = true := by decide +kernel
  have hreplies : (created.launch storeHost { startAddress := some 0x1234 }).bind
        (replies storeHost [.command .stepBack, .stack]) ≠
      stepped.bind fun t => (t.launch storeHost { startAddress := some 0x1234 }).bind
        (replies storeHost [.command .stepBack, .stack]) := by decide +kernel
  obtain ⟨t, ht⟩ := Option.isSome_iff_exists.mp hsome
  rw [ht, Option.bind_some] at hreplies
  refine ⟨t, ht, fun file => ?_, hreplies⟩
  obtain ⟨t₀, ht₀, rfl⟩ := Option.map_eq_some_iff.mp ht
  rw [launch_empty rfl] at ht₀
  rw [command_dbg, ← Option.some.inj ht₀]

/-- A target that was just created and one that was launched before, and not stepped. -/
theorem launch_forgets_created :
    ∃ t, created.launch storeHost { startAddress := some 0x100 } = some t ∧
      ∀ rs, (created.launch storeHost { program := str "/clock.ihx" }).bind (replies storeHost rs)
        = (t.launch storeHost { program := str "/clock.ihx" }).bind (replies storeHost rs) := by
  have hempty : LaunchArgs.program { startAddress := some 0x100 } = [] := rfl
  refine ⟨_, launch_empty (h := storeHost) hempty created, fun rs => ?_⟩
  refine launch_forgets ?_ ?_ ?_ ?_ rs
  · intro c c'
    rfl
  · intro file
    rfl
  · rfl
  · intro hprogram
    rfl

end Z80Target

end Udap
