/-
  STEPS TAKEN BACK — can the client tell that they were ever made?

  A step back restores the registers in `kAllRegs` and the memory, not the whole CPU.  What the
  target answers is computed from these registers, the memory and its own data, so a program that
  was stepped forth and back shows nothing of it.

  1. **System** — requests to the target one after another (`serve`).  `Undone n` are those in which
     every step is followed by its own step back, with further such requests in between, and never
     more than `n` steps are open.

  2. **Property** — behind such requests the target answers as if the steps and steps back had not been
     among them (`undone_unseen`).

  3. **Why** — queries depend on what looks alike only (`answer_alike`), and the history leaves the
     record of every open step where its step back finds it (`Leaves.bracket`).
-/
import Udap.Dbg.Evaluate

set_option linter.unusedVariables false

namespace Udap

open Udap.Cxx Udap.Dap Udap.Sdcc Udap.Undo Udap.Run

/-! ## Computers that look alike -/

namespace Z80ex

variable {C : Type} (Z : Z80ex C)

/-- The registers and the memory are the same. -/
structure Alike (m m' : Computer C) : Prop where
  regs : ∀ r, Z.getReg m.cpu r = Z.getReg m'.cpu r
  memory : m.memory = m'.memory

variable {Z} {s : Symbols} {m m' m'' : Computer C}

theorem Alike.refl (m : Computer C) : Z.Alike m m := ⟨fun _ => rfl, rfl⟩

theorem Alike.symm (a : Z.Alike m m') : Z.Alike m' m := ⟨fun r => (a.regs r).symm, a.memory.symm⟩

theorem Alike.trans (a : Z.Alike m m') (b : Z.Alike m' m'') : Z.Alike m m'' :=
  ⟨fun r => (a.regs r).trans (b.regs r), a.memory.trans b.memory⟩

/-- A step back makes the computer look as it did. -/
theorem alike_restore (hZ : Z.Lawful) (before m : Computer C) :
    Z.Alike (Z.restore (Z.snapshot before) m) before := by
  obtain ⟨hregs, hmemory⟩ := restore_snapshot hZ before m
  exact ⟨fun r => hregs r (mem_kAllRegs r), hmemory⟩

theorem Alike.getScopes (a : Z.Alike m m') : Z.getScopes s m = Z.getScopes s m' := by
  rw [Z80ex.getScopes, Z80ex.getScopes, a.regs]

theorem Alike.regListValue (a : Z.Alike m m') :
    Z.regListValue m.cpu = Z.regListValue m'.cpu := by
  funext r
  simp only [Z80ex.regListValue, a.regs]

theorem Alike.cVariable (a : Z.Alike m m') : Z.cVariable s m = Z.cVariable s m' := by
  funext sym
  rw [Z80ex.cVariable, Z80ex.cVariable, Z80ex.cVariableValue, Z80ex.cVariableValue, a.regs, a.memory,
    a.regListValue]

theorem Alike.getVariables (a : Z.Alike m m') (scope : Str) :
    Z.getVariables s m scope = Z.getVariables s m' scope := by
  simp only [Z80ex.getVariables, a.regs, a.cVariable]

theorem Alike.evaluate (a : Z.Alike m m') (expr : Str) :
    Z.evaluate s m expr = Z.evaluate s m' expr := by
  simp only [Z80ex.evaluate, a.regs, a.memory]

end Z80ex

/-! ## Requests -/

/-- Does the request let the program run? -/
def TargetRequest.isCommand : TargetRequest → Bool
  | .command _ => true
  | _ => false

/-- Does the request ask for a source? -/
def TargetRequest.isSource : TargetRequest → Bool
  | .source _ => true
  | _ => false

/-- Requests in which every step has its step back, and at most `n` steps are open at once.  None of
    them asks for a source: the listing is made of the memory as it is when it is first asked for. -/
inductive Undone : Nat → List TargetRequest → Prop where
  | nil {n : Nat} : Undone n []
  | look {n : Nat} {q : TargetRequest} {rs : List TargetRequest} (hq : q.isCommand = false)
      (hsource : q.isSource = false) (hrs : Undone n rs) : Undone n (q :: rs)
  | step {n : Nat} {c : Command} {inner rs : List TargetRequest} (hc : c ≠ .stepBack)
      (hinner : Undone n inner) (hrs : Undone (n + 1) rs) :
      Undone (n + 1) (.command c :: (inner ++ .command .stepBack :: rs))

/-- The requests that are not commands. -/
def looks (rs : List TargetRequest) : List TargetRequest := rs.filter fun r => !r.isCommand

theorem looks_append (rs qs : List TargetRequest) : looks (rs ++ qs) = looks rs ++ looks qs :=
  List.filter_append rs qs

namespace Z80Target

variable {C : Type} (h : Host C)

/-- The target behind a request. -/
def serve (r : TargetRequest) (t : Z80Target C) : Option (Z80Target C) :=
  (t.answer h r).map Prod.snd

/-- The targets have the same data. -/
structure SameData (t u : Z80Target C) : Prop where
  dbg : t.dbg = u.dbg
  listing : t.listing = u.listing
  fullListingBuilt : t.fullListingBuilt = u.fullListingBuilt

variable {h} {t u v : Z80Target C}

theorem SameData.refl (t : Z80Target C) : SameData t t := ⟨rfl, rfl, rfl⟩

theorem SameData.trans (a : SameData t u) (b : SameData u v) : SameData t v :=
  ⟨a.dbg.trans b.dbg, a.listing.trans b.listing, a.fullListingBuilt.trans b.fullListingBuilt⟩

/-- What a request that is neither a command nor asks for a source does to the data does not depend
    on the computer, and the computer and the history stay. -/
theorem serve_look {q : TargetRequest} (hq : q.isCommand = false) (hsource : q.isSource = false)
    (a : SameData t u) :
    ∃ t' u', serve h q t = some t' ∧ serve h q u = some u' ∧ SameData t' u' ∧
      t'.computer = t.computer ∧ t'.history = t.history ∧ u'.computer = u.computer := by
  cases q with
  | command c => cases hq
  | source path => cases hsource
  | stack | scopes | vars _ | memory _ _ =>
    exact ⟨t, u, rfl, rfl, a, rfl, rfl, rfl⟩
  | breakpoints r =>
    refine ⟨_, _, rfl, rfl, ⟨?_, a.listing, a.fullListingBuilt⟩, rfl, rfl, rfl⟩
    dsimp only
    rw [a.dbg]

/-- **Queries** get the same replies from targets with the same data whose computers look alike, and
    leave them so. -/
theorem answer_alike {q : TargetRequest} (hq : q.isCommand = false) (a : SameData t u)
    (b : h.z80.Alike t.computer u.computer) :
    Option.Rel (fun x y => x.1 = y.1 ∧ SameData x.2 y.2 ∧ h.z80.Alike x.2.computer y.2.computer)
      (t.answer h q) (u.answer h q) := by
  cases q with
  | command c => cases hq
  | stack =>
    refine Option.Rel.some ⟨?_, a, b⟩
    rw [pc, pc, b.regs, a.dbg, a.listing]
  | scopes =>
    refine Option.Rel.some ⟨?_, a, b⟩
    rw [a.dbg, b.getScopes]
  | vars scope =>
    refine Option.Rel.some ⟨?_, a, b⟩
    rw [a.dbg, b.getVariables]
  | memory addr count =>
    refine Option.Rel.some ⟨?_, a, b⟩
    rw [readMemory, readMemory, b.memory]
  | source path =>
    rw [answer, answer, getSource, getSource, ← a.dbg, ← a.fullListingBuilt]
    split
    · split
      · refine Option.Rel.some ⟨?_, a, b⟩
        dsimp only
        rw [a.listing]
      · rw [buildFullListing, buildFullListing, ← b.memory, ← a.dbg]
        cases h.decoder.buildFullListing t.computer.memory t.dbg.symbols (memorySize + 1) with
        | none => exact Option.Rel.none
        | some l =>
          refine Option.Rel.some ⟨rfl, ⟨?_, rfl, rfl⟩, b⟩
          show { t.dbg with fullListingAddrs := l.addrs } = { u.dbg with fullListingAddrs := l.addrs }
          rw [a.dbg]
    · exact Option.Rel.some ⟨rfl, a, b⟩
  | breakpoints r =>
    refine Option.Rel.some ⟨?_, ⟨?_, a.listing, a.fullListingBuilt⟩, b⟩
    · rw [a.dbg]
    · dsimp only
      rw [a.dbg]

/-- No sequence of queries tells them apart. -/
theorem replies_alike {qs : List TargetRequest} (hqs : ∀ q ∈ qs, q.isCommand = false)
    (a : SameData t u) (b : h.z80.Alike t.computer u.computer) : t.replies h qs = u.replies h qs := by
  induction qs generalizing t u with
  | nil => rfl
  | cons q qs ih =>
    obtain ⟨hq, hrest⟩ := List.forall_mem_cons.mp hqs
    have hstep := answer_alike (h := h) hq a b
    rw [replies, replies]
    generalize t.answer h q = x at hstep ⊢
    generalize u.answer h q = y at hstep ⊢
    cases hstep with
    | none => rfl
    | some hboth =>
      obtain ⟨hreply, hdata, halike⟩ := hboth
      rw [Option.bind_some, Option.bind_some, hreply, ih hrest hdata halike]

/-! ## Steps and steps back -/

/-- A step puts its record on the history and leaves the data alone. -/
theorem serve_step {c : Command} (hc : c ≠ .stepBack) (t : Z80Target C) :
    ∃ t', serve h (.command c) t = some t' ∧ SameData t' t ∧
      t'.history = pushBounded kMaxHistory (h.z80.snapshot t.computer) t.history := by
  refine ⟨t.command h c, rfl, ⟨rfl, rfl, rfl⟩, ?_⟩
  rw [command]
  exact Debugger.run_history hc _

/-- A step back that finds a record restores it. -/
theorem serve_stepBack {before : Computer C}
    (hlast : t.history.getLast? = some (h.z80.snapshot before)) :
    ∃ t', serve h (.command .stepBack) t = some t' ∧ SameData t' t ∧
      t'.history = t.history.dropLast ∧
      t'.computer = h.z80.restore (h.z80.snapshot before) t.computer := by
  refine ⟨t.command h .stepBack, rfl, ⟨rfl, rfl, rfl⟩, ?_, ?_⟩
  · rw [command]
    exact Debugger.popHistory_history _
  · rw [command, Debugger.run, Debugger.popHistory]
    dsimp only
    rw [hlast]
    rfl

/-- **Requests that are undone**, by induction on how they are: the data become what the other
    requests alone make of them, the computer looks as before, and the history loses at most the
    records that were pushed out. -/
theorem undone_spec (hZ : h.z80.Lawful) {n : Nat} {rs : List TargetRequest} (hrs : Undone n rs)
    (hn : n ≤ kMaxHistory) {t v : Z80Target C} (a : SameData t v) :
    ∃ u w, exec (serve h) rs t = some u ∧ exec (serve h) (looks rs) v = some w ∧ SameData u w ∧
      h.z80.Alike u.computer t.computer ∧ w.computer = v.computer ∧
      Leaves kMaxHistory n t.history u.history := by
  induction hrs generalizing t v with
  | nil => exact ⟨t, v, rfl, rfl, a, .refl _, rfl, .refl _ _ _⟩
  | @look n q rs hq hsource hrs ih =>
    obtain ⟨t', v', ht, hv, a', hcomputer, hhistory, hother⟩ := serve_look (h := h) hq hsource a
    obtain ⟨u, w, hu, hw, b, halike, hsame, hleaves⟩ := ih hn a'
    refine ⟨u, w, exec_cons_eq_some.mpr ⟨t', ht, hu⟩, ?_, b, hcomputer ▸ halike,
      hsame.trans hother, hhistory ▸ hleaves⟩
    rw [looks, List.filter_cons_of_pos (by rw [hq]; rfl)]
    exact exec_cons_eq_some.mpr ⟨v', hv, hw⟩
  | @step n c inner rs hc hinner hrs ihInner ihRest =>
    -- the step, what comes in between, the step back, and the rest
    obtain ⟨t₁, ht₁, a₁, hpush⟩ := serve_step (h := h) hc t
    obtain ⟨t₂, v₂, ht₂, hv₂, a₂, -, hsame₂, hleaves₂⟩ := ihInner (Nat.le_of_succ_le hn) (a₁.trans a)
    rw [hpush] at hleaves₂
    obtain ⟨hlast, hleaves₃⟩ := hleaves₂.bracket hn
    obtain ⟨t₃, ht₃, a₃, hpop, hrestored⟩ := serve_stepBack (h := h) hlast
    obtain ⟨u, w, hu, hw, b, halike, hsame, hleaves⟩ := ihRest hn (a₃.trans a₂)
    rw [hpop] at hleaves
    rw [hrestored] at halike
    refine ⟨u, w, ?_, ?_, b, halike.trans (Z80ex.alike_restore hZ t.computer t₂.computer),
      hsame.trans hsame₂, hleaves₃.trans hleaves⟩
    · exact exec_cons_eq_some.mpr ⟨t₁, ht₁, exec_append_eq_some.mpr
        ⟨t₂, ht₂, exec_cons_eq_some.mpr ⟨t₃, ht₃, hu⟩⟩⟩
    · rw [looks, List.filter_cons_of_neg (by simp [TargetRequest.isCommand])]
      show exec (serve h) (looks (inner ++ .command .stepBack :: rs)) v = some w
      rw [looks_append, looks, looks, List.filter_cons_of_neg (by simp [TargetRequest.isCommand])]
      exact exec_append_eq_some.mpr ⟨v₂, hv₂, hw⟩

/-- **Steps that were taken back are not seen.**  Behind requests in which every step has its step
    back, and at most as many are open at once as the history has room for, every sequence of
    queries gets the replies that it gets without the steps; so does every expression to evaluate,
    and every stretch of memory to disassemble. -/
theorem undone_unseen (hZ : h.z80.Lawful) {n : Nat} (hn : n ≤ kMaxHistory)
    {rs : List TargetRequest} (hrs : Undone n rs) (t : Z80Target C) :
    ∃ u v, exec (serve h) rs t = some u ∧ exec (serve h) (looks rs) t = some v ∧
      (∀ qs : List TargetRequest, (∀ q ∈ qs, q.isCommand = false) →
        u.replies h qs = v.replies h qs) ∧
      (∀ expr, h.z80.evaluate u.dbg.symbols u.computer expr
        = h.z80.evaluate v.dbg.symbols v.computer expr) ∧
      h.decoder.disassemble u.computer.memory u.dbg.symbols
        = h.decoder.disassemble v.computer.memory v.dbg.symbols := by
  obtain ⟨u, v, hu, hv, a, halike, hsame, -⟩ := undone_spec hZ hrs hn (SameData.refl t)
  have b : h.z80.Alike u.computer v.computer := hsame ▸ halike
  refine ⟨u, v, hu, hv, fun qs hqs => replies_alike hqs a b, fun expr => ?_, ?_⟩
  · rw [a.dbg]
    exact b.evaluate expr
  · rw [a.dbg, b.memory]

/-- A step in is looked at and taken back. -/
def lookAround : List TargetRequest :=
  [.command .stepIn, .stack, .vars (str "Registers"), .command .stepBack]

theorem lookAround_undone : Undone 1 lookAround := by
  have hinner : Undone 0 [.stack, .vars (str "Registers")] := .look rfl rfl (.look rfl rfl .nil)
  exact .step (c := .stepIn) (by decide) hinner .nil

/-- Behind it the target answers as one that was only looked at. -/
theorem undone_unseen_lookAround :
    ∃ u v, exec (serve storeHost) lookAround created = some u ∧
      exec (serve storeHost) (looks lookAround) created = some v ∧
      (∀ qs : List TargetRequest, (∀ q ∈ qs, q.isCommand = false) →
        u.replies storeHost qs = v.replies storeHost qs) ∧
      (∀ expr, storeHost.z80.evaluate u.dbg.symbols u.computer expr
        = storeHost.z80.evaluate v.dbg.symbols v.computer expr) ∧
      storeHost.decoder.disassemble u.computer.memory u.dbg.symbols
        = storeHost.decoder.disassemble v.computer.memory v.dbg.symbols :=
  undone_unseen (h := storeHost) Debugger.storeCpu_lawful (by decide) lookAround_undone created

end Z80Target

end Udap
