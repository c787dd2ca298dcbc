/-
  STEP IN AND STEP — which of the two stops first, and when do they stop in the same place?

  `step_in` and `step` run the program up to another line.  `step_in` stops at the first one that PC
  reaches; `step` counts the calls that it is in and stops at another line only outside of them.

  1. **Counting** — `stepInCount` is the number of instructions of `stepIn`, as counted by the machine
     that counts.

  2. **Loops** — all three loops end in the first round within their budget that meets a test
     (`runUntil_first`, `stepOverLoop_first`, `walkToMapped_first`); the test of `step` is that of
     `step_in` at depth 0.

  3. **The result** — `step_in` never executes more than `step`, and executes as much where no call is
     taken on the way (`step_in_before_step`).
-/
import Udap.Dbg.StepOut

set_option linter.unusedVariables false

namespace Udap

open Udap.Loop

namespace Machine

variable {M : Type} (Z : Machine M)

/-! ## Counting -/

/-- How many instructions `step_in` executes. -/
def stepInCount (s : Symbols) (m : M) : Nat := (Z.counting.stepIn s (m, 0)).2

/-- Does `step_in` stop behind instruction `k`, if it starts at `start`? -/
def stepsIn (s : Symbols) (start : SourceLocation) (m : M) (k : Nat) : Bool :=
  if start.isAsm then otherLine start (s.lookupSourceAny (Z.pc (Z.after m k)))
  else Z.enteredLine s start (Z.after m (k - 1)) (Z.after m k)

/-- The call depth that `step` has counted after `k` instructions. -/
def depthAfter (m : M) : Nat → Nat
  | 0 => 0
  | k + 1 => Z.nextDepth (asInt16 (Z.sp m)) (depthAfter m k) (Z.after m k)

/-- The location that `step` and `step_in` look for. -/
def lineAt (s : Symbols) (start : SourceLocation) (m : M) (k : Nat) : Option SourceLocation :=
  if start.isAsm then s.lookupSourceAny (Z.pc (Z.after m k)) else s.lookupSource (Z.pc (Z.after m k))

/-- Is instruction `k` a call that pushes its return address? -/
def pushesReturn (m : M) (k : Nat) : Prop :=
  Z.sp (Z.after m (k + 1)) = Z.sp (Z.after m k) - 2 ∧
    isCall (Z.peek (Z.after m k) (Z.pc (Z.after m k))) = true

variable {Z}

/-! ## The loops -/

/-- **The loop of `step_in`** with the machine in front of each instruction at hand. -/
theorem runUntil_first (stop : M → M → Bool) (budget : Nat) (m : M) (i : Nat) :
    ∃ n, Z.counting.runUntil (fun p p' => stop p.1 p'.1) budget (m, i) = (Z.after m n, i + n) ∧
      Z.runUntil stop budget m = Z.after m n ∧
      FirstWithin budget (fun k => stop (Z.after m (k - 1)) (Z.after m k) = true) n := by
  induction budget generalizing m i with
  | zero => exact ⟨0, rfl, rfl, firstWithin_zero⟩
  | succ budget ih =>
    by_cases hstop : stop m (Z.stepInstruction m) = true
    · exact ⟨1, if_pos hstop, if_pos hstop, firstWithin_one hstop⟩
    · obtain ⟨n, hcount, hrun, hfirst⟩ := ih (Z.stepInstruction m) (i + 1)
      rw [after_stepInstruction] at hcount hrun
      refine ⟨n + 1, ?_, ?_, ?_⟩
      · rw [← Nat.add_right_comm, Nat.add_assoc] at hcount
        exact (if_neg hstop).trans hcount
      · exact (if_neg hstop).trans hrun
      · -- behind the first instruction the machine in front is one further, too
        refine FirstWithin.succ hstop (hfirst.congr fun k hk => ?_)
        obtain ⟨j, rfl⟩ : ∃ j, k = j + 1 := ⟨k - 1, by omega⟩
        rw [after_stepInstruction, Nat.add_sub_cancel, after_stepInstruction, Nat.add_sub_cancel]

/-- **The loop of `step`**, from the call depth that it has counted. -/
theorem stepOverLoop_first (shouldStop : UInt16 → Bool) (m : M) (budget k : Nat) :
    let r := Z.stepOverLoop shouldStop (asInt16 (Z.sp m)) budget (Z.depthAfter m k) (Z.after m k)
    r.machine = Z.after m (k + r.executed) ∧
      FirstWithin budget
        (fun j => Z.depthAfter m (k + j) = 0 ∧ shouldStop (Z.pc (Z.after m (k + j))) = true)
        r.executed := by
  induction budget generalizing k with
  | zero => exact ⟨rfl, firstWithin_zero⟩
  | succ budget ih =>
    intro r
    by_cases hstop : Z.depthAfter m (k + 1) = 0 ∧ shouldStop (Z.pc (Z.after m (k + 1))) = true
    · have hr : r = ⟨true, 1, Z.after m (k + 1)⟩ := if_pos hstop
      rw [hr]
      exact ⟨rfl, firstWithin_one hstop⟩
    · obtain ⟨hmachine, hfirst⟩ := ih (k + 1)
      have hr : r = { Z.stepOverLoop shouldStop (asInt16 (Z.sp m)) budget (Z.depthAfter m (k + 1))
          (Z.after m (k + 1)) with
          executed := (Z.stepOverLoop shouldStop (asInt16 (Z.sp m)) budget (Z.depthAfter m (k + 1))
            (Z.after m (k + 1))).executed + 1 } := if_neg hstop
      have hshift : ∀ j, k + (j + 1) = k + 1 + j := fun j => by omega
      rw [hr]
      refine ⟨?_, FirstWithin.succ hstop (hfirst.congr fun j _ => ?_)⟩
      · exact hmachine.trans (congrArg (Z.after m) (hshift _).symm)
      · rw [hshift j]

/-- **The loop of `step` where PC has no location.** -/
theorem walkToMapped_first (s : Symbols) (entrySp : Int) (budget : Nat) (m : M) :
    let r := Z.walkToMapped s entrySp budget m
    r.machine = Z.after m r.executed ∧
      FirstWithin budget
        (fun j => (s.lookupSourceAny (Z.pc (Z.after m j))).isSome = true ∨
          asInt16 (Z.sp (Z.after m j)) > entrySp) r.executed := by
  induction budget generalizing m with
  | zero => exact ⟨rfl, firstWithin_zero⟩
  | succ budget ih =>
    intro r
    by_cases hstop : (s.lookupSourceAny (Z.pc (Z.stepInstruction m))).isSome = true ∨
        asInt16 (Z.sp (Z.stepInstruction m)) > entrySp
    · have hr : r = ⟨true, 1, Z.stepInstruction m⟩ := if_pos hstop
      rw [hr]
      exact ⟨rfl, firstWithin_one hstop⟩
    · obtain ⟨hmachine, hfirst⟩ := ih (Z.stepInstruction m)
      have hr : r = { Z.walkToMapped s entrySp budget (Z.stepInstruction m) with
          executed := (Z.walkToMapped s entrySp budget (Z.stepInstruction m)).executed + 1 } :=
        if_neg hstop
      rw [hr]
      dsimp only
      rw [after_stepInstruction] at hmachine
      refine ⟨hmachine, FirstWithin.succ hstop (hfirst.congr fun j _ => ?_)⟩
      rw [after_stepInstruction]

/-! ## The two commands -/

/-- Where `step_in` stops. -/
theorem stepIn_first {s : Symbols} {start : SourceLocation} {m : M}
    (hstart : s.lookupSourceAny (Z.pc m) = some start)
    (hlines : start.isAsm = true ∨ s.hasCdb = true) :
    Z.stepIn s m = Z.after m (Z.stepInCount s m) ∧
      FirstWithin 10000 (fun k => Z.stepsIn s start m k = true) (Z.stepInCount s m) := by
  have hcounting : s.lookupSourceAny (Z.counting.pc (m, 0)) = some start := hstart
  -- the loop, with its test as `stepsIn` has it
  obtain ⟨stop, htest, hcount, hloop⟩ : ∃ stop : M → M → Bool,
      (∀ k, stop (Z.after m (k - 1)) (Z.after m k) = Z.stepsIn s start m k) ∧
      Z.counting.stepIn s (m, 0)
        = Z.counting.runUntil (fun p p' => stop p.1 p'.1) 10000 (m, 0) ∧
      Z.stepIn s m = Z.runUntil stop 10000 m := by
    unfold stepIn
    rw [hcounting, hstart]
    dsimp only
    by_cases hasm : start.isAsm = true
    · refine ⟨fun _ m' => otherLine start (s.lookupSourceAny (Z.pc m')), fun k => ?_,
        if_pos hasm, if_pos hasm⟩
      rw [stepsIn, if_pos hasm]
    · refine ⟨Z.enteredLine s start, fun k => ?_, ?_, ?_⟩
      · rw [stepsIn, if_neg hasm]
      · rw [if_neg hasm, if_pos (hlines.resolve_left hasm)]
        rfl
      · rw [if_neg hasm, if_pos (hlines.resolve_left hasm)]
  obtain ⟨n, hn, hrun, hfirst⟩ := runUntil_first (Z := Z) stop 10000 m 0
  have heq : Z.stepInCount s m = n := by
    rw [stepInCount, hcount, hn, Nat.zero_add]
  rw [heq, hloop]
  refine ⟨hrun, hfirst.congr fun k _ => ?_⟩
  rw [htest]

/-- Without lines to compare, `step_in` is one instruction. -/
theorem stepIn_single {s : Symbols} {m : M}
    (hlines : ∀ start, s.lookupSourceAny (Z.pc m) = some start →
      start.isAsm = false ∧ s.hasCdb = false) :
    Z.stepIn s m = Z.after m (Z.stepInCount s m) ∧ Z.stepInCount s m = 1 := by
  have hone : Z.stepIn s m = Z.stepInstruction m ∧
      Z.counting.stepIn s (m, 0) = Z.counting.stepInstruction (m, 0) := by
    have hpc : s.lookupSourceAny (Z.counting.pc (m, 0)) = s.lookupSourceAny (Z.pc m) := rfl
    unfold stepIn
    rw [hpc]
    cases hstart : s.lookupSourceAny (Z.pc m) with
    | none => exact ⟨rfl, rfl⟩
    | some start =>
      obtain ⟨hasm, hcdb⟩ := hlines start hstart
      dsimp only
      rw [hasm, hcdb]
      exact ⟨rfl, rfl⟩
  have hcount : Z.stepInCount s m = 1 := by
    rw [stepInCount, hone.2]
    rfl
  rw [hcount]
  exact ⟨hone.1, rfl⟩

/-- Where `step` stops. -/
theorem step_first {s : Symbols} {start : SourceLocation} {m : M}
    (hstart : s.lookupSourceAny (Z.pc m) = some start) :
    (Z.step s m).machine = Z.after m (Z.step s m).executed ∧
      FirstWithin 500000
        (fun k => Z.depthAfter m k = 0 ∧ otherLine start (Z.lineAt s start m k) = true)
        (Z.step s m).executed := by
  unfold step
  rw [hstart]
  dsimp only
  by_cases hasm : start.isAsm = true
  · rw [if_pos hasm]
    obtain ⟨hmachine, hfirst⟩ := stepOverLoop_first (Z := Z)
      (fun pc => otherLine start (s.lookupSourceAny pc)) m 500000 0
    rw [Nat.zero_add] at hmachine
    refine ⟨hmachine, hfirst.congr fun k _ => ?_⟩
    rw [Nat.zero_add, lineAt, if_pos hasm]
  · rw [if_neg hasm]
    obtain ⟨hmachine, hfirst⟩ := stepOverLoop_first (Z := Z)
      (fun pc => otherLine start (s.lookupSource pc)) m 500000 0
    rw [Nat.zero_add] at hmachine
    refine ⟨hmachine, hfirst.congr fun k _ => ?_⟩
    rw [Nat.zero_add, lineAt, if_neg hasm]

/-- `step` executes something, and counts it right. -/
theorem step_executed (Z : Machine M) (s : Symbols) (m : M) :
    (Z.step s m).machine = Z.after m (Z.step s m).executed ∧ 1 ≤ (Z.step s m).executed := by
  cases hstart : s.lookupSourceAny (Z.pc m) with
  | some start =>
    obtain ⟨hmachine, hfirst⟩ := step_first hstart
    exact ⟨hmachine, hfirst.one_le⟩
  | none =>
    have hwalk : Z.step s m = Z.walkToMapped s (asInt16 (Z.sp m)) 32 m := by
      unfold step
      rw [hstart]
    obtain ⟨hmachine, hfirst⟩ := walkToMapped_first (Z := Z) s (asInt16 (Z.sp m)) 32 m
    rw [hwalk]
    exact ⟨hmachine, hfirst.one_le⟩

/-! ## The tests -/

/-- Another line stops `step_in` at any depth. -/
theorem stepsIn_of_otherLine {s : Symbols} {start : SourceLocation} {m : M} {k : Nat}
    (h : otherLine start (Z.lineAt s start m k) = true) : Z.stepsIn s start m k = true := by
  rw [lineAt] at h
  rw [stepsIn]
  split
  · rename_i hasm
    rwa [if_pos hasm] at h
  · rename_i hasm
    rw [if_neg hasm] at h
    rw [enteredLine, h, Bool.true_or]

/-- Two less as signed numbers is two less as addresses. -/
theorem eq_sub_two {a b : UInt16} (h : asInt16 a - asInt16 b = -2) : a = b - 2 := by
  have ha := a.toNat_lt
  have hb := b.toNat_lt
  have htwo : (2 : UInt16).toNat = 2 := rfl
  rw [asInt16_eq, asInt16_eq] at h
  rw [← UInt16.toNat_inj, UInt16.toNat_sub, htwo]
  split at h <;> split at h <;> omega

/-- Without a call it is the only thing that does. -/
theorem otherLine_of_stepsIn {s : Symbols} {start : SourceLocation} {m : M} {k : Nat}
    (hcall : ¬ Z.pushesReturn m k) (h : Z.stepsIn s start m (k + 1) = true) :
    otherLine start (Z.lineAt s start m (k + 1)) = true := by
  rw [stepsIn] at h
  rw [lineAt]
  split at h
  · rename_i hasm
    rwa [if_pos hasm]
  · rename_i hasm
    rw [if_neg hasm]
    rw [enteredLine, Nat.add_sub_cancel, Bool.or_eq_true] at h
    refine h.resolve_right fun hentered => hcall ?_
    simp only [Bool.and_eq_true, decide_eq_true_eq] at hentered
    obtain ⟨⟨-, hsp, hop⟩, -⟩ := hentered
    exact ⟨eq_sub_two hsp, hop⟩

/-- No call, no depth. -/
theorem depthAfter_zero {m : M} {n : Nat} (hcalls : ∀ k < n, ¬ Z.pushesReturn m k) :
    ∀ k ≤ n, Z.depthAfter m k = 0 := by
  intro k
  induction k with
  | zero => exact fun _ => rfl
  | succ k ih =>
    intro hk
    have hzero := ih (by omega)
    rw [depthAfter, hzero]
    rcases nextDepth_cases Z (asInt16 (Z.sp m)) 0 (Z.after m k) with
      ⟨-, hdepth⟩ | ⟨hsp, hop, -⟩ | ⟨-, -, hdepth⟩ | ⟨-, hdepth⟩
    · exact hdepth
    · exact absurd ⟨hsp, hop⟩ (hcalls k (by omega))
    · exact hdepth
    · exact hdepth

/-! ## The result -/

/-- **`step_in` stops no later than `step`**, and both have executed the program as it runs alone.
    Where lines can be compared, `step_in` stops with the first instruction that its test is for; and
    if this was within its budget and no instruction up to there is a call that pushes its return
    address, both stop in the same place. -/
theorem step_in_before_step (Z : Machine M) (s : Symbols) (m : M) :
    Z.stepIn s m = Z.after m (Z.stepInCount s m) ∧
    (Z.step s m).machine = Z.after m (Z.step s m).executed ∧
    1 ≤ Z.stepInCount s m ∧ Z.stepInCount s m ≤ (Z.step s m).executed ∧
    (∀ start, s.lookupSourceAny (Z.pc m) = some start → start.isAsm = true ∨ s.hasCdb = true →
      FirstWithin 10000 (fun k => Z.stepsIn s start m k = true) (Z.stepInCount s m) ∧
      (Z.stepInCount s m < 10000 → (∀ k < Z.stepInCount s m, ¬ Z.pushesReturn m k) →
        (Z.step s m).executed = Z.stepInCount s m)) := by
  obtain ⟨hmachine, hpos⟩ := Z.step_executed s m
  by_cases hlines : ∃ start, s.lookupSourceAny (Z.pc m) = some start ∧
      (start.isAsm = true ∨ s.hasCdb = true)
  · obtain ⟨start, hstart, hlines⟩ := hlines
    obtain ⟨hin, hfirstIn⟩ := stepIn_first hstart hlines
    obtain ⟨-, hfirst⟩ := step_first hstart
    have himp : ∀ k, (Z.depthAfter m k = 0 ∧ otherLine start (Z.lineAt s start m k) = true) →
        Z.stepsIn s start m k = true := fun k h => stepsIn_of_otherLine h.2
    refine ⟨hin, hmachine, hfirstIn.one_le, hfirstIn.le_of_imp hfirst (by omega) himp, ?_⟩
    intro start' hstart' _
    obtain rfl : start = start' := Option.some.inj (hstart.symm.trans hstart')
    refine ⟨hfirstIn, fun hbudget hcalls => ?_⟩
    -- at depth 0 the tests are the same, so `step` stops where `step_in` does
    refine hfirstIn.eq_of_imp hfirst (by omega) himp hfirstIn.one_le ⟨?_, ?_⟩
    · exact depthAfter_zero hcalls _ (Nat.le_refl _)
    · obtain ⟨hone, hstops⟩ := hfirstIn.passes hbudget
      obtain ⟨j, hj⟩ : ∃ j, Z.stepInCount s m = j + 1 := ⟨Z.stepInCount s m - 1, by omega⟩
      rw [hj] at hstops hcalls ⊢
      exact otherLine_of_stepsIn (hcalls j (by omega)) hstops
  · have hsingle : ∀ start, s.lookupSourceAny (Z.pc m) = some start →
        start.isAsm = false ∧ s.hasCdb = false := by
      intro start hstart
      refine ⟨Bool.eq_false_iff.mpr fun hasm => hlines ⟨start, hstart, Or.inl hasm⟩,
        Bool.eq_false_iff.mpr fun hcdb => hlines ⟨start, hstart, Or.inr hcdb⟩⟩
    obtain ⟨hin, hone⟩ := stepIn_single (Z := Z) hsingle
    refine ⟨hin, hmachine, by omega, by omega, ?_⟩
    intro start hstart hcan
    exact absurd ⟨start, hstart, hcan⟩ hlines

/-- From line 6 of the calling program both commands execute the 13 instructions up to line 20. -/
theorem step_in_before_step_calling :
    Cpu.machine.stepInCount Cpu.callingSymbols { Cpu.calling 0xF000 with pc := 0x0103 } = 13 ∧
      (Cpu.machine.step Cpu.callingSymbols { Cpu.calling 0xF000 with pc := 0x0103 }).executed = 13 := by
  have hcount : Cpu.machine.stepInCount Cpu.callingSymbols
      { Cpu.calling 0xF000 with pc := 0x0103 } = 13 := by
    decide +kernel
  obtain ⟨start, hstart⟩ : ∃ start, Cpu.callingSymbols.lookupSourceAny 0x0103 = some start :=
    ⟨_, rfl⟩
  have hboth := step_in_before_step Cpu.machine Cpu.callingSymbols
    { Cpu.calling 0xF000 with pc := 0x0103 }
  obtain ⟨-, hsame⟩ := hboth.2.2.2.2 start hstart (Or.inr (by decide +kernel))
  rw [hcount] at hsame
  refine ⟨hcount, hsame (by omega) ?_⟩
  intro k hk hpushes
  have hno : ∀ k < 13, isCall (Cpu.machine.peek
      (Cpu.machine.after { Cpu.calling 0xF000 with pc := 0x0103 } k)
      (Cpu.machine.pc (Cpu.machine.after { Cpu.calling 0xF000 with pc := 0x0103 } k))) = false := by
    decide +kernel
  have hcall := hpushes.2
  rw [hno k hk] at hcall
  cases hcall

end Machine

end Udap
