/-
  STEP OVER — running on to another source line without stopping inside a called function.

  `z80_target::step` executes instructions until the PC reaches another line.  To stay out of called
  functions it counts calls and returns by their opcodes and by what they do to SP.

  1. **Program** — `stepOverLoop` with its budget and its counter (`nextDepth`), and `step`, over
     any machine and any symbols.

  2. **Calls** — `activeCalls` is what the counter is meant to count: the calls taken since the step
     began, each with the SP it was taken at, until an instruction leaves SP there or above.

  3. **The invariant** — there are never more active calls than the counter says.  One instruction
     keeps it if it is `Ordinary` (`nextDepth_bounds`), so a step of ordinary instructions stops
     with no call active (`step_leaves_no_call`).  What is not ordinary makes the counter too
     small: a call behind a prefix, a return that leaves no call, and SP at or above its start, as a
     signed number, in the middle of a call.
-/
import Udap.Dbg.Machine
import Udap.Dbg.Sources

set_option linter.unusedVariables false

namespace Udap

open Udap.Cxx Udap.Sdcc

/-! ## The program -/

/-- `static_cast<int16_t>`. -/
def asInt16 (x : UInt16) : Int := x.toInt16.toInt

/-- The lambda `is_call`: `CALL nn`, `CALL cc,nn` and `RST`. -/
def isCall (op : UInt8) : Bool := op == 0xCD || (op &&& 0xC7) == 0xC4 || (op &&& 0xC7) == 0xC7

/-- The lambda `is_ret`: `RET`, `RET cc`, `RETI` and `RETN`. -/
def isRet (op op2 : UInt8) : Bool :=
  op == 0xC9 || (op &&& 0xC7) == 0xC0 || (op == 0xED && (op2 == 0x4D || op2 == 0x45))

/-- Where a loop ends: did it break off, or was its budget used up; how many instructions did it
    execute; and the machine behind the last one. -/
structure LoopEnd (M : Type) where
  stopped : Bool
  executed : Nat
  machine : M

/-- The test of the loop: a location on another line. -/
def otherLine (start : SourceLocation) (found : Option SourceLocation) : Bool :=
  match found with
  | none => false
  | some loc => loc.file != start.file || loc.line != start.line

namespace Machine

variable {M : Type} (Z : Machine M)

/-- The second byte of the instruction; nothing is read beyond the end of the memory. -/
def peekNext (m : M) : UInt8 := if Z.pc m = 0xFFFF then 0 else Z.peek m (Z.pc m + 1)

/-- The call depth after the instruction at `m`. -/
def nextDepth (startSp : Int) (callDepth : Nat) (m : M) : Nat :=
  let op := Z.peek m (Z.pc m)
  let op2 := Z.peekNext m
  let m' := Z.stepInstruction m
  let spDelta := asInt16 (Z.sp m' - Z.sp m)
  let callDepth :=
    -- a call that is not taken does not push
    if spDelta = -2 ∧ isCall op then callDepth + 1
    else if spDelta = 2 ∧ isRet op op2 ∧ callDepth > 0 then callDepth - 1
    else callDepth
  -- back at the stack level of the start, whatever was counted
  if asInt16 (Z.sp m') ≥ startSp then 0 else callDepth

/-- The lambda `step_over_loop`. -/
def stepOverLoop (shouldStop : UInt16 → Bool) (startSp : Int) : Nat → Nat → M → LoopEnd M
  | 0, _, m => ⟨false, 0, m⟩
  | budget + 1, callDepth, m =>
    let callDepth := Z.nextDepth startSp callDepth m
    let m := Z.stepInstruction m
    if callDepth = 0 ∧ shouldStop (Z.pc m) = true then ⟨true, 1, m⟩
    else
      let rest := stepOverLoop shouldStop startSp budget callDepth m
      { rest with executed := rest.executed + 1 }

/-- The loop for a PC without a location. -/
def walkToMapped (s : Symbols) (entrySp : Int) : Nat → M → LoopEnd M
  | 0, m => ⟨false, 0, m⟩
  | budget + 1, m =>
    let m := Z.stepInstruction m
    if (s.lookupSourceAny (Z.pc m)).isSome ∨ asInt16 (Z.sp m) > entrySp then ⟨true, 1, m⟩
    else
      -- still in code without a location
      let rest := walkToMapped s entrySp budget m
      { rest with executed := rest.executed + 1 }

/-- `z80_target::step`. -/
def step (s : Symbols) (m : M) : LoopEnd M :=
  match s.lookupSourceAny (Z.pc m) with
  | some start =>
    if start.isAsm then
      Z.stepOverLoop (fun pc => otherLine start (s.lookupSourceAny pc)) (asInt16 (Z.sp m)) 500000 0 m
    else
      Z.stepOverLoop (fun pc => otherLine start (s.lookupSource pc)) (asInt16 (Z.sp m)) 500000 0 m
  | none => Z.walkToMapped s (asInt16 (Z.sp m)) 32 m

/-! ## The calls that are active -/

/-- The machine after `n` instructions. -/
def after (m : M) : Nat → M
  | 0 => m
  | n + 1 => Z.stepInstruction (after m n)

/-- The opcode of the instruction at `addr`, behind any prefixes `DD` and `FD`. -/
def opcodeAt (m : M) : Nat → UInt16 → UInt8
  | 0, addr => Z.peek m addr
  | fuel + 1, addr =>
    if Z.peek m addr = 0xDD ∨ Z.peek m addr = 0xFD then opcodeAt m fuel (addr + 1)
    else Z.peek m addr

/-- Is the next instruction a `CALL` or `RST` that is taken?  It is if it pushes the return
    address. -/
def callTaken (m : M) : Bool :=
  isCall (Z.opcodeAt m 65536 (Z.pc m)) && Z.sp (Z.stepInstruction m) == Z.sp m - 2

/-- The SP just before each call that is active after `n` instructions, the last call first. -/
def activeCalls (m : M) : Nat → List UInt16
  | 0 => []
  | n + 1 =>
    let rest := (activeCalls m n).filter fun s => decide (Z.sp (Z.after m (n + 1)) < s)
    if Z.callTaken (Z.after m n) then Z.sp (Z.after m n) :: rest else rest

variable {Z}

/-- A call is active as long as every later instruction leaves SP below where it was. -/
theorem mem_activeCalls {m : M} {n : Nat} {s : UInt16} :
    s ∈ Z.activeCalls m n ↔
      ∃ i < n, Z.callTaken (Z.after m i) = true ∧ Z.sp (Z.after m i) = s ∧
        ∀ j, i < j → j < n → Z.sp (Z.after m (j + 1)) < s := by
  induction n with
  | zero => exact ⟨nofun, fun ⟨i, hi, _⟩ => absurd hi (Nat.not_lt_zero i)⟩
  | succ n ih =>
    have hold : s ∈ (Z.activeCalls m n).filter (fun s => decide (Z.sp (Z.after m (n + 1)) < s)) ↔
        ∃ i < n, Z.callTaken (Z.after m i) = true ∧ Z.sp (Z.after m i) = s ∧
          ∀ j, i < j → j < n + 1 → Z.sp (Z.after m (j + 1)) < s := by
      rw [List.mem_filter, ih, decide_eq_true_eq]
      constructor
      · rintro ⟨⟨i, hi, hcall, hsp, hbelow⟩, hlast⟩
        refine ⟨i, hi, hcall, hsp, fun j hij hj => ?_⟩
        rcases Nat.lt_or_eq_of_le (Nat.lt_succ_iff.mp hj) with h | rfl
        · exact hbelow j hij h
        · exact hlast
      · rintro ⟨i, hi, hcall, hsp, hbelow⟩
        exact ⟨⟨i, hi, hcall, hsp, fun j hij hj => hbelow j hij (Nat.lt_succ_of_lt hj)⟩,
          hbelow n hi (Nat.lt_succ_self n)⟩
    have hnew : s ∈ Z.activeCalls m (n + 1) ↔
        (Z.callTaken (Z.after m n) = true ∧ Z.sp (Z.after m n) = s) ∨
          s ∈ (Z.activeCalls m n).filter (fun s => decide (Z.sp (Z.after m (n + 1)) < s)) := by
      rw [activeCalls]
      split
      · rename_i hcall
        rw [List.mem_cons]
        exact or_congr_left ⟨fun h => ⟨hcall, h.symm⟩, fun h => h.2.symm⟩
      · rename_i hcall
        exact ⟨Or.inr, fun h => h.resolve_left fun h => hcall h.1⟩
    rw [hnew, hold]
    constructor
    · rintro (⟨hcall, hsp⟩ | ⟨i, hi, h⟩)
      · refine ⟨n, Nat.lt_succ_self n, hcall, hsp, fun j hij hj => ?_⟩
        omega
      · exact ⟨i, Nat.lt_succ_of_lt hi, h⟩
    · rintro ⟨i, hi, hcall, hsp, hbelow⟩
      rcases Nat.lt_or_eq_of_le (Nat.lt_succ_iff.mp hi) with h | rfl
      · exact Or.inr ⟨i, h, hcall, hsp, hbelow⟩
      · exact Or.inl ⟨hcall, hsp⟩

/-- With no call active, every call was left by a later instruction. -/
theorem left_of_activeCalls {m : M} {n : Nat} (h : Z.activeCalls m n = []) {i : Nat} (hi : i < n)
    (hcall : Z.callTaken (Z.after m i) = true) :
    ∃ j, i < j ∧ j < n ∧ Z.sp (Z.after m i) ≤ Z.sp (Z.after m (j + 1)) := by
  by_contra hnone
  have hmem : Z.sp (Z.after m i) ∈ Z.activeCalls m n := by
    refine mem_activeCalls.mpr ⟨i, hi, hcall, rfl, fun j hij hj => ?_⟩
    exact UInt16.not_le.mp fun hle => hnone ⟨j, hij, hj, hle⟩
  rw [h] at hmem
  cases hmem

/-! ## The counter and the active calls -/

variable (Z) in
/-- Instruction number `k` of a step that began at `m` counts as it should. -/
structure Ordinary (m : M) (k : Nat) : Prop where
  /-- A call that is taken has no prefix. -/
  unprefixed : Z.callTaken (Z.after m k) = true →
    isCall (Z.peek (Z.after m k) (Z.pc (Z.after m k))) = true
  /-- A return inside a call leaves it. -/
  leaves : isRet (Z.peek (Z.after m k) (Z.pc (Z.after m k))) (Z.peekNext (Z.after m k)) = true →
    Z.sp (Z.after m (k + 1)) = Z.sp (Z.after m k) + 2 →
    ∀ s, (Z.activeCalls m k).head? = some s → s ≤ Z.sp (Z.after m (k + 1))
  /-- If it leaves SP, as a signed number, at or above where the step began, then it is no call, and
      SP is at or above that of every call that was active. -/
  outside : asInt16 (Z.sp m) ≤ asInt16 (Z.sp (Z.after m (k + 1))) →
    Z.callTaken (Z.after m k) = false ∧ ∀ s ∈ Z.activeCalls m k, s ≤ Z.sp (Z.after m (k + 1))

theorem asInt16_inj {a b : UInt16} : asInt16 a = asInt16 b ↔ a = b := by
  refine ⟨fun h => ?_, fun h => congrArg asInt16 h⟩
  calc a = a.toInt16.toUInt16 := (UInt16.toUInt16_toInt16 a).symm
    _ = b.toInt16.toUInt16 := congrArg Int16.toUInt16 (Int16.toInt_inj.mp h)
    _ = b := UInt16.toUInt16_toInt16 b

/-- The difference as the loop computes it, and the sum that it stands for. -/
theorem asInt16_sub_eq {a b d : UInt16} {i : Int} (hd : asInt16 d = i) :
    asInt16 (a - b) = i ↔ a = b + d := by
  rw [← hd, asInt16_inj]
  constructor
  · rintro rfl
    grind
  · rintro rfl
    grind

/-- What one instruction may do to the counter. -/
theorem nextDepth_cases (Z : Machine M) (startSp : Int) (callDepth : Nat) (m : M) :
    (startSp ≤ asInt16 (Z.sp (Z.stepInstruction m)) ∧ Z.nextDepth startSp callDepth m = 0) ∨
    (Z.sp (Z.stepInstruction m) = Z.sp m - 2 ∧ isCall (Z.peek m (Z.pc m)) = true ∧
      Z.nextDepth startSp callDepth m = callDepth + 1) ∨
    (Z.sp (Z.stepInstruction m) = Z.sp m + 2 ∧
      isRet (Z.peek m (Z.pc m)) (Z.peekNext m) = true ∧
      Z.nextDepth startSp callDepth m = callDepth - 1) ∨
    (¬ (Z.sp (Z.stepInstruction m) = Z.sp m - 2 ∧ isCall (Z.peek m (Z.pc m)) = true) ∧
      Z.nextDepth startSp callDepth m = callDepth) := by
  have hdown : asInt16 (Z.sp (Z.stepInstruction m) - Z.sp m) = -2 ↔
      Z.sp (Z.stepInstruction m) = Z.sp m - 2 :=
    (asInt16_sub_eq (show asInt16 0xFFFE = -2 by decide)).trans
      (by rw [show Z.sp m + 0xFFFE = Z.sp m - 2 by grind])
  have hup : asInt16 (Z.sp (Z.stepInstruction m) - Z.sp m) = 2 ↔
      Z.sp (Z.stepInstruction m) = Z.sp m + 2 := asInt16_sub_eq (by decide)
  simp only [nextDepth, hdown, hup]
  split
  · rename_i h
    exact Or.inl ⟨h, rfl⟩
  · split
    · rename_i h
      exact Or.inr (Or.inl ⟨h.1, h.2, rfl⟩)
    · rename_i hcall
      split
      · rename_i h
        exact Or.inr (Or.inr (Or.inl ⟨h.1, h.2.1, rfl⟩))
      · exact Or.inr (Or.inr (Or.inr ⟨hcall, rfl⟩))

/-- An instruction that is no call leaves all calls above whose SP it comes out. -/
theorem activeCalls_succ_eq_nil {m : M} {k : Nat} (hcall : Z.callTaken (Z.after m k) = false)
    (habove : ∀ s ∈ Z.activeCalls m k, s ≤ Z.sp (Z.after m (k + 1))) :
    Z.activeCalls m (k + 1) = [] := by
  rw [activeCalls, if_neg (by rw [hcall]; exact Bool.false_ne_true), List.filter_eq_nil_iff]
  intro s hs
  rw [decide_eq_true_eq, UInt16.not_lt]
  exact habove s hs

theorem length_activeCalls_succ (m : M) (k : Nat) :
    (Z.activeCalls m (k + 1)).length ≤
      (Z.activeCalls m k).length + if Z.callTaken (Z.after m k) = true then 1 else 0 := by
  have hfilter : ((Z.activeCalls m k).filter
      fun s => decide (Z.sp (Z.after m (k + 1)) < s)).length ≤ (Z.activeCalls m k).length :=
    List.length_filter_le _ _
  rw [activeCalls]
  split
  · rw [List.length_cons]
    omega
  · exact hfilter

/-- **The step lemma.**  An ordinary instruction keeps the counter at the number of active calls at
    least. -/
theorem nextDepth_bounds {m : M} {k : Nat} (hk : Z.Ordinary m k) {callDepth : Nat}
    (h : (Z.activeCalls m k).length ≤ callDepth) :
    (Z.activeCalls m (k + 1)).length ≤ Z.nextDepth (asInt16 (Z.sp m)) callDepth (Z.after m k) := by
  have hlength := length_activeCalls_succ (Z := Z) m k
  rcases nextDepth_cases Z (asInt16 (Z.sp m)) callDepth (Z.after m k) with
    ⟨hsp, hdepth⟩ | ⟨hsp, hop, hdepth⟩ | ⟨hsp, hop, hdepth⟩ | ⟨hno, hdepth⟩
  · -- the counter is reset, outside of calls
    obtain ⟨hcall, habove⟩ := hk.outside hsp
    rw [hdepth, activeCalls_succ_eq_nil hcall habove]
    exact Nat.le_refl 0
  · -- one more, whether the call is taken or not
    rw [hdepth]
    split at hlength <;> omega
  · -- a return: it leaves the last call, if there is one
    have hcall : ¬ Z.callTaken (Z.after m k) = true := by
      intro hcall
      have hdown := (Bool.and_eq_true_iff.mp hcall).2
      rw [beq_iff_eq, hsp] at hdown
      grind
    rw [hdepth, activeCalls, if_neg hcall]
    cases hactive : Z.activeCalls m k with
    | nil => exact Nat.zero_le _
    | cons s rest =>
      have hleft := hk.leaves hop hsp s (by rw [hactive]; rfl)
      have hrest : (rest.filter fun s => decide (Z.sp (Z.after m (k + 1)) < s)).length
          ≤ rest.length := List.length_filter_le _ _
      rw [hactive, List.length_cons] at h
      rw [List.filter_cons_of_neg (by simpa using hleft)]
      omega
  · -- no change; a call that is taken has no prefix and would have been counted
    have hcall : ¬ Z.callTaken (Z.after m k) = true := fun hcall =>
      hno ⟨beq_iff_eq.mp (Bool.and_eq_true_iff.mp hcall).2, hk.unprefixed hcall⟩
    rw [if_neg hcall] at hlength
    omega

/-- One round of the loop. -/
theorem stepOverLoop_succ (shouldStop : UInt16 → Bool) (startSp : Int) (budget callDepth : Nat)
    (m : M) :
    let depth := Z.nextDepth startSp callDepth m
    let rest := Z.stepOverLoop shouldStop startSp budget depth (Z.stepInstruction m)
    (depth = 0 ∧ Z.stepOverLoop shouldStop startSp (budget + 1) callDepth m =
      ⟨true, 1, Z.stepInstruction m⟩) ∨
    Z.stepOverLoop shouldStop startSp (budget + 1) callDepth m =
      ⟨rest.stopped, rest.executed + 1, rest.machine⟩ := by
  intro depth rest
  by_cases h : depth = 0 ∧ shouldStop (Z.pc (Z.stepInstruction m)) = true
  · exact Or.inl ⟨h.1, if_pos h⟩
  · exact Or.inr (if_neg h)

/-- The loop does nothing but execute instructions. -/
theorem stepOverLoop_machine (shouldStop : UInt16 → Bool) (startSp : Int) (m : M) :
    ∀ budget callDepth k : Nat,
      (Z.stepOverLoop shouldStop startSp budget callDepth (Z.after m k)).machine =
        Z.after m
          (k + (Z.stepOverLoop shouldStop startSp budget callDepth (Z.after m k)).executed) := by
  intro budget
  induction budget with
  | zero => exact fun callDepth k => rfl
  | succ budget ih =>
    intro callDepth k
    rcases stepOverLoop_succ (Z := Z) shouldStop startSp budget callDepth (Z.after m k) with
      ⟨-, h⟩ | h
    · rw [h]
      rfl
    · rw [h]
      have hrest := ih (Z.nextDepth startSp callDepth (Z.after m k)) (k + 1)
      rwa [Nat.add_right_comm] at hrest

/-- **The run lemma.**  If all its instructions are ordinary, the loop breaks off with no call
    active. -/
theorem stepOverLoop_stopped (shouldStop : UInt16 → Bool) (m : M) :
    ∀ budget callDepth k : Nat, (Z.activeCalls m k).length ≤ callDepth →
      let r := Z.stepOverLoop shouldStop (asInt16 (Z.sp m)) budget callDepth (Z.after m k)
      r.stopped = true → (∀ i, k ≤ i → i < k + r.executed → Z.Ordinary m i) →
        Z.activeCalls m (k + r.executed) = [] := by
  intro budget
  induction budget with
  | zero => exact fun callDepth k _ => nofun
  | succ budget ih =>
    intro callDepth k h
    rcases stepOverLoop_succ (Z := Z) shouldStop (asInt16 (Z.sp m)) budget callDepth (Z.after m k)
      with ⟨hzero, heq⟩ | heq
    · rw [heq]
      intro r _ hordinary
      have hbound := nextDepth_bounds (hordinary k (Nat.le_refl k) (Nat.lt_succ_self k)) h
      rw [hzero] at hbound
      exact List.eq_nil_of_length_eq_zero (Nat.le_zero.mp hbound)
    · rw [heq]
      intro r hstopped hordinary
      have hcount : ∀ n, k + (n + 1) = k + 1 + n := fun n => by omega
      have hbound := nextDepth_bounds
        (hordinary k (Nat.le_refl k) (by show k < k + (_ + 1); omega)) h
      have := ih _ (k + 1) hbound hstopped fun i hk hi =>
        hordinary i (by omega) (by show i < k + (_ + 1); rw [hcount]; exact hi)
      rw [← hcount] at this
      exact this

/-- Where PC has a location, a step is one run of the loop. -/
theorem step_mapped {s : Symbols} {m : M} (h : (s.lookupSourceAny (Z.pc m)).isSome = true) :
    ∃ shouldStop, Z.step s m = Z.stepOverLoop shouldStop (asInt16 (Z.sp m)) 500000 0 m := by
  obtain ⟨start, hstart⟩ := Option.isSome_iff_exists.mp h
  unfold step
  rw [hstart]
  by_cases hasm : start.isAsm = true
  · exact ⟨_, if_pos hasm⟩
  · exact ⟨_, if_neg hasm⟩

/-- **No call that the step entered is active where it stops**, if PC had a location, the step
    stopped before its budget was used up, and all its instructions are ordinary: for every call
    taken, a later instruction left SP where it was before the call, or above. -/
theorem step_leaves_no_call (Z : Machine M) (s : Symbols) (m : M)
    (hmapped : (s.lookupSourceAny (Z.pc m)).isSome = true)
    (hstopped : (Z.step s m).stopped = true)
    (hordinary : ∀ k < (Z.step s m).executed, Z.Ordinary m k) :
    (Z.step s m).machine = Z.after m (Z.step s m).executed ∧
    ∀ i < (Z.step s m).executed, Z.callTaken (Z.after m i) = true →
      ∃ j, i < j ∧ j < (Z.step s m).executed ∧
        Z.sp (Z.after m i) ≤ Z.sp (Z.after m (j + 1)) := by
  obtain ⟨shouldStop, hstep⟩ := step_mapped hmapped
  rw [hstep] at hstopped hordinary ⊢
  have hmachine := stepOverLoop_machine (Z := Z) shouldStop (asInt16 (Z.sp m)) m 500000 0 0
  have hactive := stepOverLoop_stopped (Z := Z) shouldStop m 500000 0 0 (Nat.le_refl 0) hstopped
    fun i _ hi => hordinary i (by rwa [Nat.zero_add] at hi)
  rw [Nat.zero_add] at hmachine hactive
  exact ⟨hmachine, fun i hi hcall => left_of_activeCalls hactive hi hcall⟩

end Machine

/-! ## A call next to the middle of the memory -/

/-- A Z80 that executes `NOP`, `CALL nn` and `RET`. -/
structure Cpu where
  pc : UInt16
  sp : UInt16
  mem : UInt16 → UInt8

namespace Cpu

/-- The 16-bit number at an address, low byte first. -/
def word (c : Cpu) (addr : UInt16) : UInt16 :=
  (c.mem addr).toUInt16 + 256 * (c.mem (addr + 1)).toUInt16

def execute (c : Cpu) : Cpu :=
  if c.mem c.pc = 0xCD then
    let ret := c.pc + 3
    { pc := c.word (c.pc + 1), sp := c.sp - 2,
      mem := fun a => if a = c.sp - 2 then ret.toUInt8
        else if a = c.sp - 1 then (ret >>> 8).toUInt8 else c.mem a }
  else if c.mem c.pc = 0xC9 then { c with pc := c.word c.sp, sp := c.sp + 2 }
  else { c with pc := c.pc + 1 }

def machine : Machine Cpu := ⟨pc, sp, mem, execute⟩

/-- `main` calls at 0x0100 the function at 0x0110, which returns. -/
def calling (sp : UInt16) : Cpu :=
  { pc := 0x0100, sp := sp,
    mem := fun a => if a = 0x0100 then 0xCD else if a = 0x0101 then 0x10
      else if a = 0x0102 then 0x01 else if a = 0x0110 then 0xC9 else 0 }

/-- The call is line 5 of the file, the code behind it line 6, and the function line 20. -/
def callingSymbols : Symbols :=
  Symbols.setCdbModules default
    [{ name := str "main", file := str "main.c",
       lines := [{ file := str "main.c", line := 5, address := 0x0100 },
         { file := str "main.c", line := 6, address := 0x0103 },
         { file := str "main.c", line := 20, address := 0x0110 }] }] {}

/-- With SP at 0x8000 a step over the call stops at the first instruction of the function: SP is
    then 0x7FFE, which is more than 0x8000 if both are taken as signed numbers. -/
theorem step_stops_inside :
    ((machine.step callingSymbols (calling 0x8000)).stopped = true ∧
      (machine.step callingSymbols (calling 0x8000)).machine.pc = 0x0110) ∧
    ∃ i < (machine.step callingSymbols (calling 0x8000)).executed,
      machine.callTaken (machine.after (calling 0x8000) i) = true ∧
      ∀ j, i < j → j < (machine.step callingSymbols (calling 0x8000)).executed →
        machine.sp (machine.after (calling 0x8000) (j + 1)) <
          machine.sp (machine.after (calling 0x8000) i) := by
  have hexecuted : (machine.step callingSymbols (calling 0x8000)).executed = 1 := by
    decide +kernel
  refine ⟨by decide +kernel, 0, ?_, by decide +kernel, fun j hj hlt => ?_⟩
  · rw [hexecuted]
    exact Nat.one_pos
  · rw [hexecuted] at hlt
    omega

/-- With SP at 0xF000 the step executes the call and the return. -/
theorem step_leaves_no_call_calling :
    (machine.step callingSymbols (calling 0xF000)).machine = machine.after (calling 0xF000) 2 ∧
    ∀ i < 2, machine.callTaken (machine.after (calling 0xF000) i) = true →
      ∃ j, i < j ∧ j < 2 ∧ machine.sp (machine.after (calling 0xF000) i) ≤
        machine.sp (machine.after (calling 0xF000) (j + 1)) := by
  have hexecuted : (machine.step callingSymbols (calling 0xF000)).executed = 2 := by
    decide +kernel
  have hordinary : ∀ k < 2, machine.Ordinary (calling 0xF000) k := by
    intro k hk
    have hk' : k = 0 ∨ k = 1 := by omega
    rcases hk' with rfl | rfl
    · exact ⟨fun _ => by decide +kernel, fun h => absurd h (by decide +kernel),
        fun h => absurd h (by decide +kernel)⟩
    · have hactive : machine.activeCalls (calling 0xF000) 1 = [0xF000] := by decide +kernel
      refine ⟨fun h => absurd h (by decide +kernel), fun _ _ s hs => ?_,
        fun _ => ⟨by decide +kernel, fun s hs => ?_⟩⟩
      · rw [hactive] at hs
        rw [← Option.some.inj hs]
        decide +kernel
      · rw [hactive] at hs
        rw [List.mem_singleton.mp hs]
        decide +kernel
  have := Machine.step_leaves_no_call machine callingSymbols (calling 0xF000) (by decide +kernel)
    (by decide +kernel) (by rw [hexecuted]; exact hordinary)
  rwa [hexecuted] at this

end Cpu

end Udap
