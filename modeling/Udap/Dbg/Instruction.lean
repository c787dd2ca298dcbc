/-
  ONE INSTRUCTION — `dbg::step_instruction`, over `z80ex_step`, which executes an opcode or consumes
  a prefix byte.

  1. **Program** — two loops that test behind their body: over the prefix bytes of an instruction,
     and over the repetitions of a block instruction, which are executed as one.

  2. **The CPU** — what z80ex is relied on for: which bytes are prefixes (`FetchesPrefixes`), and
     how a block instruction counts and repeats itself (`RepeatsBlocks`).

  3. **The inner loop** ends unless all the memory is DD and FD, one prefix behind the other.

  4. **The outer loop** runs on what it saw of the instruction at its start.  A block instruction
     that leaves its own bytes alone is repeated to its end (`AtBlock.stepInstruction`); one that
     overwrites them returns as its new bytes do (`AtBlock.returns_iff_leaves`); and at address
     FFFF none is recognised (`block_atomic_iff`).
-/
import Udap.Dbg.StepBack
import Udap.Lib.Loop

set_option linter.unusedVariables false

namespace Udap

open Udap.Loop

/-! ## Program -/

/-- `z80ex`: its registers, and one opcode or prefix byte at a time. -/
structure Z80Cpu (C : Type) where
  /-- `z80ex_get_reg`. -/
  getReg : C → Reg → UInt16
  /-- `z80ex_step`: the T-states it took, and what it leaves. -/
  step : Computer C → Int × Computer C
  /-- `z80ex_last_op_type`. -/
  lastOpType : C → UInt8

/-- The second byte of LDIR, CPIR, INIR, OTIR, LDDR, CPDR, INDR and OTDR. -/
def blockOpcode (b : UInt8) : Bool := (0xB0 ≤ b && b ≤ 0xB3) || (0xB8 ≤ b && b ≤ 0xBB)

/-- `is_block`. -/
def isBlock (memory : Memory) (startPc : UInt16) : Bool :=
  let b0 := memory startPc
  -- at FFFF the CPU fetches its second byte from 0000, this does not
  let b1 := if startPc.toNat + 1 < memorySize then memory (startPc + 1) else 0
  b0 == 0xED && blockOpcode b1

namespace Z80Cpu

variable {C : Type} (Z : Z80Cpu C)

def pc (m : Computer C) : UInt16 := Z.getReg m.cpu .regPC

/-- `total += z80ex_step(cpu_)`. -/
def stepOnce (p : Int × Computer C) : Int × Computer C :=
  (p.1 + (Z.step p.2).1, (Z.step p.2).2)

/-- The inner loop: prefix bytes, and the opcode behind them. -/
def prefixLoop (fuel : Nat) (p : Int × Computer C) : Option (Int × Computer C) :=
  doWhile (fun p => some (Z.stepOnce p)) (fun p => Z.lastOpType p.2.cpu != 0) fuel p

/-- One instruction without its T-states. -/
def instruction (fuel : Nat) (m : Computer C) : Option (Computer C) :=
  doWhile (fun m => some (Z.step m).2) (fun m => Z.lastOpType m.cpu != 0) fuel m

/-- `dbg::step_instruction`: `total`, and the computer behind the instruction. -/
def stepInstruction (fuel : Nat) (m : Computer C) : Option (Int × Computer C) :=
  let startPc := Z.pc m
  -- the memory of the start: `is_block` is computed once, in front of the loop
  doWhile (Z.prefixLoop fuel) (fun p => isBlock m.memory startPc && Z.pc p.2 == startPc) fuel (0, m)

/-- It returns. -/
def Returns (m : Computer C) : Prop := ∃ fuel p, Z.stepInstruction fuel m = some p

/-- More fuel changes nothing. -/
theorem stepInstruction_mono {fuel fuel' : Nat} (hle : fuel ≤ fuel') {m : Computer C}
    {p : Int × Computer C} (h : Z.stepInstruction fuel m = some p) :
    Z.stepInstruction fuel' m = some p :=
  doWhile_mono (fun _ _ hinner => doWhile_mono (fun _ _ hq => hq) hle hinner) hle h

theorem stepInstruction_unique {fuel fuel' : Nat} {m : Computer C} {p q : Int × Computer C}
    (hp : Z.stepInstruction fuel m = some p) (hq : Z.stepInstruction fuel' m = some q) : p = q := by
  have hp' := Z.stepInstruction_mono (Nat.le_max_left fuel fuel') hp
  have hq' := Z.stepInstruction_mono (Nat.le_max_right fuel fuel') hq
  exact Option.some.inj (hp'.symm.trans hq')

/-- **Between two instructions** no prefix is pending. -/
theorem lastOpType_of_stepInstruction {fuel : Nat} {m : Computer C} {p : Int × Computer C}
    (h : Z.stepInstruction fuel m = some p) : Z.lastOpType p.2.cpu = 0 := by
  refine (doWhile_inv (Q := fun q => Z.lastOpType q.2.cpu = 0) (fun q r hr => ?_) h).1
  have hend := (doWhile_inv (Q := fun _ => True) (fun _ _ _ => trivial) hr).2
  simpa using hend

end Z80Cpu

/-! ## The CPU -/

/-- Can `b` be a prefix behind the prefix `last`, or at the start of an instruction if that is 0? -/
def mayPrefix (last b : UInt8) : Bool :=
  (last == 0 || last == 0xDD || last == 0xFD) && (b == 0xCB || b == 0xDD || b == 0xED || b == 0xFD)

/-- Is it one in any case?  Whether CB and ED behind DD and FD take a step of their own is left
    open. -/
def mustPrefix (last b : UInt8) : Bool :=
  mayPrefix last b && (last == 0 || b == 0xDD || b == 0xFD)

/-- Does the block instruction count with B alone? -/
def usesB (op : UInt8) : Bool := op &&& 2 != 0

/-- Does it compare? -/
def compares (op : UInt8) : Bool := op &&& 3 == 1

namespace Z80Cpu

variable {C : Type} (Z : Z80Cpu C)

def b (c : C) : UInt8 := (Z.getReg c .regBC >>> 8).toUInt8

def zeroFlag (c : C) : Bool := Z.getReg c .regAF &&& 0x40 != 0

/-- The end condition of a block instruction, behind one iteration. -/
def ended (op : UInt8) (c : C) : Bool :=
  if usesB op then Z.b c == 0 else Z.getReg c .regBC == 0 || (compares op && Z.zeroFlag c)

/-- One iteration of a block instruction: its prefix and its opcode. -/
def iteration (m : Computer C) : Computer C := (Z.step (Z.step m).2).2

/-- A step consumes a prefix byte or executes an opcode, and `z80ex_last_op_type` tells which. -/
structure FetchesPrefixes : Prop where
  complete_or_prefix : ∀ m, Z.lastOpType (Z.step m).2.cpu = 0 ∨
    mayPrefix (Z.lastOpType m.cpu) (m.memory (Z.pc m)) = true ∧
      Z.lastOpType (Z.step m).2.cpu = m.memory (Z.pc m) ∧
      Z.pc (Z.step m).2 = Z.pc m + 1 ∧ (Z.step m).2.memory = m.memory
  prefixed : ∀ m, mustPrefix (Z.lastOpType m.cpu) (m.memory (Z.pc m)) = true →
    Z.lastOpType (Z.step m).2.cpu ≠ 0

/-- `m` is between two instructions, in front of a block instruction.  The CPU fetches across the
    end of the memory. -/
structure AtBlock (m : Computer C) : Prop where
  complete : Z.lastOpType m.cpu = 0
  first : m.memory (Z.pc m) = 0xED
  second : blockOpcode (m.memory (Z.pc m + 1)) = true

/-- An iteration of a block instruction counts down, and PC stays at it unless it was the last. -/
structure RepeatsBlocks : Prop where
  counted : ∀ m, Z.AtBlock m →
    if usesB (m.memory (Z.pc m + 1)) then Z.b (Z.iteration m).cpu = Z.b m.cpu - 1
    else Z.getReg (Z.iteration m).cpu .regBC = Z.getReg m.cpu .regBC - 1
  repeated : ∀ m, Z.AtBlock m → Z.pc (Z.iteration m) =
    if Z.ended (m.memory (Z.pc m + 1)) (Z.iteration m).cpu then Z.pc m + 2 else Z.pc m

/-- The instruction at PC is still repeated behind `k` iterations. -/
def Repeating (m : Computer C) (k : Nat) : Prop :=
  ∀ j, 1 ≤ j → j ≤ k → Z.pc (Z.iteration^[j] m) = Z.pc m

/-- Its own two bytes are what they were. -/
def Intact (m : Computer C) (k : Nat) : Prop :=
  (Z.iteration^[k] m).memory (Z.pc m) = m.memory (Z.pc m) ∧
    (Z.iteration^[k] m).memory (Z.pc m + 1) = m.memory (Z.pc m + 1)

/-- It leaves them alone while it is repeated. -/
def Untouched (m : Computer C) : Prop := ∀ k, Z.Repeating m k → Z.Intact m k

/-- It overwrites them with iteration number `k`, which is not its last one. -/
structure Overwrites (m : Computer C) (k : Nat) : Prop where
  repeating : Z.Repeating m k
  intact : ∀ j < k, Z.Intact m j
  overwritten : ¬ Z.Intact m k

/-- Instruction by instruction, the CPU leaves the address `start`. -/
def Leaves (start : UInt16) (m : Computer C) : Prop :=
  ∃ fuel n q, times (Z.instruction fuel) n m = some q ∧ Z.pc q ≠ start

/-- The instruction at PC ends with iteration number `n`. -/
structure EndsAt (m : Computer C) (n : Nat) : Prop where
  pos : 1 ≤ n
  last : Z.ended (m.memory (Z.pc m + 1)) (Z.iteration^[n] m).cpu = true
  first : ∀ j, 1 ≤ j → j < n → Z.ended (m.memory (Z.pc m + 1)) (Z.iteration^[j] m).cpu = false

variable {Z}

/-! ## The inner loop -/

theorem prefixLoop_complete {p : Int × Computer C} (h : Z.lastOpType (Z.step p.2).2.cpu = 0)
    (fuel : Nat) : Z.prefixLoop (fuel + 1) p = some (Z.stepOnce p) := by
  have hstop : (Z.lastOpType (Z.stepOnce p).2.cpu != 0) = false := by
    show (Z.lastOpType (Z.step p.2).2.cpu != 0) = false
    rw [h]
    rfl
  rw [prefixLoop, doWhile, Option.bind_some, if_neg (by rw [hstop]; exact Bool.false_ne_true)]

theorem prefixLoop_prefixed {p : Int × Computer C} (h : Z.lastOpType (Z.step p.2).2.cpu ≠ 0)
    (fuel : Nat) : Z.prefixLoop (fuel + 1) p = Z.prefixLoop fuel (Z.stepOnce p) := by
  have hgo : (Z.lastOpType (Z.stepOnce p).2.cpu != 0) = true := bne_iff_ne.mpr h
  rw [prefixLoop, doWhile, Option.bind_some, if_pos hgo]
  rfl

/-- Behind CB and ED there is always an opcode. -/
theorem complete_behind (hZ : Z.FetchesPrefixes) {m : Computer C}
    (h : Z.lastOpType m.cpu = 0xCB ∨ Z.lastOpType m.cpu = 0xED) :
    Z.lastOpType (Z.step m).2.cpu = 0 := by
  rcases hZ.complete_or_prefix m with hcomplete | ⟨hmay, -⟩
  · exact hcomplete
  · have hno : mayPrefix (Z.lastOpType m.cpu) (m.memory (Z.pc m)) = false := by
      rcases h with h | h <;> rw [h] <;> rfl
    rw [hno] at hmay
    cases hmay

theorem of_mayPrefix {last b : UInt8} (h : mayPrefix last b = true) :
    (b = 0xCB ∨ b = 0xED) ∨ (b = 0xDD ∨ b = 0xFD) := by
  obtain ⟨-, hb⟩ := Bool.and_eq_true_iff.mp h
  simp only [Bool.or_eq_true, beq_iff_eq] at hb
  tauto

/-- **The inner loop ends** if `n` bytes ahead there is neither DD nor FD. -/
theorem prefixLoop_ends (hZ : Z.FetchesPrefixes) (n : Nat) {p : Int × Computer C}
    (h : p.2.memory (Z.pc p.2 + UInt16.ofNat n) ≠ 0xDD ∧
      p.2.memory (Z.pc p.2 + UInt16.ofNat n) ≠ 0xFD) :
    ∃ fuel q, Z.prefixLoop fuel p = some q := by
  induction n generalizing p with
  | zero =>
    rcases hZ.complete_or_prefix p.2 with hcomplete | ⟨hmay, htype, -, -⟩
    · exact ⟨1, _, prefixLoop_complete hcomplete 0⟩
    · have hbyte : p.2.memory (Z.pc p.2 + UInt16.ofNat 0) = p.2.memory (Z.pc p.2) :=
        congrArg p.2.memory (UInt16.add_zero _)
      rw [hbyte] at h
      rcases of_mayPrefix hmay with hlast | hchain
      · rw [← htype] at hlast
        have hnext := complete_behind hZ (m := (Z.stepOnce p).2) hlast
        have hprefix : Z.lastOpType (Z.step p.2).2.cpu ≠ 0 := by
          rcases hlast with hlast | hlast <;> rw [hlast] <;> decide
        exact ⟨2, _, (prefixLoop_prefixed hprefix 1).trans (prefixLoop_complete hnext 0)⟩
      · rcases hchain with hchain | hchain
        · exact absurd hchain h.1
        · exact absurd hchain h.2
  | succ n ih =>
    rcases hZ.complete_or_prefix p.2 with hcomplete | ⟨-, htype, hpc, hmemory⟩
    · exact ⟨1, _, prefixLoop_complete hcomplete 0⟩
    · -- one prefix is consumed, and the byte is one step less ahead
      by_cases hzero : Z.lastOpType (Z.step p.2).2.cpu = 0
      · exact ⟨1, _, prefixLoop_complete hzero 0⟩
      · have hahead : Z.pc p.2 + 1 + UInt16.ofNat n = Z.pc p.2 + UInt16.ofNat (n + 1) := by
          rw [UInt16.ofNat_add, UInt16.add_assoc, UInt16.add_comm 1]
          rfl
        have hnext : (Z.stepOnce p).2.memory (Z.pc (Z.stepOnce p).2 + UInt16.ofNat n)
            = p.2.memory (Z.pc p.2 + UInt16.ofNat (n + 1)) := by
          rw [← hahead, ← hpc]
          exact congrFun hmemory _
        obtain ⟨fuel, q, hq⟩ := ih (p := Z.stepOnce p) (by rw [hnext]; exact h)
        exact ⟨fuel + 1, q, (prefixLoop_prefixed hzero fuel).trans hq⟩

/-- **It never ends** in a memory of prefixes. -/
theorem prefixLoop_chain (hZ : Z.FetchesPrefixes) {p : Int × Computer C}
    (hlast : Z.lastOpType p.2.cpu = 0)
    (h : ∀ addr, p.2.memory addr = 0xDD ∨ p.2.memory addr = 0xFD) (fuel : Nat) :
    Z.prefixLoop fuel p = none := by
  -- the invariant: a prefix is pending, or none yet, and prefixes lie ahead
  refine doWhile_diverges
    (I := fun p => (Z.lastOpType p.2.cpu = 0 ∨ Z.lastOpType p.2.cpu = 0xDD ∨
      Z.lastOpType p.2.cpu = 0xFD) ∧ ∀ addr, p.2.memory addr = 0xDD ∨ p.2.memory addr = 0xFD)
    ?_ ⟨Or.inl hlast, h⟩ fuel
  rintro p q ⟨htype, hall⟩ hq
  obtain rfl := Option.some.inj hq
  have hmust : mustPrefix (Z.lastOpType p.2.cpu) (p.2.memory (Z.pc p.2)) = true := by
    rcases htype with htype | htype | htype <;> rw [htype] <;>
      rcases hall (Z.pc p.2) with hbyte | hbyte <;> rw [hbyte] <;> rfl
  have hne := hZ.prefixed p.2 hmust
  rcases hZ.complete_or_prefix p.2 with hcomplete | ⟨-, hnext, -, hmemory⟩
  · exact absurd hcomplete hne
  · refine ⟨⟨Or.inr ?_, ?_⟩, bne_iff_ne.mpr hne⟩
    · show Z.lastOpType (Z.step p.2).2.cpu = 0xDD ∨ Z.lastOpType (Z.step p.2).2.cpu = 0xFD
      rw [hnext]
      exact hall (Z.pc p.2)
    · intro addr
      show (Z.step p.2).2.memory addr = 0xDD ∨ (Z.step p.2).2.memory addr = 0xFD
      rw [hmemory]
      exact hall addr

/-! ## The iterations of a block instruction -/

theorem Repeating.mono {m : Computer C} {j k : Nat} (hjk : j ≤ k) (h : Z.Repeating m k) :
    Z.Repeating m j :=
  fun i hi hij => h i hi (hij.trans hjk)

/-- Behind its first byte the CPU waits for the opcode. -/
theorem AtBlock.pending (hZ : Z.FetchesPrefixes) {m : Computer C} (h : Z.AtBlock m) :
    Z.lastOpType (Z.step m).2.cpu = 0xED := by
  have hmust : mustPrefix (Z.lastOpType m.cpu) (m.memory (Z.pc m)) = true := by
    rw [h.complete, h.first]
    rfl
  rcases hZ.complete_or_prefix m with hcomplete | ⟨-, htype, -, -⟩
  · exact absurd hcomplete (hZ.prefixed m hmust)
  · exact htype.trans h.first

theorem AtBlock.complete_iteration (hZ : Z.FetchesPrefixes) {m : Computer C} (h : Z.AtBlock m) :
    Z.lastOpType (Z.iteration m).cpu = 0 :=
  complete_behind hZ (Or.inr (h.pending hZ))

/-- The prefix and the opcode of an iteration are one run of the inner loop. -/
theorem AtBlock.prefixLoop (hZ : Z.FetchesPrefixes) {p : Int × Computer C} (h : Z.AtBlock p.2)
    (fuel : Nat) : Z.prefixLoop (fuel + 2) p = some (Z.stepOnce (Z.stepOnce p)) := by
  have hprefix : Z.lastOpType (Z.step p.2).2.cpu ≠ 0 := by
    rw [h.pending hZ]
    decide
  rw [prefixLoop_prefixed hprefix, prefixLoop_complete]
  exact h.complete_iteration hZ

theorem Untouched.intact {m : Computer C} (h : Z.Untouched m) {k : Nat} (hk : Z.Repeating m k) :
    ∀ j ≤ k, Z.Intact m j :=
  fun j hj => h j (hk.mono hj)

/-- A block instruction that does not leave its bytes alone overwrites them with some iteration. -/
theorem overwrites_of_not_untouched {m : Computer C} (h : ¬ Z.Untouched m) :
    ∃ k, Z.Overwrites m k := by
  have hsome : ∃ k, Z.Repeating m k ∧ ¬ Z.Intact m k := by
    by_contra hnone
    refine h fun k hk => ?_
    by_contra hover
    exact hnone ⟨k, hk, hover⟩
  classical
  obtain ⟨hk, hover⟩ := Nat.find_spec hsome
  refine ⟨Nat.find hsome, hk, fun j hj => ?_, hover⟩
  by_contra hearlier
  exact Nat.find_min hsome hj ⟨hk.mono hj.le, hearlier⟩

/-- **Step lemma.**  While it is repeated, every iteration begins at the same instruction. -/
theorem AtBlock.iterate (hZ : Z.FetchesPrefixes) {m : Computer C} (h : Z.AtBlock m) : ∀ {k : Nat},
    Z.Repeating m k → (∀ j ≤ k, Z.Intact m j) →
      Z.AtBlock (Z.iteration^[k] m) ∧ Z.pc (Z.iteration^[k] m) = Z.pc m := by
  intro k
  induction k with
  | zero => exact fun _ _ => ⟨h, rfl⟩
  | succ k ih =>
    intro hrepeating hintact
    obtain ⟨hblock, -⟩ := ih (hrepeating.mono (Nat.le_succ k)) fun j hj => hintact j (by omega)
    obtain ⟨hfirst, hsecond⟩ := hintact (k + 1) (Nat.le_refl _)
    have hpc : Z.pc (Z.iteration^[k + 1] m) = Z.pc m :=
      hrepeating (k + 1) (Nat.succ_pos k) (Nat.le_refl _)
    refine ⟨⟨?_, ?_, ?_⟩, hpc⟩
    · rw [Function.iterate_succ_apply']
      exact hblock.complete_iteration hZ
    · rw [hpc, hfirst]
      exact h.first
    · rw [hpc, hsecond]
      exact h.second

theorem add_two_ne (x : UInt16) : x + 2 ≠ x := by
  intro h
  have hzero : (2 : UInt16) = 0 := by grind
  cases hzero

/-- It ends behind `k + 1` iterations, or it is still repeated. -/
theorem AtBlock.pc_succ (hZ : Z.FetchesPrefixes) (hB : Z.RepeatsBlocks) {m : Computer C}
    (h : Z.AtBlock m) (huntouched : Z.Untouched m) {k : Nat} (hk : Z.Repeating m k) :
    Z.pc (Z.iteration^[k + 1] m) =
      if Z.ended (m.memory (Z.pc m + 1)) (Z.iteration^[k + 1] m).cpu then Z.pc m + 2
      else Z.pc m := by
  obtain ⟨hblock, hpc⟩ := h.iterate hZ hk (huntouched.intact hk)
  have hrepeated := hB.repeated _ hblock
  rw [hpc, (huntouched k hk).2] at hrepeated
  rw [Function.iterate_succ_apply']
  exact hrepeated

theorem AtBlock.repeating (hZ : Z.FetchesPrefixes) (hB : Z.RepeatsBlocks) {m : Computer C}
    (h : Z.AtBlock m) (huntouched : Z.Untouched m) : ∀ {k : Nat},
      (∀ j, 1 ≤ j → j ≤ k →
        Z.ended (m.memory (Z.pc m + 1)) (Z.iteration^[j] m).cpu = false) → Z.Repeating m k := by
  intro k
  induction k with
  | zero =>
    intro _ j hj hle
    omega
  | succ k ih =>
    intro hgoes
    have hk : Z.Repeating m k := ih fun j hj hle => hgoes j hj (by omega)
    intro j hj hle
    rcases Nat.lt_or_ge k j with hlast | hlt
    · obtain rfl : j = k + 1 := by omega
      rw [h.pc_succ hZ hB huntouched hk, hgoes (k + 1) hj hle, if_neg Bool.false_ne_true]
    · exact hk j hj hlt

/-! ## The counter -/

/-- Counting down from `x` reaches 0, and counting down from 0 takes the longest. -/
theorem counts_down_8 (x : UInt8) : ∃ k, 1 ≤ k ∧ k ≤ 65536 ∧ x - UInt8.ofNat k = 0 := by
  refine ⟨(x - 1).toNat + 1, Nat.succ_pos _, ?_, ?_⟩
  · have := (x - 1).toNat_lt
    omega
  · rw [UInt8.ofNat_add, UInt8.ofNat_toNat]
    show x - (x - 1 + 1) = 0
    grind

theorem counts_down_16 (x : UInt16) : ∃ k, 1 ≤ k ∧ k ≤ 65536 ∧ x - UInt16.ofNat k = 0 := by
  refine ⟨(x - 1).toNat + 1, Nat.succ_pos _, ?_, ?_⟩
  · have := (x - 1).toNat_lt
    omega
  · rw [UInt16.ofNat_add, UInt16.ofNat_toNat]
    show x - (x - 1 + 1) = 0
    grind

/-- The counter behind `k + 1` iterations. -/
theorem AtBlock.counter (hZ : Z.FetchesPrefixes) (hB : Z.RepeatsBlocks) {m : Computer C}
    (h : Z.AtBlock m) (huntouched : Z.Untouched m) : ∀ {k : Nat}, Z.Repeating m k →
      if usesB (m.memory (Z.pc m + 1)) then
        Z.b (Z.iteration^[k + 1] m).cpu = Z.b m.cpu - UInt8.ofNat (k + 1)
      else Z.getReg (Z.iteration^[k + 1] m).cpu .regBC
        = Z.getReg m.cpu .regBC - UInt16.ofNat (k + 1) := by
  intro k
  induction k with
  | zero => exact fun _ => hB.counted m h
  | succ k ih =>
    intro hrepeating
    obtain ⟨hblock, hpc⟩ := h.iterate hZ hrepeating (huntouched.intact hrepeating)
    have hcounted := hB.counted _ hblock
    have hbefore := ih (hrepeating.mono (Nat.le_succ k))
    rw [hpc, (huntouched (k + 1) hrepeating).2] at hcounted
    rw [Function.iterate_succ_apply']
    split at hbefore <;> rename_i hop
    · rw [if_pos hop] at hcounted ⊢
      rw [hcounted, hbefore, UInt8.ofNat_add (k + 1)]
      show _ = _ - (_ + 1)
      grind
    · rw [if_neg hop] at hcounted ⊢
      rw [hcounted, hbefore, UInt16.ofNat_add (k + 1)]
      show _ = _ - (_ + 1)
      grind

/-- **A block instruction has an end** that its counter bounds. -/
theorem AtBlock.ends (hZ : Z.FetchesPrefixes) (hB : Z.RepeatsBlocks) {m : Computer C}
    (h : Z.AtBlock m) (huntouched : Z.Untouched m) : ∃ n ≤ 65536, Z.EndsAt m n := by
  have hsome : ∃ n, 1 ≤ n ∧ n ≤ 65536 ∧
      Z.ended (m.memory (Z.pc m + 1)) (Z.iteration^[n] m).cpu = true := by
    by_contra hnone
    push Not at hnone
    have hgoes : ∀ j, 1 ≤ j → j ≤ 65536 →
        Z.ended (m.memory (Z.pc m + 1)) (Z.iteration^[j] m).cpu = false := by
      intro j hj hle
      exact Bool.eq_false_iff.mpr (hnone j hj hle)
    -- without an end the counter goes down all the time, and some time it is 0
    have hcounter : ∀ k, 1 ≤ k → k ≤ 65536 →
        if usesB (m.memory (Z.pc m + 1)) then
          Z.b (Z.iteration^[k] m).cpu = Z.b m.cpu - UInt8.ofNat k
        else Z.getReg (Z.iteration^[k] m).cpu .regBC = Z.getReg m.cpu .regBC - UInt16.ofNat k := by
      intro k hk hle
      obtain ⟨k, rfl⟩ : ∃ i, k = i + 1 := ⟨k - 1, by omega⟩
      exact h.counter hZ hB huntouched
        (h.repeating hZ hB huntouched fun j hj hjk => hgoes j hj (by omega))
    cases hop : usesB (m.memory (Z.pc m + 1)) with
    | true =>
      -- B alone counts, in 256 iterations at most
      obtain ⟨k, hk, hle, hzero⟩ := counts_down_8 (Z.b m.cpu)
      have hb := hcounter k hk hle
      rw [if_pos hop, hzero] at hb
      have := hgoes k hk hle
      rw [ended, if_pos hop, hb] at this
      cases this
    | false =>
      obtain ⟨k, hk, hle, hzero⟩ := counts_down_16 (Z.getReg m.cpu .regBC)
      have hbc := hcounter k hk hle
      rw [hop, if_neg Bool.false_ne_true, hzero] at hbc
      have := hgoes k hk hle
      rw [ended, hop, if_neg Bool.false_ne_true, hbc] at this
      cases this
  classical
  refine ⟨Nat.find hsome, (Nat.find_spec hsome).2.1, (Nat.find_spec hsome).1,
    (Nat.find_spec hsome).2.2, ?_⟩
  intro j hj hlt
  have hle : j ≤ 65536 := hlt.le.trans (Nat.find_spec hsome).2.1
  exact Bool.eq_false_iff.mpr fun hend => Nat.find_min hsome hlt ⟨hj, hle, hend⟩

/-! ## The outer loop -/

variable (Z) in
/-- What the inner loop does at a block instruction, to the T-states and the computer. -/
def iterationOnce (p : Int × Computer C) : Int × Computer C := Z.stepOnce (Z.stepOnce p)

theorem iterate_iterationOnce (p : Int × Computer C) (k : Nat) :
    (Z.iterationOnce^[k] p).2 = Z.iteration^[k] p.2 := by
  induction k with
  | zero => rfl
  | succ k ih =>
    rw [Function.iterate_succ_apply', Function.iterate_succ_apply', ← ih]
    rfl

/-- As many runs of the inner loop as iterations, up to where the bytes may be overwritten. -/
theorem AtBlock.times_prefixLoop (hZ : Z.FetchesPrefixes) {m : Computer C} (h : Z.AtBlock m)
    {k : Nat} (hk : ∀ j < k, Z.Repeating m j) (hintact : ∀ j < k, Z.Intact m j) (fuel : Nat) :
    times (Z.prefixLoop (fuel + 2)) k (0, m) = some (Z.iterationOnce^[k] (0, m)) := by
  refine times_iterate fun j hj => ?_
  have hblock := (h.iterate hZ (hk j hj) fun i hi => hintact i (by omega)).1
  rw [← iterate_iterationOnce (0, m)] at hblock
  rw [Function.iterate_succ_apply']
  exact hblock.prefixLoop hZ fuel

/-- Where a block instruction is recognised. -/
theorem AtBlock.isBlock_iff {m : Computer C} (h : Z.AtBlock m) :
    isBlock m.memory (Z.pc m) = true ↔ Z.pc m ≠ 0xFFFF := by
  have hedge : (Z.pc m).toNat + 1 < memorySize ↔ Z.pc m ≠ 0xFFFF := by
    rw [Ne, ← UInt16.toNat_inj]
    have := (Z.pc m).toNat_lt
    show _ < 65536 ↔ ¬ _ = 65535
    omega
  rw [← hedge, isBlock, h.first]
  by_cases hin : (Z.pc m).toNat + 1 < memorySize
  · rw [if_pos hin, h.second]
    simp [hin]
  · rw [if_neg hin]
    simp only [hin, iff_false]
    decide

theorem atBlock_of_isBlock {m : Computer C} (hlast : Z.lastOpType m.cpu = 0)
    (h : isBlock m.memory (Z.pc m) = true) : Z.AtBlock m := by
  obtain ⟨hfirst, hsecond⟩ := Bool.and_eq_true_iff.mp h
  refine ⟨hlast, beq_iff_eq.mp hfirst, ?_⟩
  split at hsecond
  · exact hsecond
  · cases hsecond

/-- An instruction that is not recognised as a block instruction is one run of the inner loop. -/
theorem stepInstruction_once {m : Computer C} (h : isBlock m.memory (Z.pc m) = false) {fuel : Nat}
    {p : Int × Computer C} (hp : Z.prefixLoop (fuel + 1) (0, m) = some p) :
    Z.stepInstruction (fuel + 1) m = some p := by
  have hstop : (isBlock m.memory (Z.pc m) && Z.pc p.2 == Z.pc m) = false := by
    rw [h]
    rfl
  unfold stepInstruction
  dsimp only
  rw [doWhile, hp, Option.bind_some, if_neg (by rw [hstop]; exact Bool.false_ne_true)]

theorem EndsAt.pc (hZ : Z.FetchesPrefixes) (hB : Z.RepeatsBlocks) {m : Computer C}
    (h : Z.AtBlock m) (huntouched : Z.Untouched m) {n : Nat} (hn : Z.EndsAt m n) :
    Z.pc (Z.iteration^[n] m) = Z.pc m + 2 := by
  obtain ⟨n, rfl⟩ : ∃ k, n = k + 1 := ⟨n - 1, by have := hn.pos; omega⟩
  have hrepeating : Z.Repeating m n :=
    h.repeating hZ hB huntouched fun j hj hle => hn.first j hj (by omega)
  rw [h.pc_succ hZ hB huntouched hrepeating, if_pos hn.last]

/-- **A recognised block instruction** that leaves its own bytes alone is executed to its end. -/
theorem AtBlock.stepInstruction (hZ : Z.FetchesPrefixes) (hB : Z.RepeatsBlocks) {m : Computer C}
    (h : Z.AtBlock m) (huntouched : Z.Untouched m) (hin : isBlock m.memory (Z.pc m) = true) {n : Nat}
    (hn : Z.EndsAt m n) : ∃ fuel t, Z.stepInstruction fuel m = some (t, Z.iteration^[n] m) := by
  have hpc := hn.pc hZ hB h huntouched
  obtain ⟨n, rfl⟩ : ∃ k, n = k + 1 := ⟨n - 1, by have := hn.pos; omega⟩
  have hrepeating : ∀ k ≤ n, Z.Repeating m k := by
    intro k hk
    exact h.repeating hZ hB huntouched fun j hj hle => hn.first j hj (by omega)
  -- every round is one iteration, and PC leaves the instruction with the last one
  have hloop : doWhile (Z.prefixLoop (n + 2))
      (fun p => isBlock m.memory (Z.pc m) && Z.pc p.2 == Z.pc m) (n + 1) (0, m)
        = some (Z.iterationOnce^[n + 1] (0, m)) := by
    refine doWhile_iterate ?_ ?_ ?_
    · intro k hk
      have hblock := (h.iterate hZ (hrepeating k hk) (huntouched.intact (hrepeating k hk))).1
      rw [← iterate_iterationOnce (0, m)] at hblock
      rw [Function.iterate_succ_apply']
      exact hblock.prefixLoop hZ n
    · intro k hk
      rw [iterate_iterationOnce, hin, Bool.true_and, beq_iff_eq]
      exact hrepeating (k + 1) hk (k + 1) (Nat.succ_pos k) (Nat.le_refl _)
    · rw [iterate_iterationOnce, hpc, hin, Bool.true_and, beq_eq_false_iff_ne]
      exact add_two_ne (Z.pc m)
  refine ⟨n + 2, (Z.iterationOnce^[n + 1] (0, m)).1, ?_⟩
  have hresult := doWhile_mono (fun _ _ hp => hp) (Nat.le_succ (n + 1)) hloop
  rw [← iterate_iterationOnce (0, m) (n + 1)]
  exact hresult

/-! ## Overwritten block instructions -/

theorem prefixLoop_snd (fuel : Nat) (p : Int × Computer C) :
    (Z.prefixLoop fuel p).map Prod.snd = Z.instruction fuel p.2 := by
  unfold prefixLoop instruction
  refine doWhile_map (g := Prod.snd) ?_ ?_ fuel p
  · exact fun _ => rfl
  · exact fun _ => rfl

/-- A recognised block instruction that overwrites itself returns as what it is overwritten with
    does: the loop runs on what it knew of the bytes at its start. -/
theorem AtBlock.returns_iff_leaves (hZ : Z.FetchesPrefixes) {m : Computer C} (h : Z.AtBlock m)
    (hin : isBlock m.memory (Z.pc m) = true) {k : Nat} (hk : Z.Overwrites m k) :
    Z.Returns m ↔ Z.Leaves (Z.pc m) (Z.iteration^[k] m) := by
  have htimes : ∀ fuel, times (Z.prefixLoop (fuel + 2)) k (0, m)
      = some (Z.iterationOnce^[k] (0, m)) :=
    h.times_prefixLoop hZ (fun j hj => hk.repeating.mono hj.le) hk.intact
  have hstays : ∀ j ≤ k, Z.pc (Z.iteration^[j] m) = Z.pc m := by
    intro j hj
    rcases Nat.eq_zero_or_pos j with rfl | hpos
    · rfl
    · exact hk.repeating j hpos hj
  constructor
  · rintro ⟨fuel, r, hr⟩
    replace hr := Z.stepInstruction_mono (Nat.le_add_right fuel 2) hr
    obtain ⟨n, hn⟩ := times_of_doWhile hr
    have hstop := (doWhile_inv (Q := fun _ => True) (fun _ _ _ => trivial) hr).2
    have hleft : Z.pc r.2 ≠ Z.pc m := by
      rw [hin, Bool.true_and, beq_eq_false_iff_ne] at hstop
      exact hstop
    -- PC has not left it with the iterations up to `k`
    have hlate : k < n := by
      by_contra hearly
      have hsame := h.times_prefixLoop hZ (k := n)
        (fun j hj => hk.repeating.mono (by omega)) (fun j hj => hk.intact j (by omega)) fuel
      rw [hn] at hsame
      apply hleft
      rw [Option.some.inj hsame, iterate_iterationOnce]
      exact hstays n (by omega)
    obtain ⟨d, rfl⟩ : ∃ d, n = k + d := ⟨n - k, by omega⟩
    rw [times_add, htimes, Option.bind_some] at hn
    have hrest := times_map (prefixLoop_snd (Z := Z) (fuel + 2)) d (Z.iterationOnce^[k] (0, m))
    rw [hn, iterate_iterationOnce] at hrest
    exact ⟨fuel + 2, d, r.2, hrest.symm, hleft⟩
  · rintro ⟨fuel, n, q, hq, hleft⟩
    have hmore : times (Z.instruction (fuel + 2)) n (Z.iteration^[k] m) = some q :=
      times_mono (fun _ _ h => doWhile_mono (fun _ _ h => h) (Nat.le_add_right fuel 2) h) hq
    have hrest := times_map (prefixLoop_snd (Z := Z) (fuel + 2)) n (Z.iterationOnce^[k] (0, m))
    rw [iterate_iterationOnce, hmore] at hrest
    obtain ⟨r, hr, rfl⟩ := Option.map_eq_some_iff.mp hrest
    have hall : times (Z.prefixLoop (fuel + 2)) (k + n) (0, m) = some r := by
      rw [times_add, htimes, Option.bind_some, hr]
    have hstop : (isBlock m.memory (Z.pc m) && Z.pc r.2 == Z.pc m) = false := by
      rw [hin, Bool.true_and, beq_eq_false_iff_ne]
      exact hleft
    obtain ⟨d, hd⟩ : ∃ d, k + n = d + 1 := by
      rcases Nat.eq_zero_or_pos (k + n) with hzero | hpos
      · rw [hzero] at hall
        obtain rfl := Option.some.inj hall
        exact absurd rfl hleft
      · exact ⟨k + n - 1, by omega⟩
    rw [hd] at hall
    have hresult : ∃ t, doWhile (Z.prefixLoop (fuel + 2))
        (fun p => isBlock m.memory (Z.pc m) && Z.pc p.2 == Z.pc m) (d + 1) (0, m) = some t :=
      doWhile_of_times hall hstop
    obtain ⟨t, ht⟩ := hresult
    -- the inner loop and the outer one get the same fuel
    refine ⟨fuel + 2 + (d + 1), t, ?_⟩
    refine doWhile_mono (fun _ _ hp => ?_) (Nat.le_add_left (d + 1) (fuel + 2)) ht
    exact doWhile_mono (fun _ _ hp => hp) (Nat.le_add_right (fuel + 2) (d + 1)) hp

/-! ## The results -/

/-- **When the call returns.**  Somewhere in memory there must be a byte that is neither DD nor FD,
    or the prefixes never end.  And a recognised block instruction must leave its own bytes alone
    while it is repeated, or overwrite them with code that in the end leaves the address. -/
theorem stepInstruction_returns_iff (hZ : Z.FetchesPrefixes) (hB : Z.RepeatsBlocks)
    {m : Computer C} (hlast : Z.lastOpType m.cpu = 0) :
    Z.Returns m ↔ (∃ addr, m.memory addr ≠ 0xDD ∧ m.memory addr ≠ 0xFD) ∧
      (isBlock m.memory (Z.pc m) = true → ∀ k, Z.Overwrites m k →
        Z.Leaves (Z.pc m) (Z.iteration^[k] m)) := by
  constructor
  · intro hreturns
    refine ⟨?_, fun hin k hk => ?_⟩
    · by_contra hnone
      have hchain : ∀ addr, m.memory addr = 0xDD ∨ m.memory addr = 0xFD := by
        intro addr
        by_contra hboth
        rw [not_or] at hboth
        exact hnone ⟨addr, hboth⟩
      obtain ⟨fuel, p, hp⟩ := hreturns
      replace hp := Z.stepInstruction_mono (Nat.le_succ fuel) hp
      unfold stepInstruction at hp
      dsimp only at hp
      rw [doWhile, prefixLoop_chain hZ hlast hchain] at hp
      cases hp
    · exact ((atBlock_of_isBlock hlast hin).returns_iff_leaves hZ hin hk).mp hreturns
  · rintro ⟨⟨addr, haddr⟩, hleaves⟩
    cases hin : isBlock m.memory (Z.pc m) with
    | true =>
      have hblock := atBlock_of_isBlock hlast hin
      by_cases huntouched : Z.Untouched m
      · obtain ⟨n, -, hn⟩ := hblock.ends hZ hB huntouched
        obtain ⟨fuel, t, ht⟩ := hblock.stepInstruction hZ hB huntouched hin hn
        exact ⟨fuel, _, ht⟩
      · obtain ⟨k, hk⟩ := overwrites_of_not_untouched huntouched
        exact (hblock.returns_iff_leaves hZ hin hk).mpr (hleaves hin k hk)
    | false =>
      have hahead : Z.pc m + UInt16.ofNat (addr - Z.pc m).toNat = addr := by
        rw [UInt16.ofNat_toNat]
        grind
      obtain ⟨fuel, p, hp⟩ := prefixLoop_ends hZ (addr - Z.pc m).toNat (p := (0, m))
        (by rw [hahead]; exact haddr)
      have hmore := doWhile_mono (fun _ _ hp => hp) (Nat.le_succ fuel) hp
      exact ⟨fuel + 1, p, stepInstruction_once hin hmore⟩

/-- **When a block instruction is one step.**  One that leaves its own bytes alone has an end, after
    65536 iterations at most, and the call executes it up to there, unless it is at address FFFF,
    with its second byte at 0, and its first iteration is not the last. -/
theorem block_atomic_iff (hZ : Z.FetchesPrefixes) (hB : Z.RepeatsBlocks) {m : Computer C}
    (h : Z.AtBlock m) (huntouched : Z.Untouched m) :
    ∃ n ≤ 65536, Z.EndsAt m n ∧
      ((∃ fuel t, Z.stepInstruction fuel m = some (t, Z.iteration^[n] m) ∧
          Z.pc (Z.iteration^[n] m) = Z.pc m + 2) ↔
        (Z.pc m = 0xFFFF → Z.ended (m.memory (Z.pc m + 1)) (Z.iteration m).cpu = true)) := by
  obtain ⟨n, hle, hn⟩ := h.ends hZ hB huntouched
  have hpc := hn.pc hZ hB h huntouched
  refine ⟨n, hle, hn, ?_⟩
  by_cases hedge : Z.pc m = 0xFFFF
  · -- not recognised: one iteration and no more
    have hin : isBlock m.memory (Z.pc m) = false :=
      Bool.eq_false_iff.mpr fun hin => h.isBlock_iff.mp hin hedge
    have honce : Z.stepInstruction 2 m = some ((Z.iterationOnce (0, m)).1, Z.iteration m) :=
      stepInstruction_once hin (h.prefixLoop hZ (p := (0, m)) 0)
    constructor
    · rintro ⟨fuel, t, hresult, -⟩ _
      have hsame : Z.iteration m = Z.iteration^[n] m :=
        congrArg Prod.snd (Z.stepInstruction_unique honce hresult)
      have hrepeated := hB.repeated m h
      rw [hsame, hpc] at hrepeated
      rw [hsame]
      by_contra hgoes
      rw [if_neg hgoes] at hrepeated
      exact add_two_ne (Z.pc m) hrepeated
    · intro hfirst
      have hlast := hfirst hedge
      obtain rfl : n = 1 := by
        by_contra hmore
        have := hn.first 1 (Nat.le_refl 1) (by have := hn.pos; omega)
        rw [show Z.iteration^[1] m = Z.iteration m from rfl, hlast] at this
        cases this
      exact ⟨2, _, honce, hpc⟩
  · constructor
    · exact fun _ hsame => absurd hsame hedge
    · intro _
      obtain ⟨fuel, t, hresult⟩ := h.stepInstruction hZ hB huntouched (h.isBlock_iff.mpr hedge) hn
      exact ⟨fuel, t, hresult, hpc⟩

end Z80Cpu

/-! ## A CPU with block instructions and jumps -/

/-- A Z80 that executes the block instructions and `JP nn`; other opcodes do nothing. -/
structure Chip where
  pc : UInt16
  bc : UInt16
  de : UInt16
  hl : UInt16
  af : UInt16
  /-- The prefix that waits for its opcode, or 0. -/
  pending : UInt8

namespace Chip

def getReg (c : Chip) : Reg → UInt16
  | .regPC => c.pc
  | .regBC => c.bc
  | .regDE => c.de
  | .regHL => c.hl
  | .regAF => c.af
  | _ => 0

/-- The registers a block instruction counts and compares with, behind one iteration; the input of
    an IN is FF, and OUT goes nowhere. -/
def count (op read : UInt8) (c : Chip) : Chip :=
  { c with
    hl := if op &&& 8 == 0 then c.hl + 1 else c.hl - 1
    de := if op &&& 3 != 0 then c.de else if op &&& 8 == 0 then c.de + 1 else c.de - 1
    bc := if usesB op then c.bc - 0x100 else c.bc - 1
    af := if compares op then
        (c.af &&& 0xFFBF) ||| if (c.af >>> 8).toUInt8 == read then 0x40 else 0
      else c.af }

def done (op : UInt8) (c : Chip) : Bool :=
  if usesB op then (c.bc >>> 8).toUInt8 == 0
  else c.bc == 0 || (compares op && c.af &&& 0x40 != 0)

def store (op : UInt8) (m : Computer Chip) : Memory :=
  if op &&& 3 == 0 then fun a => if a = m.cpu.de then m.memory m.cpu.hl else m.memory a
  else if op &&& 3 == 2 then fun a => if a = m.cpu.hl then 0xFF else m.memory a
  else m.memory

/-- The opcode of a block instruction, behind its prefix. -/
def block (op : UInt8) (m : Computer Chip) : Computer Chip :=
  let c := m.cpu.count op (m.memory m.cpu.hl)
  { cpu := { c with pc := if c.done op then c.pc + 1 else c.pc - 1, pending := 0 }
    memory := store op m }

def step (m : Computer Chip) : Int × Computer Chip :=
  let c := m.cpu
  let op := m.memory c.pc
  if mayPrefix c.pending op then
    (4, { m with cpu := { c with pc := c.pc + 1, pending := op } })
  else if c.pending == 0xED && blockOpcode op then (12, block op m)
  else if c.pending == 0 && op == 0xC3 then
    let target := (m.memory (c.pc + 1)).toUInt16 + 256 * (m.memory (c.pc + 2)).toUInt16
    (10, { m with cpu := { c with pc := target } })
  else (4, { m with cpu := { c with pc := c.pc + 1, pending := 0 } })

def machine : Z80Cpu Chip := ⟨getReg, step, pending⟩

theorem step_prefixed {m : Computer Chip}
    (h : mayPrefix m.cpu.pending (m.memory m.cpu.pc) = true) :
    step m = (4, { m with cpu :=
      { m.cpu with pc := m.cpu.pc + 1, pending := m.memory m.cpu.pc } }) :=
  if_pos h

theorem machine_fetchesPrefixes : machine.FetchesPrefixes := by
  constructor
  · intro m
    cases hmay : mayPrefix m.cpu.pending (m.memory m.cpu.pc) with
    | true =>
      refine Or.inr ⟨hmay, ?_⟩
      show (step m).2.cpu.pending = _ ∧ (step m).2.cpu.pc = _ ∧ (step m).2.memory = _
      rw [step_prefixed hmay]
      exact ⟨rfl, rfl, rfl⟩
    | false =>
      apply Or.inl
      show (step m).2.cpu.pending = 0
      unfold step
      dsimp only
      rw [if_neg (by rw [hmay]; exact Bool.false_ne_true)]
      split
      · rfl
      · split
        · rename_i hjump
          exact beq_iff_eq.mp (Bool.and_eq_true_iff.mp hjump).1
        · rfl
  · intro m hmust
    obtain ⟨hmay, hkind⟩ := Bool.and_eq_true_iff.mp hmust
    show (step m).2.cpu.pending ≠ 0
    rw [step_prefixed hmay]
    show m.memory (machine.pc m) ≠ 0
    rcases Z80Cpu.of_mayPrefix hmay with (h | h) | (h | h) <;> rw [h] <;> decide

/-- An iteration is the prefix, and then `block`. -/
theorem iteration_eq {m : Computer Chip} (h : machine.AtBlock m) :
    machine.iteration m = block (m.memory (m.cpu.pc + 1))
      { m with cpu := { m.cpu with pc := m.cpu.pc + 1, pending := 0xED } } := by
  have hfirst : m.memory m.cpu.pc = 0xED := h.first
  have hmay : mayPrefix m.cpu.pending (m.memory m.cpu.pc) = true := by
    rw [show m.cpu.pending = 0 from h.complete, hfirst]
    rfl
  show (step (step m).2).2 = _
  rw [step_prefixed hmay, hfirst]
  have hno : ∀ op, mayPrefix 0xED op = false := fun op => rfl
  have hblock : ((0xED : UInt8) == 0xED && blockOpcode (m.memory (m.cpu.pc + 1))) = true := by
    rw [show blockOpcode (m.memory (m.cpu.pc + 1)) = true from h.second]
    rfl
  unfold step
  dsimp only
  rw [hno, if_neg Bool.false_ne_true, if_pos hblock]

/-- The high byte counts. -/
theorem high_sub (x : UInt16) : ((x - 0x100) >>> 8).toUInt8 = (x >>> 8).toUInt8 - 1 := by
  have hx := x.toNat_lt
  rw [← UInt8.toNat_inj, UInt16.toNat_toUInt8, UInt16.toNat_shiftRight, UInt16.toNat_sub,
    UInt8.toNat_sub, UInt16.toNat_toUInt8, UInt16.toNat_shiftRight]
  show ((65536 - 256 + x.toNat) % 65536) >>> 8 % 256 = (256 - 1 + x.toNat >>> 8 % 256) % 256
  rw [Nat.shiftRight_eq_div_pow, Nat.shiftRight_eq_div_pow]
  omega

/-- The end condition is that of the Z80. -/
theorem ended_block (op : UInt8) (m : Computer Chip) :
    machine.ended op (block op m).cpu = (m.cpu.count op (m.memory m.cpu.hl)).done op :=
  rfl

theorem pc_block (op : UInt8) (m : Computer Chip) : machine.pc (block op m) =
    if machine.ended op (block op m).cpu then m.cpu.pc + 1 else m.cpu.pc - 1 := by
  rw [ended_block]
  rfl

theorem machine_repeatsBlocks : machine.RepeatsBlocks := by
  constructor
  · intro m h
    rw [iteration_eq h]
    show if usesB (m.memory (m.cpu.pc + 1)) = true then _ else _
    split <;> rename_i hop
    · show ((if usesB (m.memory (m.cpu.pc + 1)) = true then m.cpu.bc - 0x100
        else m.cpu.bc - 1) >>> 8).toUInt8 = (m.cpu.bc >>> 8).toUInt8 - 1
      rw [if_pos hop]
      exact high_sub m.cpu.bc
    · show (if usesB (m.memory (m.cpu.pc + 1)) = true then m.cpu.bc - 0x100
        else m.cpu.bc - 1) = m.cpu.bc - 1
      rw [if_neg hop]
  · intro m h
    rw [iteration_eq h, pc_block]
    show (if _ then m.cpu.pc + 1 + 1 else m.cpu.pc + 1 - 1) = if _ then m.cpu.pc + 2 else m.cpu.pc
    rw [show m.cpu.pc + 1 + 1 = m.cpu.pc + 2 by grind, show m.cpu.pc + 1 - 1 = m.cpu.pc by grind]
    rfl

/-- `LDIR` at `pc` copies `bc` bytes from 0x2000 to `de`. -/
def ldir (pc bc de : UInt16) : Computer Chip where
  cpu := { pc := pc, bc := bc, de := de, hl := 0x2000, af := 0, pending := 0 }
  memory a := if a = pc then 0xED else if a = pc + 1 then 0xB0
    else if a = 0x10B2 then 0x10 else if a = 0x2000 then 0xC3 else 0

/-- Copying two bytes to 0x3000 leaves the instruction alone, at the end of the memory also. -/
theorem untouched_ldir {pc : UInt16} (hpc : pc = 0x0100 ∨ pc = 0xFFFF) :
    machine.Untouched (ldir pc 2 0x3000) := by
  intro k hk
  have hsecond : ¬ 2 ≤ k := by
    intro hle
    have := hk 2 (by omega) hle
    rcases hpc with rfl | rfl <;> exact absurd this (by decide +kernel)
  obtain rfl | rfl : k = 0 ∨ k = 1 := by omega
  · exact ⟨rfl, rfl⟩
  · rcases hpc with rfl | rfl <;> exact ⟨by decide +kernel, by decide +kernel⟩

theorem atBlock_ldir : machine.AtBlock (ldir 0x0100 2 0x3000) :=
  ⟨by decide +kernel, by decide +kernel, by decide +kernel⟩

theorem atBlock_ldir_edge : machine.AtBlock (ldir 0xFFFF 2 0x3000) :=
  ⟨by decide +kernel, by decide +kernel, by decide +kernel⟩

/-- At 0x10B0 stands a jump to 0x10B0. -/
structure Jumping (m : Computer Chip) : Prop where
  pending : m.cpu.pending = 0
  pc : m.cpu.pc = 0x10B0
  bytes : m.memory 0x10B0 = 0xC3 ∧ m.memory 0x10B1 = 0xB0 ∧ m.memory 0x10B2 = 0x10

theorem Jumping.step_eq {m : Computer Chip} (h : Jumping m) : step m = (10, m) := by
  obtain ⟨hop, hlow, hhigh⟩ := h.bytes
  have hcpu : ({ m.cpu with pc := 0x10B0, pending := 0 } : Chip) = m.cpu := by
    rw [← h.pc, ← h.pending]
  unfold step
  dsimp only
  rw [h.pending, h.pc, hop, if_neg (by decide), if_neg (by decide), if_pos (by decide)]
  show ((10 : Int), ({ m with cpu := { m.cpu with
    pc := (m.memory 0x10B1).toUInt16 + 256 * (m.memory 0x10B2).toUInt16
    pending := 0 } } : Computer Chip)) = _
  rw [hlow, hhigh, show (0xB0 : UInt8).toUInt16 + 256 * (0x10 : UInt8).toUInt16 = 0x10B0 by decide,
    hcpu]

theorem Jumping.times_instruction {m : Computer Chip} (h : Jumping m) (fuel n : Nat)
    {q : Computer Chip} (hq : Loop.times (machine.instruction fuel) n m = some q) : q = m := by
  induction n with
  | zero => exact (Option.some.inj hq).symm
  | succ n ih =>
    obtain ⟨u, hu, hrest⟩ := Option.bind_eq_some_iff.mp hq
    have hsame : u = m := by
      cases fuel with
      | zero => cases hu
      | succ fuel =>
        have hstep : machine.step m = (10, m) := h.step_eq
        have hstop : (machine.lastOpType m.cpu != 0) = false := by
          rw [show machine.lastOpType m.cpu = 0 from h.pending]
          rfl
        rw [Z80Cpu.instruction, Loop.doWhile, Option.bind_some, hstep,
          if_neg (by rw [hstop]; exact Bool.false_ne_true)] at hu
        exact (Option.some.inj hu).symm
    rw [hsame] at hrest
    exact ih hrest

/-- **A copy onto itself never returns**: the first byte makes the instruction a jump to its own
    address, with one more byte to go. -/
theorem copy_onto_itself_never_returns :
    machine.FetchesPrefixes ∧ machine.RepeatsBlocks ∧
      machine.lastOpType (ldir 0x10B0 2 0x10B0).cpu = 0 ∧
      ¬ machine.Returns (ldir 0x10B0 2 0x10B0) := by
  refine ⟨machine_fetchesPrefixes, machine_repeatsBlocks, rfl, ?_⟩
  have hblock : machine.AtBlock (ldir 0x10B0 2 0x10B0) :=
    ⟨by decide +kernel, by decide +kernel, by decide +kernel⟩
  have hover : machine.Overwrites (ldir 0x10B0 2 0x10B0) 1 := by
    refine ⟨fun j hj hle => ?_, fun j hj => ?_, fun h => absurd h.1 (by decide +kernel)⟩
    · obtain rfl : j = 1 := by omega
      decide +kernel
    · obtain rfl : j = 0 := by omega
      exact ⟨rfl, rfl⟩
  have hjumping : Jumping (machine.iteration^[1] (ldir 0x10B0 2 0x10B0)) :=
    ⟨by decide +kernel, by decide +kernel, by decide +kernel⟩
  rw [hblock.returns_iff_leaves machine_fetchesPrefixes (by decide +kernel) hover]
  rintro ⟨fuel, n, q, hq, hleft⟩
  apply hleft
  rw [hjumping.times_instruction fuel n hq]
  decide +kernel

/-- The copy to another place returns. -/
theorem copy_returns : machine.Returns (ldir 0x0100 2 0x3000) := by
  refine (Z80Cpu.stepInstruction_returns_iff machine_fetchesPrefixes machine_repeatsBlocks rfl).mpr
    ⟨⟨0, by decide +kernel⟩, fun _ k hk => ?_⟩
  exact absurd (untouched_ldir (Or.inl rfl) k hk.repeating) hk.overwritten

/-- **At the end of the memory it takes two steps.** -/
theorem copy_not_atomic :
    machine.FetchesPrefixes ∧ machine.RepeatsBlocks ∧ machine.AtBlock (ldir 0xFFFF 2 0x3000) ∧
      machine.Untouched (ldir 0xFFFF 2 0x3000) ∧ machine.EndsAt (ldir 0xFFFF 2 0x3000) 2 ∧
      ∀ fuel p, machine.stepInstruction fuel (ldir 0xFFFF 2 0x3000) = some p →
        machine.pc p.2 ≠ 0xFFFF + 2 ∧ p.2 ≠ machine.iteration^[2] (ldir 0xFFFF 2 0x3000) := by
  refine ⟨machine_fetchesPrefixes, machine_repeatsBlocks, atBlock_ldir_edge,
    untouched_ldir (Or.inr rfl), ⟨by omega, by decide +kernel, fun j hj hlt => ?_⟩, ?_⟩
  · obtain rfl : j = 1 := by omega
    decide +kernel
  · intro fuel p hp
    have honce : machine.stepInstruction 2 (ldir 0xFFFF 2 0x3000) =
        some (machine.iterationOnce (0, ldir 0xFFFF 2 0x3000)) :=
      Z80Cpu.stepInstruction_once (by decide +kernel)
        (atBlock_ldir_edge.prefixLoop machine_fetchesPrefixes (p := (0, _)) 0)
    obtain rfl := machine.stepInstruction_unique honce hp
    have hpc : machine.pc (machine.iterationOnce (0, ldir 0xFFFF 2 0x3000)).2 = 0xFFFF := by
      decide +kernel
    refine ⟨?_, fun hsame => ?_⟩
    · rw [hpc]
      decide
    · rw [hsame] at hpc
      exact absurd hpc (by decide +kernel)

/-- At an ordinary address it is one step. -/
theorem copy_atomic : ∃ n ≤ 65536, machine.EndsAt (ldir 0x0100 2 0x3000) n ∧
    ∃ fuel t, machine.stepInstruction fuel (ldir 0x0100 2 0x3000)
        = some (t, machine.iteration^[n] (ldir 0x0100 2 0x3000)) ∧
      machine.pc (machine.iteration^[n] (ldir 0x0100 2 0x3000)) = 0x0102 := by
  obtain ⟨n, hle, hn, hiff⟩ := Z80Cpu.block_atomic_iff machine_fetchesPrefixes
    machine_repeatsBlocks atBlock_ldir (untouched_ldir (Or.inl rfl))
  exact ⟨n, hle, hn, hiff.mpr fun hedge => absurd hedge (by decide +kernel)⟩

end Chip

end Udap
