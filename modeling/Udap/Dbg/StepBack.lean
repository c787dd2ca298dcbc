/-
  STEP BACK — the history of `dbg` takes back the latest step, whatever came between.

  `step`, `step_in` and `step_out` put a snapshot of the registers and of all the memory on
  `history_` before they execute anything; `step_back` restores the snapshot at the back of it.
  The history is bounded: in front of the 1000 latest snapshots the oldest is dropped.

  1. **Program** — the registers (`Reg`, `kAllRegs`), `pushHistory` and `popHistory` over a CPU
     whose registers can be read and set, and the commands that step.

  2. **System** — the commands of the main thread next to the emulation thread of `continue`, in
     any order: `act` is one action, and a run is a list of them.

  3. **What step back is for** — a log of the steps not undone (`Undo.Log`), kept along the run
     by `logAfter`.  The history is the records of that log (`exec_keeps`), and so a step back
     restores what the latest step not undone began with (`step_back_restores`).
-/
import Udap.Lib.Undo
import Udap.Dbg.Emulation
import Udap.Dbg.StepOver

set_option linter.unusedVariables false

namespace Udap

open Udap.Run Udap.Undo

/-! ## The CPU and its registers -/

/-- `Z80_REG_T`. -/
inductive Reg where
  | regAF | regBC | regDE | regHL | regAF' | regBC' | regDE' | regHL'
  | regIX | regIY | regPC | regSP | regI | regR | regR7 | regIM | regIFF1 | regIFF2
  deriving DecidableEq

open Reg in
/-- `kAllRegs`. -/
def kAllRegs : List Reg :=
  [regAF, regBC, regDE, regHL, regAF', regBC', regDE', regHL',
   regIX, regIY, regPC, regSP, regI, regR, regR7, regIM, regIFF1, regIFF2]

/-- The table has every register, each once. -/
theorem mem_kAllRegs (r : Reg) : r ∈ kAllRegs := by cases r <;> decide

/-- The `z80ex` context as `dbg` uses it. -/
structure Z80ex (C : Type) where
  /-- `z80ex_get_reg`. -/
  getReg : C → Reg → UInt16
  /-- `z80ex_set_reg`. -/
  setReg : Reg → UInt16 → C → C
  /-- `dbg::step_instruction`, which reads and writes the memory through the callbacks. -/
  stepInstruction : C → Memory → C × Memory

/-- The CPU and its memory. -/
structure Computer (C : Type) where
  cpu : C
  memory : Memory

namespace Z80ex

variable {C : Type}

/-- What was read from a register can be set and is read back, and no other register is touched. -/
structure Lawful (Z : Z80ex C) : Prop where
  get_set : ∀ (saved c : C) (r : Reg), Z.getReg (Z.setReg r (Z.getReg saved r) c) r = Z.getReg saved r
  get_set_of_ne : ∀ (c : C) (v : UInt16) (r r' : Reg), r' ≠ r →
    Z.getReg (Z.setReg r v c) r' = Z.getReg c r'

variable (Z : Z80ex C)

/-- The computer as the machine of the stepping commands. -/
def machine : Machine (Computer C) where
  pc m := Z.getReg m.cpu .regPC
  sp m := Z.getReg m.cpu .regSP
  peek m addr := m.memory addr
  stepInstruction m :=
    let (cpu, memory) := Z.stepInstruction m.cpu m.memory
    { cpu, memory }

end Z80ex

/-! ## Step in and step out -/

namespace Machine

variable {M : Type} (Z : Machine M)

/-- A loop that executes instructions until one of them, from `m` to `m'`, meets `stop m m'`. -/
def runUntil (stop : M → M → Bool) : Nat → M → M
  | 0, m => m
  | budget + 1, m =>
    let m' := Z.stepInstruction m
    if stop m m' then m' else runUntil stop budget m'

/-- The test of `step_in` in C: another line of C, or a call into assembly. -/
def enteredLine (s : Symbols) (start : SourceLocation) (m m' : M) : Bool :=
  otherLine start (s.lookupSource (Z.pc m')) ||
    ((s.lookupSource (Z.pc m')).isNone &&
      (decide (asInt16 (Z.sp m') - asInt16 (Z.sp m) = -2) && isCall (Z.peek m (Z.pc m))) &&
      (s.lookupSourceAny (Z.pc m')).isSome)

/-- `z80_target::step_in` without its record. -/
def stepIn (s : Symbols) (m : M) : M :=
  match s.lookupSourceAny (Z.pc m) with
  | some start =>
    if start.isAsm then
      Z.runUntil (fun _ m' => otherLine start (s.lookupSourceAny (Z.pc m'))) 10000 m
    -- without CDB data a C line is one instruction
    else if s.hasCdb then Z.runUntil (Z.enteredLine s start) 10000 m
    else Z.stepInstruction m
  | none => Z.stepInstruction m

/-- `z80_target::step_out` without its record. -/
def stepOut (m : M) : M :=
  let entrySp := asInt16 (Z.sp m)
  -- as signed numbers, so that 7FFE is above 8000
  Z.runUntil (fun _ m' => decide (asInt16 (Z.sp m') > entrySp)) 500000 m

end Machine

/-! ## The history -/

/-- `cpu_snapshot`: a value for each of `kAllRegs`, and the memory. -/
structure CpuSnapshot where
  regs : List UInt16
  regs_length : regs.length = kAllRegs.length
  memory : Memory

/-- `kMaxHistory`. -/
def kMaxHistory : Nat := 1000

namespace Z80ex

variable {C : Type} (Z : Z80ex C)

/-- The snapshot that `push_history` takes. -/
def snapshot (m : Computer C) : CpuSnapshot where
  regs := kAllRegs.map (Z.getReg m.cpu)
  regs_length := List.length_map _
  memory := m.memory

/-- What `pop_history` does with a snapshot. -/
def restore (s : CpuSnapshot) (m : Computer C) : Computer C where
  cpu := (kAllRegs.zip s.regs).foldl (fun cpu (r, v) => Z.setReg r v cpu) m.cpu
  memory := s.memory

variable {Z}

/-- Setting registers to what they held in `saved`, one after another. -/
theorem getReg_foldl (hZ : Z.Lawful) (saved : C) (r : Reg) : ∀ (regs : List Reg) (c : C),
    Z.getReg (regs.foldl (fun c q => Z.setReg q (Z.getReg saved q) c) c) r
      = if r ∈ regs then Z.getReg saved r else Z.getReg c r := by
  intro regs
  induction regs with
  | nil => exact fun c => rfl
  | cons q regs ih =>
    intro c
    rw [List.foldl_cons, ih]
    by_cases hq : r = q
    · subst hq
      rw [hZ.get_set saved c r, if_pos List.mem_cons_self, ite_self]
    · rw [hZ.get_set_of_ne c _ q r hq]
      simp [List.mem_cons, hq]

/-- **A restored snapshot** gives every register and every byte of memory back. -/
theorem restore_snapshot (hZ : Z.Lawful) (before m : Computer C) :
    (∀ r ∈ kAllRegs, Z.getReg (Z.restore (Z.snapshot before) m).cpu r = Z.getReg before.cpu r) ∧
      (Z.restore (Z.snapshot before) m).memory = before.memory := by
  refine ⟨fun r hr => ?_, rfl⟩
  unfold restore snapshot
  dsimp only
  rw [← List.map_prod_left_eq_zip, List.foldl_map, getReg_foldl hZ before.cpu, if_pos hr]

end Z80ex

/-! ## The system -/

/-- The debugger while a program is being stepped through: the emulation of `continue` with the
    computer it shares, and `history_`, the oldest snapshot first. -/
structure Debugger (C : Type) where
  emu : Emulation.Sys (Computer C)
  history : List CpuSnapshot

/-- The commands that step. -/
inductive Command where
  | step
  | stepIn
  | stepOut
  | stepBack
  deriving DecidableEq

namespace Debugger

variable {C : Type} (Z : Z80ex C) (s : Symbols) (bp : UInt16 → Bool)

def computer (d : Debugger C) : Computer C := d.emu.shared.machine

def setComputer (m : Computer C) (d : Debugger C) : Debugger C :=
  { d with emu := { d.emu with shared := { d.emu.shared with machine := m } } }

/-- `dbg::push_history`. -/
def pushHistory (d : Debugger C) : Debugger C :=
  { d with history := pushBounded kMaxHistory (Z.snapshot d.computer) d.history }

/-- `dbg::pop_history`. -/
def popHistory (d : Debugger C) : Debugger C :=
  match d.history.getLast? with
  | none => d
  | some snapshot =>
    { d.setComputer (Z.restore snapshot d.computer) with history := d.history.dropLast }

/-- The methods of `z80_target` behind the stepping requests. -/
def run (c : Command) (d : Debugger C) : Debugger C :=
  match c with
  | .step => (d.pushHistory Z).setComputer (Z.machine.step s d.computer).machine
  | .stepIn => (d.pushHistory Z).setComputer (Z.machine.stepIn s d.computer)
  | .stepOut => (d.pushHistory Z).setComputer (Z.machine.stepOut d.computer)
  | .stepBack => d.popHistory Z

/-- One action: the main thread, between two requests, takes a stepping command; or it goes on with
    `continue`, `pause` or `disconnect`, or an emulation thread takes its next step. -/
inductive Act where
  | command (c : Command)
  | emulation (a : Emulation.Act)
  deriving DecidableEq

def act (a : Act) (d : Debugger C) : Option (Debugger C) :=
  match a with
  | .command c => if d.emu.main = .idle then some (d.run Z s c) else none
  | .emulation a => (Emulation.step Z.machine bp a d.emu).map fun emu => { d with emu := emu }

/-! ## The log of the steps not undone -/

/-- What an action from `d` does to the log: a step is recorded with the computer it begins with,
    a step back takes the latest one away. -/
def track (a : Act) (d : Debugger C) (l : Log (Computer C) kMaxHistory) :
    Log (Computer C) kMaxHistory :=
  match a with
  | .command .stepBack => l.undo
  | .command _ => l.record d.computer
  | .emulation _ => l

/-- The log behind a run from `d`. -/
def logAfter : List Act → Debugger C → Log (Computer C) kMaxHistory → Log (Computer C) kMaxHistory
  | [], _, l => l
  | a :: as, d, l =>
    match act Z s bp a d with
    | none => l
    | some t => logAfter as t (track a d l)

variable {Z s bp}

/-- `continue` and `pause` are no steps. -/
theorem logAfter_emulation : ∀ (as : List Emulation.Act) (d : Debugger C)
    (l : Log (Computer C) kMaxHistory), logAfter Z s bp (as.map .emulation) d l = l := by
  intro as
  induction as with
  | nil => exact fun d l => rfl
  | cons a as ih =>
    intro d l
    rw [List.map_cons, logAfter]
    cases act Z s bp (.emulation a) d with
    | none => rfl
    | some t => exact ih t l

theorem logAfter_command {c : Command} {d : Debugger C} (hidle : d.emu.main = .idle) (as : List Act)
    (l : Log (Computer C) kMaxHistory) : logAfter Z s bp (.command c :: as) d l
      = logAfter Z s bp as (d.run Z s c) (track (.command c) d l) := by
  rw [logAfter, act, if_pos hidle]

/-- A command other than `step_back` records the computer and leaves the rest to the machine. -/
theorem run_history {c : Command} (hc : c ≠ .stepBack) (d : Debugger C) :
    (d.run Z s c).history = pushBounded kMaxHistory (Z.snapshot d.computer) d.history := by
  cases c with
  | step => rfl
  | stepIn => rfl
  | stepOut => rfl
  | stepBack => exact absurd rfl hc

theorem popHistory_history (d : Debugger C) : (d.popHistory Z).history = d.history.dropLast := by
  unfold popHistory
  cases hlast : d.history.getLast? with
  | none => rw [List.getLast?_eq_none_iff.mp hlast, List.dropLast_nil]
  | some snapshot => rfl

/-- **One action keeps the history true to the log.** -/
theorem act_keeps {a : Act} {d t : Debugger C} {l : Log (Computer C) kMaxHistory}
    (hd : Keeps Z.snapshot d.history l) (h : act Z s bp a d = some t) :
    Keeps Z.snapshot t.history (track a d l) := by
  cases a with
  | emulation a =>
    obtain ⟨emu, -, rfl⟩ := Option.map_eq_some_iff.mp h
    exact hd
  | command c =>
    have hrun : d.run Z s c = t := by
      rw [act] at h
      split at h
      · exact Option.some.inj h
      · cases h
    subst hrun
    by_cases hc : c = .stepBack
    · subst hc
      show Keeps Z.snapshot (d.popHistory Z).history l.undo
      rw [popHistory_history]
      exact hd.pop
    · have htrack : track (.command c) d l = l.record d.computer := by
        cases c with
        | stepBack => exact absurd rfl hc
        | step | stepIn | stepOut => rfl
      rw [htrack, run_history hc]
      exact hd.push (by decide) d.computer

/-- **And so does a run.** -/
theorem exec_keeps : ∀ (as : List Act) (d t : Debugger C) (l : Log (Computer C) kMaxHistory),
    Keeps Z.snapshot d.history l → exec (act Z s bp) as d = some t →
      Keeps Z.snapshot t.history (logAfter Z s bp as d l) := by
  intro as
  induction as with
  | nil =>
    intro d t l hd h
    obtain rfl : d = t := Option.some.inj h
    exact hd
  | cons a as ih =>
    intro d t l hd h
    obtain ⟨u, hu, hrun⟩ := exec_cons_eq_some.mp h
    rw [logAfter, hu]
    exact ih u t _ (act_keeps hd hu) hrun

/-- What is forgotten was beyond the latest `kMaxHistory` steps at some moment of the run. -/
theorem forgotten_logAfter : ∀ (as : List Act) (d : Debugger C) (l : Log (Computer C) kMaxHistory),
    (logAfter Z s bp as d l).forgotten = l.forgotten ∨
      ∃ pre post, as = pre ++ post ∧ (logAfter Z s bp pre d l).notUndone.length
        = (logAfter Z s bp as d l).forgotten + kMaxHistory := by
  intro as
  induction as with
  | nil => exact fun d l => Or.inl rfl
  | cons a as ih =>
    intro d l
    cases ht : act Z s bp a d with
    | none => exact Or.inl (by rw [logAfter, ht])
    | some t =>
      have hcons : ∀ bs, logAfter Z s bp (a :: bs) d l = logAfter Z s bp bs t (track a d l) := by
        intro bs
        rw [logAfter, ht]
      rw [hcons]
      rcases ih t (track a d l) with hsame | ⟨pre, post, hsplit, hpre⟩
      · rw [hsame]
        -- nothing is forgotten later: either nothing is forgotten here, or `a` is a step too many
        have hone : (track a d l).forgotten = l.forgotten ∨
            (track a d l).notUndone.length = (track a d l).forgotten + kMaxHistory := by
          have hrecord : (l.record d.computer).forgotten = l.forgotten ∨
              (l.record d.computer).notUndone.length
                = (l.record d.computer).forgotten + kMaxHistory := by
            rw [Log.forgotten_record]
            show _ ∨ l.notUndone.length + 1 = _
            omega
          cases a with
          | emulation _ => exact Or.inl rfl
          | command c =>
            cases c with
            | stepBack => exact Or.inl (Log.forgotten_undo l)
            | step | stepIn | stepOut => exact hrecord
        rcases hone with hone | hone
        · exact Or.inl hone
        · exact Or.inr ⟨[a], as, rfl, by rw [hcons]; exact hone⟩
      · exact Or.inr ⟨a :: pre, post, by rw [hsplit, List.cons_append], by rw [hcons]; exact hpre⟩

/-! ## The result -/

/-- **What a step back does, after any run.**  `log` holds the steps not undone, the latest first.
    With a record left, all of `kAllRegs` and the memory become what they were where the latest of
    these steps began; with none left nothing changes.  The history has the records of the latest
    steps, and only the oldest are without one: as many as were once beyond the `kMaxHistory`
    latest. -/
theorem step_back_restores (hZ : Z.Lawful) {as : List Act} {d t : Debugger C}
    (hfresh : d.history = []) (hrun : exec (act Z s bp) as d = some t) :
    let log := logAfter Z s bp as d .empty
    (t.history = [] → t.run Z s .stepBack = t) ∧
    (t.history ≠ [] → ∃ before older, log.notUndone = before :: older ∧
      (∀ r ∈ kAllRegs, Z.getReg (t.run Z s .stepBack).computer.cpu r = Z.getReg before.cpu r) ∧
      (t.run Z s .stepBack).computer.memory = before.memory) ∧
    t.history = ((log.notUndone.take t.history.length).map Z.snapshot).reverse ∧
    t.history.length + log.forgotten = log.notUndone.length ∧
    (log.forgotten = 0 ∨ ∃ pre post, as = pre ++ post ∧
      (logAfter Z s bp pre d .empty).notUndone.length = log.forgotten + kMaxHistory) := by
  intro log
  -- the history is what the bounded log remembers
  have hkeeps : Keeps Z.snapshot t.history log :=
    exec_keeps as d t .empty (by rw [hfresh]; exact keeps_empty) hrun
  have hlength : t.history.length + log.forgotten = log.notUndone.length := by
    rw [hkeeps.length]
    exact log.remembered_length
  have hrecords : t.history = ((log.notUndone.take t.history.length).map Z.snapshot).reverse := by
    rw [show t.history.length = log.notUndone.length - log.forgotten by omega]
    exact hkeeps
  refine ⟨?_, ?_, hrecords, hlength, forgotten_logAfter as d .empty⟩
  · intro hnone
    show t.popHistory Z = t
    rw [popHistory, hnone, List.getLast?_nil]
  · intro hsome
    have hlast : t.history.getLast? = log.remembered.head?.map Z.snapshot := hkeeps.getLast?
    cases hrem : log.remembered with
    | nil =>
      rw [hrem, List.head?_nil, Option.map_none, List.getLast?_eq_none_iff] at hlast
      exact absurd hlast hsome
    | cons before rest =>
      obtain ⟨lost, hlost⟩ := log.remembered_isPrefix
      rw [hrem, List.cons_append] at hlost
      rw [hrem, List.head?_cons, Option.map_some] at hlast
      have hback : (t.run Z s .stepBack).computer = Z.restore (Z.snapshot before) t.computer := by
        show (t.popHistory Z).computer = _
        rw [popHistory, hlast]
        rfl
      refine ⟨before, rest ++ lost, hlost.symm, ?_⟩
      rw [hback]
      exact Z80ex.restore_snapshot hZ before t.computer

/-! ### A program of stores -/

/-- A CPU of registers alone that knows one instruction, `LD (HL),A`. -/
def storeCpu : Z80ex (Reg → UInt16) where
  getReg c r := c r
  setReg r v c := fun q => if q = r then v else c q
  stepInstruction c memory :=
    (fun q => if q = .regPC then c .regPC + 1
      else if q = .regR then (c .regR &&& 0x80) ||| ((c .regR + 1) &&& 0x7F) else c q,
     fun addr => if addr = c .regHL then (c .regAF >>> 8).toUInt8 else memory addr)

theorem storeCpu_lawful : storeCpu.Lawful where
  get_set _ _ _ := if_pos rfl
  get_set_of_ne _ _ _ _ h := if_neg h

/-- At its entry: HL is `4000`, A is 1, and all the memory is `LD (HL),A`. -/
def storeProgram : Computer (Reg → UInt16) where
  cpu := fun r => if r = .regHL then 0x4000 else if r = .regAF then 0x0100 else 0
  memory := fun _ => 0x77

/-- `continue` up to a breakpoint at 2: its thread starts while the response is still to be written. -/
def continueToBreakpoint : List Emulation.Act :=
  [.call .resume, .main, .main, .main, .emu 0, .emu 0, .main, .emu 0, .emu 0, .emu 0, .emu 0]

/-- The step in writes to the memory and `continue` runs on; a step back takes it all back. -/
theorem step_back_undoes_store :
    ∃ t, exec (act storeCpu {} fun a => a == 2)
        (.command .stepIn :: continueToBreakpoint.map .emulation)
        ⟨Emulation.start storeProgram true, []⟩ = some t ∧
      t.emu.shared.wire = [.entry, .response .resume, .stopped 0 .breakpoint 1] ∧
      t.computer.memory 0x4000 = 1 ∧ storeCpu.getReg t.computer.cpu .regPC = 2 ∧
      (∀ r ∈ kAllRegs, storeCpu.getReg (t.run storeCpu {} .stepBack).computer.cpu r
        = storeCpu.getReg storeProgram.cpu r) ∧
      (t.run storeCpu {} .stepBack).computer.memory = storeProgram.memory := by
  have hend : (exec (act storeCpu {} fun a => a == 2)
      (.command .stepIn :: continueToBreakpoint.map .emulation)
      ⟨Emulation.start storeProgram true, []⟩).map (fun t => (t.emu.shared.wire,
        t.computer.memory 0x4000, storeCpu.getReg t.computer.cpu .regPC, t.history.length))
      = some ([.entry, .response .resume, .stopped 0 .breakpoint 1], 1, 2, 1) := by decide +kernel
  obtain ⟨t, hrun, ht⟩ := Option.map_eq_some_iff.mp hend
  simp only [Prod.mk.injEq] at ht
  obtain ⟨hwire, hmemory, hpc, hlength⟩ := ht
  refine ⟨t, hrun, hwire, hmemory, hpc, ?_⟩
  obtain ⟨-, hback, -⟩ := step_back_restores storeCpu_lawful rfl hrun
  obtain ⟨before, older, hlog, hrestored⟩ := hback (List.ne_nil_of_length_pos (by omega))
  rw [logAfter_command rfl, logAfter_emulation] at hlog
  obtain rfl : storeProgram = before := (List.cons.inj hlog).1
  exact hrestored

end Debugger

end Udap
