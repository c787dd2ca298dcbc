/-
  THE Z80 AS THE DEBUGGER USES IT.

  `dbg` reaches the emulated computer through a handful of operations: the registers PC and SP of
  the z80ex context, the 64 KB behind the memory callbacks, and `step_instruction`, which executes
  one complete instruction.  A `Machine M` is that interface over any representation `M` of the
  CPU and its memory; everything above it (the emulation loop, step over, step out) is a program
  over these operations, and is verified for every machine.

  What decodes instructions without executing them, `z80ex_dasm`, is a `Decoder` over the memory.
-/
import Udap.Cxx.Text

namespace Udap

/-- The 65536 bytes of `memory_`. -/
abbrev Memory := UInt16 → UInt8

/-- `memory_.size()`. -/
def memorySize : Nat := 0x10000

/-- `z80ex_dasm` for the instruction at an address: its length, its text, and its T-states (`t1`).
    It reads the memory through `dasm_readbyte_cb`. -/
structure Decoder where
  length : Memory → UInt16 → Int
  text : Memory → UInt16 → Str
  tstates : Memory → UInt16 → Int

/-- The operations of the emulated computer that `dbg` and `z80_target` call. -/
structure Machine (M : Type) where
  /-- `z80ex_get_reg(cpu_, regPC)`. -/
  pc : M → UInt16
  /-- `z80ex_get_reg(cpu_, regSP)`. -/
  sp : M → UInt16
  /-- `memory_[addr]`; every 16-bit address is inside the 65536 bytes. -/
  peek : M → UInt16 → UInt8
  /-- `dbg::step_instruction`: one complete instruction, prefixes and block repetitions included. -/
  stepInstruction : M → M

end Udap
