/-
  DISASSEMBLING AROUND AN ADDRESS — `z80_target::disassemble`.

  A view of the program shows some instructions in front of an address.  Code of variable length
  cannot be decoded backwards, so the method rewinds by four bytes an instruction, sweeps forward
  from there, and takes the instruction that is as far in front as was asked for.

  1. **Program** — with every `int` operation checked (`asInt`), every index checked, and the loop
     that sweeps run with fuel: a `Failure` says what goes wrong.

  2. **Return** — `disassemble_returns_iff`: when there is enough fuel for some result.  The sweep
     runs on a 16-bit position while its bound is an `int`, so close to the top of the memory it may
     wrap around and never end; and four times a large offset overflows.

  3. **Result** — `disassemble_entry`: which instructions the view shows.  The one at the index asked
     for is the first that the sweep starts at or behind the address.

  4. **Windows** — `disassemble_windows_iff`: views from the address on that are asked for one after
     another fit together, if the sum of the reference and the offset is an `int`.
-/
import Udap.Cxx.Hex
import Udap.Lib.Sweep
import Udap.Dap.Target
import Udap.Dbg.Machine
import Udap.Dbg.Sources

set_option linter.unusedVariables false

namespace Udap

open Udap.Cxx Udap.Dap Udap.Sweep

/-! ## The program -/

/-- Why a call does not return. -/
inductive Failure where
  /-- An `int` operation whose result is not an `int`. -/
  | overflow
  /-- An index outside of `addrs`. -/
  | outside
  /-- The fuel is used up. -/
  | running
  deriving DecidableEq

/-- The result of an operation on `int`. -/
def asInt (i : Int) : Except Failure Int := if InInt i then .ok i else .error .overflow

namespace Decoder

variable (d : Decoder) (mem : Memory)

/-- `(len > 0) ? len : 1`. -/
def instrLength (pos : UInt16) : Nat := if d.length mem pos > 0 then (d.length mem pos).toNat else 1

/-- `pos += static_cast<uint16_t>(len)`. -/
def next (pos : UInt16) : UInt16 := pos + UInt16.ofNat (d.instrLength mem pos)

/-- The test of the backward scan: `pos <= addr + 3 && pos < mem.size()`. -/
def scanning (addr pos : UInt16) : Bool :=
  decide (pos.toNat ≤ addr.toNat + 3) && decide (pos.toNat < memorySize)

/-- `target_idx`: the first of `addrs` that is at or behind `addr`, else the last. -/
def targetIdx (addr : UInt16) (addrs : List UInt16) : Int :=
  match addrs.findIdx? fun a => decide (addr ≤ a) with
  | some i => i
  | none => (addrs.length : Int) - 1

/-- `addrs[std::max(0, target_idx - backstep)]`. -/
def backwardTarget (addr : UInt16) (backstep : Int) (addrs : List UInt16) : Except Failure UInt16 := do
  let idx ← asInt (targetIdx addr addrs - backstep)
  match addrs[(max 0 idx).toNat]? with
  | some a => .ok a
  | none => .error .outside

/-- The backward scan: where `-instruction_offset` instructions in front of `addr` start. -/
def backwardStart (fuel : Nat) (addr : UInt16) (instructionOffset : Int) : Except Failure UInt16 := do
  let backstep ← asInt (-instructionOffset)
  -- no instruction is longer than four bytes
  let bytes ← asInt (backstep * 4)
  let rewind := min (addr.toNat : Int) bytes
  let scan := UInt16.ofInt ((addr.toNat : Int) - rewind)
  match sweep (d.next mem) (scanning addr) fuel scan with
  | some addrs => backwardTarget addr backstep addrs
  | none => .error .running

/-- The forward scan over `n` instructions. -/
def forwardStart : Nat → UInt16 → UInt16
  | 0, addr => addr
  | n + 1, addr => if addr.toNat < memorySize then forwardStart n (d.next mem addr) else addr

/-- Where the view starts. -/
def viewStart (fuel : Nat) (addr : UInt16) (instructionOffset : Int) : Except Failure UInt16 :=
  if instructionOffset < 0 then d.backwardStart mem fuel addr instructionOffset
  else .ok (d.forwardStart mem instructionOffset.toNat addr)

/-- The bytes of an instruction, up to the end of the memory. -/
def instrBytes (addr : UInt16) : Str :=
  let count := min (d.instrLength mem addr) (memorySize - addr.toNat)
  List.intercalate [32]
    ((List.range count).map fun j => hexPadded 2 (mem (addr + UInt16.ofNat j)).toNat)

/-- One `dap::disasm_info`. -/
def instrInfo (s : Symbols) (addr : UInt16) : DisasmInfo :=
  let loc := s.lookupSource addr
  { address := formatHex addr 4
    instructionBytes := d.instrBytes mem addr
    instruction := d.text mem addr
    symbol := s.lookupSymbolExact addr
    sourcePath := loc.map SourceLocation.file
    sourceLine := loc.map SourceLocation.line }

/-- The result loop, for `n` instructions. -/
def instrInfos (s : Symbols) : Nat → UInt16 → List DisasmInfo
  | 0, _ => []
  | n + 1, addr =>
    if addr.toNat < memorySize then d.instrInfo mem s addr :: instrInfos s n (d.next mem addr) else []

/-- `static_cast<uint16_t>((memory_reference + offset) & 0xFFFF)`. -/
def baseAddr (memoryReference offset : Int) : UInt16 := UInt16.ofInt (memoryReference + offset)

/-- `z80_target::disassemble`. -/
def disassemble (s : Symbols) (fuel : Nat)
    (memoryReference offset instructionOffset instructionCount : Int) :
    Except Failure (List DisasmInfo) := do
  -- the sum is an `int` before it is masked
  let _ ← asInt (memoryReference + offset)
  let addr ← d.viewStart mem fuel (baseAddr memoryReference offset) instructionOffset
  .ok (d.instrInfos mem s instructionCount.toNat addr)

/-- A Z80 instruction has one to four bytes. -/
structure Lawful : Prop where
  length_pos : ∀ mem pos, 1 ≤ d.length mem pos
  length_le : ∀ mem pos, d.length mem pos ≤ 4

variable {d mem}

/-! ## One instruction -/

/-- Every 16-bit address is inside the memory. -/
theorem inMemory (pos : UInt16) : pos.toNat < memorySize := pos.toNat_lt

variable (mem) in
theorem instrLength_bounds (hd : d.Lawful) (pos : UInt16) :
    1 ≤ d.instrLength mem pos ∧ d.instrLength mem pos ≤ 4 := by
  have hpos := hd.length_pos mem pos
  have hle := hd.length_le mem pos
  rw [instrLength, if_pos (by omega)]
  omega

/-- Away from the top of the memory an instruction ends one to four bytes further on. -/
theorem next_bounds (hd : d.Lawful) {pos : UInt16} (h : pos.toNat + 4 < memorySize) :
    pos.toNat < (d.next mem pos).toNat ∧ (d.next mem pos).toNat ≤ pos.toNat + 4 := by
  obtain ⟨hpos, hle⟩ := instrLength_bounds mem hd pos
  have hsum : (d.next mem pos).toNat = pos.toNat + d.instrLength mem pos := by
    rw [next, UInt16.toNat_add, UInt16.toNat_ofNat',
      Nat.mod_eq_of_lt (show d.instrLength mem pos < 2 ^ 16 by omega)]
    exact Nat.mod_eq_of_lt (by rw [memorySize] at h; omega)
  omega

/-! ## The backward scan -/

theorem scanning_eq_false {addr pos : UInt16} :
    scanning addr pos = false ↔ addr.toNat + 3 < pos.toNat := by
  rw [scanning, decide_eq_true (inMemory pos), Bool.and_true, decide_eq_false_iff_not, Nat.not_le]

variable (mem) in
/-- Below the top of the memory the scan ends wherever it starts. -/
theorem scan_ends (hd : d.Lawful) {addr : UInt16} (haddr : addr.toNat ≤ 0xFFF8) (scan : UInt16) :
    ∃ n, scanning addr ((d.next mem)^[n] scan) = false := by
  have hlow : ∀ pos, scanning addr pos = true → pos.toNat ≤ addr.toNat + 3 := by
    intro pos hpos
    by_contra hgt
    rw [scanning_eq_false.mpr (Nat.not_le.mp hgt)] at hpos
    exact Bool.false_ne_true hpos
  refine exists_of_rising UInt16.toNat memorySize ?_ ?_ scan
  · intro pos hpos
    have hle := hlow pos hpos
    exact (next_bounds hd (by rw [memorySize]; omega)).1
  · exact fun pos _ => inMemory pos

/-- At the top of the memory no 16-bit position is behind the bound, which is an `int`. -/
theorem scanning_top {addr : UInt16} (haddr : 0xFFFC ≤ addr.toNat) (pos : UInt16) :
    scanning addr pos = true := by
  refine Bool.eq_true_of_not_eq_false fun h => ?_
  have hgt := scanning_eq_false.mp h
  have hlt := pos.toNat_lt
  omega

/-- The position that the scan starts from: four bytes back an instruction, but not below 0. -/
def rewound (addr : UInt16) (instructionOffset : Int) : UInt16 :=
  UInt16.ofNat (addr.toNat - 4 * instructionOffset.natAbs)

theorem rewound_toNat (addr : UInt16) (instructionOffset : Int) :
    (rewound addr instructionOffset).toNat = addr.toNat - 4 * instructionOffset.natAbs := by
  have hlt := addr.toNat_lt
  rw [rewound, UInt16.toNat_ofNat', Nat.mod_eq_of_lt (by omega)]

/-- It is what the method computes. -/
theorem scan_eq_rewound (addr : UInt16) {instructionOffset : Int} (h : instructionOffset < 0) :
    UInt16.ofInt ((addr.toNat : Int) - min (addr.toNat : Int) (-instructionOffset * 4))
      = rewound addr instructionOffset := by
  have hnat : (addr.toNat : Int) - min (addr.toNat : Int) (-instructionOffset * 4)
      = ((addr.toNat - 4 * instructionOffset.natAbs : Nat) : Int) := by omega
  have hlt := addr.toNat_lt
  apply UInt16.toNat_inj.mp
  rw [hnat, rewound_toNat, UInt16.ofInt, UInt16.toNat_ofNat']
  omega

theorem asInt_eq_ok {i j : Int} : asInt i = .ok j ↔ InInt i ∧ j = i := by
  unfold asInt
  split
  · rename_i h
    exact ⟨fun heq => ⟨h, (Except.ok.inj heq).symm⟩, fun heq => by rw [heq.2]⟩
  · rename_i h
    exact ⟨fun heq => (by cases heq), fun heq => absurd heq.1 h⟩

/-- The positions of a scan that ends are distinct, so there are no more than addresses. -/
theorem scan_length {addr scan : UInt16} {fuel : Nat} {addrs : List UInt16}
    (h : sweep (d.next mem) (scanning addr) fuel scan = some addrs) : addrs.length ≤ memorySize := by
  have hnodup : (addrs.map UInt16.toFin).Nodup :=
    (sweep_nodup h).map fun a b hab => UInt16.toFin_inj.mp hab
  have hcard := hnodup.length_le_card
  rw [List.length_map, Fintype.card_fin] at hcard
  exact hcard

/-- **The index into `addrs`** is inside, and nothing on the way to it overflows. -/
theorem backwardTarget_ok (addr : UInt16) {backstep : Int} {addrs : List UInt16}
    (hne : addrs ≠ []) (hlength : addrs.length ≤ memorySize) (hpos : 0 < backstep)
    (hint : InInt backstep) :
    ∃ a, backwardTarget addr backstep addrs = .ok a ∧
      addrs[(targetIdx addr addrs - backstep).toNat]? = some a := by
  have hlt := List.length_pos_iff.mpr hne
  have hidx : 0 ≤ targetIdx addr addrs ∧ targetIdx addr addrs < addrs.length := by
    unfold targetIdx
    split
    · rename_i i hi
      have := (List.findIdx?_eq_some_iff_getElem.mp hi).1
      omega
    · omega
  rw [memorySize] at hlength
  obtain ⟨hlow, hhigh⟩ := hint
  have hin : InInt (targetIdx addr addrs - backstep) := ⟨by omega, by omega⟩
  have hget : (targetIdx addr addrs - backstep).toNat < addrs.length := by omega
  have hmax : (max 0 (targetIdx addr addrs - backstep)).toNat
      = (targetIdx addr addrs - backstep).toNat := by omega
  refine ⟨addrs[(targetIdx addr addrs - backstep).toNat], ?_, List.getElem?_eq_getElem hget⟩
  rw [backwardTarget, asInt_eq_ok.mpr ⟨hin, rfl⟩]
  dsimp only [bind, Except.bind]
  rw [hmax, List.getElem?_eq_getElem hget]

/-- The scan with enough fuel: it delivers the element of `addrs` that is as far in front of the
    first one at or behind `addr` as was asked for. -/
theorem backwardStart_of_sweep {addr : UInt16} {instructionOffset : Int} {fuel : Nat}
    {addrs : List UInt16} (hneg : instructionOffset < 0) (hlow : -536870911 ≤ instructionOffset)
    (hsweep : sweep (d.next mem) (scanning addr) fuel (rewound addr instructionOffset)
      = some addrs) :
    ∃ start, d.backwardStart mem fuel addr instructionOffset = .ok start ∧
      addrs[(targetIdx addr addrs + instructionOffset).toNat]? = some start := by
  have hback : InInt (-instructionOffset) := ⟨by omega, by omega⟩
  have hbytes : InInt (-instructionOffset * 4) := ⟨by omega, by omega⟩
  have hne : addrs ≠ [] := by
    rintro rfl
    obtain ⟨n, -, hnil, -, hstop⟩ := sweep_eq_some.mp hsweep
    obtain rfl : n = 0 := List.iterate_eq_nil.mp hnil.symm
    have hgt := scanning_eq_false.mp hstop
    rw [Function.iterate_zero_apply, rewound_toNat] at hgt
    omega
  obtain ⟨start, hstart, hget⟩ :=
    backwardTarget_ok addr hne (scan_length hsweep) (by omega) hback
  refine ⟨start, ?_, by rw [← hget, Int.sub_neg]⟩
  rw [backwardStart, asInt_eq_ok.mpr ⟨hback, rfl⟩]
  dsimp only [bind, Except.bind]
  rw [asInt_eq_ok.mpr ⟨hbytes, rfl⟩]
  dsimp only
  rw [scan_eq_rewound addr hneg, hsweep]
  exact hstart

/-! ## The method -/

theorem viewStart_of_neg {fuel : Nat} {addr : UInt16} {instructionOffset : Int}
    (hneg : instructionOffset < 0) : d.viewStart mem fuel addr instructionOffset
      = d.backwardStart mem fuel addr instructionOffset := if_pos hneg

/-- The result is the view from its start. -/
theorem disassemble_eq {s : Symbols} {fuel : Nat}
    {memoryReference offset instructionOffset : Int} (instructionCount : Int) {start : UInt16}
    (hsum : InInt (memoryReference + offset))
    (hstart : d.viewStart mem fuel (baseAddr memoryReference offset) instructionOffset = .ok start) :
    d.disassemble mem s fuel memoryReference offset instructionOffset instructionCount
      = .ok (d.instrInfos mem s instructionCount.toNat start) := by
  rw [disassemble, asInt_eq_ok.mpr ⟨hsum, rfl⟩]
  dsimp only [bind, Except.bind]
  rw [hstart]

theorem disassemble_ok_iff (s : Symbols)
    {memoryReference offset instructionOffset instructionCount : Int}
    (hsum : InInt (memoryReference + offset)) :
    (∃ fuel result, d.disassemble mem s fuel memoryReference offset instructionOffset
        instructionCount = .ok result) ↔
      ∃ fuel start,
        d.viewStart mem fuel (baseAddr memoryReference offset) instructionOffset = .ok start := by
  constructor
  · rintro ⟨fuel, result, h⟩
    rw [disassemble, asInt_eq_ok.mpr ⟨hsum, rfl⟩] at h
    dsimp only [bind, Except.bind] at h
    cases hstart : d.viewStart mem fuel (baseAddr memoryReference offset) instructionOffset with
    | error e =>
      rw [hstart] at h
      cases h
    | ok start => exact ⟨fuel, start, hstart⟩
  · rintro ⟨fuel, start, hstart⟩
    exact ⟨fuel, _, disassemble_eq instructionCount hsum hstart⟩

/-- **When the scan finds a start**: the offset can be negated and multiplied by four, and the
    sweep from the rewound address comes to a position behind the bound. -/
theorem backwardStart_ok_iff {addr : UInt16} {instructionOffset : Int}
    (hneg : instructionOffset < 0) :
    (∃ fuel start, d.backwardStart mem fuel addr instructionOffset = .ok start) ↔
      -536870911 ≤ instructionOffset ∧
        ∃ n, scanning addr ((d.next mem)^[n] (rewound addr instructionOffset)) = false := by
  constructor
  · rintro ⟨fuel, start, h⟩
    unfold backwardStart at h
    cases hback : asInt (-instructionOffset) with
    | error e =>
      rw [hback] at h
      cases h
    | ok backstep =>
      obtain ⟨hint, rfl⟩ := asInt_eq_ok.mp hback
      rw [hback] at h
      dsimp only [bind, Except.bind] at h
      cases hbytes : asInt (-instructionOffset * 4) with
      | error e =>
        rw [hbytes] at h
        cases h
      | ok bytes =>
        obtain ⟨⟨hlow, hhigh⟩, rfl⟩ := asInt_eq_ok.mp hbytes
        rw [hbytes] at h
        dsimp only at h
        rw [scan_eq_rewound addr hneg] at h
        cases hsweep : sweep (d.next mem) (scanning addr) fuel (rewound addr instructionOffset) with
        | none =>
          rw [hsweep] at h
          cases h
        | some addrs => exact ⟨by omega, exists_sweep_iff.mp ⟨fuel, addrs, hsweep⟩⟩
  · rintro ⟨hlow, hends⟩
    obtain ⟨fuel, addrs, hsweep⟩ := exists_sweep_iff.mpr hends
    obtain ⟨start, hstart, -⟩ := backwardStart_of_sweep hneg hlow hsweep
    exact ⟨fuel, start, hstart⟩

/-- **The method returns** if the offset is not negative, or if four times the offset is an `int`
    and the scan ends: always below `0xFFF9`, never from `0xFFFC` on, and in between if and only if
    the sweep, once around the top of the memory or not, comes to a start behind the bound. -/
theorem disassemble_returns_iff (hd : d.Lawful) (s : Symbols)
    {memoryReference offset instructionOffset instructionCount : Int}
    (hsum : InInt (memoryReference + offset)) :
    (∃ fuel result, d.disassemble mem s fuel memoryReference offset instructionOffset
        instructionCount = .ok result) ↔
      0 ≤ instructionOffset ∨ (-536870911 ≤ instructionOffset ∧
        ((baseAddr memoryReference offset).toNat ≤ 0xFFF8 ∨
          ((baseAddr memoryReference offset).toNat ≤ 0xFFFB ∧
            ∃ n, (baseAddr memoryReference offset).toNat + 3 < ((d.next mem)^[n]
              (rewound (baseAddr memoryReference offset) instructionOffset)).toNat))) := by
  rw [disassemble_ok_iff s hsum]
  rcases lt_or_ge instructionOffset 0 with hneg | hpos
  · simp only [viewStart_of_neg hneg]
    rw [backwardStart_ok_iff hneg, or_iff_right (by omega)]
    refine and_congr_right fun _ => ?_
    simp only [scanning_eq_false]
    constructor
    · rintro ⟨n, hn⟩
      have hlt := UInt16.toNat_lt
        ((d.next mem)^[n] (rewound (baseAddr memoryReference offset) instructionOffset))
      exact Or.inr ⟨by omega, n, hn⟩
    · rintro (hlow | ⟨-, hends⟩)
      · obtain ⟨n, hn⟩ := scan_ends mem hd hlow
          (rewound (baseAddr memoryReference offset) instructionOffset)
        exact ⟨n, scanning_eq_false.mp hn⟩
      · exact hends
  · exact ⟨fun _ => Or.inl hpos, fun _ => ⟨0, _, if_neg (by omega)⟩⟩

/-! ### A memory of NOPs -/

/-- The decoder on the instructions `NOP` and `LD BC,nn`. -/
def loadDecoder : Decoder where
  length mem pos := if mem pos = 0x01 then 3 else 1
  text mem pos := if mem pos = 0x01 then str "LD BC,#0x0101" else str "NOP"
  tstates mem pos := if mem pos = 0x01 then 10 else 4

theorem loadDecoder_lawful : loadDecoder.Lawful where
  length_pos mem pos := by
    unfold loadDecoder
    dsimp only
    split <;> decide
  length_le mem pos := by
    unfold loadDecoder
    dsimp only
    split <;> decide

/-- One instruction in front of address `0100`. -/
theorem disassemble_returns_below_top :
    ∃ fuel result, loadDecoder.disassemble (fun _ => 0) {} fuel 0x100 0 (-1) 10 = .ok result :=
  (disassemble_returns_iff loadDecoder_lawful {} (by decide)).mpr
    (Or.inr ⟨by decide, Or.inl (by decide)⟩)

/-- One instruction in front of address `FFFC`: the scan never ends. -/
theorem disassemble_runs_at_top :
    ¬ ∃ fuel result, loadDecoder.disassemble (fun _ => 0) {} fuel 0xFFFC 0 (-1) 10 = .ok result := by
  rw [disassemble_ok_iff {} (by decide)]
  simp only [viewStart_of_neg (show (-1 : Int) < 0 by decide)]
  rw [backwardStart_ok_iff (by decide)]
  rintro ⟨-, n, hn⟩
  rw [scanning_top (by decide)] at hn
  exact Bool.false_ne_true hn.symm

/-! ## The instructions that are shown -/

theorem instrInfos_length (s : Symbols) (n : Nat) (addr : UInt16) :
    (d.instrInfos mem s n addr).length = n := by
  induction n generalizing addr with
  | zero => rfl
  | succ n ih => rw [instrInfos, if_pos (inMemory addr), List.length_cons, ih]

/-- Entry `i` of the view is the instruction `i` starts behind its first. -/
theorem instrInfos_getElem? (s : Symbols) {n i : Nat} (hi : i < n) (addr : UInt16) :
    (d.instrInfos mem s n addr)[i]? = some (d.instrInfo mem s ((d.next mem)^[i] addr)) := by
  induction n generalizing i addr with
  | zero => exact absurd hi (Nat.not_lt_zero i)
  | succ n ih =>
    rw [instrInfos, if_pos (inMemory addr)]
    cases i with
    | zero => rfl
    | succ i =>
      rw [List.getElem?_cons_succ, Function.iterate_succ_apply]
      exact ih (by omega) (d.next mem addr)

variable (mem) in
/-- **Where the sweep passes `addr`.**  Its first start at or behind `addr` is less than four bytes
    behind it, and at least `k` instructions start in front, if `4 * k` bytes do. -/
theorem exists_first_behind (hd : d.Lawful) {addr : UInt16} {k : Nat} (hk : 1 ≤ k)
    (hlow : 4 * k ≤ addr.toNat) (hhigh : addr.toNat ≤ 0xFFF8) {scan : UInt16}
    (hscan : scan.toNat = addr.toNat - 4 * k) :
    ∃ n, k ≤ n ∧ (∀ m < n, ((d.next mem)^[m] scan).toNat < addr.toNat) ∧
      addr.toNat ≤ ((d.next mem)^[n] scan).toNat ∧
      ((d.next mem)^[n] scan).toNat ≤ addr.toNat + 3 := by
  obtain ⟨stop, hstop⟩ := scan_ends mem hd hhigh scan
  have hpast := scanning_eq_false.mp hstop
  obtain ⟨n, hbefore, hbehind⟩ := exists_first_stop (d.next mem)
    (fun pos => decide (pos.toNat < addr.toNat)) scan
    ⟨stop, decide_eq_false (by omega)⟩
  have hlt : ∀ m < n, ((d.next mem)^[m] scan).toNat < addr.toNat := fun m hm =>
    of_decide_eq_true (hbefore m hm)
  have hge : addr.toNat ≤ ((d.next mem)^[n] scan).toNat :=
    Nat.not_lt.mp (of_decide_eq_false hbehind)
  have hstep : ∀ m < n, ((d.next mem)^[m] scan).toNat < ((d.next mem)^[m + 1] scan).toNat ∧
      ((d.next mem)^[m + 1] scan).toNat ≤ ((d.next mem)^[m] scan).toNat + 4 := by
    intro m hm
    have hpos := hlt m hm
    rw [Function.iterate_succ_apply']
    exact next_bounds hd (by rw [memorySize]; omega)
  obtain ⟨-, hreach⟩ := iterate_window hstep
  have hn : k ≤ n := by omega
  refine ⟨n, hn, hlt, hge, ?_⟩
  obtain ⟨m, rfl⟩ : ∃ m, n = m + 1 := ⟨n - 1, by omega⟩
  have hlast := hlt m (by omega)
  have hjump := (hstep m (by omega)).2
  omega

/-- The entry at the address is the first of the scan that does not start below it. -/
theorem targetIdx_eq {base : UInt16} {addrs : List UInt16} {start : Nat → UInt16} {n : Nat}
    (hget : ∀ m ≤ n, addrs[m]? = some (start m)) (hge : base.toNat ≤ (start n).toNat)
    (hbefore : ∀ m < n, (start m).toNat < base.toNat) : targetIdx base addrs = n := by
  have hlength : n < addrs.length := (List.getElem?_eq_some_iff.mp (hget n (Nat.le_refl n))).1
  have hfind : addrs.findIdx? (fun a => decide (base ≤ a)) = some n := by
    refine List.findIdx?_eq_some_iff_getElem.mpr ⟨hlength, ?_, fun m hm => ?_⟩
    · rw [(List.getElem_eq_iff _).mpr (hget n (Nat.le_refl n))]
      exact decide_eq_true (UInt16.le_iff_toNat_le.mpr hge)
    · rw [(List.getElem_eq_iff _).mpr (hget m hm.le)]
      simp only [decide_eq_true_eq, UInt16.le_iff_toNat_le]
      exact Nat.not_le.mpr (hbefore m hm)
  rw [targetIdx, hfind]

/-- **The view with `k` instructions in front.**  Entry `k` is the first instruction that the sweep
    from `4 * k` bytes back starts at or behind the address, at most three bytes behind it, and the
    entries in front of it are the `k` instructions that the sweep decodes before.  So entry `k` is
    the instruction at the address if and only if the sweep starts one there. -/
theorem disassemble_entry (hd : d.Lawful) (s : Symbols) {memoryReference offset count : Int}
    {k : Nat} (hsum : InInt (memoryReference + offset)) (hk : 1 ≤ k)
    (hlow : 4 * k ≤ (baseAddr memoryReference offset).toNat)
    (hhigh : (baseAddr memoryReference offset).toNat ≤ 0xFFF8) (hcount : (k : Int) < count) :
    let base := baseAddr memoryReference offset
    let start := fun m => (d.next mem)^[m] (rewound base (-(k : Int)))
    ∃ fuel result n, d.disassemble mem s fuel memoryReference offset (-(k : Int)) count
        = .ok result ∧
      result.length = count.toNat ∧ k ≤ n ∧
      (∀ m < n, (start m).toNat < base.toNat) ∧
      base.toNat ≤ (start n).toNat ∧ (start n).toNat ≤ base.toNat + 3 ∧
      (∀ i < count.toNat, (result[i]?).map DisasmInfo.address
        = some (formatHex (start (n - k + i)) 4)) ∧
      ((result[k]?).map DisasmInfo.address = some (formatHex base 4) ↔ start n = base) := by
  intro base start
  have hscan : (rewound base (-(k : Int))).toNat = base.toNat - 4 * k := by
    rw [rewound_toNat, Int.natAbs_neg, Int.natAbs_natCast]
  obtain ⟨n, hn, hbefore, hge, hle⟩ := exists_first_behind mem hd hk hlow hhigh hscan
  obtain ⟨fuel, addrs, hsweep⟩ := exists_sweep_iff.mpr
    (scan_ends mem hd hhigh (rewound base (-(k : Int))))
  obtain ⟨stop, -, haddrs, hgo, hstop⟩ := sweep_eq_some.mp hsweep
  -- the first start behind the address is still in front of the bound, so the scan has it
  have hshort : n < stop := by
    by_contra hlong
    have hpast := scanning_eq_false.mp hstop
    rcases Nat.lt_or_eq_of_le (Nat.not_lt.mp hlong) with hlt | heq
    · have hin := hbefore stop hlt
      omega
    · subst heq
      omega
  have hget : ∀ m < stop, addrs[m]? = some (start m) := by
    intro m hm
    rw [haddrs]
    exact List.getElem?_iterate _ _ stop m hm
  have htarget : targetIdx base addrs = n :=
    targetIdx_eq (fun m hm => hget m (by omega)) hge hbefore
  have hlt := base.toNat_lt
  obtain ⟨first, hfirst, hfirstGet⟩ := backwardStart_of_sweep (by omega) (by omega) hsweep
  have hfirstStart : first = start (n - k) := by
    rw [htarget, show ((n : Int) + -(k : Int)).toNat = n - k by omega,
      hget (n - k) (by omega)] at hfirstGet
    exact (Option.some.inj hfirstGet).symm
  subst hfirstStart
  have hentry : ∀ i < count.toNat,
      ((d.instrInfos mem s count.toNat (start (n - k)))[i]?).map DisasmInfo.address
        = some (formatHex (start (n - k + i)) 4) := by
    intro i hi
    rw [instrInfos_getElem? s hi, Option.map_some, ← Function.iterate_add_apply,
      Nat.add_comm i (n - k)]
    rfl
  refine ⟨fuel, _, n, disassemble_eq count hsum ((viewStart_of_neg (by omega)).trans hfirst),
    instrInfos_length s _ _, hn, hbefore, hge, hle, hentry, ?_⟩
  rw [hentry k (by omega), Nat.sub_add_cancel hn, Option.some_inj]
  exact ⟨fun h => formatHex_injective h, fun h => by rw [h]⟩

/-- The view from one instruction in front of `0005`, in a memory of `LD BC,nn`. -/
theorem disassemble_entry_load :
    let start := fun m => (loadDecoder.next fun _ => 1)^[m] (rewound 5 (-1))
    ∃ fuel result n, loadDecoder.disassemble (fun _ => 1) {} fuel 5 0 (-1) 2 = .ok result ∧
      result.length = 2 ∧ 1 ≤ n ∧ (∀ m < n, (start m).toNat < 5) ∧ 5 ≤ (start n).toNat ∧
      (start n).toNat ≤ 8 ∧
      (∀ i < 2, (result[i]?).map DisasmInfo.address = some (formatHex (start (n - 1 + i)) 4)) ∧
      ((result[1]?).map DisasmInfo.address = some (formatHex 5 4) ↔ start n = 5) :=
  disassemble_entry (k := 1) loadDecoder_lawful {} (by decide) (by decide) (by decide) (by decide)
    (by decide)

/-- There the sweep from `0001` starts instructions at `0004` and `0007`, and passes over `0005`. -/
theorem disassemble_misses_base :
    ((loadDecoder.disassemble (fun _ => 1) {} 10 5 0 (-1) 2).map
      (List.map DisasmInfo.address)).toOption = some [str "0x0004", str "0x0007"] ∧
      str "0x0007" ≠ formatHex 5 4 := by
  decide +kernel

/-! ## Views from the address on -/

/-- The next start is the length further on, or one byte. -/
theorem next_eq (pos : UInt16) :
    d.next mem pos = pos + UInt16.ofInt (max 1 (d.length mem pos)) := by
  have hlength : (max 1 (d.length mem pos)) = (d.instrLength mem pos : Int) := by
    unfold instrLength
    split <;> omega
  rw [next, hlength]
  apply congrArg (pos + ·)
  apply UInt16.toNat_inj.mp
  rw [UInt16.ofInt, UInt16.toNat_ofNat', UInt16.toNat_ofNat']
  omega

/-- Skipping `n` instructions leads `n` starts further. -/
theorem forwardStart_eq (n : Nat) (addr : UInt16) :
    d.forwardStart mem n addr = (d.next mem)^[n] addr := by
  induction n generalizing addr with
  | zero => rfl
  | succ n ih => rw [forwardStart, if_pos (inMemory addr), ih, Function.iterate_succ_apply]

/-- Behind its first `n` entries a view is the one from `n` starts further. -/
theorem instrInfos_drop (s : Symbols) (n m : Nat) (addr : UInt16) :
    (d.instrInfos mem s (n + m) addr).drop n
      = d.instrInfos mem s m ((d.next mem)^[n] addr) := by
  induction n generalizing addr with
  | zero => rw [Nat.zero_add, List.drop_zero, Function.iterate_zero_apply]
  | succ n ih =>
    rw [Nat.succ_add, instrInfos, if_pos (inMemory addr), List.drop_succ_cons, ih,
      Function.iterate_succ_apply]

variable (d mem) in
/-- Every entry starts where the one in front of it ends, modulo the size of the memory. -/
def Consecutive (infos : List DisasmInfo) : Prop :=
  ∃ start : Nat → UInt16,
    (∀ i < infos.length, (infos[i]?).map DisasmInfo.address = some (formatHex (start i) 4)) ∧
    ∀ i, start (i + 1) = start i + UInt16.ofInt (max 1 (d.length mem (start i)))

theorem instrInfos_consecutive (s : Symbols) (n : Nat) (addr : UInt16) :
    d.Consecutive mem (d.instrInfos mem s n addr) := by
  refine ⟨fun i => (d.next mem)^[i] addr, ?_, ?_⟩
  · intro i hi
    rw [instrInfos_length] at hi
    rw [instrInfos_getElem? s hi]
    rfl
  · intro i
    rw [← next_eq]
    exact Function.iterate_succ_apply' _ i addr

/-- A view that starts at the address or behind it. -/
theorem disassemble_forward (s : Symbols) (fuel : Nat) {memoryReference offset n : Int} (hn : 0 ≤ n)
    (c : Int) (hsum : InInt (memoryReference + offset)) :
    d.disassemble mem s fuel memoryReference offset n c = .ok (d.instrInfos mem s c.toNat
      ((d.next mem)^[n.toNat] (baseAddr memoryReference offset))) := by
  apply disassemble_eq c hsum
  rw [viewStart, if_neg (by omega), forwardStart_eq]

/-- **Windows fit together**: the view of `c` instructions from `n` instructions further on is the
    one of `n + c` instructions without its first `n` entries, has `c` entries, and each of these
    starts where the one in front of it ends.  This is so if and only if the sum of the reference and
    the offset, which is formed before it is cut to 16 bits, is an `int`. -/
theorem disassemble_windows_iff (s : Symbols) (fuel : Nat) {memoryReference offset n c : Int}
    (hn : 0 ≤ n) (hc : 0 ≤ c) :
    (∃ window whole, d.disassemble mem s fuel memoryReference offset n c = .ok window ∧
      d.disassemble mem s fuel memoryReference offset 0 (n + c) = .ok whole ∧
      window = whole.drop n.toNat ∧ (window.length : Int) = c ∧ d.Consecutive mem window) ↔
      InInt (memoryReference + offset) := by
  constructor
  · rintro ⟨window, whole, hwindow, -⟩
    by_contra hsum
    rw [disassemble, asInt, if_neg hsum] at hwindow
    cases hwindow
  · intro hsum
    have hcount : (n + c).toNat = n.toNat + c.toNat := by omega
    refine ⟨_, _, disassemble_forward s fuel hn c hsum,
      disassemble_forward s fuel (Int.le_refl 0) (n + c) hsum, ?_, ?_, instrInfos_consecutive s _ _⟩
    · rw [hcount, Int.toNat_zero, Function.iterate_zero_apply, instrInfos_drop]
    · rw [instrInfos_length]
      omega

/-- Across the top of a memory of `LD BC,nn`: two instructions, and the second of them alone. -/
theorem disassemble_windows_load :
    ∃ window whole, loadDecoder.disassemble (fun _ => 1) {} 0 0xFFFF (-1) 1 1 = .ok window ∧
      loadDecoder.disassemble (fun _ => 1) {} 0 0xFFFF (-1) 0 (1 + 1) = .ok whole ∧
      window = whole.drop 1 ∧ (window.length : Int) = 1 ∧
      loadDecoder.Consecutive (fun _ => 1) window :=
  (disassemble_windows_iff {} 0 (by decide) (by decide)).mpr (by decide)

/-- One byte behind the largest `int` there is no view. -/
theorem disassemble_overflows :
    ¬ ∃ window whole, loadDecoder.disassemble (fun _ => 0) {} 0 0x7FFFFFFF 1 0 1 = .ok window ∧
      loadDecoder.disassemble (fun _ => 0) {} 0 0x7FFFFFFF 1 0 (0 + 1) = .ok whole ∧
      window = whole.drop 0 ∧ (window.length : Int) = 1 ∧
      loadDecoder.Consecutive (fun _ => 0) window := by
  rintro ⟨window, whole, hwindow, -⟩
  rw [disassemble, asInt, if_neg (by decide)] at hwindow
  cases hwindow

end Decoder
end Udap
