/-
  VALUES — what `c_variable_value` shows of an integer variable in memory.

  1. **Variables** — the type texts of the integers (`typeText`), where a variable lives
     (`valueAddress`), and the value that its bytes have (`littleEndian`, `typedValue`).

  2. **Reading what is shown** — the hexadecimal number and the decimal one, if there is one
     (`shownHex`, `shownDecimal`).

  3. **What is shown** — two hexadecimal digits for each byte, but of 16 bits at most; and a decimal
     number for `int` and `long` of one or two bytes, always signed (`cVariableValue_eq`).  Hence
     `shown_iff`: when it is the value of the variable.
-/
import Udap.Cxx.Hex
import Udap.Dbg.Variables
import Udap.Sdcc.CdbParser

set_option linter.unusedVariables false

namespace Udap

open Udap.Cxx Udap.Sdcc

/-! ## Variables -/

inductive IntType where
  | char
  | int
  | long
  deriving DecidableEq

def IntType.letters : IntType → Str
  | .char => str "SC"
  | .int => str "SI"
  | .long => str "SL"

/-- `{n}SI:S` and the like: `size` bytes, and whether there is a sign. -/
def typeText (size : Nat) (type : IntType) (signed : Bool) : Str :=
  123 :: decimal size ++ 125 :: type.letters ++ 58 :: (if signed then str "S" else str "U")

/-- A CDB symbol as the parser stores it: the size is that of its type text, cut to 1..4. -/
structure IntSymbol (sym : CdbgInfoSymbol) (size : Nat) (type : IntType) (signed : Bool) : Prop where
  sizes : size = 1 ∨ size = 2 ∨ size = 4
  typeInfo : sym.typeInfo = typeText size type signed
  parsed : (CdbParser.sizeOf sym.typeInfo).map (fun n => max 1 (min n 4)) = some sym.size

namespace Z80ex

variable {C : Type} (Z : Z80ex C) (s : Symbols)

/-- Where a variable lives in memory, if it does. -/
def valueAddress (m : Computer C) (sym : CdbgInfoSymbol) : Option UInt16 :=
  match sym.storage with
  | .stack => some (UInt16.ofInt ((Z.getReg m.cpu .regIX).toNat + sym.offset))
  | .internal | .ext | .globalAuto =>
    (s.variableSymbol sym.name).map fun ms => ms.address.toUInt16
  | .reg | .unknown => none

end Z80ex

/-- The number that `n` bytes from `addr` on stand for, the low one first. -/
def littleEndian (memory : Memory) (addr : UInt16) (n : Nat) : Nat :=
  ((List.range n).map fun i => (memory (addr + UInt16.ofNat i)).toNat * 256 ^ i).sum

/-- The value of `size` bytes under their type: two's complement with a sign. -/
def typedValue (size : Nat) (signed : Bool) (v : Nat) : Int :=
  if signed ∧ 2 * v ≥ 256 ^ size then (v : Int) - 256 ^ size else v

/-! ## Reading what is shown -/

/-- The number behind the `0x` of a text. -/
def shownHex (text : Str) : Option Nat := readDigits 16 ((text.dropWhile (· ≠ 120)).drop 1) none

/-- The number in front of the parentheses, if there are any. -/
def shownDecimal (text : Str) : Option Int := if text.contains 40 then stoi text else none

theorem shownHex_formatHex {pre post : Str} (hpre : (120 : UInt8) ∉ pre) (v : UInt16) (width : Nat)
    (hpost : ∀ n, readDigits 16 post (some n) = some n) :
    shownHex (pre ++ (formatHex v width ++ post)) = some v.toNat := by
  have hfront : (pre ++ (formatHex v width ++ post)).dropWhile (· ≠ 120)
      = 120 :: (hexPadded width v.toNat ++ post) := by
    have htext : pre ++ (formatHex v width ++ post)
        = (pre ++ [48]) ++ 120 :: (hexPadded width v.toNat ++ post) := by
      rw [formatHex_eq, List.append_assoc, List.append_assoc]
      rfl
    rw [htext, List.dropWhile_append_of_pos]
    · rw [List.dropWhile_cons_of_neg (by decide)]
    · intro c hc
      rcases List.mem_append.mp hc with hc | hc
      · exact decide_eq_true fun heq => hpre (heq ▸ hc)
      · rw [List.mem_singleton.mp hc]
        decide
  rw [shownHex, hfront, List.drop_one, List.tail_cons,
    readDigits_append_digits _ _ (hexPadded_isHexDigit width v.toNat), readDigits_hexPadded, hpost]

theorem formatHex_no_parenthesis (v : UInt16) (width : Nat) : (40 : UInt8) ∉ formatHex v width := by
  intro h
  rw [formatHex_eq] at h
  rcases List.mem_append.mp h with h | h
  · exact absurd h (by decide)
  · exact absurd (hexPadded_isHexDigit width v.toNat 40 h) (by decide)

theorem toString_no_x (i : Int) : (120 : UInt8) ∉ Cxx.toString i := by
  intro h
  rcases toString_chars i 120 h with h | h
  · exact absurd h (by decide)
  · exact absurd h (by decide)

/-! ## What is shown -/

namespace IntSymbol

variable {sym : CdbgInfoSymbol} {size : Nat} {type : IntType} {signed : Bool}

theorem shownSize_eq (h : IntSymbol sym size type signed) : Z80ex.shownSize sym = size := by
  have hparsed := h.parsed
  rw [h.typeInfo] at hparsed
  have hsize : sym.size = size := by
    rcases h.sizes with rfl | rfl | rfl <;> cases type <;> cases signed <;>
      exact (Option.some.inj hparsed).symm.trans (by decide)
  rw [Z80ex.shownSize, hsize]
  rcases h.sizes with rfl | rfl | rfl <;> decide

/-- The test for a sign only tells `char` from the others. -/
theorem isSigned_eq (h : IntSymbol sym size type signed) :
    Z80ex.isSigned sym.typeInfo = decide (type ≠ .char) := by
  rw [h.typeInfo]
  -- eighteen type texts
  rcases h.sizes with rfl | rfl | rfl <;> cases type <;> cases signed <;> decide

end IntSymbol

/-- Bytes inside of the memory are read as they are. -/
theorem readValue_eq (memory : Memory) {addr : UInt16} {n : Nat} (h : addr.toNat + n ≤ memorySize) :
    Z80ex.readValue memory addr n = littleEndian memory addr n := by
  induction n with
  | zero => rfl
  | succ n ih =>
    have haddr : UInt16.ofNat (addr.toNat + n) = addr + UInt16.ofNat n := by
      rw [UInt16.ofNat_add, UInt16.ofNat_toNat]
    rw [Z80ex.readValue, ih (by omega), if_pos (by omega), haddr, littleEndian, littleEndian,
      List.range_succ, List.map_append, List.sum_append, List.map_singleton, List.sum_singleton]

theorem littleEndian_lt (memory : Memory) (addr : UInt16) (n : Nat) :
    littleEndian memory addr n < 256 ^ n := by
  induction n with
  | zero => exact Nat.one_pos
  | succ n ih =>
    have hbyte := (memory (addr + UInt16.ofNat n)).toNat_lt
    have hnext : littleEndian memory addr (n + 1) = littleEndian memory addr n
        + (memory (addr + UInt16.ofNat n)).toNat * 256 ^ n := by
      rw [littleEndian, littleEndian, List.range_succ, List.map_append, List.sum_append,
        List.map_singleton, List.sum_singleton]
    have hprod : (memory (addr + UInt16.ofNat n)).toNat * 256 ^ n ≤ 255 * 256 ^ n :=
      Nat.mul_le_mul_right _ (Nat.le_of_lt_succ hbyte)
    rw [hnext, Nat.pow_succ]
    omega

/-- The decimal number that is shown: the bytes with a sign. -/
theorem signed_eq {v size : Nat} (hsize : size = 1 ∨ size = 2) (hv : v < 256 ^ size) :
    (if size = 1 then (UInt16.ofNat v).toUInt8.toInt8.toInt else (UInt16.ofNat v).toInt16.toInt)
      = typedValue size true v := by
  unfold typedValue
  simp only [true_and]
  rcases hsize with rfl | rfl
  · have hbyte : (UInt16.ofNat v).toUInt8.toBitVec.toNat = v := by
      show (UInt16.ofNat v).toUInt8.toNat = v
      rw [UInt16.toNat_toUInt8, UInt16.toNat_ofNat']
      omega
    rw [if_pos rfl]
    show (UInt16.ofNat v).toUInt8.toBitVec.toInt = _
    rw [BitVec.toInt_eq_toNat_cond, hbyte]
    split <;> split <;> omega
  · have hword : (UInt16.ofNat v).toBitVec.toNat = v := by
      show (UInt16.ofNat v).toNat = v
      rw [UInt16.toNat_ofNat']
      omega
    rw [if_neg (by decide)]
    show (UInt16.ofNat v).toBitVec.toInt = _
    rw [BitVec.toInt_eq_toNat_cond, hword]
    split <;> split <;> omega

/-- With a sign or without one, the value is the same if the highest bit is clear. -/
theorem typedValue_signed_iff (size v : Nat) (signed : Bool) :
    typedValue size true v = typedValue size signed v ↔
      (signed = false → 2 * v < 256 ^ size) := by
  have hpos : (0 : Int) < 256 ^ size := by positivity
  cases signed with
  | true => exact iff_of_true rfl fun h => absurd h (by decide)
  | false =>
    unfold typedValue
    rw [if_neg (c := false = true ∧ _) fun h => Bool.false_ne_true h.1]
    by_cases hbig : 2 * v ≥ 256 ^ size
    · rw [if_pos ⟨rfl, hbig⟩]
      refine iff_of_false (by omega) fun h => ?_
      exact absurd (h rfl) (by omega)
    · rw [if_neg fun h => hbig h.2]
      exact iff_of_true rfl fun _ => by omega

/-- Reading a text with a decimal number. -/
theorem shown_with_decimal {size v : Nat} (hsize : size ≤ 2) (hv : v < 256 ^ size) :
    shownHex (Cxx.toString (typedValue size true v) ++ str " (" ++
        formatHex (UInt16.ofNat v) (size * 2) ++ str ")") = some v ∧
      shownDecimal (Cxx.toString (typedValue size true v) ++ str " (" ++
        formatHex (UInt16.ofNat v) (size * 2) ++ str ")") = some (typedValue size true v) := by
  have hpow : 256 ^ size ≤ 256 ^ 2 := Nat.pow_le_pow_right (by decide) hsize
  have hword : (UInt16.ofNat v).toNat = v := by
    rw [UInt16.toNat_ofNat']
    exact Nat.mod_eq_of_lt (by omega)
  have hint : InInt (typedValue size true v) := by
    have hcast : ((256 ^ size : Nat) : Int) = 256 ^ size := by push_cast; rfl
    unfold typedValue
    split
    · exact ⟨by omega, by omega⟩
    · exact ⟨by omega, by omega⟩
  have htext : Cxx.toString (typedValue size true v) ++ str " (" ++
      formatHex (UInt16.ofNat v) (size * 2) ++ str ")"
        = (Cxx.toString (typedValue size true v) ++ str " (") ++
          (formatHex (UInt16.ofNat v) (size * 2) ++ str ")") := by
    rw [List.append_assoc]
  constructor
  · rw [htext, shownHex_formatHex ?_ _ _ fun n => rfl, hword]
    intro h
    rcases List.mem_append.mp h with h | h
    · exact toString_no_x _ h
    · exact absurd h (by decide)
  · rw [shownDecimal, if_pos (by simp [str]), htext, List.append_assoc]
    exact stoi_toString_append hint (readDigits_decimal_blank _ _)

/-- Reading a text without one. -/
theorem shown_without_decimal (v : UInt16) (width : Nat) :
    shownHex (formatHex v width) = some v.toNat ∧ shownDecimal (formatHex v width) = none := by
  constructor
  · have hread : shownHex ([] ++ (formatHex v width ++ [])) = some v.toNat :=
      shownHex_formatHex List.not_mem_nil v width fun n => rfl
    rwa [List.nil_append, List.append_nil] at hread
  · refine if_neg fun h => formatHex_no_parenthesis v width ?_
    exact List.contains_iff_mem.mp h

section
variable {C : Type} {Z : Z80ex C} {s : Symbols} {m : Computer C} {sym : CdbgInfoSymbol} {size : Nat}
  {type : IntType} {signed : Bool} {addr : UInt16}

/-- **What is shown** of an integer variable in memory. -/
theorem cVariableValue_eq (hsym : IntSymbol sym size type signed)
    (haddr : Z.valueAddress s m sym = some addr) (hinside : addr.toNat + size ≤ memorySize) :
    Z.cVariableValue s m sym =
      if type ≠ .char ∧ size ≤ 2 then
        Cxx.toString (typedValue size true (littleEndian m.memory addr size)) ++ str " (" ++
          formatHex (UInt16.ofNat (littleEndian m.memory addr size)) (size * 2) ++ str ")"
      else formatHex (UInt16.ofNat (littleEndian m.memory addr size)) (size * 2) := by
  have hread : Z.cVariableValue s m sym = Z80ex.readMem m.memory sym addr := by
    unfold Z80ex.valueAddress at haddr
    unfold Z80ex.cVariableValue
    cases hstorage : sym.storage with
    | stack =>
      rw [hstorage] at haddr
      exact congrArg (Z80ex.readMem m.memory sym) (Option.some.inj haddr)
    | internal | ext | globalAuto =>
      rw [hstorage] at haddr
      obtain ⟨ms, hms, rfl⟩ := Option.map_eq_some_iff.mp haddr
      dsimp only
      rw [hms]
    | reg | unknown =>
      rw [hstorage] at haddr
      cases haddr
  rw [hread, Z80ex.readMem]
  dsimp only
  rw [hsym.shownSize_eq, hsym.isSigned_eq, readValue_eq m.memory hinside]
  simp only [decide_eq_true_eq]
  by_cases hshown : type ≠ .char ∧ size ≤ 2
  · have hsize : size = 1 ∨ size = 2 := by
      rcases hsym.sizes with h | h | h
      · exact Or.inl h
      · exact Or.inr h
      · omega
    rw [if_pos hshown, if_pos hshown, signed_eq hsize (littleEndian_lt m.memory addr size)]
  · rw [if_neg hshown, if_neg hshown]

/-- **When the value of a variable is shown.**  The hexadecimal number is it unless a variable of
    four bytes does not fit into 16 bits; the decimal number, if one is shown, is it unless a
    variable without a sign has its highest bit set. -/
theorem shown_iff (hsym : IntSymbol sym size type signed)
    (haddr : Z.valueAddress s m sym = some addr) (hinside : addr.toNat + size ≤ memorySize) :
    (shownHex (Z.cVariableValue s m sym) = some (littleEndian m.memory addr size) ∧
      ∀ d, shownDecimal (Z.cVariableValue s m sym) = some d →
        d = typedValue size signed (littleEndian m.memory addr size)) ↔
      (size = 4 → littleEndian m.memory addr size < 65536) ∧
        (size ≠ 4 → type ≠ .char → signed = false →
          2 * littleEndian m.memory addr size < 256 ^ size) := by
  rw [cVariableValue_eq hsym haddr hinside]
  have hlt := littleEndian_lt m.memory addr size
  generalize littleEndian m.memory addr size = v at hlt ⊢
  by_cases hshown : type ≠ .char ∧ size ≤ 2
  · obtain ⟨hhex, hdecimal⟩ := shown_with_decimal hshown.2 hlt
    rw [if_pos hshown, hhex, hdecimal]
    have hvalue : (∀ d, some (typedValue size true v) = some d → d = typedValue size signed v) ↔
        (signed = false → 2 * v < 256 ^ size) := by
      rw [← typedValue_signed_iff]
      exact ⟨fun h => h _ rfl, fun h d hd => (Option.some.inj hd) ▸ h⟩
    rw [hvalue]
    constructor
    · exact fun h => ⟨fun hfour => by omega, fun _ _ => h.2⟩
    · exact fun h => ⟨rfl, h.2 (by omega) hshown.1⟩
  · obtain ⟨hhex, hnone⟩ := shown_without_decimal (UInt16.ofNat v) (size * 2)
    rw [if_neg hshown, hhex, hnone, Option.some_inj, UInt16.toNat_ofNat']
    -- no decimal number: only the 16 bits matter, and they are enough for two bytes
    constructor
    · rintro ⟨hmod, -⟩
      refine ⟨fun _ => ?_, fun hne htype _ => ?_⟩
      · rw [← hmod]
        exact Nat.mod_lt _ (by decide)
      · have hsize : size ≤ 2 := by
          rcases hsym.sizes with h | h | h <;> omega
        exact absurd ⟨htype, hsize⟩ hshown
    · rintro ⟨hsmall, -⟩
      refine ⟨Nat.mod_eq_of_lt ?_, fun d hd => by cases hd⟩
      rcases hsym.sizes with rfl | rfl | rfl
      · omega
      · omega
      · exact hsmall rfl

end

/-! ### A frame of bytes FF -/

/-- IX is `8000`, and every byte of the memory is FF. -/
def framed : Computer (Reg → UInt16) where
  cpu := fun _ => 0x8000
  memory := fun _ => 0xFF

/-- An unsigned integer next to IX. -/
def unsignedLocal (size : Nat) (type : IntType) : CdbgInfoSymbol where
  name := str "count"
  typeInfo := typeText size type false
  storage := .stack
  offset := -4
  size := size

/-- An `unsigned char` is shown as 255. -/
theorem shown_iff_char :
    shownHex (Debugger.storeCpu.cVariableValue {} framed (unsignedLocal 1 .char))
        = some (littleEndian framed.memory 0x7FFC 1) ∧
      ∀ d, shownDecimal (Debugger.storeCpu.cVariableValue {} framed (unsignedLocal 1 .char)) = some d →
        d = typedValue 1 false (littleEndian framed.memory 0x7FFC 1) := by
  have hsym : IntSymbol (unsignedLocal 1 .char) 1 .char false := ⟨Or.inl rfl, rfl, by decide⟩
  apply (shown_iff hsym (by decide) (by decide)).mpr
  exact ⟨by decide, fun _ hchar _ => absurd rfl hchar⟩

/-- **An unsigned variable is shown with a sign, a long one is cut**: an `unsigned int` of 65535 as
    -1, and four bytes FF as 65535. -/
theorem wrong_values_shown :
    IntSymbol (unsignedLocal 2 .int) 2 .int false ∧
      Debugger.storeCpu.valueAddress {} framed (unsignedLocal 2 .int) = some 0x7FFC ∧
      shownDecimal (Debugger.storeCpu.cVariableValue {} framed (unsignedLocal 2 .int)) = some (-1) ∧
      typedValue 2 false (littleEndian framed.memory 0x7FFC 2) = 65535 ∧
      IntSymbol (unsignedLocal 4 .long) 4 .long false ∧
      Debugger.storeCpu.valueAddress {} framed (unsignedLocal 4 .long) = some 0x7FFC ∧
      shownHex (Debugger.storeCpu.cVariableValue {} framed (unsignedLocal 4 .long)) = some 65535 ∧
      littleEndian framed.memory 0x7FFC 4 = 4294967295 := by
  refine ⟨⟨Or.inr (Or.inl rfl), rfl, by decide⟩, by decide, by decide +kernel, by decide +kernel,
    ⟨Or.inr (Or.inr rfl), rfl, by decide⟩, by decide, by decide +kernel, by decide +kernel⟩

end Udap
