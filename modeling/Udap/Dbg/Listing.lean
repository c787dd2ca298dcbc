/-
  THE FULL LISTING — the disassembly of the whole memory as a source file of its own.

  Where the program has no source, the debugger shows the listing, and sets breakpoints on its
  lines.  It is built once, by a sweep over the memory that fills three structures: the text, the
  address of each line, and the line of each address.

  1. **Symbols** — in the text of an instruction hexadecimal operands are replaced by the symbols at
     these addresses, in four passes (`symbolizeAsmLine`).

  2. **Sweep** — what the state is after `n` instructions (`built_eq`), and where the sweep ends
     (`buildFullListing_eq`).

  3. **Inverse** — line `i` starts with address `i`, and the line of address `i` is `i`
     (`listing_inverse`).  An address that starts no line is given line 1, so that this line is
     shown for more addresses than the one where a breakpoint on it is armed
     (`first_line_shown_elsewhere`).

  4. **The line of any PC** — the sweep from address 0 need not start an instruction where the
     program does.  `frame_line_iff` says when the frame shows the line whose bytes contain PC.
-/
import Udap.Cxx.Regex
import Udap.Dbg.Breakpoints
import Udap.Dbg.Disassemble
import Udap.Sdcc.Util

set_option linter.unusedVariables false

namespace Udap

open Udap.Cxx Udap.Dap Udap.Sdcc Udap.Sweep Regex

/-! ## Symbols in the text of an instruction -/

/-- A letter in either case. -/
def letter (c : UInt8) : Regex := .one fun x => capital x == c

/-- A word in either case. -/
def keyword (s : Str) : Regex := s.foldr (fun c r => .seq (letter c) r) .empty

/-- `LD\s+(?:[A-E]|H|L|IXH|IXL|IYH|IYL|\([A-Z]+(?:[+-][0-9]+)?\))\s*,\s*#` in either case. -/
def ld8Re : Regex :=
  .seq (keyword (str "LD")) <| .seq (some1 isSpace) <|
  .seq (.alt (.one fun c => 65 ≤ capital c && capital c ≤ 69) <|
    .alt (keyword (str "H")) <| .alt (keyword (str "L")) <| .alt (keyword (str "IXH")) <|
    .alt (keyword (str "IXL")) <| .alt (keyword (str "IYH")) <| .alt (keyword (str "IYL")) <|
    .seq (.one (· == 40)) <| .seq (some1 fun c => 65 ≤ capital c && capital c ≤ 90) <|
    .seq (opt (.seq (.one fun c => c == 43 || c == 45) (some1 fun c => 48 ≤ c && c ≤ 57)))
      (.one (· == 41))) <|
  .seq (.many isSpace) <| .seq (.one (· == 44)) <| .seq (.many isSpace) (.one (· == 35))

/-- `0x([0-9A-Fa-f]{1,4})` -/
def zeroXRe : Regex := .seq (.one (· == 48)) (.seq (.one (· == 120)) (.group 1 (between isHex 1 4)))

/-- `\$([0-9A-Fa-f]{1,4})` -/
def dollarRe : Regex := .seq (.one (· == 36)) (.group 1 (between isHex 1 4))

/-- `\b([0-9A-Fa-f]{1,4})[Hh]\b` -/
def suffixRe : Regex :=
  .seq .edge (.seq (.group 1 (between isHex 1 4)) (.seq (.one fun c => c == 72 || c == 104) .edge))

/-- `#([0-9A-Fa-f]{1,4})` -/
def hashRe : Regex := .seq (.one (· == 35)) (.group 1 (between isHex 1 4))

namespace Symbols

variable (s : Symbols)

/-- What stands in the place of a match: the symbol at its address, if there is one. -/
def operandText (captureGroup : Nat) (m : Match) : Str :=
  match stoul (groupText m.groups captureGroup) 16 with
  | none => m.text
  | some v =>
    match s.lookupSymbolExact (UInt16.ofNat v) with
    | none => m.text
    | some sym => (if m.text.head? = some 35 then [35] else []) ++ sym

/-- `replace_hex_operands`. -/
def replaceHexOperands (input : Str) (pattern : Regex) (captureGroup : Nat) : Str :=
  (matchesOf pattern input).1.flatMap (fun m => m.skipped ++ s.operandText captureGroup m) ++
    (matchesOf pattern input).2

/-- `dbg::symbolize_asm_line`: the operand of an 8-bit load is a value. -/
def symbolizeAsmLine (line : Str) : Str :=
  -- an 8-bit constant is no address
  if (search ld8Re none line).isSome then line
  else
    let line := s.replaceHexOperands line zeroXRe 1
    let line := s.replaceHexOperands line dollarRe 1
    let line := s.replaceHexOperands line suffixRe 1
    s.replaceHexOperands line hashRe 1

/-- One round of the loop in `lookup_symbol`: the first of the symbols closest below an address. -/
def closerSymbol (address : UInt16) (best : Option Symbol) (sym : Symbol) : Option Symbol :=
  if sym.address.toUInt16 > address then best
  else
    match best with
    | none => some sym
    | some b => if sym.address.toUInt16 > b.address.toUInt16 then some sym else best

/-- `dbg::lookup_symbol`. -/
def lookupSymbol (address : UInt16) : Option Str :=
  (s.mapSymbols.foldl (closerSymbol address) none).map fun sym =>
    sym.name ++ (if address > sym.address.toUInt16 then
      43 :: decimal (address.toNat - sym.address.toUInt16.toNat) else [])

example : symbolizeAsmLine { mapSymbols := [⟨str "_main", 0x8044, [], 0⟩] } (str "CALL #8044h") =
    str "CALL #_main" := by decide +kernel
example : symbolizeAsmLine { mapSymbols := [⟨str "_x", 5, [], 0⟩] } (str "LD (IX+2),#05h") =
    str "LD (IX+2),#05h" := by decide +kernel

end Symbols

/-! ## The listing -/

/-- The listing: `full_listing_content_`, `full_listing_addrs_` and `full_listing_addr_to_line_`. -/
structure FullListing where
  content : Str := []
  addrs : List UInt16 := []
  addrToLine : Table UInt16 Int := ∅

/-- `dbg::full_listing_line_for_addr`. -/
def FullListing.lineForAddr (l : FullListing) (addr : UInt16) : Int :=
  (l.addrToLine.lookup addr).getD 1

/-- The variables of the loop in `build_full_listing`. -/
structure Building where
  addr : UInt32 := 0
  line : Int := 1
  listing : FullListing := {}

/-- `std::setw(width)` with `std::setfill('0')` on a number in base 10. -/
def decimalPadded (width : Nat) (i : Int) : Str :=
  List.replicate (width - (Cxx.toString i).length) 48 ++ Cxx.toString i

namespace Decoder

variable (d : Decoder) (mem : Memory) (s : Symbols)

/-- The bytes of an instruction in a listing, filled up to twelve columns. -/
def listingBytes (addr : UInt32) : Str :=
  let count := min (d.instrLength mem (UInt16.ofNat addr.toNat)) (memorySize - addr.toNat)
  (List.range count).flatMap (fun j => hexPadded 2 (mem (UInt16.ofNat (addr.toNat + j))).toNat ++ [32])
    ++ List.replicate (12 - 3 * count) 32

/-- A line of the listing. -/
def listingLine (addr : UInt32) : Str :=
  let pos := UInt16.ofNat addr.toNat
  str "    " ++ (hexPadded 6 addr.toNat ++ (32 :: (d.listingBytes mem addr ++ (str "  [" ++
    (decimalPadded 2 (d.tstates mem pos) ++ (str "]   " ++ s.symbolizeAsmLine (d.text mem pos)))))))

/-- `addr += static_cast<uint32_t>(ilen)`. -/
def nextAddr (addr : UInt32) : UInt32 :=
  addr + UInt32.ofNat (d.instrLength mem (UInt16.ofNat addr.toNat))

/-- The body of the loop. -/
def listInstruction (b : Building) : Building :=
  let pos := UInt16.ofNat b.addr.toNat
  { addr := d.nextAddr mem b.addr
    line := b.line + 1
    listing :=
      { content := b.listing.content ++ (d.listingLine mem s b.addr ++ [10])
        addrs := b.listing.addrs ++ [pos]
        addrToLine := b.listing.addrToLine.assign pos b.line } }

/-- `addr < memory_.size()`. -/
def inside (addr : UInt32) : Bool := decide (addr.toNat < memorySize)

/-- `dbg::build_full_listing`. -/
def buildFullListing (fuel : Nat) : Option FullListing :=
  (runWhile (d.listInstruction mem s) (fun b => inside b.addr) fuel {}).map Building.listing

end Decoder

/-- `z80_target::get_stack` where the CPU is at `pc`. -/
def getStack (s : Symbols) (virtualLstPath : Str) (l : FullListing) (pc : UInt16) : List FrameInfo :=
  match if s.hasCdb then s.lookupSourceAny pc else none with
  | some src =>
    [{ name := Path.filename src.file ++ 58 :: Cxx.toString src.line
       address := formatHex pc 4
       sourcePath := src.file
       line := src.line }]
  | none =>
    [{ name := (s.lookupSymbol pc).getD (formatHex pc 4)
       address := formatHex pc 4
       sourcePath := virtualLstPath
       line := l.lineForAddr pc }]

/-! ## What symbols bring into a line -/

namespace Symbols

variable (s : Symbols)

theorem lookupSymbolExact_mem {address : UInt16} {name : Str}
    (h : s.lookupSymbolExact address = some name) : ∃ sym ∈ s.mapSymbols, sym.name = name := by
  have hfold : ∀ (syms : List Symbol) (best : Option Symbol) (sym : Symbol),
      syms.foldl (betterSymbol address) best = some sym → best = some sym ∨ sym ∈ syms := by
    intro syms
    induction syms with
    | nil => exact fun best sym hsym => Or.inl hsym
    | cons x syms ih =>
      intro best sym hsym
      rcases ih _ sym hsym with hbest | hmem
      · rw [betterSymbol] at hbest
        split_ifs at hbest with haddr hname
        · exact Or.inl hbest
        · rw [Option.some.inj hbest]
          exact Or.inr List.mem_cons_self
        · exact Or.inl hbest
      · exact Or.inr (List.mem_cons_of_mem x hmem)
  obtain ⟨sym, hsym, hname⟩ := Option.map_eq_some_iff.mp h
  rcases hfold s.mapSymbols none sym hsym with hnone | hmem
  · cases hnone
  · exact ⟨sym, hmem, hname⟩

/-- The bytes of a text with symbols in it: those of the text and of the symbols, and `#`. -/
def Brings (input : Str) (c : UInt8) : Prop :=
  c ∈ input ∨ c = 35 ∨ ∃ sym ∈ s.mapSymbols, c ∈ sym.name

theorem mem_operandText {captureGroup : Nat} {m : Match} {c : UInt8}
    (h : c ∈ s.operandText captureGroup m) : s.Brings m.text c := by
  unfold operandText at h
  split at h
  · exact Or.inl h
  · split at h
    · exact Or.inl h
    · rename_i sym hsym
      obtain ⟨x, hx, rfl⟩ := s.lookupSymbolExact_mem hsym
      rcases List.mem_append.mp h with h | h
      · split at h
        · exact Or.inr (Or.inl (List.mem_singleton.mp h))
        · cases h
      · exact Or.inr (Or.inr ⟨x, hx, h⟩)

/-- What is not replaced is kept. -/
theorem mem_replaceHexOperands {input : Str} {pattern : Regex} {captureGroup : Nat} {c : UInt8}
    (h : c ∈ s.replaceHexOperands input pattern captureGroup) : s.Brings input c := by
  have hjoin := allMatches_join pattern (input.length + 1) none input
  have hinput : ∀ x ∈ (matchesOf pattern input).1.flatMap (fun m => m.skipped ++ m.text) ++
      (matchesOf pattern input).2, x ∈ input := fun x hx => hjoin ▸ hx
  rcases List.mem_append.mp h with h | h
  · obtain ⟨m, hm, hc⟩ := List.mem_flatMap.mp h
    rcases List.mem_append.mp hc with hc | hc
    · refine Or.inl (hinput c (List.mem_append_left _ (List.mem_flatMap.mpr ⟨m, hm, ?_⟩)))
      exact List.mem_append_left _ hc
    · rcases s.mem_operandText hc with hc | hc
      · refine Or.inl (hinput c (List.mem_append_left _ (List.mem_flatMap.mpr ⟨m, hm, ?_⟩)))
        exact List.mem_append_right _ hc
      · exact Or.inr hc
  · exact Or.inl (hinput c (List.mem_append_right _ h))

theorem mem_symbolizeAsmLine {line : Str} {c : UInt8} (h : c ∈ s.symbolizeAsmLine line) :
    s.Brings line c := by
  unfold symbolizeAsmLine at h
  split at h
  · exact Or.inl h
  · dsimp only at h
    rcases s.mem_replaceHexOperands h with h | h
    · rcases s.mem_replaceHexOperands h with h | h
      · rcases s.mem_replaceHexOperands h with h | h
        · exact s.mem_replaceHexOperands h
        · exact Or.inr h
      · exact Or.inr h
    · exact Or.inr h

end Symbols

/-! ## The sweep -/

namespace Decoder

variable {d : Decoder} {mem : Memory} {s : Symbols}

/-- Where instruction `n` starts. -/
def start (d : Decoder) (mem : Memory) (n : Nat) : UInt32 := (d.nextAddr mem)^[n] 0

theorem start_succ (d : Decoder) (mem : Memory) (n : Nat) :
    d.start mem (n + 1) = d.nextAddr mem (d.start mem n) := by
  rw [start, start, Function.iterate_succ_apply']

/-- The 16-bit address of instruction `n`. -/
def startAddr (d : Decoder) (mem : Memory) (n : Nat) : UInt16 := UInt16.ofNat (d.start mem n).toNat

/-- The listing of the first `n` instructions. -/
def listed (d : Decoder) (mem : Memory) (s : Symbols) (n : Nat) : FullListing where
  content := unlines ((List.range n).map fun m => d.listingLine mem s (d.start mem m))
  addrs := (List.range n).map (d.startAddr mem)
  addrToLine := (∅ : Table UInt16 Int).assignAll
    ((List.range n).map fun m => (d.startAddr mem m, (m : Int) + 1))

/-- **The state after `n` rounds**, by induction on the rounds. -/
theorem built_eq (d : Decoder) (mem : Memory) (s : Symbols) (n : Nat) :
    (d.listInstruction mem s)^[n] {}
      = { addr := d.start mem n, line := (n : Int) + 1, listing := d.listed mem s n } := by
  induction n with
  | zero => rfl
  | succ n ih =>
    have hlisted : d.listed mem s (n + 1) =
        { content := (d.listed mem s n).content ++ (d.listingLine mem s (d.start mem n) ++ [10])
          addrs := (d.listed mem s n).addrs ++ [d.startAddr mem n]
          addrToLine := (d.listed mem s n).addrToLine.assign (d.startAddr mem n) ((n : Int) + 1) } := by
      simp only [listed, List.range_succ, List.map_append, List.map_cons, List.map_nil, unlines,
        List.flatMap_append, List.flatMap_singleton, Table.assignAll_append]
      rfl
    rw [Function.iterate_succ_apply', ih, listInstruction, hlisted, start_succ, Nat.cast_succ]
    rfl

theorem instrLength_lt (hint : ∀ pos, InInt (d.length mem pos)) (pos : UInt16) :
    1 ≤ d.instrLength mem pos ∧ d.instrLength mem pos < 2 ^ 31 := by
  obtain ⟨hlow, hhigh⟩ := hint pos
  unfold instrLength
  split
  · omega
  · decide

/-- An address inside the memory and the length of an instruction do not overflow. -/
theorem nextAddr_toNat (hint : ∀ pos, InInt (d.length mem pos)) {addr : UInt32}
    (h : addr.toNat < memorySize) :
    (d.nextAddr mem addr).toNat = addr.toNat + d.instrLength mem (UInt16.ofNat addr.toNat) := by
  obtain ⟨hpos, hlt⟩ := instrLength_lt hint (UInt16.ofNat addr.toNat)
  rw [memorySize] at h
  rw [nextAddr, UInt32.toNat_add, UInt32.toNat_ofNat', Nat.mod_eq_of_lt (by omega),
    Nat.mod_eq_of_lt (by omega)]

/-- **The sweep ends** after at most as many instructions as there are bytes. -/
theorem exists_stop (hint : ∀ pos, InInt (d.length mem pos)) :
    ∃ n, n ≤ memorySize ∧ (∀ m < n, (d.start mem m).toNat < memorySize) ∧
      memorySize ≤ (d.start mem n).toNat := by
  have hrise : ∀ addr, inside addr = true → addr.toNat < (d.nextAddr mem addr).toNat := by
    intro addr hgo
    have hpos := (instrLength_lt hint (UInt16.ofNat addr.toNat)).1
    rw [nextAddr_toNat hint (of_decide_eq_true hgo)]
    omega
  have hends := exists_of_rising UInt32.toNat memorySize hrise (fun addr hgo => of_decide_eq_true hgo) 0
  obtain ⟨n, hgo, hstop⟩ := exists_first_stop (d.nextAddr mem) inside 0 hends
  have hinside : ∀ m < n, (d.start mem m).toNat < memorySize := fun m hm =>
    of_decide_eq_true (hgo m hm)
  refine ⟨n, ?_, hinside, Nat.not_lt.mp (of_decide_eq_false hstop)⟩
  cases n with
  | zero => exact Nat.zero_le _
  | succ n =>
    have hlow : ∀ m ≤ n, m ≤ (d.start mem m).toNat := by
      intro m hm
      induction m with
      | zero => exact Nat.zero_le _
      | succ m ih =>
        have hstep := hrise (d.start mem m) (hgo m (by omega))
        have hbefore := ih (by omega)
        rw [start_succ]
        omega
    have hlast := hinside n (by omega)
    have hhigh := hlow n (Nat.le_refl n)
    omega

/-! ## Lines and addresses -/

/-- The starts rise up to the end of the memory. -/
theorem start_lt (hint : ∀ pos, InInt (d.length mem pos)) {n : Nat}
    (hinside : ∀ m < n, (d.start mem m).toNat < memorySize) {i j : Nat} (hij : i < j) (hj : j ≤ n) :
    (d.start mem i).toNat < (d.start mem j).toNat := by
  induction j with
  | zero => exact absurd hij (Nat.not_lt_zero i)
  | succ j ih =>
    have hlt := hinside j (by omega)
    have hnext := nextAddr_toNat hint hlt
    have hpos := (instrLength_lt hint (UInt16.ofNat (d.start mem j).toNat)).1
    rw [start_succ, hnext]
    rcases Nat.lt_or_eq_of_le (Nat.le_of_lt_succ hij) with hlt' | rfl
    · have hbefore := ih hlt' (by omega)
      omega
    · omega

theorem start_le (hint : ∀ pos, InInt (d.length mem pos)) {n : Nat}
    (hinside : ∀ m < n, (d.start mem m).toNat < memorySize) {i j : Nat} (hij : i ≤ j) (hj : j ≤ n) :
    (d.start mem i).toNat ≤ (d.start mem j).toNat := by
  rcases Nat.lt_or_eq_of_le hij with hlt | rfl
  · exact Nat.le_of_lt (start_lt hint hinside hlt hj)
  · exact Nat.le_refl _

theorem startAddr_toNat {n : Nat} (h : (d.start mem n).toNat < memorySize) :
    (d.startAddr mem n).toNat = (d.start mem n).toNat := by
  rw [startAddr, UInt16.toNat_ofNat']
  exact Nat.mod_eq_of_lt h

theorem startAddr_inj (hint : ∀ pos, InInt (d.length mem pos)) {n : Nat}
    (hinside : ∀ m < n, (d.start mem m).toNat < memorySize) {i j : Nat} (hi : i < n) (hj : j < n)
    (h : d.startAddr mem i = d.startAddr mem j) : i = j := by
  have heq : (d.start mem i).toNat = (d.start mem j).toNat := by
    rw [← startAddr_toNat (hinside i hi), ← startAddr_toNat (hinside j hj), h]
  rcases Nat.lt_trichotomy i j with hlt | heq' | hgt
  · have hrise := start_lt hint hinside hlt (Nat.le_of_lt hj)
    omega
  · exact heq'
  · have hrise := start_lt hint hinside hgt (Nat.le_of_lt hi)
    omega

theorem listed_addrs_get (n i : Nat) :
    (d.listed mem s n).addrs[i]? = if i < n then some (d.startAddr mem i) else none := by
  rw [listed, List.getElem?_map]
  split
  · rename_i h
    rw [List.getElem?_range h]
    rfl
  · rename_i h
    rw [List.getElem?_eq_none (by rw [List.length_range]; omega)]
    rfl

/-- **The line of an address**: one more than the instructions in front of it, or 1 where none
    starts. -/
theorem lineForAddr_listed (hint : ∀ pos, InInt (d.length mem pos)) {n : Nat}
    (hinside : ∀ m < n, (d.start mem m).toNat < memorySize) :
    (∀ i < n, (d.listed mem s n).lineForAddr (d.startAddr mem i) = (i : Int) + 1) ∧
      ∀ a, (∀ i < n, a ≠ d.startAddr mem i) → (d.listed mem s n).lineForAddr a = 1 := by
  have hlookup : ∀ k ≤ n, (∀ i < k,
      (d.listed mem s k).addrToLine.lookup (d.startAddr mem i) = some ((i : Int) + 1)) ∧
      ∀ a, (∀ i < k, a ≠ d.startAddr mem i) → (d.listed mem s k).addrToLine.lookup a = none := by
    intro k hk
    induction k with
    | zero => exact ⟨fun i hi => absurd hi (Nat.not_lt_zero i), fun a _ => AList.lookup_empty a⟩
    | succ k ih =>
      obtain ⟨hfound, hother⟩ := ih (by omega)
      have hassign : (d.listed mem s (k + 1)).addrToLine
          = (d.listed mem s k).addrToLine.assign (d.startAddr mem k) ((k : Int) + 1) := by
        simp only [listed, List.range_succ, List.map_append, List.map_cons, List.map_nil,
          Table.assignAll_append]
        rfl
      rw [hassign]
      refine ⟨fun i hi => ?_, fun a ha => ?_⟩
      · rw [Table.lookup_assign]
        by_cases heq : d.startAddr mem i = d.startAddr mem k
        · have hik := startAddr_inj hint hinside (by omega) (by omega) heq
          rw [if_pos heq, Option.some_or, hik]
        · have hik : i ≠ k := fun h => heq (by rw [h])
          rw [if_neg heq, Option.none_or, hfound i (by omega)]
      · rw [Table.lookup_assign, if_neg (ha k (by omega)), Option.none_or]
        exact hother a fun i hi => ha i (by omega)
  obtain ⟨hfound, hother⟩ := hlookup n (Nat.le_refl n)
  refine ⟨fun i hi => ?_, fun a ha => ?_⟩
  · rw [FullListing.lineForAddr, hfound i hi]
    rfl
  · rw [FullListing.lineForAddr, hother a ha]
    rfl

/-! ## The text -/

theorem isHexDigit_ne_newline {c : UInt8} (h : isHexDigit c = true) : c ≠ 10 := by
  rintro rfl
  exact absurd h (by decide)

/-- A line of the listing is one line. -/
theorem newline_not_mem_listingLine (htext : ∀ pos, (10 : UInt8) ∉ d.text mem pos)
    (hnames : ∀ sym ∈ s.mapSymbols, ∀ c ∈ sym.name, isSpace c = false) (addr : UInt32) :
    (10 : UInt8) ∉ d.listingLine mem s addr := by
  have hbytes : (10 : UInt8) ∉ d.listingBytes mem addr := by
    intro h
    rcases List.mem_append.mp h with h | h
    · obtain ⟨j, -, hj⟩ := List.mem_flatMap.mp h
      rcases List.mem_append.mp hj with hj | hj
      · exact isHexDigit_ne_newline (hexPadded_isHexDigit 2 _ _ hj) rfl
      · exact absurd (List.mem_singleton.mp hj) (by decide)
    · exact absurd (List.eq_of_mem_replicate h) (by decide)
  have hstates : (10 : UInt8) ∉ decimalPadded 2 (d.tstates mem (UInt16.ofNat addr.toNat)) := by
    intro h
    rcases List.mem_append.mp h with h | h
    · exact absurd (List.eq_of_mem_replicate h) (by decide)
    · rcases toString_chars _ _ h with h | h
      · exact absurd h (by decide)
      · exact absurd h (by decide)
  have hsymbols : (10 : UInt8) ∉ s.symbolizeAsmLine (d.text mem (UInt16.ofNat addr.toNat)) := by
    intro h
    rcases s.mem_symbolizeAsmLine h with h | h | ⟨sym, hsym, h⟩
    · exact htext _ h
    · exact absurd h (by decide)
    · exact absurd (hnames sym hsym 10 h) (by decide)
  intro h
  rcases List.mem_append.mp h with h | h
  · exact absurd h (by decide)
  rcases List.mem_append.mp h with h | h
  · exact isHexDigit_ne_newline (hexPadded_isHexDigit 6 _ _ h) rfl
  rcases List.mem_cons.mp h with h | h
  · exact absurd h (by decide)
  rcases List.mem_append.mp h with h | h
  · exact hbytes h
  rcases List.mem_append.mp h with h | h
  · exact absurd h (by decide)
  rcases List.mem_append.mp h with h | h
  · exact hstates h
  rcases List.mem_append.mp h with h | h
  · exact absurd h (by decide)
  · exact hsymbols h

theorem getLines_listed (htext : ∀ pos, (10 : UInt8) ∉ d.text mem pos)
    (hnames : ∀ sym ∈ s.mapSymbols, ∀ c ∈ sym.name, isSpace c = false) (n : Nat) :
    getLines (d.listed mem s n).content
      = (List.range n).map fun m => d.listingLine mem s (d.start mem m) := by
  refine getLines_unlines fun line hline => ?_
  obtain ⟨m, -, rfl⟩ := List.mem_map.mp hline
  exact newline_not_mem_listingLine htext hnames _

/-- What the loop returns: the listing of the instructions in the memory. -/
theorem buildFullListing_eq (hint : ∀ pos, InInt (d.length mem pos)) {fuel : Nat}
    (hfuel : memorySize < fuel) :
    ∃ n, d.buildFullListing mem s fuel = some (d.listed mem s n) ∧
      (∀ m < n, (d.start mem m).toNat < memorySize) ∧ memorySize ≤ (d.start mem n).toNat := by
  obtain ⟨n, hn, hinside, hstop⟩ := exists_stop hint
  refine ⟨n, ?_, hinside, hstop⟩
  have hrun : runWhile (d.listInstruction mem s) (fun b => inside b.addr) fuel {}
      = some ((d.listInstruction mem s)^[n] {}) := by
    refine runWhile_eq_some.mpr ⟨n, by omega, rfl, fun m hm => ?_, ?_⟩
    · rw [built_eq]
      exact decide_eq_true (hinside m hm)
    · rw [built_eq]
      exact decide_eq_false (Nat.not_lt.mpr hstop)
  rw [buildFullListing, hrun, Option.map_some, built_eq]

theorem instrLength_eq (d : Decoder) (mem : Memory) (pos : UInt16) :
    (d.instrLength mem pos : Int) = max 1 (d.length mem pos) := by
  unfold instrLength
  split <;> omega

/-- What a listing is to the memory: it parts it into instructions, and its lines and their addresses
    determine each other. -/
structure Lists (d : Decoder) (mem : Memory) (l : FullListing) : Prop where
  first : l.addrs[0]? = some 0
  next : ∀ (i : Nat) (a b : UInt16), l.addrs[i]? = some a → l.addrs[i + 1]? = some b →
    (b.toNat : Int) = a.toNat + max 1 (d.length mem a)
  last : ∃ a : UInt16, l.addrs.getLast? = some a ∧ 65535 < (a.toNat : Int) + max 1 (d.length mem a)
  lines : (getLines l.content).length = l.addrs.length
  line : ∀ (i : Nat) (a : UInt16), l.addrs[i]? = some a →
    ∃ rest, (getLines l.content)[i]? = some (str "    " ++ (hexPadded 6 a.toNat ++ rest))
  lineFor : ∀ (i : Nat) (a : UInt16), l.addrs[i]? = some a → l.lineForAddr a = (i : Int) + 1
  elsewhere : ∀ a : UInt16, a ∉ l.addrs → l.lineForAddr a = 1

theorem listed_lists (hint : ∀ pos, InInt (d.length mem pos))
    (htext : ∀ pos, (10 : UInt8) ∉ d.text mem pos)
    (hnames : ∀ sym ∈ s.mapSymbols, ∀ c ∈ sym.name, isSpace c = false) {n : Nat}
    (hinside : ∀ m < n, (d.start mem m).toNat < memorySize)
    (hstop : memorySize ≤ (d.start mem n).toNat) : d.Lists mem (d.listed mem s n) := by
  have hget : ∀ {i a}, (d.listed mem s n).addrs[i]? = some a → i < n ∧ a = d.startAddr mem i := by
    intro i a h
    rw [listed_addrs_get] at h
    split at h
    · rename_i hi
      exact ⟨hi, (Option.some.inj h).symm⟩
    · cases h
  have hstep : ∀ m < n, ((d.start mem (m + 1)).toNat : Int)
      = (d.startAddr mem m).toNat + max 1 (d.length mem (d.startAddr mem m)) := by
    intro m hm
    have hnext := nextAddr_toNat hint (hinside m hm)
    rw [start_succ, hnext, ← instrLength_eq, startAddr_toNat (hinside m hm), Nat.cast_add]
    rfl
  have hlines := getLines_listed htext hnames n
  -- the first instruction starts at 0, inside of the memory
  have hpos : 0 < n := by
    refine Nat.pos_of_ne_zero fun h => ?_
    subst h
    exact absurd hstop (show ¬ memorySize ≤ 0 by decide)
  obtain ⟨hfound, hother⟩ := lineForAddr_listed (s := s) hint hinside
  constructor
  case first =>
    rw [listed_addrs_get, if_pos hpos]
    rfl
  case next =>
    intro i a b ha hb
    obtain ⟨hi, rfl⟩ := hget ha
    obtain ⟨hi', rfl⟩ := hget hb
    rw [startAddr_toNat (hinside (i + 1) hi')]
    exact hstep i hi
  case last =>
    obtain ⟨m, rfl⟩ : ∃ m, n = m + 1 := ⟨n - 1, by omega⟩
    have haddrs : (d.listed mem s (m + 1)).addrs
        = (List.range m).map (d.startAddr mem) ++ [d.startAddr mem m] := by
      show (List.range (m + 1)).map (d.startAddr mem) = _
      rw [List.range_succ, List.map_append]
      rfl
    refine ⟨d.startAddr mem m, ?_, ?_⟩
    · rw [haddrs]
      exact List.getLast?_concat
    · have hend := hstep m (Nat.lt_succ_self m)
      rw [memorySize] at hstop
      omega
  case lines => rw [hlines, listed, List.length_map, List.length_map]
  case line =>
    intro i a ha
    obtain ⟨hi, rfl⟩ := hget ha
    rw [hlines, List.getElem?_map, List.getElem?_range hi, startAddr_toNat (hinside i hi)]
    exact ⟨_, rfl⟩
  case lineFor =>
    intro i a ha
    obtain ⟨hi, rfl⟩ := hget ha
    exact hfound i hi
  case elsewhere =>
    intro a ha
    refine hother a fun i hi heq => ha ?_
    rw [heq]
    exact List.mem_of_getElem? (by rw [listed_addrs_get, if_pos hi])

/-! ## Breakpoints and frames -/

/-- A breakpoint on one line of the listing arms its address. -/
theorem setSourceBreakpoints_listing {dbg : Dbg} {base : Str}
    (hpath : dbg.virtualLstPath = Dbg.virtualPath base) {i : Nat} {a : UInt16}
    (ha : dbg.fullListingAddrs[i]? = some a) (ref : Int) :
    (dbg.setSourceBreakpoints (Dbg.virtualPath base) ref [(i : Int) + 1]).2.asmBreakpoints = {a} ∧
      a ∈ (dbg.setSourceBreakpoints (Dbg.virtualPath base) ref [(i : Int) + 1]).2.allBreakpoints := by
  have hvirtual : dbg.isVirtual (Dbg.virtualPath base) = true := by
    rw [← hpath]
    exact (Dbg.isVirtual_iff (by rw [hpath]; exact Dbg.virtualPath_ne_nil base)).mpr rfl
  have hline : dbg.listingAddr ((i : Int) + 1) = some a := by
    refine Dbg.listingAddr_eq_some.mpr ⟨by omega, ?_⟩
    rwa [Int.add_sub_cancel, Int.toNat_natCast]
  have hasm : (dbg.setSourceBreakpoints (Dbg.virtualPath base) ref [(i : Int) + 1]).2
      = dbg.setAsmBreakpoints [a] := by
    rw [Dbg.setSourceBreakpoints, if_pos hvirtual, List.filterMap_cons_some hline]
    rfl
  rw [hasm]
  refine ⟨rfl, ?_⟩
  rw [Dbg.setAsmBreakpoints, Dbg.mem_rebuildAll]
  exact Or.inr (Or.inr (Or.inr (List.mem_toFinset.mpr (List.mem_singleton.mpr rfl))))

theorem getStack_listing {s : Symbols} {pc : UInt16}
    (h : s.hasCdb = false ∨ s.lookupSourceAny pc = none) (path : Str) (l : FullListing) :
    (getStack s path l pc).map FrameInfo.line = [l.lineForAddr pc] := by
  have hnone : (if s.hasCdb then s.lookupSourceAny pc else none) = none := by
    rcases h with h | h
    · rw [h]
      rfl
    · rw [h, ite_self]
  rw [getStack, hnone]
  rfl

/-- **The listing parts the memory, and lines and addresses are inverse**: for every memory and every
    decoder the loop ends, and what it has built is a listing of the memory; a breakpoint on a line
    arms its address alone, and where there is no source the frame shows that line exactly there,
    but for line 1, which it shows wherever no instruction of the listing starts as well. -/
theorem listing_inverse (hint : ∀ pos, InInt (d.length mem pos))
    (htext : ∀ pos, (10 : UInt8) ∉ d.text mem pos)
    (hnames : ∀ sym ∈ s.mapSymbols, ∀ c ∈ sym.name, isSpace c = false) {fuel : Nat}
    (hfuel : memorySize < fuel) :
    ∃ l, d.buildFullListing mem s fuel = some l ∧ d.Lists mem l ∧
      ∀ (dbg : Dbg) (base : Str), dbg.virtualLstPath = Dbg.virtualPath base →
        dbg.fullListingAddrs = l.addrs → ∀ (ref : Int) (i : Nat) a, l.addrs[i]? = some a →
        (dbg.setSourceBreakpoints (Dbg.virtualPath base) ref [(i : Int) + 1]).2.asmBreakpoints = {a} ∧
        a ∈ (dbg.setSourceBreakpoints (Dbg.virtualPath base) ref [(i : Int) + 1]).2.allBreakpoints ∧
        ∀ pc, (dbg.symbols.hasCdb = false ∨ dbg.symbols.lookupSourceAny pc = none) →
          ((getStack dbg.symbols dbg.virtualLstPath l pc).map FrameInfo.line = [(i : Int) + 1] ↔
            pc = a ∨ (i = 0 ∧ pc ∉ l.addrs)) := by
  obtain ⟨n, hbuilt, hinside, hstop⟩ := buildFullListing_eq (s := s) hint hfuel
  have hlists := listed_lists hint htext hnames hinside hstop
  refine ⟨d.listed mem s n, hbuilt, hlists, ?_⟩
  intro dbg base hpath haddrs ref i a ha
  obtain ⟨hasm, hall⟩ := setSourceBreakpoints_listing hpath (haddrs ▸ ha) ref
  refine ⟨hasm, hall, fun pc hpc => ?_⟩
  rw [getStack_listing hpc, List.singleton_inj]
  constructor
  · intro hline
    by_cases hmem : pc ∈ (d.listed mem s n).addrs
    · obtain ⟨j, hj⟩ := List.getElem?_of_mem hmem
      rw [hlists.lineFor j pc hj] at hline
      obtain rfl : j = i := by omega
      exact Or.inl (Option.some.inj (hj.symm.trans ha))
    · rw [hlists.elsewhere pc hmem] at hline
      exact Or.inr ⟨by omega, hmem⟩
  · rintro (rfl | ⟨rfl, hmem⟩)
    · exact hlists.lineFor i pc ha
    · exact hlists.elsewhere pc hmem

theorem loadDecoder_int (pos : UInt16) : InInt (loadDecoder.length (fun _ => 1) pos) := by
  show InInt 3
  exact ⟨by decide, by decide⟩

theorem loadDecoder_text (pos : UInt16) : (10 : UInt8) ∉ loadDecoder.text (fun _ => 1) pos := by
  show (10 : UInt8) ∉ str "LD BC,#0x0101"
  decide

/-- The listing of a memory of `LD BC,nn`. -/
theorem listing_inverse_load :
    ∃ l, loadDecoder.buildFullListing (fun _ => 1) {} 65537 = some l ∧
      loadDecoder.Lists (fun _ => 1) l ∧
      ∀ (dbg : Dbg) (base : Str), dbg.virtualLstPath = Dbg.virtualPath base →
        dbg.fullListingAddrs = l.addrs → ∀ (ref : Int) (i : Nat) a, l.addrs[i]? = some a →
        (dbg.setSourceBreakpoints (Dbg.virtualPath base) ref [(i : Int) + 1]).2.asmBreakpoints = {a} ∧
        a ∈ (dbg.setSourceBreakpoints (Dbg.virtualPath base) ref [(i : Int) + 1]).2.allBreakpoints ∧
        ∀ pc, (dbg.symbols.hasCdb = false ∨ dbg.symbols.lookupSourceAny pc = none) →
          ((getStack dbg.symbols dbg.virtualLstPath l pc).map FrameInfo.line = [(i : Int) + 1] ↔
            pc = a ∨ (i = 0 ∧ pc ∉ l.addrs)) :=
  listing_inverse loadDecoder_int loadDecoder_text (fun sym hsym => absurd hsym List.not_mem_nil)
    (by decide)

/-- There line 1 is address 0, and it is shown for address 1, too, which is inside of its
    instruction. -/
theorem first_line_shown_elsewhere :
    ∃ l, loadDecoder.buildFullListing (fun _ => 1) {} 65537 = some l ∧ l.addrs[0]? = some 0 ∧
      ((Dbg.loaded {} (str "clock") l.addrs).setSourceBreakpoints (Dbg.virtualPath (str "clock")) 0 [1]).2.asmBreakpoints
        = {0} ∧
      (getStack {} (Dbg.virtualPath (str "clock")) l 1).map FrameInfo.line = [1] := by
  obtain ⟨n, hbuilt, hinside, hstop⟩ :=
    buildFullListing_eq (s := {}) loadDecoder_int (show memorySize < 65537 by decide)
  have hlists := listed_lists (s := {}) loadDecoder_int loadDecoder_text (fun sym hsym => absurd hsym List.not_mem_nil)
    hinside hstop
  refine ⟨_, hbuilt, hlists.first, ?_, ?_⟩
  · exact (setSourceBreakpoints_listing (i := 0) rfl hlists.first 0).1
  · rw [getStack_listing (Or.inl rfl), hlists.elsewhere 1 ?_]
    intro hmem
    obtain ⟨m, hm, hstart⟩ := List.mem_map.mp hmem
    have haddr := startAddr_toNat (hinside m (List.mem_range.mp hm))
    rw [hstart] at haddr
    have hsecond : (loadDecoder.start (fun _ => 1) 1).toNat = 3 := by decide
    rcases Nat.lt_trichotomy m 1 with hlt | rfl | hgt
    · obtain rfl : m = 0 := by omega
      exact absurd haddr (by decide)
    · rw [hsecond] at haddr
      exact absurd haddr (by decide)
    · have hrise := start_lt loadDecoder_int hinside hgt (Nat.le_of_lt (List.mem_range.mp hm))
      rw [hsecond, ← haddr] at hrise
      exact absurd hrise (by decide)

/-! ## The line of any PC -/

/-- Line `i + 1` is the one whose bytes contain `pc`, and the last one that does not start behind
    it. -/
def Contains (d : Decoder) (mem : Memory) (l : FullListing) (pc : UInt16) (i : Nat) : Prop :=
  ∃ a, l.addrs[i]? = some a ∧ a.toNat ≤ pc.toNat ∧
    (pc.toNat : Int) < a.toNat + max 1 (d.length mem a) ∧
    ∀ (j : Nat) b, l.addrs[j]? = some b → b.toNat ≤ pc.toNat → j ≤ i

/-- The sweep from address 0 starts an instruction at `pc`. -/
def Starts (d : Decoder) (mem : Memory) (pc : UInt16) : Prop :=
  ∃ n, (∀ m < n, (d.start mem m).toNat < memorySize) ∧ (d.start mem n).toNat = pc.toNat

theorem Contains.unique {l : FullListing} {pc : UInt16} {i j : Nat} (hi : d.Contains mem l pc i)
    (hj : d.Contains mem l pc j) : i = j := by
  obtain ⟨a, ha, hale, -, halast⟩ := hi
  obtain ⟨b, hb, hble, -, hblast⟩ := hj
  have h1 := halast j b hb hble
  have h2 := hblast i a ha hale
  omega

/-- The instruction that `pc` is in: the sweep starts it at or in front of `pc`, and the next one
    behind it. -/
theorem exists_around {n : Nat} (hstop : memorySize ≤ (d.start mem n).toNat) (pc : UInt16) :
    ∃ i < n, (d.start mem i).toNat ≤ pc.toNat ∧ pc.toNat < (d.start mem (i + 1)).toNat := by
  have hpc := inMemory pc
  obtain ⟨k, hgo, hbehind⟩ := exists_first_stop (d.nextAddr mem)
    (fun addr => decide (addr.toNat ≤ pc.toNat)) 0 ⟨n, decide_eq_false (by
      show ¬ (d.start mem n).toNat ≤ pc.toNat
      omega)⟩
  have hlow : ∀ m < k, (d.start mem m).toNat ≤ pc.toNat := fun m hm => of_decide_eq_true (hgo m hm)
  have hhigh : ¬ (d.start mem k).toNat ≤ pc.toNat := of_decide_eq_false hbehind
  -- it is not the first start, which is address 0, and not behind the last
  have hpos : k ≠ 0 := by
    rintro rfl
    exact hhigh (Nat.zero_le _)
  have hle : k ≤ n := by
    by_contra hlt
    have hin := hlow n (by omega)
    omega
  obtain ⟨i, rfl⟩ : ∃ i, k = i + 1 := ⟨k - 1, by omega⟩
  exact ⟨i, by omega, hlow i (by omega), by omega⟩

section
variable {n : Nat} (hint : ∀ pos, InInt (d.length mem pos))
  (hinside : ∀ m < n, (d.start mem m).toNat < memorySize)
include hint hinside

/-- That is the line whose bytes contain `pc`. -/
theorem contains_listed {pc : UInt16} {i : Nat} (hi : i < n)
    (hle : (d.start mem i).toNat ≤ pc.toNat) (hlt : pc.toNat < (d.start mem (i + 1)).toNat) :
    d.Contains mem (d.listed mem s n) pc i := by
  have haddr := startAddr_toNat (hinside i hi)
  have hnext := nextAddr_toNat hint (hinside i hi)
  have hlength := d.instrLength_eq mem (d.startAddr mem i)
  rw [start_succ, hnext] at hlt
  refine ⟨d.startAddr mem i, by rw [listed_addrs_get, if_pos hi], by omega, ?_, ?_⟩
  · show _ < _ + max 1 (d.length mem (d.startAddr mem i))
    rw [← hlength, haddr]
    exact_mod_cast hlt
  · intro j b hb hble
    rw [listed_addrs_get] at hb
    split at hb
    · rename_i hj
      obtain rfl := Option.some.inj hb
      rw [startAddr_toNat (hinside j hj)] at hble
      by_contra hgt
      have hrise := start_le hint hinside (show i + 1 ≤ j by omega) (Nat.le_of_lt hj)
      rw [start_succ, hnext] at hrise
      omega
    · cases hb

/-- **The line that is given**: that of the start at `pc`, or 1. -/
theorem lineForAddr_around {pc : UInt16} {i : Nat} (hi : i < n)
    (hle : (d.start mem i).toNat ≤ pc.toNat) (hlt : pc.toNat < (d.start mem (i + 1)).toNat) :
    (d.listed mem s n).lineForAddr pc = (i : Int) + 1 ↔
      d.Starts mem pc ∨ (pc.toNat : Int) < max 1 (d.length mem 0) := by
  obtain ⟨hfound, hother⟩ := lineForAddr_listed (s := s) hint hinside
  have hfirst : ((d.start mem 1).toNat : Int) = max 1 (d.length mem 0) := by
    have hnext := nextAddr_toNat hint (hinside 0 (by omega))
    rw [start_succ, hnext, ← instrLength_eq, show (d.start mem 0).toNat = 0 from rfl, Nat.zero_add]
    rfl
  by_cases hstart : (d.start mem i).toNat = pc.toNat
  · have hpc : pc = d.startAddr mem i := by
      apply UInt16.toNat_inj.mp
      rw [startAddr_toNat (hinside i hi), hstart]
    refine iff_of_true ?_ (Or.inl ⟨i, fun m hm => hinside m (by omega), hstart⟩)
    rw [hpc]
    exact hfound i hi
  · -- between two starts nothing is in the map
    have hnone : ∀ j, (∀ m < j, (d.start mem m).toNat < memorySize) →
        (d.start mem j).toNat ≠ pc.toNat := by
      intro j hj heq
      rcases Nat.lt_trichotomy j i with hbefore | rfl | hbehind
      · have hrise := start_lt hint hinside hbefore (Nat.le_of_lt hi)
        omega
      · exact hstart heq
      · have hrise := start_le hint hj (show i + 1 ≤ j from hbehind) (Nat.le_refl j)
        omega
    have hone : (d.listed mem s n).lineForAddr pc = 1 := by
      refine hother pc ?_
      intro j hj heq
      apply hnone j (fun m hm => hinside m (by omega))
      rw [heq, startAddr_toNat (hinside j hj)]
    rw [hone, or_iff_right (fun ⟨j, hj, heq⟩ => hnone j hj heq)]
    constructor
    · intro hline
      obtain rfl : i = 0 := by omega
      rw [Nat.zero_add] at hlt
      omega
    · intro hin
      have hzero : i = 0 := by
        by_contra hne
        have hrise := start_le hint hinside (show 1 ≤ i by omega) (Nat.le_of_lt hi)
        omega
      rw [hzero]
      rfl

end

/-- **When the frame shows the right line of the listing.**  For every memory and every PC without a
    source location there is one line whose bytes contain PC, and the frame shows it if and only if
    the sweep from address 0 starts an instruction at PC, or PC is inside of the first one. -/
theorem frame_line_iff (hint : ∀ pos, InInt (d.length mem pos)) {fuel : Nat}
    (hfuel : memorySize < fuel) :
    ∃ l, d.buildFullListing mem s fuel = some l ∧
      ∀ (symbols : Symbols) (path : Str) (pc : UInt16),
        (symbols.hasCdb = false ∨ symbols.lookupSourceAny pc = none) →
        ∃ i, d.Contains mem l pc i ∧ (∀ j, d.Contains mem l pc j → j = i) ∧
          ((getStack symbols path l pc).map FrameInfo.line = [(i : Int) + 1] ↔
            d.Starts mem pc ∨ (pc.toNat : Int) < max 1 (d.length mem 0)) := by
  obtain ⟨n, hbuilt, hinside, hstop⟩ := buildFullListing_eq (s := s) hint hfuel
  refine ⟨d.listed mem s n, hbuilt, ?_⟩
  intro symbols path pc hpc
  obtain ⟨i, hi, hle, hlt⟩ := exists_around hstop pc
  have hcontains := contains_listed (s := s) hint hinside hi hle hlt
  refine ⟨i, hcontains, fun j hj => hj.unique hcontains, ?_⟩
  rw [getStack_listing hpc, List.singleton_inj]
  exact lineForAddr_around hint hinside hi hle hlt

/-- In a memory of `LD BC,nn` the sweep starts an instruction at address 3. -/
theorem frame_line_start :
    ∃ l, loadDecoder.buildFullListing (fun _ => 1) {} 65537 = some l ∧
      ∃ i : Nat, loadDecoder.Contains (fun _ => 1) l 3 i ∧
        (getStack {} (str "/__virtual__/clock.asm") l 3).map FrameInfo.line = [(i : Int) + 1] := by
  obtain ⟨l, hbuilt, hlines⟩ :=
    frame_line_iff (s := {}) loadDecoder_int (show memorySize < 65537 by decide)
  obtain ⟨i, hcontains, -, hiff⟩ := hlines {} (str "/__virtual__/clock.asm") 3 (Or.inl rfl)
  refine ⟨l, hbuilt, i, hcontains, hiff.mpr (Or.inl ⟨1, ?_, by decide⟩)⟩
  intro m hm
  obtain rfl : m = 0 := by omega
  decide

/-- A PC of 4 is inside of the second line there, but the first one is shown. -/
theorem frame_line_inside :
    ∃ l, loadDecoder.buildFullListing (fun _ => 1) {} 65537 = some l ∧
      loadDecoder.Contains (fun _ => 1) l 4 1 ∧
      (getStack {} (str "/__virtual__/clock.asm") l 4).map FrameInfo.line = [1] := by
  obtain ⟨n, hbuilt, hinside, hstop⟩ :=
    buildFullListing_eq (s := {}) loadDecoder_int (show memorySize < 65537 by decide)
  have hone : (loadDecoder.start (fun _ => 1) 1).toNat = 3 := by decide
  have htwo : (loadDecoder.start (fun _ => 1) 2).toNat = 6 := by decide
  obtain ⟨i, hi, hle, hlt⟩ := exists_around hstop 4
  rw [show (4 : UInt16).toNat = 4 from rfl] at hle hlt
  have hlow : ¬ i = 0 := by
    rintro rfl
    rw [hone] at hlt
    omega
  have hhigh : ¬ 2 ≤ i := by
    intro hge
    have hrise := start_le loadDecoder_int hinside hge (Nat.le_of_lt hi)
    omega
  obtain rfl : i = 1 := by omega
  refine ⟨_, hbuilt, contains_listed loadDecoder_int hinside hi hle hlt, ?_⟩
  rw [getStack_listing (Or.inl rfl), List.singleton_inj]
  refine (lineForAddr_listed loadDecoder_int hinside).2 4 ?_
  intro j hj heq
  have haddr := startAddr_toNat (hinside j hj)
  rw [← heq, show (4 : UInt16).toNat = 4 from rfl] at haddr
  rcases Nat.lt_trichotomy j 1 with hbefore | rfl | hbehind
  · obtain rfl : j = 0 := by omega
    exact absurd haddr (by decide)
  · omega
  · have hrise := start_le loadDecoder_int hinside (show 2 ≤ j from hbehind) (Nat.le_of_lt hj)
    omega

end Decoder

end Udap
