/-
  LISTING AS TEXT — does what the client shows say what is in the memory?

  The client gets the listing as text and the disassembly view as instructions.  Both print bytes in
  capital digits behind an address.

  1. **Reading** — `shownAddress` and `shownBytes` read the columns of a line; `readBytes` stops at the first
     place without two digits and a blank, so it takes instructions of any length.

  2. **Round trip** — the bytes of all lines, one line behind the other, are the memory, and the addresses
     are those of the lines (`listing_text`); so no other memory has this text.

  3. **Agreement** — the instructions that the view shows from a line on are the next lines
     (`listing_disassembled`).
-/
import Udap.Dbg.Listing

set_option linter.unusedVariables false

namespace Udap

open Udap.Cxx Udap.Dap Udap.Sdcc

/-! ## Reading -/

/-- The bytes at the front of a text: two digits and a blank, as often as they follow. -/
def readBytes : Str → List UInt8
  | a :: b :: c :: rest =>
    if isHexDigit a && isHexDigit b && c == 32 then
      UInt8.ofNat ((readDigits 16 [a, b] none).getD 0) :: readBytes rest
    else []
  | _ => []

/-- The address of a line of the listing, behind four blanks. -/
def shownAddress (line : Str) : Option Nat := readDigits 16 ((line.drop 4).take 6) none

/-- The bytes of a line, behind its address. -/
def shownBytes (line : Str) : List UInt8 := readBytes (line.drop 11)

theorem readBytes_blank (rest : Str) : readBytes (32 :: rest) = [] := by
  have hblank : isHexDigit 32 = false := by decide
  cases rest with
  | nil => rfl
  | cons b rest =>
    cases rest with
    | nil => rfl
    | cons c rest =>
      rw [readBytes, hblank, Bool.false_and, Bool.false_and, if_neg Bool.false_ne_true]

/-- One byte as it is printed. -/
theorem readBytes_cons (b : UInt8) (rest : Str) :
    readBytes (hexPadded 2 b.toNat ++ 32 :: rest) = b :: readBytes rest := by
  have hlength : (hexPadded 2 b.toNat).length = 2 := hexPadded_length (by decide) b.toNat_lt
  obtain ⟨h, l, hdigits⟩ := List.length_eq_two.mp hlength
  have hhex := hexPadded_isHexDigit 2 b.toNat
  have hread := readDigits_hexPadded 2 b.toNat
  rw [hdigits] at hhex hread ⊢
  obtain ⟨hh, hhex⟩ := List.forall_mem_cons.mp hhex
  obtain ⟨hl, -⟩ := List.forall_mem_cons.mp hhex
  rw [List.cons_append, List.cons_append, List.nil_append, readBytes, hh, hl, hread]
  exact congrArg (· :: readBytes rest) (UInt8.ofNat_toNat)

/-- **Bytes are read back.** -/
theorem readBytes_printed (bs : List UInt8) {rest : Str} (hrest : readBytes rest = []) :
    readBytes (bs.flatMap (fun b => hexPadded 2 b.toNat ++ [32]) ++ rest) = bs := by
  induction bs with
  | nil => exact hrest
  | cons b bs ih =>
    rw [List.flatMap_cons, List.append_assoc, List.append_assoc, List.singleton_append,
      readBytes_cons, ih]

namespace Decoder

variable {d : Decoder} {mem : Memory} {s : Symbols}

/-! ## One line -/

/-- The bytes of the instruction at an address, up to the end of the memory. -/
def instrMemory (d : Decoder) (mem : Memory) (addr : Nat) : List UInt8 :=
  (List.range (min (d.instrLength mem (UInt16.ofNat addr)) (memorySize - addr))).map fun j =>
    mem (UInt16.ofNat (addr + j))

theorem shownBytes_listingLine {addr : UInt32} (h : addr.toNat < memorySize) :
    shownBytes (d.listingLine mem s addr) = d.instrMemory mem addr.toNat := by
  have hlength : (hexPadded 6 addr.toNat).length = 6 :=
    hexPadded_length (by decide) (Nat.lt_trans h (by decide))
  obtain ⟨tail, htail⟩ : ∃ tail, d.listingLine mem s addr
      = (str "    " ++ hexPadded 6 addr.toNat ++ [32]) ++ (d.listingBytes mem addr ++ 32 :: tail) := by
    refine ⟨str " [" ++ (decimalPadded 2 (d.tstates mem (UInt16.ofNat addr.toNat)) ++ (str "]   " ++
      s.symbolizeAsmLine (d.text mem (UInt16.ofNat addr.toNat)))), ?_⟩
    rw [List.append_assoc, List.append_assoc]
    rfl
  have hdrop : (d.listingLine mem s addr).drop 11 = d.listingBytes mem addr ++ 32 :: tail := by
    rw [htail]
    refine List.drop_left' ?_
    rw [List.length_append, List.length_append, hlength]
    rfl
  -- behind the bytes there is a blank, of the filling or of what follows
  obtain ⟨rest, hrest⟩ : ∃ rest, List.replicate (12 - 3 * min (d.instrLength mem
      (UInt16.ofNat addr.toNat)) (memorySize - addr.toNat)) 32 ++ 32 :: tail = 32 :: rest := by
    cases 12 - 3 * min (d.instrLength mem (UInt16.ofNat addr.toNat)) (memorySize - addr.toNat) with
    | zero => exact ⟨tail, rfl⟩
    | succ n => exact ⟨List.replicate n 32 ++ 32 :: tail, by rw [List.replicate_succ]; rfl⟩
  rw [shownBytes, hdrop, listingBytes, List.append_assoc, hrest,
    ← List.flatMap_map (f := fun j => mem (UInt16.ofNat (addr.toNat + j)))
      (g := fun b => hexPadded 2 b.toNat ++ [32])]
  exact readBytes_printed _ (readBytes_blank rest)

theorem shownAddress_listingLine {addr : UInt32} (h : addr.toNat < memorySize) :
    shownAddress (d.listingLine mem s addr) = some addr.toNat := by
  have hlength : (hexPadded 6 addr.toNat).length = 6 :=
    hexPadded_length (by decide) (Nat.lt_trans h (by decide))
  have hblanks : (str "    ").length = 4 := rfl
  have hline : ((d.listingLine mem s addr).drop 4).take 6 = hexPadded 6 addr.toNat := by
    rw [listingLine, List.drop_left' hblanks, List.take_left' hlength]
  rw [shownAddress, hline, readDigits_hexPadded]

/-! ## All lines -/

/-- The bytes of the first instructions are those in front of the next one. -/
theorem flatMap_instrMemory (hint : ∀ pos, InInt (d.length mem pos)) {n : Nat}
    (hinside : ∀ m < n, (d.start mem m).toNat < memorySize) :
    (List.range n).flatMap (fun m => d.instrMemory mem (d.start mem m).toNat)
      = (List.range (min memorySize (d.start mem n).toNat)).map fun a => mem (UInt16.ofNat a) := by
  induction n with
  | zero => rfl
  | succ n ih =>
    have hlt := hinside n (Nat.lt_succ_self n)
    have hnext := nextAddr_toNat hint hlt
    have hsum : min memorySize (d.start mem (n + 1)).toNat = (d.start mem n).toNat
        + min (d.instrLength mem (UInt16.ofNat (d.start mem n).toNat))
          (memorySize - (d.start mem n).toNat) := by
      rw [start_succ, hnext]
      omega
    rw [List.range_succ, List.flatMap_append, ih fun m hm => hinside m (by omega),
      List.flatMap_singleton, hsum, List.range_add, List.map_append, Nat.min_eq_right (by omega),
      List.map_map]
    rfl

/-- **The text of the listing is the memory**: for every memory, decoder and symbols the bytes of the
    lines, one line behind the other, are those of the memory, the addresses in front of them are those
    of the listing, and no other memory has this text. -/
theorem listing_text (hint : ∀ mem pos, InInt (d.length mem pos))
    (htext : ∀ mem pos, (10 : UInt8) ∉ d.text mem pos)
    (hnames : ∀ sym ∈ s.mapSymbols, ∀ c ∈ sym.name, isSpace c = false) {fuel : Nat}
    (hfuel : memorySize < fuel) (mem : Memory) :
    ∃ l, d.buildFullListing mem s fuel = some l ∧
      (getLines l.content).flatMap shownBytes
        = (List.range memorySize).map (fun a => mem (UInt16.ofNat a)) ∧
      (getLines l.content).map shownAddress = l.addrs.map (fun a => some a.toNat) ∧
      ∀ mem' l', d.buildFullListing mem' s fuel = some l' → l'.content = l.content → mem' = mem := by
  have hbytes : ∀ mem, ∃ l, d.buildFullListing mem s fuel = some l ∧
      (getLines l.content).flatMap shownBytes
        = (List.range memorySize).map (fun a => mem (UInt16.ofNat a)) ∧
      (getLines l.content).map shownAddress = l.addrs.map (fun a => some a.toNat) := by
    intro mem
    obtain ⟨n, hbuilt, hinside, hstop⟩ := buildFullListing_eq (s := s) (hint mem) hfuel
    refine ⟨d.listed mem s n, hbuilt, ?_, ?_⟩
    · have hlines : ((List.range n).map fun m => d.listingLine mem s (d.start mem m)).flatMap shownBytes
          = (List.range n).flatMap fun m => d.instrMemory mem (d.start mem m).toNat := by
        rw [List.flatMap_map]
        refine List.flatMap_congr fun m hm => ?_
        exact shownBytes_listingLine (hinside m (List.mem_range.mp hm))
      rw [getLines_listed (htext mem) hnames, hlines, flatMap_instrMemory (hint mem) hinside,
        Nat.min_eq_left hstop]
    · rw [getLines_listed (htext mem) hnames, listed, List.map_map, List.map_map]
      refine List.map_congr_left fun m hm => ?_
      have hlt := hinside m (List.mem_range.mp hm)
      exact (shownAddress_listingLine hlt).trans (congrArg some (startAddr_toNat hlt).symm)
  obtain ⟨l, hbuilt, hread, haddrs⟩ := hbytes mem
  refine ⟨l, hbuilt, hread, haddrs, fun mem' l' hbuilt' hcontent => ?_⟩
  obtain ⟨l₁, hl₁, hread', -⟩ := hbytes mem'
  obtain rfl : l₁ = l' := Option.some.inj (hl₁.symm.trans hbuilt')
  rw [hcontent, hread] at hread'
  funext a
  have hsame := List.map_inj_left.mp hread' a.toNat (List.mem_range.mpr a.toNat_lt)
  rwa [UInt16.ofNat_toNat, eq_comm] at hsame

theorem loadDecoder_lengths (mem : Memory) (pos : UInt16) : InInt (loadDecoder.length mem pos) := by
  have hpos := loadDecoder_lawful.length_pos mem pos
  have hle := loadDecoder_lawful.length_le mem pos
  exact ⟨by omega, by omega⟩

theorem loadDecoder_texts (mem : Memory) (pos : UInt16) : (10 : UInt8) ∉ loadDecoder.text mem pos := by
  show (10 : UInt8) ∉ if mem pos = 0x01 then str "LD BC,#0x0101" else str "NOP"
  split <;> decide

/-- A memory of `LD BC,nn`, all of whose bytes are 1. -/
theorem listing_text_load :
    ∃ l, loadDecoder.buildFullListing (fun _ => 1) {} 65537 = some l ∧
      (getLines l.content).flatMap shownBytes = (List.range memorySize).map (fun _ => 1) ∧
      (getLines l.content).map shownAddress = l.addrs.map (fun a => some a.toNat) ∧
      ∀ mem' l', loadDecoder.buildFullListing mem' {} 65537 = some l' → l'.content = l.content →
        mem' = fun _ => 1 :=
  listing_text loadDecoder_lengths loadDecoder_texts (fun sym hsym => absurd hsym List.not_mem_nil)
    (by decide) (fun _ => 1)

/-! ## The view -/

/-- The next instruction of the view is that of the listing. -/
theorem next_startAddr (hint : ∀ pos, InInt (d.length mem pos)) {n : Nat}
    (h : (d.start mem n).toNat < memorySize) :
    d.next mem (d.startAddr mem n) = d.startAddr mem (n + 1) := by
  have hnext := nextAddr_toNat hint h
  rw [next, startAddr, startAddr, start_succ, hnext, UInt16.ofNat_add]

/-- **The instructions of the view** from an instruction of the listing on. -/
theorem instrInfos_listed (hint : ∀ pos, InInt (d.length mem pos)) {i k : Nat}
    (hinside : ∀ m < i + k, (d.start mem m).toNat < memorySize) :
    d.instrInfos mem s k (d.startAddr mem i)
      = (List.range' i k).map fun m => d.instrInfo mem s (d.startAddr mem m) := by
  induction k generalizing i with
  | zero => rfl
  | succ k ih =>
    have hrest := ih (i := i + 1) fun m hm => hinside m (by omega)
    rw [instrInfos, if_pos (inMemory _), next_startAddr hint (hinside i (by omega)), hrest]
    rfl

/-- Where the view starts if instructions are to be passed over. -/
theorem iterate_next_startAddr (hint : ∀ pos, InInt (d.length mem pos)) {i n : Nat}
    (hinside : ∀ m < i + n, (d.start mem m).toNat < memorySize) :
    (d.next mem)^[n] (d.startAddr mem i) = d.startAddr mem (i + n) := by
  induction n with
  | zero => rfl
  | succ n ih =>
    rw [Function.iterate_succ_apply', ih fun m hm => hinside m (by omega)]
    exact next_startAddr hint (hinside (i + n) (by omega))

/-- The bytes of the view, with a blank behind the last as there is between them. -/
theorem readBytes_instrBytes (hint : ∀ pos, InInt (d.length mem pos)) (addr : UInt16) :
    readBytes (d.instrBytes mem addr ++ [32]) = d.instrMemory mem addr.toNat := by
  have hjoin : ∀ parts : List Str, parts ≠ [] →
      List.intercalate [32] parts ++ [32] = parts.flatMap fun part => part ++ [32] := by
    intro parts
    induction parts with
    | nil => exact fun hne => absurd rfl hne
    | cons part parts ih =>
      intro _
      cases parts with
      | nil => simp
      | cons part' parts =>
        have hrest := ih (List.cons_ne_nil _ _)
        rw [List.flatMap_cons, ← hrest]
        simp [List.intercalate]
  have hpos := (instrLength_lt hint addr).1
  have hlt := addr.toNat_lt
  have hcount : 0 < min (d.instrLength mem addr) (memorySize - addr.toNat) := by
    rw [memorySize]
    omega
  have hne : (List.range (min (d.instrLength mem addr) (memorySize - addr.toNat))).map
      (fun j => hexPadded 2 (mem (addr + UInt16.ofNat j)).toNat) ≠ [] := by
    rw [ne_eq, List.map_eq_nil_iff, List.range_eq_nil]
    omega
  have hbytes : ∀ j, mem (addr + UInt16.ofNat j) = mem (UInt16.ofNat (addr.toNat + j)) := by
    intro j
    rw [UInt16.ofNat_add, UInt16.ofNat_toNat]
  have hnil : readBytes [] = [] := rfl
  have hread := readBytes_printed (d.instrMemory mem addr.toNat) hnil
  rw [List.append_nil, instrMemory, List.flatMap_map, UInt16.ofNat_toNat] at hread
  rw [instrBytes, hjoin _ hne, List.flatMap_map, instrMemory, UInt16.ofNat_toNat]
  simp only [hbytes]
  exact hread

/-- **The view agrees with the listing**: from a line of the listing on, over as many instructions as
    are to be passed over, the instructions that it shows have the addresses and the bytes of the lines
    there, as long as there are so many. -/
theorem listing_disassembled (hint : ∀ pos, InInt (d.length mem pos))
    (htext : ∀ pos, (10 : UInt8) ∉ d.text mem pos)
    (hnames : ∀ sym ∈ s.mapSymbols, ∀ c ∈ sym.name, isSpace c = false) {fuel : Nat}
    (hfuel : memorySize < fuel) :
    ∃ l, d.buildFullListing mem s fuel = some l ∧
      ∀ (i n k : Nat) (a : UInt16) (fuel' : Nat), l.addrs[i]? = some a →
        i + n + k ≤ l.addrs.length →
        ∃ infos, d.disassemble mem s fuel' a.toNat 0 n k = .ok infos ∧
          infos.map (fun x => x.address) = ((l.addrs.drop (i + n)).take k).map (formatHex · 4) ∧
          infos.map (fun x => readBytes (x.instructionBytes ++ [32]))
            = (((getLines l.content).drop (i + n)).take k).map shownBytes := by
  obtain ⟨count, hbuilt, hinside, hstop⟩ := buildFullListing_eq (s := s) hint hfuel
  refine ⟨d.listed mem s count, hbuilt, fun i n k a fuel' ha hlength => ?_⟩
  have hcount : (d.listed mem s count).addrs.length = count := by
    rw [listed, List.length_map, List.length_range]
  rw [hcount] at hlength
  obtain ⟨hi, rfl⟩ : i < count ∧ a = d.startAddr mem i := by
    rw [listed_addrs_get] at ha
    split at ha
    · rename_i hi
      exact ⟨hi, (Option.some.inj ha).symm⟩
    · cases ha
  have hwindow : ((List.range count).drop (i + n)).take k = List.range' (i + n) k := by
    rw [List.range_eq_range', List.drop_range', Nat.mul_one, Nat.zero_add,
      List.take_range'_of_length_ge (by omega)]
  have hbase : baseAddr (d.startAddr mem i).toNat 0 = d.startAddr mem i := by
    have hlt := (d.startAddr mem i).toNat_lt
    apply UInt16.toNat_inj.mp
    rw [baseAddr, Int.add_zero, UInt16.ofInt, UInt16.toNat_ofNat']
    omega
  have hsum : InInt ((d.startAddr mem i).toNat + 0) := by
    have hlt := (d.startAddr mem i).toNat_lt
    exact ⟨by omega, by omega⟩
  have hview : d.disassemble mem s fuel' (d.startAddr mem i).toNat 0 n k = _ :=
    disassemble_forward s fuel' (Int.natCast_nonneg n) k hsum
  rw [hbase, Int.toNat_natCast, Int.toNat_natCast,
    iterate_next_startAddr hint (fun m hm => hinside m (by omega)),
    instrInfos_listed hint (fun m hm => hinside m (by omega))] at hview
  refine ⟨_, hview, ?_, ?_⟩
  · rw [listed, ← List.map_drop, ← List.map_take, hwindow, List.map_map, List.map_map]
    rfl
  · rw [getLines_listed htext hnames, ← List.map_drop, ← List.map_take, hwindow, List.map_map,
      List.map_map]
    refine List.map_congr_left fun m hm => ?_
    obtain ⟨j, hj, rfl⟩ := List.mem_range'.mp hm
    have hlt := hinside (i + n + 1 * j) (by omega)
    have hline : shownBytes (d.listingLine mem s _) = _ := shownBytes_listingLine hlt
    have hinfo := readBytes_instrBytes hint (d.startAddr mem (i + n + 1 * j))
    rw [startAddr_toNat hlt] at hinfo
    exact hinfo.trans hline.symm

/-- The view of the same memory. -/
theorem listing_disassembled_load :
    ∃ l, loadDecoder.buildFullListing (fun _ => 1) {} 65537 = some l ∧
      ∀ (i n k : Nat) (a : UInt16) (fuel' : Nat), l.addrs[i]? = some a →
        i + n + k ≤ l.addrs.length →
        ∃ infos, loadDecoder.disassemble (fun _ => 1) {} fuel' a.toNat 0 n k = .ok infos ∧
          infos.map (fun x => x.address) = ((l.addrs.drop (i + n)).take k).map (formatHex · 4) ∧
          infos.map (fun x => readBytes (x.instructionBytes ++ [32]))
            = (((getLines l.content).drop (i + n)).take k).map shownBytes :=
  listing_disassembled loadDecoder_int loadDecoder_text
    (fun sym hsym => absurd hsym List.not_mem_nil) (by decide)

end Decoder

end Udap
