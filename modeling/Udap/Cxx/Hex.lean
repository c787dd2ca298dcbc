/-
  HEXADECIMAL NUMBERS — printed in capital letters and a fixed width, and read back.

  `hexPadded width n` is what a stream prints under `std::hex`, `std::uppercase`,
  `std::setfill('0')` and `std::setw(width)`, and what `std::format` prints for `{:0{}X}`.  It is
  made of digits and reads back as `n` (`readDigits_hexPadded`), so it determines `n`.
-/
import Udap.Cxx.Text

namespace Udap.Cxx

/-- The digits of `n` in base 16, in capital letters. -/
def hexDigits (n : Nat) : Str := (Nat.toDigits 16 n).map fun c => c.toUpper.toNat.toUInt8

/-- At least `width` digits. -/
def hexPadded (width n : Nat) : Str :=
  List.replicate (width - (hexDigits n).length) 48 ++ hexDigits n

theorem formatHex_eq (value : UInt16) (width : Nat) :
    formatHex value width = str "0x" ++ hexPadded width value.toNat := by
  rw [hexPadded, ← List.append_assoc]
  rfl

/-- `std::toupper`. -/
def capital (c : UInt8) : UInt8 := if 97 ≤ c ∧ c ≤ 122 then c - 32 else c

/-- Is `c` a digit in base 16? -/
def isHexDigit (c : UInt8) : Bool := (digitOf 16 c).isSome

/-! ## Digits -/

theorem hexDigits_of_lt {n : Nat} (h : n < 16) :
    hexDigits n = [n.digitChar.toUpper.toNat.toUInt8] := by
  rw [hexDigits, Nat.toDigits_of_lt_base h]
  rfl

theorem hexDigits_of_le {n : Nat} (h : 16 ≤ n) :
    hexDigits n = hexDigits (n / 16) ++ hexDigits (n % 16) := by
  rw [hexDigits_of_lt (Nat.mod_lt n (by decide)), hexDigits,
    Nat.toDigits_of_base_le (by decide) h, List.map_append]
  rfl

/-- One digit reads as its value. -/
theorem digitOf_hexDigit {d : Nat} (h : d < 16) :
    digitOf 16 d.digitChar.toUpper.toNat.toUInt8 = some d := by
  have hall : ∀ e ∈ List.range 16, digitOf 16 e.digitChar.toUpper.toNat.toUInt8 = some e := by
    decide
  exact hall d (List.mem_range.mpr h)

theorem hexDigits_ne_nil (n : Nat) : hexDigits n ≠ [] := by
  rw [hexDigits, ne_eq, List.map_eq_nil_iff]
  exact Nat.toDigits_ne_nil

theorem hexDigits_isHexDigit (n : Nat) : ∀ c ∈ hexDigits n, isHexDigit c = true := by
  induction n using Nat.strong_induction_on with
  | _ n ih =>
    rcases Nat.lt_or_ge n 16 with hlt | hge
    · rw [hexDigits_of_lt hlt]
      intro c hc
      rw [List.mem_singleton.mp hc, isHexDigit, digitOf_hexDigit hlt]
      rfl
    · rw [hexDigits_of_le hge]
      intro c hc
      rcases List.mem_append.mp hc with hc | hc
      · exact ih (n / 16) (by omega) c hc
      · exact ih (n % 16) (by omega) c hc

theorem hexPadded_isHexDigit (width n : Nat) : ∀ c ∈ hexPadded width n, isHexDigit c = true := by
  intro c hc
  rcases List.mem_append.mp hc with hc | hc
  · rw [List.eq_of_mem_replicate hc]
    decide
  · exact hexDigits_isHexDigit n c hc

theorem hexDigits_length_le {n k : Nat} (hk : 0 < k) (h : n < 16 ^ k) : (hexDigits n).length ≤ k := by
  rw [hexDigits, List.length_map]
  exact (Nat.length_toDigits_le_iff (by decide) hk).mpr h

/-- A number that fits is printed in exactly `width` digits. -/
theorem hexPadded_length {width n : Nat} (hwidth : 0 < width) (h : n < 16 ^ width) :
    (hexPadded width n).length = width := by
  have hle := hexDigits_length_le hwidth h
  rw [hexPadded, List.length_append, List.length_replicate]
  omega

/-- Small letters are the same digits. -/
theorem digitOf_capital (c : UInt8) : digitOf 16 (capital c) = digitOf 16 c := by
  have hall : ∀ n ∈ List.range 256, digitOf 16 (capital (UInt8.ofNat n)) = digitOf 16 (UInt8.ofNat n) := by
    decide +kernel
  have hc := hall c.toNat (List.mem_range.mpr c.toNat_lt)
  rwa [UInt8.ofNat_toNat] at hc

/-- The codes of the digits in base 16. -/
theorem isHexDigit_range {c : UInt8} (h : isHexDigit c = true) :
    (48 ≤ c.toNat ∧ c.toNat ≤ 57) ∨ (65 ≤ c.toNat ∧ c.toNat ≤ 70) ∨
      (97 ≤ c.toNat ∧ c.toNat ≤ 102) := by
  obtain ⟨d, hd⟩ := Option.isSome_iff_exists.mp h
  obtain ⟨hvalue, hlt⟩ := Option.filter_eq_some_iff.mp hd
  have hlt' : d < 16 := of_decide_eq_true hlt
  unfold digitValue at hvalue
  simp only [UInt8.le_iff_toNat_le] at hvalue
  simp at hvalue
  split_ifs at hvalue with h1 h2 h3 <;> simp at hvalue <;> omega

/-- What is printed in small or capital letters is made of digits. -/
theorem isHexDigit_of_printed {ds : Str} {width n : Nat} (h : ds.map capital = hexPadded width n) :
    ∀ c ∈ ds, isHexDigit c = true := by
  intro c hc
  have hcapital : isHexDigit (capital c) = true := by
    apply hexPadded_isHexDigit width n _
    rw [← h]
    exact List.mem_map_of_mem hc
  rwa [isHexDigit, digitOf_capital] at hcapital

/-! ## Reading -/

theorem readDigits_map_capital (ds : Str) (acc : Option Nat) :
    readDigits 16 (ds.map capital) acc = readDigits 16 ds acc := by
  induction ds generalizing acc with
  | nil => rfl
  | cons c ds ih =>
    rw [List.map_cons, readDigits, readDigits, digitOf_capital]
    cases digitOf 16 c with
    | none => rfl
    | some d => exact ih _

/-- Digits are read one after another. -/
theorem readDigits_append_digits {base : Nat} {ds : Str} (rest : Str) (acc : Option Nat)
    (h : ∀ c ∈ ds, (digitOf base c).isSome = true) :
    readDigits base (ds ++ rest) acc = readDigits base rest (readDigits base ds acc) := by
  induction ds generalizing acc with
  | nil => rfl
  | cons c ds ih =>
    obtain ⟨d, hd⟩ := Option.isSome_iff_exists.mp (h c List.mem_cons_self)
    rw [List.cons_append, readDigits, readDigits, hd]
    exact ih _ fun x hx => h x (List.mem_cons_of_mem c hx)

/-- Behind zeros the digits read as they do alone. -/
theorem readDigits_zeros (m : Nat) {ds : Str} (hne : ds ≠ [])
    (h : ∀ c ∈ ds, isHexDigit c = true) :
    readDigits 16 (List.replicate m 48 ++ ds) none = readDigits 16 ds none := by
  obtain ⟨c, ds, rfl⟩ := List.exists_cons_of_ne_nil hne
  obtain ⟨d, hd⟩ := Option.isSome_iff_exists.mp (h c List.mem_cons_self)
  have hzero : ∀ m, readDigits 16 (List.replicate m 48 ++ c :: ds) (some 0)
      = readDigits 16 (c :: ds) none := by
    intro m
    induction m with
    | zero =>
      rw [List.replicate_zero, List.nil_append, readDigits, readDigits, hd]
      rfl
    | succ m ih =>
      rw [List.replicate_succ, List.cons_append, readDigits]
      exact ih
  cases m with
  | zero => rfl
  | succ m =>
    rw [List.replicate_succ, List.cons_append, readDigits]
    exact hzero m

theorem readDigits_hexDigits (n : Nat) : readDigits 16 (hexDigits n) none = some n := by
  induction n using Nat.strong_induction_on with
  | _ n ih =>
    rcases Nat.lt_or_ge n 16 with hlt | hge
    · rw [hexDigits_of_lt hlt, readDigits, digitOf_hexDigit hlt]
      show some (0 * 16 + n) = some n
      rw [Nat.zero_mul, Nat.zero_add]
    · have hlast := Nat.mod_lt n (show 16 > 0 by decide)
      rw [hexDigits_of_le hge, readDigits_append_digits _ _ (hexDigits_isHexDigit (n / 16)),
        ih (n / 16) (by omega), hexDigits_of_lt hlast, readDigits, digitOf_hexDigit hlast]
      show some (n / 16 * 16 + n % 16) = some n
      rw [Nat.div_add_mod' n 16]

/-- **A printed number reads back.** -/
theorem readDigits_hexPadded (width n : Nat) : readDigits 16 (hexPadded width n) none = some n := by
  rw [hexPadded, readDigits_zeros _ (hexDigits_ne_nil n) (hexDigits_isHexDigit n),
    readDigits_hexDigits]

/-- Hexadecimal digits have neither a sign nor a prefix. -/
theorem readNumber_of_isHexDigit {ds : Str} (hne : ds ≠ []) (h : ∀ c ∈ ds, isHexDigit c = true) :
    readNumber 16 ds = (readDigits 16 ds none).map fun v => (false, v) := by
  obtain ⟨c, rest, rfl⟩ := List.exists_cons_of_ne_nil hne
  obtain ⟨hc, hrest⟩ := List.forall_mem_cons.mp h
  have hrange := isHexDigit_range hc
  have hspace : isSpace c = false := by
    simp only [isSpace, Bool.or_eq_false_iff, beq_eq_false_iff_ne, Bool.and_eq_false_iff,
      decide_eq_false_iff_not, UInt8.le_iff_toNat_le, ne_eq, ← UInt8.toNat_inj]
    constructor
    · show ¬ c.toNat = 32
      omega
    · right
      show ¬ c.toNat ≤ 13
      omega
  have hdrop : (c :: rest).dropWhile isSpace = c :: rest := by
    rw [List.dropWhile_cons_of_neg (by rw [hspace]; exact Bool.false_ne_true)]
  have hsign : takeSign (c :: rest) = (false, c :: rest) := by
    unfold takeSign
    split
    · rename_i heq
      rw [(List.cons.inj heq).1] at hrange
      exact absurd hrange (by decide)
    · rename_i heq
      rw [(List.cons.inj heq).1] at hrange
      exact absurd hrange (by decide)
    · rfl
  have hnoPrefix : stripHexPrefix (c :: rest) = none := by
    unfold stripHexPrefix
    split
    · rename_i x d t heq
      have hx : isHexDigit x = true :=
        hrest x (by rw [(List.cons.inj heq).2]; exact List.mem_cons_self)
      have hxrange := isHexDigit_range hx
      rw [if_neg]
      rintro ⟨rfl | rfl, -⟩
      · exact absurd hxrange (by decide)
      · exact absurd hxrange (by decide)
    · rfl
  simp only [readNumber, hdrop, hsign, resolveBase, hnoPrefix, Option.getD_none]
  rfl

/-- **A printed number reads back** under `std::stoul`, in letters of either case. -/
theorem stoul_printed {ds : Str} {width n : Nat} (h : ds.map capital = hexPadded width n)
    (hn : n < 2 ^ 64) : stoul ds 16 = some n := by
  have hne : ds ≠ [] := by
    rintro rfl
    have hnil := List.append_eq_nil_iff.mp h.symm
    exact hexDigits_ne_nil n hnil.2
  have hread : readDigits 16 ds none = some n := by
    rw [← readDigits_map_capital, h, readDigits_hexPadded]
  rw [stoul, readNumber_of_isHexDigit hne (isHexDigit_of_printed h), hread]
  show (if n < 2 ^ 64 then some n else none) = some n
  rw [if_pos hn]

/-- **An address reads back** under `std::stoul` where the text itself says its base. -/
theorem stoul_formatHex (a : UInt16) (width : Nat) : stoul (formatHex a width) 0 = some a.toNat := by
  obtain ⟨c, ds, hds⟩ : ∃ c ds, hexPadded width a.toNat = c :: ds := by
    refine List.exists_cons_of_ne_nil fun hnil => ?_
    exact hexDigits_ne_nil a.toNat (List.append_eq_nil_iff.mp hnil).2
  have hc : (digitOf 16 c).isSome = true :=
    hexPadded_isHexDigit width a.toNat c (by rw [hds]; exact List.mem_cons_self)
  have hstrip : stripHexPrefix (48 :: 120 :: hexPadded width a.toNat)
      = some (hexPadded width a.toNat) := by
    rw [hds, stripHexPrefix, if_pos ⟨Or.inl rfl, hc⟩]
  have hbase : resolveBase 0 (48 :: 120 :: hexPadded width a.toNat)
      = (16, hexPadded width a.toNat) := by
    rw [resolveBase, if_pos rfl, hstrip]
  have hread : readNumber 0 (formatHex a width) = some (false, a.toNat) := by
    rw [formatHex_eq]
    show (readDigits (resolveBase 0 (48 :: 120 :: hexPadded width a.toNat)).1
      (resolveBase 0 (48 :: 120 :: hexPadded width a.toNat)).2 none).map _ = _
    rw [hbase, readDigits_hexPadded]
    rfl
  have hlt := a.toNat_lt
  rw [stoul, hread]
  show (if a.toNat < 2 ^ 64 then some a.toNat else none) = some a.toNat
  rw [if_pos (by omega)]

theorem hexPadded_injective {width m n : Nat} (h : hexPadded width m = hexPadded width n) :
    m = n := by
  have hm := readDigits_hexPadded width m
  rw [h, readDigits_hexPadded] at hm
  exact (Option.some.inj hm).symm

theorem formatHex_injective {a b : UInt16} {width : Nat} (h : formatHex a width = formatHex b width) :
    a = b := by
  rw [formatHex_eq, formatHex_eq] at h
  exact UInt16.toNat_inj.mp (hexPadded_injective (List.append_cancel_left h))

end Udap.Cxx
