/-
  BYTE STRINGS and the number conversions of the C++ standard library.

  A `std::string` is a list of bytes (`Str`); a literal of the source is `str "..."`.  The
  conversions follow their documented behaviour, with `none` where the library throws
  (`std::invalid_argument` for text without digits, `std::out_of_range` for a value that does not
  fit):

  * `decimal`, `toString` — `operator<<` of an unsigned number and `std::to_string(int)`;
  * `stoi`                — optional white space, optional sign, decimal digits, an `int`;
  * `stoul`               — the same for `unsigned long` (64 bits) in base 16 or in base 0, which
                            reads a `0x` prefix as hexadecimal and a leading `0` as octal.

  What the rest of the development uses: a printed number is made of digits (`decimal_digits`),
  reads back (`stoi_decimal`), and determines the number (`toString_injective`).
-/
import Mathlib

namespace Udap

/-- A `std::string`: a sequence of bytes, none of them special. -/
abbrev Str := List UInt8

/-- A string literal of the source (all of them are ASCII). -/
def str (s : String) : Str := s.toList.map fun c => c.toNat.toUInt8

namespace Cxx

/-! ## Printing a number -/

/-- The decimal digits of `n`, as `operator<<` prints an unsigned number. -/
def decimal (n : Nat) : Str := (Nat.toDigits 10 n).map fun c => c.toNat.toUInt8

/-- `std::to_string(int)`. -/
def toString (i : Int) : Str :=
  if i < 0 then 45 :: decimal i.natAbs else decimal i.natAbs

/-- `std::format("0x{:0{}X}", value, width)`: `0x` and at least `width` hexadecimal digits. -/
def formatHex (value : UInt16) (width : Nat) : Str :=
  let digits := (Nat.toDigits 16 value.toNat).map fun c => c.toUpper.toNat.toUInt8
  str "0x" ++ List.replicate (width - digits.length) 48 ++ digits

/-- `'0' ≤ c ≤ '9'`. -/
def isDigit (c : UInt8) : Bool := 48 ≤ c && c ≤ 57

/-! ## Reading a number -/

/-- `std::isspace` in the "C" locale. -/
def isSpace (c : UInt8) : Bool := c == 32 || (9 ≤ c && c ≤ 13)

/-- The value of an alphanumeric character as a digit of some base up to 36. -/
def digitValue (c : UInt8) : Option Nat :=
  if 48 ≤ c ∧ c ≤ 57 then some (c.toNat - 48)
  else if 97 ≤ c ∧ c ≤ 122 then some (c.toNat - 87)
  else if 65 ≤ c ∧ c ≤ 90 then some (c.toNat - 55)
  else none

/-- The value of `c` as a digit of base `base`, if it is one. -/
def digitOf (base : Nat) (c : UInt8) : Option Nat :=
  (digitValue c).filter (· < base)

/-- The longest digit prefix, accumulated onto `acc`; `none` as long as no digit was read. -/
def readDigits (base : Nat) : Str → Option Nat → Option Nat
  | [], acc => acc
  | c :: cs, acc =>
    match digitOf base c with
    | some d => readDigits base cs (some (acc.getD 0 * base + d))
    | none => acc

/-- The optional sign: is the number negated, and what follows. -/
def takeSign : Str → Bool × Str
  | 45 :: s => (true, s)
  | 43 :: s => (false, s)
  | s => (false, s)

/-- `0x` or `0X` followed by a hexadecimal digit is a prefix to skip. -/
def stripHexPrefix : Str → Option Str
  | 48 :: x :: c :: s =>
    if (x = 120 ∨ x = 88) ∧ (digitOf 16 c).isSome then some (c :: s) else none
  | _ => none

/-- The base and the digits that `strtoul` reads under the base argument `base`. -/
def resolveBase (base : Nat) (s : Str) : Nat × Str :=
  if base = 0 then
    match stripHexPrefix s with
    | some t => (16, t)
    | none => if s.head? = some 48 then (8, s) else (10, s)
  else if base = 16 then (16, (stripHexPrefix s).getD s)
  else (base, s)

/-- Sign and magnitude of the number at the front of `s`; `none` if there are no digits. -/
def readNumber (base : Nat) (s : Str) : Option (Bool × Nat) :=
  let (neg, s) := takeSign (s.dropWhile isSpace)
  let (b, ds) := resolveBase base s
  (readDigits b ds none).map fun v => (neg, v)

/-- The values of a C++ `int` (32 bits). -/
def InInt (i : Int) : Prop := -2147483648 ≤ i ∧ i ≤ 2147483647

instance (i : Int) : Decidable (InInt i) := inferInstanceAs (Decidable (_ ∧ _))

/-- `std::stoi(s)`: an `int`, or an exception. -/
def stoi (s : Str) : Option Int :=
  (readNumber 10 s).bind fun (neg, v) =>
    let i : Int := if neg then -v else v
    if InInt i then some i else none

/-- `std::stoul(s, nullptr, base)`: an `unsigned long` (64 bits), or an exception.  A minus sign
    negates modulo `2^64`, as `strtoul` does. -/
def stoul (s : Str) (base : Nat) : Option Nat :=
  (readNumber base s).bind fun (neg, v) =>
    if v < 2 ^ 64 then some (if neg then (2 ^ 64 - v) % 2 ^ 64 else v) else none

/-! ## A printed number is made of digits -/

theorem isDigit_of_char {c : Char} (h : c.isDigit = true) : isDigit c.toNat.toUInt8 = true := by
  have hc : 48 ≤ c.toNat ∧ c.toNat ≤ 57 := by
    simpa [Char.isDigit, UInt32.le_iff_toNat_le] using h
  have hn : c.toNat.toUInt8.toNat = c.toNat := by
    rw [Nat.toUInt8, UInt8.toNat_ofNat']
    omega
  simp only [isDigit, Bool.and_eq_true, decide_eq_true_eq, UInt8.le_iff_toNat_le, hn]
  exact hc

theorem decimal_digits (n : Nat) : ∀ c ∈ decimal n, isDigit c = true := by
  intro c hc
  obtain ⟨d, hd, rfl⟩ := List.mem_map.mp hc
  exact isDigit_of_char (Nat.isDigit_of_mem_toDigits (by decide) (by decide) hd)

theorem decimal_ne_nil (n : Nat) : decimal n ≠ [] := by
  rw [decimal, ne_eq, List.map_eq_nil_iff]
  exact Nat.toDigits_ne_nil

theorem toString_ne_nil (i : Int) : toString i ≠ [] := by
  unfold toString
  split
  · exact List.cons_ne_nil _ _
  · exact decimal_ne_nil _

/-! ## A printed number reads back -/

theorem toNat_of_digit {c : UInt8} (h : isDigit c = true) : 48 ≤ c.toNat ∧ c.toNat ≤ 57 := by
  simpa [isDigit, UInt8.le_iff_toNat_le] using h

theorem digitOf_digit {c : UInt8} (h : isDigit c = true) : digitOf 10 c = some (c.toNat - 48) := by
  have hc := toNat_of_digit h
  have hle : 48 ≤ c ∧ c ≤ 57 := by simpa [UInt8.le_iff_toNat_le] using hc
  rw [digitOf, digitValue, if_pos hle, Option.filter_some, if_pos]
  exact decide_eq_true (by omega)

theorem readDigits_cons {c : UInt8} (h : isDigit c = true) (cs : Str) (acc : Option Nat) :
    readDigits 10 (c :: cs) acc
      = readDigits 10 cs (some (10 * acc.getD 0 + (c.toNat - 48))) := by
  rw [readDigits, digitOf_digit h, Nat.mul_comm 10]

/-- Reading a run of digits is the accumulator fold, and stops where the digits stop. -/
theorem readDigits_append (ds rest : Str) (hd : ∀ c ∈ ds, isDigit c = true) (a : Nat) :
    readDigits 10 (ds ++ rest) (some a)
      = readDigits 10 rest (some (ds.foldl (fun v c => 10 * v + (c.toNat - 48)) a)) := by
  induction ds generalizing a with
  | nil => rfl
  | cons c ds ih =>
    rw [List.cons_append, readDigits_cons (hd c (by simp)), ih fun x hx => hd x (by simp [hx])]
    rfl

theorem foldl_decimal (n : Nat) :
    (decimal n).foldl (fun v c => 10 * v + (c.toNat - 48)) 0 = n := by
  have hmap : ∀ (l : List Char) (a : Nat), (∀ c ∈ l, c.isDigit = true) →
      (l.map fun c => c.toNat.toUInt8).foldl (fun v c => 10 * v + (c.toNat - 48)) a
        = Nat.ofDigitChars 10 l a := by
    intro l
    induction l with
    | nil => intro a _; rfl
    | cons c l ih =>
      intro a hl
      have hc : c.toNat ≤ 57 := by
        have := hl c (by simp)
        simp only [Char.isDigit, Bool.and_eq_true, decide_eq_true_eq,
          UInt32.le_iff_toNat_le] at this
        exact this.2
      have hn : c.toNat.toUInt8.toNat = c.toNat := by
        rw [Nat.toUInt8, UInt8.toNat_ofNat']
        omega
      rw [List.map_cons, List.foldl_cons, hn, ih _ fun x hx => hl x (by simp [hx]),
        Nat.ofDigitChars_cons]
      rfl
  rw [decimal, hmap _ 0 fun c hc => Nat.isDigit_of_mem_toDigits (by decide) (by decide) hc]
  exact Nat.ofDigitChars_ten_toDigits

/-- The digits of a printed number read back. -/
theorem readDigits_decimal (n : Nat) : readDigits 10 (decimal n) none = some n := by
  obtain ⟨c, ds, hcs⟩ := List.exists_cons_of_ne_nil (decimal_ne_nil n)
  have hdig : ∀ x ∈ c :: ds, isDigit x = true := hcs ▸ decimal_digits n
  have hfold := foldl_decimal n
  rw [hcs, List.foldl_cons] at hfold
  rw [hcs, readDigits_cons (hdig c (by simp)), ← List.append_nil ds,
    readDigits_append ds [] fun x hx => hdig x (by simp [hx])]
  exact congrArg some hfold

/-- Only zero is printed with a leading zero. -/
theorem decimal_head_zero {n : Nat} (h : (decimal n).head? = some 48) : n = 0 := by
  induction n using Nat.strong_induction_on with
  | _ n ih =>
    by_cases hn : n < 10
    · rw [decimal, Nat.toDigits_of_lt_base hn] at h
      interval_cases n <;> first | rfl | exact absurd h (by decide)
    · have hsplit : decimal n = decimal (n / 10) ++ [(n % 10).digitChar.toNat.toUInt8] := by
        rw [decimal, Nat.toDigits_of_base_le (by decide) (by omega), List.map_append]
        rfl
      rw [hsplit, List.head?_append_of_ne_nil _ (decimal_ne_nil (n / 10))] at h
      have := ih (n / 10) (by omega) h
      omega

theorem digit_ne_space {c : UInt8} (h : isDigit c = true) : isSpace c = false := by
  have hc := toNat_of_digit h
  simp only [isSpace, Bool.or_eq_false_iff, beq_eq_false_iff_ne, Bool.and_eq_false_iff,
    decide_eq_false_iff_not, UInt8.le_iff_toNat_le, ne_eq, ← UInt8.toNat_inj]
  constructor
  · show ¬ c.toNat = 32
    omega
  · right
    show ¬ c.toNat ≤ 13
    omega

theorem takeSign_digit {c : UInt8} (h : isDigit c = true) (s : Str) :
    takeSign (c :: s) = (false, c :: s) := by
  have hc := toNat_of_digit h
  have h45 : c ≠ 45 := by rintro rfl; exact absurd hc.1 (by decide)
  have h43 : c ≠ 43 := by rintro rfl; exact absurd hc.1 (by decide)
  unfold takeSign
  split
  · rename_i heq; exact absurd (List.cons.inj heq).1 h45
  · rename_i heq; exact absurd (List.cons.inj heq).1 h43
  · rfl

/-- **The round trip of a printed number**: white space, the digits of `n`, nothing else. -/
theorem readNumber_decimal (ws : Str) (hws : ∀ c ∈ ws, isSpace c = true) (n : Nat) :
    readNumber 10 (ws ++ decimal n) = some (false, n) := by
  obtain ⟨c, ds, hcs⟩ := List.exists_cons_of_ne_nil (decimal_ne_nil n)
  have hdig : ∀ x ∈ c :: ds, isDigit x = true := hcs ▸ decimal_digits n
  have hc : isDigit c = true := hdig c (by simp)
  have hdrop : (ws ++ decimal n).dropWhile isSpace = c :: ds := by
    rw [List.dropWhile_append_of_pos hws, hcs,
      List.dropWhile_cons_of_neg (by simp [digit_ne_space hc])]
  have hread : readDigits 10 (c :: ds) none = some n := hcs ▸ readDigits_decimal n
  simp only [readNumber, hdrop, takeSign_digit hc]
  show (readDigits 10 (c :: ds) none).map _ = _
  rw [hread]
  rfl

/-- `std::stoi` of white space and a printed number below `2^31` is the number. -/
theorem stoi_decimal (ws : Str) (hws : ∀ c ∈ ws, isSpace c = true) (n : Nat) (hn : n < 2 ^ 31) :
    stoi (ws ++ decimal n) = some (n : Int) := by
  have hrange : InInt (n : Int) := ⟨by omega, by omega⟩
  simp only [stoi, readNumber_decimal ws hws n, Option.bind_some, Bool.false_eq_true, if_false,
    if_pos hrange]

/-! ## A printed number determines the number -/

theorem decimal_injective {m n : Nat} (h : decimal m = decimal n) : m = n := by
  rw [← foldl_decimal m, h, foldl_decimal]

theorem minus_not_mem_decimal (n : Nat) : (45 : UInt8) ∉ decimal n :=
  fun h => absurd (decimal_digits n 45 h) (by decide)

theorem toString_injective {i j : Int} (h : toString i = toString j) : i = j := by
  unfold toString at h
  split at h <;> split at h
  · have := decimal_injective (List.cons.inj h).2
    omega
  · exact absurd (h ▸ List.mem_cons_self) (minus_not_mem_decimal _)
  · exact absurd (h ▸ List.mem_cons_self) (minus_not_mem_decimal _)
  · have := decimal_injective h
    omega

/-- A printed number contains no character but digits and the minus sign. -/
theorem toString_chars (i : Int) : ∀ c ∈ toString i, isDigit c = true ∨ c = 45 := by
  intro c hc
  unfold toString at hc
  split at hc
  · rcases List.mem_cons.mp hc with rfl | hc
    · exact Or.inr rfl
    · exact Or.inl (decimal_digits _ c hc)
  · exact Or.inl (decimal_digits _ c hc)

/-! ## Searching and cutting -/

/-- `s.find(c, pos)`: the position of the first `c` at or after `pos`. -/
def find (s : Str) (c : UInt8) (pos : Nat) : Option Nat :=
  ((s.drop pos).findIdx? (· == c)).map (· + pos)

/-- `s.rfind(c)`: the position of the last `c`. -/
def rfind (s : Str) (c : UInt8) : Option Nat :=
  (s.reverse.findIdx? (· == c)).map fun i => s.length - 1 - i

/-- `a - b` on `size_t`. -/
def sizeSub (a b : Nat) : Nat := (a + (2 ^ 64 - b % 2 ^ 64)) % 2 ^ 64

/-- `s.substr(pos, len)`, which throws where `pos` is past the end. -/
def substr (s : Str) (pos len : Nat) : Option Str :=
  if pos ≤ s.length then some ((s.drop pos).take len) else none

/-- `s.substr(pos)`. -/
def substrFrom (s : Str) (pos : Nat) : Option Str :=
  if pos ≤ s.length then some (s.drop pos) else none

/-- Below `2^64` it is the difference. -/
theorem sizeSub_of_le {a b : Nat} (h : b ≤ a) (ha : a < 2 ^ 64) : sizeSub a b = a - b := by
  unfold sizeSub
  omega

/-- What a search finds lies at or behind its start and inside the text. -/
theorem find_bounds {s : Str} {c : UInt8} {pos i : Nat} (h : find s c pos = some i) :
    pos ≤ i ∧ s[i]? = some c := by
  obtain ⟨k, hk, rfl⟩ := Option.map_eq_some_iff.mp h
  obtain ⟨hlt, hc, -⟩ := List.findIdx?_eq_some_iff_getElem.mp hk
  have hget : (s.drop pos)[k]? = some c := by
    rw [List.getElem?_eq_getElem hlt, beq_iff_eq.mp hc]
  rw [List.getElem?_drop, Nat.add_comm] at hget
  exact ⟨Nat.le_add_left pos k, hget⟩

theorem find_lt {s : Str} {c : UInt8} {pos i : Nat} (h : find s c pos = some i) : i < s.length :=
  (List.getElem?_eq_some_iff.mp (find_bounds h).2).1

/-- There is no `c` between the start of the search and what it finds. -/
theorem find_free {s : Str} {c : UInt8} {pos i : Nat} (h : find s c pos = some i) :
    c ∉ (s.drop pos).take (i - pos) := by
  obtain ⟨k, hk, rfl⟩ := Option.map_eq_some_iff.mp h
  obtain ⟨hlt, -, hbefore⟩ := List.findIdx?_eq_some_iff_getElem.mp hk
  rw [Nat.add_sub_cancel]
  intro hmem
  obtain ⟨j, hj, heq⟩ := List.getElem_of_mem hmem
  rw [List.length_take] at hj
  rw [List.getElem_take] at heq
  exact hbefore j (by omega) (beq_iff_eq.mpr heq)

theorem rfind_lt {s : Str} {c : UInt8} {i : Nat} (h : rfind s c = some i) : i < s.length := by
  obtain ⟨k, hk, rfl⟩ := Option.map_eq_some_iff.mp h
  have hlt := (List.findIdx?_eq_some_iff_getElem.mp hk).1
  rw [List.length_reverse] at hlt
  omega

/-- The first `c` behind text without one. -/
theorem find_append {a t : Str} {c : UInt8} {pos : Nat} (hpos : pos ≤ a.length)
    (ha : c ∉ a.drop pos) : find (a ++ c :: t) c pos = some a.length := by
  have hnone : (a.drop pos).findIdx? (· == c) = none := by
    refine List.findIdx?_eq_none_iff.mpr fun x hx => ?_
    exact beq_eq_false_iff_ne.mpr fun heq => ha (heq ▸ hx)
  rw [find, List.drop_append_of_le_length hpos, List.findIdx?_append, hnone, List.findIdx?_cons,
    beq_self_eq_true, if_pos rfl, Option.none_or, Option.map_some, Option.map_some,
    List.length_drop]
  exact congrArg some (by omega)

theorem find_none {s : Str} {c : UInt8} {pos : Nat} (h : c ∉ s.drop pos) : find s c pos = none := by
  have hnone : (s.drop pos).findIdx? (· == c) = none := by
    refine List.findIdx?_eq_none_iff.mpr fun x hx => ?_
    exact beq_eq_false_iff_ne.mpr fun heq => h (heq ▸ hx)
  rw [find, hnone, Option.map_none]

/-- A part that starts inside the text. -/
theorem substr_of_le {s : Str} {pos : Nat} (h : pos ≤ s.length) (len : Nat) :
    substr s pos len = some ((s.drop pos).take len) := if_pos h

theorem substrFrom_of_le {s : Str} {pos : Nat} (h : pos ≤ s.length) :
    substrFrom s pos = some (s.drop pos) := if_pos h

/-- The first `c` in text that starts without one. -/
theorem find_first {a : Str} {c : UInt8} (h : c ∉ a) (t : Str) : find (a ++ c :: t) c 0 = some a.length :=
  find_append (Nat.zero_le _) h

theorem drop_separator (a t : Str) (c : UInt8) : (a ++ c :: t).drop (a.length + 1) = t := by
  have hlength : (a ++ [c]).length = a.length + 1 := by simp
  rw [List.append_cons a c t, ← hlength, List.drop_left]

/-- A search that starts at another character starts behind it. -/
theorem find_skip {c d : UInt8} (h : c ≠ d) (a t : Str) :
    find (a ++ c :: t) d a.length = find (a ++ c :: t) d (a.length + 1) := by
  rw [find, find, List.drop_left, drop_separator, List.findIdx?_cons, beq_eq_false_iff_ne.mpr h]
  simp only [Bool.false_eq_true, if_false, Option.map_map]
  congr 1
  funext i
  show i + 1 + a.length = i + (a.length + 1)
  omega

/-- Between two separators: the first one, the next one behind it, and what stands between them. -/
theorem cut_between {a b : Str} {c d : UInt8} (ha : c ∉ a) (hb : d ∉ b) (t : Str) :
    find (a ++ c :: (b ++ d :: t)) c 0 = some a.length ∧
      find (a ++ c :: (b ++ d :: t)) d (a.length + 1) = some (a.length + 1 + b.length) ∧
      substr (a ++ c :: (b ++ d :: t)) (a.length + 1) (a.length + 1 + b.length - a.length - 1)
        = some b := by
  have hsplit : a ++ c :: (b ++ d :: t) = (a ++ [c] ++ b) ++ d :: t := by simp
  have hlength : (a ++ [c] ++ b).length = a.length + 1 + b.length := by
    rw [List.length_append, List.length_append, List.length_singleton]
  refine ⟨find_first ha _, ?_, ?_⟩
  · have hfree : d ∉ (a ++ [c] ++ b).drop (a.length + 1) := by
      rw [List.append_assoc, List.singleton_append, drop_separator]
      exact hb
    rw [hsplit, find_append (by omega) hfree, hlength]
  · have hlen : a.length + 1 + b.length - a.length - 1 = b.length := by omega
    rw [substr_of_le (by simp), drop_separator, hlen, List.take_left]

/-! ## Printed numbers with a sign -/

/-- The digits of a printed number read back in front of a blank. -/
theorem readDigits_decimal_blank (n : Nat) (t : Str) :
    readDigits 10 (decimal n ++ 32 :: t) none = some n := by
  obtain ⟨c, ds, hcs⟩ := List.exists_cons_of_ne_nil (decimal_ne_nil n)
  have hdig : ∀ x ∈ c :: ds, isDigit x = true := hcs ▸ decimal_digits n
  have hfold := foldl_decimal n
  rw [hcs, List.foldl_cons] at hfold
  rw [hcs, List.cons_append, readDigits_cons (hdig c List.mem_cons_self),
    readDigits_append ds (32 :: t) fun x hx => hdig x (List.mem_cons_of_mem c hx)]
  exact congrArg some hfold

/-- What `std::stoi` makes of a printed `int` whose digits read back, whatever stands behind it. -/
theorem stoi_toString_append {i : Int} (hi : InInt i) {t : Str}
    (h : readDigits 10 (decimal i.natAbs ++ t) none = some i.natAbs) :
    stoi (toString i ++ t) = some i := by
  unfold toString
  split
  · rename_i hneg
    have hread : readNumber 10 (45 :: decimal i.natAbs ++ t) = some (true, i.natAbs) := by
      rw [List.cons_append, readNumber, List.dropWhile_cons_of_neg (by decide)]
      show (readDigits 10 (decimal i.natAbs ++ t) none).map _ = _
      rw [h]
      rfl
    have habs : -((i.natAbs : Nat) : Int) = i := by omega
    rw [stoi, hread, Option.bind_some]
    simp only [if_true]
    rw [habs, if_pos hi]
  · rename_i hpos
    have habs : ((i.natAbs : Nat) : Int) = i := by omega
    have hread : readNumber 10 (decimal i.natAbs ++ t) = some (false, i.natAbs) := by
      obtain ⟨c, ds, hcs⟩ := List.exists_cons_of_ne_nil (decimal_ne_nil i.natAbs)
      have hc : isDigit c = true := decimal_digits i.natAbs c (hcs ▸ List.mem_cons_self)
      rw [hcs, List.cons_append] at h ⊢
      rw [readNumber, List.dropWhile_cons_of_neg (by simp [digit_ne_space hc]), takeSign_digit hc]
      show (readDigits 10 (c :: (ds ++ t)) none).map _ = _
      rw [h]
      rfl
    rw [stoi, hread, Option.bind_some]
    simp only [Bool.false_eq_true, if_false]
    rw [habs, if_pos hi]

/-- `std::stoi` of a printed `int` is the `int`. -/
theorem stoi_toString {i : Int} (hi : InInt i) : stoi (toString i) = some i := by
  have hread := stoi_toString_append hi (t := []) (by rw [List.append_nil, readDigits_decimal])
  rwa [List.append_nil] at hread

end Cxx
end Udap
