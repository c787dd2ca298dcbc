/-
  BASE 64 — reading text that stands for bytes, as RFC 4648 has it.

  Three bytes are four characters.  A last group of one or two bytes is filled up with `=`, and the
  bits of its last character that belong to no byte must be zero.

  * `value`                        — the number of a character of the alphabet;
  * `number`                       — the number that characters one after another stand for;
  * `decode`                       — the bytes, or none if the text is not one of base 64;
  * `decode_three`, `decode_two`, `decode_one` — what a group says, in terms of its number.

  Nothing here mentions a program.
-/
import Udap.Cxx.Text

set_option linter.unusedVariables false

namespace Udap.Base64

/-- The number of a character: `A` to `Z`, `a` to `z`, `0` to `9`, `+` and `/`. -/
def value (c : UInt8) : Option Nat :=
  if 65 ≤ c ∧ c ≤ 90 then some (c.toNat - 65)
  else if 97 ≤ c ∧ c ≤ 122 then some (c.toNat - 71)
  else if 48 ≤ c ∧ c ≤ 57 then some (c.toNat + 4)
  else if c = 43 then some 62
  else if c = 47 then some 63
  else none

/-- The number that characters stand for, the first of them highest. -/
def number (cs : List UInt8) : Option Nat :=
  cs.foldlM (fun n c => (value c).map (64 * n + ·)) 0

/-- The bytes of a group that ends with `=`. -/
def decodeLast (a b c : UInt8) : Option (List UInt8) :=
  if c = 61 then
    (number [a, b]).bind fun n => if n % 16 = 0 then some [UInt8.ofNat (n / 16)] else none
  else
    (number [a, b, c]).bind fun n =>
      if n % 4 = 0 then some [UInt8.ofNat (n / 1024), UInt8.ofNat (n / 4)] else none

/-- The bytes that a text stands for. -/
def decode : List UInt8 → Option (List UInt8)
  | [] => some []
  | a :: b :: c :: d :: rest =>
    if d = 61 then if rest.isEmpty then decodeLast a b c else none
    else (number [a, b, c, d]).bind fun n => (decode rest).map fun bytes =>
      UInt8.ofNat (n / 65536) :: UInt8.ofNat (n / 256) :: UInt8.ofNat n :: bytes
  | _ => none

example : decode (str "SGk=") = some (str "Hi") := by decide
example : decode (str "SGl=") = none := by decide

/-! ## Groups -/

/-- One more character. -/
theorem number_concat {cs : List UInt8} {n v : Nat} {c : UInt8} (hcs : number cs = some n)
    (hc : value c = some v) : number (cs ++ [c]) = some (64 * n + v) := by
  rw [number] at hcs ⊢
  rw [List.foldlM_append, hcs]
  show ([c].foldlM (fun n c => (value c).map (64 * n + ·)) n : Option Nat) = _
  rw [List.foldlM_cons, hc]
  rfl

/-- The sign that fills up has no number. -/
theorem ne_pad_of_number (cs : List UInt8) {c : UInt8} {n : Nat}
    (h : number (cs ++ [c]) = some n) : c ≠ 61 := by
  rintro rfl
  rw [number, List.foldlM_append] at h
  obtain ⟨m, -, hlast⟩ := Option.bind_eq_some_iff.mp h
  cases hlast

/-- Four characters are three bytes. -/
theorem decode_three {a b c d : UInt8} {n : Nat} (h : number [a, b, c, d] = some n)
    (rest : List UInt8) : decode (a :: b :: c :: d :: rest) = (decode rest).map fun bytes =>
      UInt8.ofNat (n / 65536) :: UInt8.ofNat (n / 256) :: UInt8.ofNat n :: bytes := by
  have hd : d ≠ 61 := ne_pad_of_number [a, b, c] h
  rw [decode, if_neg hd, h, Option.bind_some]

/-- Three characters and one sign to fill up are two bytes. -/
theorem decode_two {a b c : UInt8} {n : Nat} (h : number [a, b, c] = some n) (hbits : n % 4 = 0) :
    decode [a, b, c, 61] = some [UInt8.ofNat (n / 1024), UInt8.ofNat (n / 4)] := by
  have hc : c ≠ 61 := ne_pad_of_number [a, b] h
  rw [decode, if_pos rfl, List.isEmpty_nil, if_pos rfl, decodeLast, if_neg hc, h, Option.bind_some, if_pos hbits]

/-- Two characters and two such signs are one byte. -/
theorem decode_one {a b : UInt8} {n : Nat} (h : number [a, b] = some n) (hbits : n % 16 = 0) :
    decode [a, b, 61, 61] = some [UInt8.ofNat (n / 16)] := by
  rw [decode, if_pos rfl, List.isEmpty_nil, if_pos rfl, decodeLast, if_pos rfl, h, Option.bind_some, if_pos hbits]

end Udap.Base64
