/-
  A JSON LIBRARY — compact printing and recursive-descent parsing, for values without fractional
  numbers (`F = Empty`), and the proof that the one reads back what the other writes.

  * `render` writes a value as `dump` does: no white space, the control characters and `"` and `\`
    escaped, everything else as it is.
  * `parse` reads white space, all escapes with surrogate pairs, and integers; it refuses invalid
    UTF-8, a number with a fraction or an exponent, and whatever is no JSON.  A key that occurs
    twice counts where it occurs last.
  * The parser's recursion is on fuel; `cost` is the fuel that a value needs, and the length of the
    text is enough (`cost_le`).

  `readValue_render` is the round trip, by induction over the value; what may follow a value in the
  text is `Follows`.
-/
import Udap.Json.Text

set_option linter.unusedVariables false

namespace Udap

open Udap.Cxx

instance : FloatCast Empty := ⟨Empty.elim, Empty.elim, fun x => x.elim⟩

namespace Json

/-! ## Printing -/

/-- A hexadecimal digit, in lower case. -/
def hexDigit (d : Nat) : UInt8 := if d < 10 then (48 + d).toUInt8 else (87 + d).toUInt8

/-- One byte of a string. -/
def escapeByte (c : UInt8) : Str :=
  if c = 34 then [92, 34]
  else if c = 92 then [92, 92]
  else if c = 8 then [92, 98]
  else if c = 9 then [92, 116]
  else if c = 10 then [92, 110]
  else if c = 12 then [92, 102]
  else if c = 13 then [92, 114]
  else if c < 32 then [92, 117, 48, 48, hexDigit (c.toNat / 16), hexDigit (c.toNat % 16)]
  else [c]

/-- A string between its quotes. -/
def renderStr (s : Str) : Str := 34 :: (s.flatMap escapeByte ++ [34])

mutual

def render : Json Empty → Str
  | .null => Udap.str "null"
  | .bool true => Udap.str "true"
  | .bool false => Udap.str "false"
  | .int i => Cxx.toString i
  | .str s => renderStr s
  | .arr items => 91 :: renderItems items
  | .obj fs => 123 :: renderFields fs

/-- The items of an array and its closing bracket. -/
def renderItems : List (Json Empty) → Str
  | [] => [93]
  | [j] => render j ++ [93]
  | j :: js => render j ++ 44 :: renderItems js

/-- The members of an object and its closing brace. -/
def renderFields : List (Str × Json Empty) → Str
  | [] => [125]
  | [(k, v)] => renderStr k ++ 58 :: (render v ++ [125])
  | (k, v) :: fs => renderStr k ++ 58 :: (render v ++ 44 :: renderFields fs)

end

theorem renderItems_cons_cons (j k : Json Empty) (js : List (Json Empty)) :
    renderItems (j :: k :: js) = render j ++ 44 :: renderItems (k :: js) := by
  rw [renderItems]
  simp

theorem renderFields_cons_cons (k : Str) (v : Json Empty) (f : Str × Json Empty)
    (fs : List (Str × Json Empty)) :
    renderFields ((k, v) :: f :: fs) =
      renderStr k ++ 58 :: (render v ++ 44 :: renderFields (f :: fs)) := by
  rw [renderFields]
  simp

/-! ## Parsing -/

/-- White space of JSON. -/
def isBlank (c : UInt8) : Bool := c == 32 || c == 9 || c == 10 || c == 13

def skipBlanks (s : Str) : Str := s.dropWhile isBlank

/-- A code point as UTF-8. -/
def encodeUtf8 (n : Nat) : Str :=
  if n < 0x80 then [n.toUInt8]
  else if n < 0x800 then [(0xC0 + n / 64).toUInt8, (0x80 + n % 64).toUInt8]
  else if n < 0x10000 then
    [(0xE0 + n / 4096).toUInt8, (0x80 + n / 64 % 64).toUInt8, (0x80 + n % 64).toUInt8]
  else [(0xF0 + n / 262144).toUInt8, (0x80 + n / 4096 % 64).toUInt8,
    (0x80 + n / 64 % 64).toUInt8, (0x80 + n % 64).toUInt8]

/-- Four hexadecimal digits. -/
def readHex4 : Str → Option (Nat × Str)
  | a :: b :: c :: d :: rest => do
    let a ← digitOf 16 a
    let b ← digitOf 16 b
    let c ← digitOf 16 c
    let d ← digitOf 16 d
    some (((a * 16 + b) * 16 + c) * 16 + d, rest)
  | _ => none

/-- What follows the `u` of an escape: a code point, or the two halves of one. -/
def readUnicode (s : Str) : Option (Str × Str) := do
  let (n, rest) ← readHex4 s
  if 0xD800 ≤ n ∧ n < 0xDC00 then
    match rest with
    | 92 :: 117 :: rest => do
      let (m, rest) ← readHex4 rest
      if 0xDC00 ≤ m ∧ m < 0xE000 then
        some (encodeUtf8 (0x10000 + (n - 0xD800) * 1024 + (m - 0xDC00)), rest)
      else none
    | _ => none
  else if 0xDC00 ≤ n ∧ n < 0xE000 then none
  else some (encodeUtf8 n, rest)

/-- What a one-letter escape stands for. -/
def unescape (c : UInt8) : Option UInt8 :=
  if c = 34 ∨ c = 92 ∨ c = 47 then some c
  else if c = 98 then some 8
  else if c = 116 then some 9
  else if c = 110 then some 10
  else if c = 102 then some 12
  else if c = 114 then some 13
  else none

/-- What follows the backslash of an escape: its bytes, and the text behind it. -/
def readEscape : Str → Option (Str × Str)
  | [] => none
  | c :: rest => if c = 117 then readUnicode rest else (unescape c).map fun b => ([b], rest)

/-- The bytes of a string up to its closing quote. -/
def readChars : Nat → Str → Option (Str × Str)
  | 0, _ => none
  | _, [] => none
  | fuel + 1, c :: rest =>
    if c = 34 then some ([], rest)
    else if c = 92 then do
      let (bytes, rest) ← readEscape rest
      let (s, rest) ← readChars fuel rest
      some (bytes ++ s, rest)
    else if c < 32 then none
    else do
      let (s, rest) ← readChars fuel rest
      some (c :: s, rest)

/-- A string behind its opening quote: it must be UTF-8. -/
def readStr (s : Str) : Option (Str × Str) := do
  let (text, rest) ← readChars (s.length + 1) s
  if utf8 text then some (text, rest) else none

/-- The digits of an integer; a fraction, an exponent and a leading zero are refused. -/
def readDigits (s : Str) : Option (Nat × Str) :=
  let digits := s.takeWhile isDigit
  let rest := s.dropWhile isDigit
  if digits = [] ∨ (digits.head? = some 48 ∧ digits.length ≠ 1) then none
  else if rest.head? = some 46 ∨ rest.head? = some 101 ∨ rest.head? = some 69 then none
  else (Cxx.readDigits 10 digits none).map fun n => (n, rest)

/-- The rest of a literal name. -/
def readName (name : Str) (j : Json Empty) (s : Str) : Option (Json Empty × Str) :=
  if name.isPrefixOf s then some (j, s.drop name.length) else none

mutual

def readValue : Nat → Str → Option (Json Empty × Str)
  | 0, _ => none
  | fuel + 1, s =>
    match skipBlanks s with
    | [] => none
    | c :: rest =>
      if c = 34 then (readStr rest).map fun r => (.str r.1, r.2)
      else if c = 91 then
        match skipBlanks rest with
        | 93 :: rest => some (.arr [], rest)
        | rest => (readItems fuel rest).map fun r => (.arr r.1, r.2)
      else if c = 123 then
        match skipBlanks rest with
        | 125 :: rest => some (.obj [], rest)
        | rest => (readFields fuel rest).map fun r => (.object r.1, r.2)
      else if c = 110 then readName (Udap.str "ull") .null rest
      else if c = 116 then readName (Udap.str "rue") (.bool true) rest
      else if c = 102 then readName (Udap.str "alse") (.bool false) rest
      else if c = 45 then (readDigits rest).map fun r => (.int (-r.1), r.2)
      else (readDigits (c :: rest)).map fun r => (.int r.1, r.2)

/-- The items of an array, at least one, and its closing bracket. -/
def readItems : Nat → Str → Option (List (Json Empty) × Str)
  | 0, _ => none
  | fuel + 1, s => do
    let (j, rest) ← readValue fuel s
    match skipBlanks rest with
    | 93 :: rest => some ([j], rest)
    | 44 :: rest => (readItems fuel rest).map fun r => (j :: r.1, r.2)
    | _ => none

/-- The members of an object, at least one, and its closing brace. -/
def readFields : Nat → Str → Option (List (Str × Json Empty) × Str)
  | 0, _ => none
  | fuel + 1, s =>
    match skipBlanks s with
    | 34 :: rest => do
      let (k, rest) ← readStr rest
      match skipBlanks rest with
      | 58 :: rest => do
        let (v, rest) ← readValue fuel rest
        match skipBlanks rest with
        | 125 :: rest => some ([(k, v)], rest)
        | 44 :: rest => (readFields fuel rest).map fun r => ((k, v) :: r.1, r.2)
        | _ => none
      | _ => none
    | _ => none

end

/-- A whole text: one value with nothing but white space around it. -/
def parseText (s : Str) : Option (Json Empty) := do
  let (j, rest) ← readValue (s.length + 1) s
  if skipBlanks rest = [] then some j else none

instance : JsonText Empty where
  parse := parseText
  dump j := if j.texts then some j.render else none

/-! ## Strings read back -/

theorem digitOf_hexDigit : ∀ d < 16, digitOf 16 (hexDigit d) = some d := by decide

theorem readHex4_control (c : UInt8) (t : Str) (h : c < 32) :
    readHex4 (48 :: 48 :: hexDigit (c.toNat / 16) :: hexDigit (c.toNat % 16) :: t)
      = some (c.toNat, t) := by
  have hc : c.toNat < 32 := UInt8.lt_iff_toNat_lt.mp h
  have h0 : digitOf 16 48 = some 0 := by decide
  simp only [readHex4, h0, digitOf_hexDigit _ (show c.toNat / 16 < 16 by omega),
    digitOf_hexDigit _ (show c.toNat % 16 < 16 by omega), Option.bind_eq_bind, Option.bind_some]
  have : ((0 * 16 + 0) * 16 + c.toNat / 16) * 16 + c.toNat % 16 = c.toNat := by omega
  rw [this]

theorem readUnicode_control (c : UInt8) (t : Str) (h : c < 32) :
    readUnicode (48 :: 48 :: hexDigit (c.toNat / 16) :: hexDigit (c.toNat % 16) :: t)
      = some ([c], t) := by
  have hc : c.toNat < 32 := UInt8.lt_iff_toNat_lt.mp h
  have hencode : encodeUtf8 c.toNat = [c] := by
    rw [encodeUtf8, if_pos (by omega), Nat.toUInt8, UInt8.ofNat_toNat]
  rw [readUnicode, readHex4_control c t h, Option.bind_eq_bind, Option.bind_some]
  simp only [if_neg (show ¬ (0xD800 ≤ c.toNat ∧ c.toNat < 0xDC00) by omega),
    if_neg (show ¬ (0xDC00 ≤ c.toNat ∧ c.toNat < 0xE000) by omega), hencode]

/-- A byte is read back from what is written for it. -/
theorem readChars_escapeByte (c : UInt8) (n : Nat) (t : Str) :
    readChars (n + 1) (escapeByte c ++ t) = (readChars n t).map fun r => (c :: r.1, r.2) := by
  have hescape : ∀ bytes rest, readEscape bytes = some ([c], rest) →
      readChars (n + 1) (92 :: bytes) = (readChars n rest).map fun r => (c :: r.1, r.2) := by
    intro bytes rest h
    rw [readChars, if_neg (by decide), if_pos rfl, h, Option.bind_eq_bind, Option.bind_some]
    show (readChars n rest).bind _ = _
    cases readChars n rest <;> rfl
  unfold escapeByte
  split
  · rename_i h; subst h; exact hescape _ t rfl
  split
  · rename_i h; subst h; exact hescape _ t rfl
  split
  · rename_i h; subst h; exact hescape _ t rfl
  split
  · rename_i h; subst h; exact hescape _ t rfl
  split
  · rename_i h; subst h; exact hescape _ t rfl
  split
  · rename_i h; subst h; exact hescape _ t rfl
  split
  · rename_i h; subst h; exact hescape _ t rfl
  split
  · rename_i h
    exact hescape _ t (readUnicode_control c t h)
  · rename_i hquote hslash _ _ _ _ _ hctl
    rw [List.singleton_append, readChars, if_neg hquote, if_neg hslash, if_neg hctl]
    cases readChars n t <;> rfl

theorem readChars_escape (s : Str) (n : Nat) (hn : s.length < n) (rest : Str) :
    readChars n (s.flatMap escapeByte ++ 34 :: rest) = some (s, rest) := by
  induction s generalizing n with
  | nil =>
    obtain ⟨m, rfl⟩ : ∃ m, n = m + 1 := ⟨n - 1, by simp at hn; omega⟩
    rfl
  | cons c s ih =>
    obtain ⟨m, rfl⟩ : ∃ m, n = m + 1 := ⟨n - 1, by simp at hn; omega⟩
    rw [List.flatMap_cons, List.append_assoc, readChars_escapeByte,
      ih m (by simpa using hn), Option.map_some]

theorem length_le_escape (s : Str) : s.length ≤ (s.flatMap escapeByte).length := by
  induction s with
  | nil => exact Nat.le_refl 0
  | cons c s ih =>
    have hpos : 1 ≤ (escapeByte c).length := by
      unfold escapeByte
      repeat' split
      all_goals simp
    rw [List.flatMap_cons, List.length_append, List.length_cons]
    omega

/-- **A string reads back.** -/
theorem readStr_render {s : Str} (h : utf8 s = true) (rest : Str) :
    readStr (s.flatMap escapeByte ++ 34 :: rest) = some (s, rest) := by
  have hlen : s.length < (s.flatMap escapeByte ++ 34 :: rest).length + 1 := by
    have := length_le_escape s
    rw [List.length_append]
    omega
  rw [readStr, readChars_escape s _ hlen, Option.bind_eq_bind, Option.bind_some]
  exact if_pos h

/-! ## Integers read back -/

/-- What may follow a value: the end of the text, a comma or a closing bracket. -/
def Follows (rest : Str) : Prop :=
  ∀ c, rest.head? = some c → c = 44 ∨ c = 93 ∨ c = 125

theorem follows_nil : Follows [] := nofun

theorem follows_comma (s : Str) : Follows (44 :: s) := fun _ h =>
  Or.inl (Option.some.inj h).symm

theorem follows_bracket (s : Str) : Follows (93 :: s) := fun _ h =>
  Or.inr (Or.inl (Option.some.inj h).symm)

theorem follows_brace (s : Str) : Follows (125 :: s) := fun _ h =>
  Or.inr (Or.inr (Option.some.inj h).symm)

theorem readDigits_render (n : Nat) {rest : Str} (hf : Follows rest) :
    readDigits (decimal n ++ rest) = some (n, rest) := by
  have hstop : rest.takeWhile isDigit = [] ∧ rest.dropWhile isDigit = rest := by
    cases rest with
    | nil => exact ⟨rfl, rfl⟩
    | cons c rest =>
      have hc : isDigit c = false := by
        rcases hf c rfl with rfl | rfl | rfl <;> decide
      exact ⟨List.takeWhile_cons_of_neg (by simp [hc]), List.dropWhile_cons_of_neg (by simp [hc])⟩
  have htake : (decimal n ++ rest).takeWhile isDigit = decimal n := by
    rw [List.takeWhile_append_of_pos (decimal_digits n), hstop.1, List.append_nil]
  have hdrop : (decimal n ++ rest).dropWhile isDigit = rest := by
    rw [List.dropWhile_append_of_pos (decimal_digits n), hstop.2]
  have hlead : ¬ (decimal n = [] ∨ (decimal n).head? = some 48 ∧ (decimal n).length ≠ 1) := by
    rintro (h | ⟨h, hlen⟩)
    · exact decimal_ne_nil n h
    · obtain rfl := decimal_head_zero h
      exact hlen rfl
  have hend : ¬ (rest.head? = some 46 ∨ rest.head? = some 101 ∨ rest.head? = some 69) := by
    rintro (h | h | h) <;> rcases hf _ h with h | h | h <;> exact absurd h (by decide)
  rw [readDigits]
  simp only [htake, hdrop, if_neg hlead, if_neg hend, readDigits_decimal, Option.map_some]

/-! ## Objects: the sorted fields are put together again -/

theorem insertField_last {key : Str} {v : Json Empty} {pre : List (Str × Json Empty)}
    (h : ∀ f ∈ pre, f.1 < key) : set.insertField key v pre = pre ++ [(key, v)] := by
  induction pre with
  | nil => rfl
  | cons f pre ih =>
    obtain ⟨k, w⟩ := f
    have hk : k < key := h (k, w) List.mem_cons_self
    have hne : k ≠ key := fun heq => List.lt_irrefl key (heq ▸ hk)
    rw [set.insertField, if_neg hne, if_neg (List.lt_asymm hk),
      ih fun g hg => h g (List.mem_cons_of_mem _ hg)]
    rfl

/-- Setting sorted fields one after another behind smaller ones appends them. -/
theorem foldl_set_sorted (fs pre : List (Str × Json Empty)) (hs : sortedKeys fs = true)
    (h : ∀ f ∈ pre, ∀ g ∈ fs, f.1 < g.1) :
    fs.foldl (fun j kv => j.set kv.1 kv.2) (.obj pre : Json Empty) = .obj (pre ++ fs) := by
  induction fs generalizing pre with
  | nil => rw [List.append_nil]; rfl
  | cons g fs ih =>
    obtain ⟨k, v⟩ := g
    simp only [sortedKeys, Bool.and_eq_true, List.all_eq_true, decide_eq_true_eq] at hs
    have hset : (Json.obj pre).set k v = .obj (pre ++ [(k, v)]) :=
      congrArg Json.obj (insertField_last fun f hf => h f hf _ List.mem_cons_self)
    rw [List.foldl_cons, hset, ih _ hs.2, List.append_assoc, List.singleton_append]
    intro f hf x hx
    rcases List.mem_append.mp hf with hf | hf
    · exact h f hf x (List.mem_cons_of_mem _ hx)
    · rw [List.mem_singleton.mp hf]
      exact hs.1 x hx

theorem object_of_sorted {fs : List (Str × Json Empty)} (hs : sortedKeys fs = true) :
    Json.object fs = .obj fs := foldl_set_sorted fs [] hs nofun

/-! ## Values read back -/

mutual

/-- The fuel that a value needs. -/
def cost : Json Empty → Nat
  | .arr items => 1 + costItems items
  | .obj fs => 1 + costFields fs
  | .null | .bool _ | .int _ | .str _ => 1

def costItems : List (Json Empty) → Nat
  | [] => 0
  | j :: js => 1 + cost j + costItems js

def costFields : List (Str × Json Empty) → Nat
  | [] => 0
  | (_, v) :: fs => 1 + cost v + costFields fs

end

mutual

/-- The text of a value is at least as long as the fuel that the value needs. -/
theorem cost_le : ∀ j : Json Empty, cost j ≤ (render j).length
  | .null => by decide
  | .bool true => by decide
  | .bool false => by decide
  | .int i => by
    rw [cost, render]
    exact List.length_pos_of_ne_nil (toString_ne_nil i)
  | .str s => by simp [cost, render, renderStr]
  | .arr items => by
    have := costItems_le items
    rw [cost, render, List.length_cons]
    omega
  | .obj fs => by
    have := costFields_le fs
    rw [cost, render, List.length_cons]
    omega

theorem costItems_le : ∀ js : List (Json Empty), costItems js ≤ (renderItems js).length
  | [] => Nat.zero_le _
  | [j] => by
    have := cost_le j
    simp only [costItems, renderItems, List.length_append, List.length_singleton]
    omega
  | j :: k :: js => by
    have := cost_le j
    have := costItems_le (k :: js)
    rw [costItems, renderItems_cons_cons, List.length_append, List.length_cons]
    omega

theorem costFields_le : ∀ fs : List (Str × Json Empty), costFields fs ≤ (renderFields fs).length
  | [] => Nat.zero_le _
  | [(k, v)] => by
    have := cost_le v
    simp only [costFields, renderFields, List.length_append, List.length_cons]
    omega
  | (k, v) :: f :: fs => by
    have := cost_le v
    have := costFields_le (f :: fs)
    rw [costFields, renderFields_cons_cons]
    simp only [List.length_append, List.length_cons]
    omega

end

theorem skipBlanks_cons {c : UInt8} (h : isBlank c = false) (s : Str) :
    skipBlanks (c :: s) = c :: s := List.dropWhile_cons_of_neg (by simp [h])

/-- The first byte of a value is no white space and closes nothing. -/
theorem render_head (j : Json Empty) :
    ∃ c s, render j = c :: s ∧ isBlank c = false ∧ c ≠ 93 ∧ c ≠ 125 := by
  cases j with
  | null => exact ⟨110, _, rfl, by decide⟩
  | bool b => cases b with
    | true => exact ⟨116, _, rfl, by decide⟩
    | false => exact ⟨102, _, rfl, by decide⟩
  | int i =>
    obtain ⟨c, s, hc⟩ := List.exists_cons_of_ne_nil (toString_ne_nil i)
    have hmem := toString_chars i c (hc ▸ List.mem_cons_self)
    refine ⟨c, s, by rw [render, hc], ?_⟩
    rcases hmem with hd | rfl
    · have hn := toNat_of_digit hd
      have hne : ∀ x : UInt8, ¬ (48 ≤ x.toNat ∧ x.toNat ≤ 57) → c ≠ x := fun x hx h => hx (h ▸ hn)
      refine ⟨?_, hne 93 (by decide), hne 125 (by decide)⟩
      simp only [isBlank, Bool.or_eq_false_iff, beq_eq_false_iff_ne]
      exact ⟨⟨⟨hne 32 (by decide), hne 9 (by decide)⟩, hne 10 (by decide)⟩, hne 13 (by decide)⟩
    · decide
  | float x => exact x.elim
  | str s => exact ⟨34, _, rfl, by decide⟩
  | arr items => exact ⟨91, _, rfl, by decide⟩
  | obj fs => exact ⟨123, _, rfl, by decide⟩

/-- An integer reads back. -/
theorem readValue_int (i : Int) (fuel : Nat) {rest : Str} (hf : Follows rest) :
    readValue (fuel + 1) (Cxx.toString i ++ rest) = some (.int i, rest) := by
  unfold Cxx.toString
  split
  · rename_i hneg
    rw [List.cons_append, readValue, skipBlanks_cons (by decide)]
    simp only [readDigits_render _ hf, Option.map_some]
    have : -((i.natAbs : Nat) : Int) = i := by omega
    rw [this]
    rfl
  · rename_i hpos
    obtain ⟨c, ds, hcs⟩ := List.exists_cons_of_ne_nil (decimal_ne_nil i.natAbs)
    have hn := toNat_of_digit (decimal_digits i.natAbs c (hcs ▸ List.mem_cons_self))
    have hne : ∀ x : UInt8, ¬ (48 ≤ x.toNat ∧ x.toNat ≤ 57) → c ≠ x := fun x hx h => hx (h ▸ hn)
    have hblank : isBlank c = false := by
      simp only [isBlank, Bool.or_eq_false_iff, beq_eq_false_iff_ne]
      exact ⟨⟨⟨hne 32 (by decide), hne 9 (by decide)⟩, hne 10 (by decide)⟩, hne 13 (by decide)⟩
    have hread := readDigits_render i.natAbs hf
    rw [hcs, List.cons_append] at hread ⊢
    rw [readValue, skipBlanks_cons hblank]
    simp only [if_neg (hne 34 (by decide)), if_neg (hne 91 (by decide)),
      if_neg (hne 123 (by decide)), if_neg (hne 110 (by decide)), if_neg (hne 116 (by decide)),
      if_neg (hne 102 (by decide)), if_neg (hne 45 (by decide)), hread, Option.map_some]
    have : ((i.natAbs : Nat) : Int) = i := by omega
    rw [this]

theorem renderItems_head (js : List (Json Empty)) (hne : js ≠ []) (rest : Str) :
    ∃ c s, renderItems js ++ rest = c :: s ∧ isBlank c = false ∧ c ≠ 93 := by
  obtain ⟨j, js, rfl⟩ := List.exists_cons_of_ne_nil hne
  obtain ⟨c, s, hc, hblank, h93, -⟩ := render_head j
  cases js with
  | nil => exact ⟨c, _, by rw [renderItems, hc]; rfl, hblank, h93⟩
  | cons k js => exact ⟨c, _, by rw [renderItems_cons_cons, hc]; rfl, hblank, h93⟩

theorem renderFields_head (fs : List (Str × Json Empty)) (hne : fs ≠ []) (rest : Str) :
    ∃ s, renderFields fs ++ rest = 34 :: s := by
  obtain ⟨⟨k, v⟩, fs, rfl⟩ := List.exists_cons_of_ne_nil hne
  cases fs with
  | nil => exact ⟨_, by rw [renderFields]; rfl⟩
  | cons f fs => exact ⟨_, by rw [renderFields_cons_cons]; rfl⟩

theorem one_le_cost (j : Json Empty) : 1 ≤ cost j := by
  cases j with
  | arr items => exact Nat.le_add_right 1 _
  | obj fs => exact Nat.le_add_right 1 _
  | float x => exact x.elim
  | null => exact Nat.le_refl 1
  | bool b => exact Nat.le_refl 1
  | int i => exact Nat.le_refl 1
  | str s => exact Nat.le_refl 1

mutual

/-- **The round trip**, by induction over the value. -/
theorem readValue_render : ∀ (j : Json Empty) (fuel : Nat) (rest : Str), j.texts = true →
    j.sorted = true → cost j ≤ fuel → Follows rest →
    readValue fuel (render j ++ rest) = some (j, rest)
  | j, 0, _, _, _, hfuel, _ => by
    have := one_le_cost j
    omega
  | .null, fuel + 1, rest, _, _, _, _ => rfl
  | .bool true, fuel + 1, rest, _, _, _, _ => rfl
  | .bool false, fuel + 1, rest, _, _, _, _ => rfl
  | .int i, fuel + 1, rest, _, _, _, hf => readValue_int i fuel hf
  | .str s, fuel + 1, rest, ht, _, _, _ => by
    rw [render, renderStr, List.cons_append, List.append_assoc, readValue,
      skipBlanks_cons (by decide)]
    simp only [if_pos, List.singleton_append, readStr_render (show utf8 s = true from ht),
      Option.map_some]
  | .arr items, fuel + 1, rest, ht, hs, hfuel, _ => by
    rw [render, List.cons_append, readValue, skipBlanks_cons (by decide)]
    by_cases hne : items = []
    · subst hne
      rfl
    · obtain ⟨c, s, hc, hblank, h93⟩ := renderItems_head items hne rest
      have hread := readItems_render items fuel rest hne ht hs (by rw [cost] at hfuel; omega)
      have hskip : skipBlanks (renderItems items ++ rest) = renderItems items ++ rest := by
        rw [hc, skipBlanks_cons hblank]
      simp only [if_neg (show (91 : UInt8) ≠ 34 by decide), if_pos, hskip]
      split
      · rename_i heq
        exact absurd (List.cons.inj (hc.symm.trans heq)).1 h93
      · rw [hread, Option.map_some]
  | .obj fs, fuel + 1, rest, ht, hs, hfuel, _ => by
    simp only [sorted, Bool.and_eq_true] at hs
    rw [render, List.cons_append, readValue, skipBlanks_cons (by decide)]
    by_cases hne : fs = []
    · subst hne
      rfl
    · obtain ⟨s, hc⟩ := renderFields_head fs hne rest
      have hread := readFields_render fs fuel rest hne ht hs.2 (by rw [cost] at hfuel; omega)
      have hskip : skipBlanks (renderFields fs ++ rest) = renderFields fs ++ rest := by
        rw [hc, skipBlanks_cons (by decide)]
      simp only [if_neg (show (123 : UInt8) ≠ 34 by decide),
        if_neg (show (123 : UInt8) ≠ 91 by decide), if_pos, hskip]
      split
      · rename_i heq
        exact absurd (List.cons.inj (hc.symm.trans heq)).1 (by decide)
      · rw [hread, Option.map_some, object_of_sorted hs.1]

theorem readItems_render : ∀ (js : List (Json Empty)) (fuel : Nat) (rest : Str), js ≠ [] →
    textsItems js = true → sortedItems js = true → costItems js ≤ fuel →
    readItems fuel (renderItems js ++ rest) = some (js, rest)
  | [], _, _, hne, _, _, _ => absurd rfl hne
  | j :: js, 0, _, _, _, _, hfuel => by rw [costItems] at hfuel; omega
  | [j], fuel + 1, rest, _, ht, hs, hfuel => by
    simp only [textsItems, sortedItems, costItems, Bool.and_true] at ht hs hfuel
    have hread := readValue_render j fuel (93 :: rest) ht hs (by omega) (follows_bracket rest)
    rw [renderItems, List.append_assoc, List.singleton_append, readItems, hread,
      Option.bind_eq_bind, Option.bind_some]
    rfl
  | j :: k :: js, fuel + 1, rest, _, ht, hs, hfuel => by
    simp only [textsItems, sortedItems, Bool.and_eq_true] at ht hs
    rw [costItems] at hfuel
    have hread := readValue_render j fuel (44 :: (renderItems (k :: js) ++ rest)) ht.1 hs.1
      (by omega) (follows_comma _)
    have hrest := readItems_render (k :: js) fuel rest (by simp)
      (by simp only [textsItems, Bool.and_eq_true]; exact ht.2)
      (by simp only [sortedItems, Bool.and_eq_true]; exact hs.2) (by omega)
    rw [renderItems_cons_cons, List.append_assoc, List.cons_append, readItems, hread,
      Option.bind_eq_bind, Option.bind_some]
    show (readItems fuel (renderItems (k :: js) ++ rest)).map _ = _
    rw [hrest, Option.map_some]

theorem readFields_render : ∀ (fs : List (Str × Json Empty)) (fuel : Nat) (rest : Str), fs ≠ [] →
    textsFields fs = true → sortedFields fs = true → costFields fs ≤ fuel →
    readFields fuel (renderFields fs ++ rest) = some (fs, rest)
  | [], _, _, hne, _, _, _ => absurd rfl hne
  | (k, v) :: fs, 0, _, _, _, _, hfuel => by rw [costFields] at hfuel; omega
  | [(k, v)], fuel + 1, rest, _, ht, hs, hfuel => by
    simp only [textsFields, Bool.and_true, Bool.and_eq_true] at ht
    simp only [sortedFields, costFields, Bool.and_true] at hs hfuel
    have hread := readValue_render v fuel (125 :: rest) ht.2 hs (by omega) (follows_brace rest)
    have htext : renderFields [(k, v)] ++ rest =
        34 :: (k.flatMap escapeByte ++ 34 :: 58 :: (render v ++ 125 :: rest)) := by
      rw [renderFields, renderStr]
      simp
    rw [htext, readFields, skipBlanks_cons (by decide)]
    simp only [readStr_render ht.1, Option.bind_eq_bind, Option.bind_some,
      skipBlanks_cons (show isBlank 58 = false by decide), hread,
      skipBlanks_cons (show isBlank 125 = false by decide)]
  | (k, v) :: f :: fs, fuel + 1, rest, _, ht, hs, hfuel => by
    simp only [textsFields, sortedFields, Bool.and_eq_true] at ht hs
    rw [costFields] at hfuel
    have hread := readValue_render v fuel (44 :: (renderFields (f :: fs) ++ rest)) ht.1.2 hs.1
      (by omega) (follows_comma _)
    have hrest := readFields_render (f :: fs) fuel rest (by simp)
      (by simp only [textsFields, Bool.and_eq_true]; exact ht.2)
      (by simp only [sortedFields, Bool.and_eq_true]; exact hs.2) (by omega)
    have htext : renderFields ((k, v) :: f :: fs) ++ rest =
        34 :: (k.flatMap escapeByte ++
          34 :: 58 :: (render v ++ 44 :: (renderFields (f :: fs) ++ rest))) := by
      rw [renderFields_cons_cons, renderStr]
      simp
    rw [htext, readFields, skipBlanks_cons (by decide)]
    simp only [readStr_render ht.1.1, Option.bind_eq_bind, Option.bind_some,
      skipBlanks_cons (show isBlank 58 = false by decide), hread,
      skipBlanks_cons (show isBlank 44 = false by decide), hrest, Option.map_some]

end

/-- A whole text reads back. -/
theorem parseText_render {j : Json Empty} (hj : j.Valid) : parseText (render j) = some j := by
  have hread := readValue_render j ((render j).length + 1) [] hj.texts hj.sorted
    (Nat.le_succ_of_le (cost_le j)) follows_nil
  rw [List.append_nil] at hread
  rw [parseText, hread]
  rfl

/-! ## What is read is valid -/

theorem utf8_of_readStr {s : Str} {r : Str × Str} (h : readStr s = some r) : utf8 r.1 = true := by
  simp only [readStr, Option.bind_eq_bind, Option.bind_eq_some_iff, Prod.exists] at h
  obtain ⟨text, rest, _, h⟩ := h
  split at h
  · rename_i hutf8
    cases h
    exact hutf8
  · cases h

theorem valid_of_readName {name : Str} {j : Json Empty} (hj : j.Valid) {s : Str}
    {r : Json Empty × Str} (h : readName name j s = some r) : r.1.Valid := by
  unfold readName at h
  split at h
  · cases h
    exact hj
  · cases h

/-- One more call: what a value, its items and its members are read to. -/
theorem valid_of_read (fuel : Nat) :
    (∀ {s r}, readValue fuel s = some r → r.1.Valid) ∧
    (∀ {s r}, readItems fuel s = some r → ∀ j ∈ r.1, j.Valid) ∧
    (∀ {s r}, readFields fuel s = some r → ∀ f ∈ r.1, utf8 f.1 = true ∧ f.2.Valid) := by
  induction fuel with
  | zero => exact ⟨nofun, nofun, nofun⟩
  | succ fuel ih =>
    obtain ⟨hvalue, hitems, hfields⟩ := ih
    refine ⟨?_, ?_, ?_⟩
    · intro s r h
      unfold readValue at h
      split at h
      · cases h
      split at h
      · obtain ⟨x, hx, rfl⟩ := Option.map_eq_some_iff.mp h
        exact valid_str.mpr (utf8_of_readStr hx)
      split at h
      · split at h
        · cases h
          exact valid_arr.mpr nofun
        · obtain ⟨x, hx, rfl⟩ := Option.map_eq_some_iff.mp h
          exact valid_arr.mpr (hitems hx)
      split at h
      · split at h
        · cases h
          exact valid_obj.mpr ⟨rfl, nofun⟩
        · obtain ⟨x, hx, rfl⟩ := Option.map_eq_some_iff.mp h
          exact valid_object (hfields hx)
      split at h
      · exact valid_of_readName valid_null h
      split at h
      · exact valid_of_readName (valid_bool true) h
      split at h
      · exact valid_of_readName (valid_bool false) h
      split at h
      · obtain ⟨x, hx, rfl⟩ := Option.map_eq_some_iff.mp h
        exact valid_int _
      · obtain ⟨x, hx, rfl⟩ := Option.map_eq_some_iff.mp h
        exact valid_int _
    · intro s r h
      simp only [readItems, Option.bind_eq_bind, Option.bind_eq_some_iff, Prod.exists] at h
      obtain ⟨j, rest, hj, h⟩ := h
      split at h
      · cases h
        simpa using hvalue hj
      · obtain ⟨x, hx, rfl⟩ := Option.map_eq_some_iff.mp h
        exact List.forall_mem_cons.mpr ⟨hvalue hj, hitems hx⟩
      · cases h
    · intro s r h
      unfold readFields at h
      split at h
      · simp only [Option.bind_eq_bind, Option.bind_eq_some_iff, Prod.exists] at h
        obtain ⟨k, rest, hk, h⟩ := h
        split at h
        · simp only [Option.bind_eq_some_iff, Prod.exists] at h
          obtain ⟨v, rest, hv, h⟩ := h
          split at h
          · cases h
            simpa using And.intro (utf8_of_readStr hk) (hvalue hv)
          · obtain ⟨x, hx, rfl⟩ := Option.map_eq_some_iff.mp h
            exact List.forall_mem_cons.mpr ⟨⟨utf8_of_readStr hk, hvalue hv⟩, hfields hx⟩
          · cases h
        · cases h
      · cases h

instance : LawfulJsonText Empty where
  parse_nil := rfl
  parse_valid {t j} h := by
    simp only [JsonText.parse, parseText, Option.bind_eq_bind, Option.bind_eq_some_iff,
      Prod.exists] at h
    obtain ⟨v, rest, hread, h⟩ := h
    split at h
    · cases h
      exact (valid_of_read _).1 hread
    · cases h
  dump_isSome j := by
    simp only [JsonText.dump]
    split <;> simp_all
  parse_dump {j t} hj h := by
    simp only [JsonText.dump, if_pos hj.texts, Option.some.injEq] at h
    rw [← h]
    exact parseText_render hj

end Json

end Udap
