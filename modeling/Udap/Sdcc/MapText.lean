/-
  WHAT A MAP TABLE SAYS — are its symbols read back, however the rows are laid out?

  A `Row` has one symbol with an area, or columns; what stands between its words is any white
  space, and behind its last column may be one more `|`.

  A row of one column is read by the second expression, even where a trailing `|` takes the place
  of the area (`yields_symbol`).  A row of more columns has too many words for it
  (`symbolRe_words`), and the search finds each column where it starts (`columns_found`), since no
  place in between can start an address (`columnRe_at_gap`).
-/
import Udap.Cxx.Hex
import Udap.Sdcc.MapParser

set_option linter.unusedVariables false

namespace Udap.Sdcc.MapParser

open Udap Udap.Cxx Regex

/-! ## Tables -/

/-- Text between words. -/
structure Blank where
  text : Str
  blank : ∀ c ∈ text, isSpace c = true

/-- Text between words that separates them. -/
structure Gap extends Blank where
  ne_nil : text ≠ []

/-- The bytes of a name or an area. -/
def isWordByte (c : UInt8) : Bool := !isSpace c && c != 124 && c != 40 && c != 41

/-- A name or an area. -/
structure Word where
  text : Str
  ne_nil : text ≠ []
  plain : ∀ c ∈ text, isWordByte c = true

/-- A symbol of the table; the eight digits of its address are capital or small. -/
structure Entry where
  address : UInt32
  digits : Str
  printed : digits.map capital = hexPadded 8 address.toNat
  gap : Gap
  name : Word
  not_heading : name.text ≠ str "Global" ∧ name.text ≠ str "------"

/-- The address and the name. -/
def Entry.text (e : Entry) : Str := e.digits ++ (e.gap.text ++ e.name.text)

/-- A `|` with white space on both sides, and the column behind it. -/
structure Column where
  before : Gap
  after : Gap
  entry : Entry

def Column.text (c : Column) : Str := c.before.text ++ 124 :: (c.after.text ++ c.entry.text)

/-- A row of the table: one symbol, perhaps with its area; or columns, perhaps with another `|`
    behind them. -/
inductive Row where
  | single (lead : Blank) (entry : Entry) (area : Option (Gap × Word)) (trail : Blank)
  | columns (lead : Blank) (first : Entry) (more : List Column) (last : Option Gap) (trail : Blank)

def Row.text : Row → Str
  | .single lead entry area trail =>
    lead.text ++ (entry.text ++ ((area.elim [] fun a => a.1.text ++ a.2.text) ++ trail.text))
  | .columns lead first more last trail =>
    lead.text ++ (first.text ++ (more.flatMap Column.text ++
      ((last.elim [] fun gap => gap.text ++ [124]) ++ trail.text)))

def Row.entries : Row → List Entry
  | .single _ entry _ _ => [entry]
  | .columns _ first more _ _ => first :: more.map Column.entry

/-! ## Characters -/

theorem isHex_range {c : UInt8} (h : isHex c = true) :
    (48 ≤ c.toNat ∧ c.toNat ≤ 57) ∨ (65 ≤ c.toNat ∧ c.toNat ≤ 70) ∨
      (97 ≤ c.toNat ∧ c.toNat ≤ 102) := by
  simpa [isHex, UInt8.le_iff_toNat_le, or_assoc] using h

theorem isSpace_range {c : UInt8} (h : isSpace c = true) : c.toNat ≤ 32 := by
  have hcases : c = 32 ∨ (9 ≤ c.toNat ∧ c.toNat ≤ 13) := by
    simpa [isSpace, UInt8.le_iff_toNat_le] using h
  rcases hcases with rfl | ⟨-, hle⟩
  · decide
  · omega

theorem not_isSpace_of_isHex {c : UInt8} (h : isHex c = true) : isSpace c = false := by
  by_contra hspace
  have hle := isSpace_range (Bool.eq_true_of_not_eq_false hspace)
  have hrange := isHex_range h
  omega

/-- The digits that are printed are those of the expressions. -/
theorem isHex_of_isHexDigit {c : UInt8} (h : isHexDigit c = true) : isHex c = true := by
  have hrange := isHexDigit_range h
  simpa [isHex, UInt8.le_iff_toNat_le, or_assoc] using hrange

theorem isTrimmed_of_isSpace {c : UInt8} (h : isSpace c = false) : isTrimmed c = false := by
  by_contra hblank
  rcases blank_cases hblank with rfl | rfl | rfl | rfl <;> exact absurd h (by decide)

/-! ## The parts of a row -/

theorem Entry.digits_length (e : Entry) : e.digits.length = 8 := by
  have hlength : (e.digits.map capital).length = 8 := by
    rw [e.printed]
    exact hexPadded_length (by decide) e.address.toNat_lt
  rwa [List.length_map] at hlength

theorem Entry.digits_isHex (e : Entry) : ∀ c ∈ e.digits, isHex c = true := by
  intro c hc
  exact isHex_of_isHexDigit (isHexDigit_of_printed e.printed c hc)

theorem Word.not_isSpace (w : Word) : ∀ c ∈ w.text, isSpace c = false := by
  intro c hc
  have hplain := w.plain c hc
  simp only [isWordByte, Bool.and_eq_true, Bool.not_eq_true'] at hplain
  exact hplain.1.1.1

theorem Word.not_mem (w : Word) {c : UInt8} (hc : isWordByte c = false) : c ∉ w.text := by
  intro h
  have hplain := w.plain c h
  rw [hc] at hplain
  cases hplain

/-- The address is read back. -/
theorem readAddress_digits (e : Entry) : readAddress e.digits = some e.address := by
  have hlt : e.address.toNat < 2 ^ 64 := Nat.lt_trans e.address.toNat_lt (by decide)
  rw [readAddress, stoul_printed e.printed hlt, Option.map_some, UInt32.ofNat_toNat]

/-! ## Following the expressions -/

section
variable {α : Type} {P : α → Prop} {k : Cursor → Option α}

/-- Eight digits are an address. -/
theorem yields_address {ds u : Str} (hlength : ds.length = 8) (hds : ∀ c ∈ ds, isHex c = true)
    {s : Cursor} (hs : s.rest = ds ++ u) (hk : ∀ before, Yields (k ⟨before, u, s.groups⟩) P) :
    Yields (addressRe.run s k) P := by
  have hnoPrefix : ∀ w t, s.rest = w ++ t →
      ¬ (Regex.seq (.one (· == 48)) (.one fun c => c == 120 || c == 88)).Accepts w := by
    rintro w t hw ⟨_, _, rfl, ⟨x, -, rfl⟩, y, hy, rfl⟩
    -- the second character of the address is no `x`
    have hmem : y ∈ ds := by
      obtain ⟨a, b, rest, rfl⟩ : ∃ a b rest, ds = a :: b :: rest := by
        cases ds with
        | nil => cases hlength
        | cons a ds =>
          cases ds with
          | nil => cases hlength
          | cons b rest => exact ⟨a, b, rest, rfl⟩
      have heq := hs.symm.trans hw
      simp only [List.cons_append, List.nil_append, List.cons.injEq] at heq
      rw [← heq.2.1]
      simp
    have hrange := isHex_range (hds y hmem)
    have hxX : y = 120 ∨ y = 88 := by simpa using hy
    rcases hxX with rfl | rfl
    · exact absurd hrange (by decide)
    · exact absurd hrange (by decide)
  have hfour : (ds.take 4).length = 4 := by rw [List.length_take, hlength]; rfl
  have hrest : (ds.drop 4).length = 4 := by rw [List.length_drop, hlength]
  show Yields ((opt _).run s fun t => (between isHex 4 8).run t k) P
  apply yields_alt hnoPrefix
  have hmore : ∀ before, Yields ((upTo isHex 4).run ⟨before, ds.drop 4 ++ u, s.groups⟩ k) P := by
    intro before
    have htaken := yields_upTo (s := ⟨before, ds.drop 4 ++ u, s.groups⟩)
      (fun c hc => hds c (List.mem_of_mem_drop hc)) rfl hk
    rwa [hrest] at htaken
  have hsplit : s.rest = ds.take 4 ++ (ds.drop 4 ++ u) := by
    rw [hs, ← List.append_assoc, List.take_append_drop]
  have htaken := yields_times (k := fun t => (upTo isHex 4).run t k) (P := P)
    (fun c hc => hds c (List.mem_of_mem_take hc)) hsplit hmore
  rwa [hfour] at htaken

end

/-- The head of a text is not white space, or there is none. -/
def HeadWord (u : Str) : Prop := ∀ c ∈ u.head?, isSpace c = false

/-- The head of a text is white space, or there is none. -/
def HeadBlank (u : Str) : Prop := ∀ c ∈ u.head?, isSpace c = true

theorem headWord_append {a : Str} (hne : a ≠ []) (h : ∀ c ∈ a, isSpace c = false) (u : Str) :
    HeadWord (a ++ u) := by
  obtain ⟨c, a, rfl⟩ := List.exists_cons_of_ne_nil hne
  intro c' hc'
  obtain rfl : c = c' := Option.some.inj hc'
  exact h c List.mem_cons_self

theorem headBlank_append {a u : Str} (h : ∀ c ∈ a, isSpace c = true) (hu : a = [] → HeadBlank u) :
    HeadBlank (a ++ u) := by
  cases a with
  | nil => exact hu rfl
  | cons c a =>
    intro c' hc'
    obtain rfl : c = c' := Option.some.inj hc'
    exact h c List.mem_cons_self

theorem headWord_nil : HeadWord [] := fun c hc => by cases hc

/-- The end of a row: white space. -/
theorem yields_end {P : Cursor → Prop} {trail : Str} (htrail : ∀ c ∈ trail, isSpace c = true)
    {s : Cursor} (hs : s.rest = trail) (hP : ∀ before, P ⟨before, [], s.groups⟩) :
    Yields ((Regex.seq (.many isSpace) .atEnd).run s fun t => if t.rest.isEmpty then some t else none)
      P := by
  show Yields ((Regex.many isSpace).run s fun t =>
    Regex.atEnd.run t fun t' => if t'.rest.isEmpty then some t' else none) P
  refine yields_many htrail headWord_nil (hs.trans (List.append_nil trail).symm) fun before => ?_
  exact ⟨⟨before, [], s.groups⟩, rfl, hP before⟩

/-- What may stand between the name of a row and the white space at its end. -/
inductive AreaText : Str → Prop
  | none : AreaText []
  | some {gap area : Str} (gap_ne_nil : gap ≠ []) (gap_blank : ∀ c ∈ gap, isSpace c = true)
      (area_ne_nil : area ≠ []) (area_word : ∀ c ∈ area, isSpace c = false) :
      AreaText (gap ++ area)

/-- Behind the name: an area, or none. -/
theorem yields_area {P : Cursor → Prop} {area trail : Str} (harea : AreaText area)
    (htrail : ∀ c ∈ trail, isSpace c = true) {s : Cursor} (hs : s.rest = area ++ trail)
    (hP : ∀ before groups, groups = s.groups ∨ (∃ text, groups = (3, text) :: s.groups) →
      P ⟨before, [], groups⟩) :
    Yields ((opt (.seq (some1 isSpace) (.group 3 (some1 fun c => !isSpace c)))).run s fun t =>
      (Regex.seq (.many isSpace) .atEnd).run t fun t' => if t'.rest.isEmpty then some t' else none)
      P := by
  cases harea with
  | none =>
    have hnoArea : ∀ v t, s.rest = v ++ t →
        ¬ (Regex.seq (some1 isSpace) (.group 3 (some1 fun c => !isSpace c))).Accepts v := by
      rintro v t hv ⟨a, b, rfl, -, b', b'', rfl, ⟨c, hc, rfl⟩, -⟩
      have hmem : c ∈ trail := by
        rw [← List.nil_append trail, ← hs, hv]
        simp
      have hspace := htrail c hmem
      have hnot : isSpace c = false := by simpa using hc
      rw [hspace] at hnot
      cases hnot
    apply yields_alt hnoArea
    exact yields_end htrail hs fun before => hP before s.groups (Or.inl rfl)
  | @some gap area gap_ne_nil gap_blank area_ne_nil area_word =>
    apply yields_first
    show Yields ((some1 isSpace).run s fun t => (Regex.group 3 (some1 fun c => !isSpace c)).run t
      fun t' => (Regex.seq (.many isSpace) .atEnd).run t'
        fun t'' => if t''.rest.isEmpty then some t'' else none) P
    have htaken : ∀ before, Yields ((Regex.group 3 (some1 fun c => !isSpace c)).run
        ⟨before, area ++ trail, s.groups⟩ fun t' => (Regex.seq (.many isSpace) .atEnd).run t'
          fun t'' => if t''.rest.isEmpty then some t'' else none) P := by
      intro before
      apply yields_group
      refine yields_some1 area_ne_nil (fun c hc => by rw [area_word c hc]; rfl) ?_ rfl
        fun before' => ?_
      · intro c hc
        rw [htrail c (List.mem_of_mem_head? hc)]
        rfl
      · rw [take_group]
        exact yields_end htrail rfl fun before'' => hP before'' _ (Or.inr ⟨area, rfl⟩)
    refine yields_some1 gap_ne_nil gap_blank (headWord_append area_ne_nil area_word trail) ?_ htaken
    rw [hs, List.append_assoc]

/-- The words of a row of one symbol. -/
structure Words where
  ds : Str
  gap : Str
  name : Str
  ds_length : ds.length = 8
  ds_isHex : ∀ c ∈ ds, isHex c = true
  gap_ne_nil : gap ≠ []
  gap_blank : ∀ c ∈ gap, isSpace c = true
  name_ne_nil : name ≠ []
  name_word : ∀ c ∈ name, isSpace c = false

namespace Words

variable (w : Words)

theorem ds_ne_nil : w.ds ≠ [] := List.ne_nil_of_length_eq_add_one w.ds_length

theorem ds_word : ∀ c ∈ w.ds, isSpace c = false := fun c hc => not_isSpace_of_isHex (w.ds_isHex c hc)

/-- **The front of a row**: white space, the address and the name, by the two groups that both
    expressions begin with. -/
theorem yields_front {α : Type} {P : α → Prop} {k : Cursor → Option α} (p : UInt8 → Bool)
    (hp : ∀ c ∈ w.name, p c = true) {lead u : Str} (hlead : ∀ c ∈ lead, isSpace c = true)
    (hu : ∀ c ∈ u.head?, p c = false) {s : Cursor}
    (hs : s.rest = lead ++ (w.ds ++ (w.gap ++ (w.name ++ u)))) (hgroups : s.groups = [])
    (hk : ∀ before, Yields (k ⟨before, u, [(2, w.name), (1, w.ds)]⟩) P) :
    Yields ((Regex.seq (.many isSpace) <| .seq (.group 1 addressRe) <| .seq (some1 isSpace) <|
      .group 2 (some1 p)).run s k) P := by
  have hname : ∀ before, Yields ((Regex.group 2 (some1 p)).run
      ⟨before, w.name ++ u, [(1, w.ds)]⟩ k) P := by
    intro before
    apply yields_group
    refine yields_some1 w.name_ne_nil hp hu rfl fun before' => ?_
    rw [take_group]
    exact hk before'
  have hgap : ∀ before, Yields ((some1 isSpace).run ⟨before, w.gap ++ (w.name ++ u), [(1, w.ds)]⟩
      fun t => (Regex.group 2 (some1 p)).run t k) P := by
    intro before
    exact yields_some1 w.gap_ne_nil w.gap_blank (headWord_append w.name_ne_nil w.name_word u) rfl hname
  have haddress : ∀ before, Yields ((Regex.group 1 addressRe).run
      ⟨before, w.ds ++ (w.gap ++ (w.name ++ u)), []⟩
      fun t => (some1 isSpace).run t fun t' => (Regex.group 2 (some1 p)).run t' k) P := by
    intro before
    apply yields_group
    refine yields_address w.ds_length w.ds_isHex rfl fun before' => ?_
    rw [take_group]
    exact hgap before'
  show Yields ((Regex.many isSpace).run s fun t => (Regex.group 1 addressRe).run t
    fun t' => (some1 isSpace).run t' fun t'' => (Regex.group 2 (some1 p)).run t'' k) P
  apply yields_many hlead (headWord_append w.ds_ne_nil w.ds_word _) hs
  rw [hgroups]
  exact haddress

/-- **A row of one symbol**: the address and the name, with an area behind them or without. -/
theorem yields_symbol {lead area trail : Str} (hlead : ∀ c ∈ lead, isSpace c = true)
    (harea : AreaText area) (htrail : ∀ c ∈ trail, isSpace c = true) :
    Yields (fullMatch symbolRe (lead ++ (w.ds ++ (w.gap ++ (w.name ++ (area ++ trail))))))
      fun m => groupText m.groups 1 = w.ds ∧ groupText m.groups 2 = w.name := by
  have hbehind : HeadBlank (area ++ trail) := by
    cases harea with
    | none => exact fun c hc => htrail c (List.mem_of_mem_head? hc)
    | @some gap area gap_ne_nil gap_blank area_ne_nil area_word =>
      rw [List.append_assoc]
      exact headBlank_append gap_blank fun h => absurd h gap_ne_nil
  have hword : ∀ c ∈ w.name, (!isSpace c) = true := fun c hc => by rw [w.name_word c hc]; rfl
  have hstop : ∀ c ∈ (area ++ trail).head?, (!isSpace c) = false :=
    fun c hc => by rw [hbehind c hc]; rfl
  have hfront := w.yields_front (k := fun t =>
      (opt (.seq (some1 isSpace) (.group 3 (some1 fun c => !isSpace c)))).run t fun t' =>
        (Regex.seq (.many isSpace) .atEnd).run t' fun t'' =>
          if t''.rest.isEmpty then some t'' else none)
    (P := fun m => groupText m.groups 1 = w.ds ∧ groupText m.groups 2 = w.name)
    (s := { rest := lead ++ (w.ds ++ (w.gap ++ (w.name ++ (area ++ trail)))) })
    (fun c => !isSpace c) hword hlead hstop rfl rfl
  refine hfront fun before => ?_
  refine yields_area harea htrail rfl fun before' groups hgroups => ?_
  rcases hgroups with rfl | ⟨text, rfl⟩
  · exact ⟨rfl, rfl⟩
  · exact ⟨rfl, rfl⟩

end Words

/-! ## Rows of several symbols are nothing else -/

/-- A segment has a parenthesis. -/
theorem mem_of_segmentRe {v : Str} (h : segmentRe.Accepts v) : (40 : UInt8) ∈ v := by
  obtain ⟨a0, b0, rfl, -, a1, b1, rfl, -, a2, b2, rfl, -, a3, b3, rfl, -, a4, b4, rfl, -,
    a5, b5, rfl, -, a6, b6, rfl, -, a7, b7, rfl, -, a8, b8, rfl, ⟨c, hc, rfl⟩, -⟩ := h
  obtain rfl : c = 40 := by simpa using hc
  simp

/-- How many words begin in a text; the flag says that one is already being read. -/
def wordCount : Bool → Str → Nat
  | _, [] => 0
  | inWord, c :: s =>
    if isSpace c then wordCount false s else (if inWord then 0 else 1) + wordCount true s

theorem wordCount_blank {a : Str} (ha : ∀ c ∈ a, isSpace c = true) (u : Str) :
    wordCount false (a ++ u) = wordCount false u := by
  induction a with
  | nil => rfl
  | cons c a ih =>
    obtain ⟨hc, ha⟩ := List.forall_mem_cons.mp ha
    rw [List.cons_append, wordCount, if_pos hc]
    exact ih ha

theorem wordCount_inWord {a u : Str} (ha : ∀ c ∈ a, isSpace c = false) (hu : HeadBlank u) :
    wordCount true (a ++ u) = wordCount false u := by
  induction a with
  | nil =>
    cases u with
    | nil => rfl
    | cons c u =>
      have hc : isSpace c = true := hu c rfl
      rw [List.nil_append, wordCount, wordCount, if_pos hc, if_pos hc]
  | cons c a ih =>
    obtain ⟨hc, ha⟩ := List.forall_mem_cons.mp ha
    rw [List.cons_append, wordCount, hc, if_neg Bool.false_ne_true, if_pos rfl, ih ha, Nat.zero_add]

theorem wordCount_word {a u : Str} (hne : a ≠ []) (ha : ∀ c ∈ a, isSpace c = false)
    (hu : HeadBlank u) : wordCount false (a ++ u) = 1 + wordCount false u := by
  obtain ⟨c, a, rfl⟩ := List.exists_cons_of_ne_nil hne
  obtain ⟨hc, ha⟩ := List.forall_mem_cons.mp ha
  rw [List.cons_append, wordCount, hc, if_neg Bool.false_ne_true, if_neg Bool.false_ne_true,
    wordCount_inWord ha hu]

/-- White space and a word behind it. -/
theorem wordCount_step {g a u : Str} (hg : ∀ c ∈ g, isSpace c = true) (hne : a ≠ [])
    (ha : ∀ c ∈ a, isSpace c = false) (hu : HeadBlank u) :
    wordCount false (g ++ (a ++ u)) = 1 + wordCount false u := by
  rw [wordCount_blank hg, wordCount_word hne ha hu]

/-- An address is one word, and begins with a digit. -/
theorem accepts_address {v : Str} (h : addressRe.Accepts v) :
    (∃ c t, v = c :: t ∧ isHex c = true) ∧ ∀ c ∈ v, isSpace c = false := by
  obtain ⟨a, _, rfl, ha, b, c, rfl, hb, hc⟩ := h
  obtain ⟨hlength, hhex⟩ := accepts_times hb
  have hdigits : ∀ x ∈ b ++ c, isSpace x = false := by
    intro x hx
    rcases List.mem_append.mp hx with hx | hx
    · exact not_isSpace_of_isHex (hhex x hx)
    · exact not_isSpace_of_isHex (accepts_upTo hc x hx)
  rcases ha with ⟨_, _, rfl, ⟨x, hx, rfl⟩, y, hy, rfl⟩ | rfl
  · -- `0x` in front
    obtain rfl : x = 48 := by simpa using hx
    refine ⟨⟨48, _, rfl, by decide⟩, ?_⟩
    have hxX : y = 120 ∨ y = 88 := by simpa using hy
    intro c hmem
    rcases List.mem_cons.mp hmem with rfl | hmem
    · decide
    · rcases List.mem_cons.mp hmem with rfl | hmem
      · rcases hxX with rfl | rfl
        · decide
        · decide
      · exact hdigits c hmem
  · obtain ⟨x, t, rfl⟩ : ∃ x t, b = x :: t := by
      cases b with
      | nil => cases hlength
      | cons x t => exact ⟨x, t, rfl⟩
    exact ⟨⟨x, _, rfl, hhex x List.mem_cons_self⟩, hdigits⟩

/-- **The second expression takes two words or three.** -/
theorem symbolRe_words {v : Str} (h : symbolRe.Accepts v) : wordCount false v ≤ 3 := by
  obtain ⟨_, _, rfl, rfl, lead, _, rfl, hlead, ds, _, rfl, hds, gap, _, rfl, hgap, name, _, rfl,
    hname, area, _, rfl, harea, trail, _, rfl, htrail, rfl⟩ := h
  obtain ⟨⟨d, t, rfl, -⟩, hds⟩ := accepts_address hds
  obtain ⟨hgapNe, hgap⟩ := accepts_some1 hgap
  obtain ⟨hnameNe, hname⟩ := accepts_some1 hname
  have hname : ∀ c ∈ name, isSpace c = false := fun c hc => by simpa using hname c hc
  have htrailHead : HeadBlank (trail ++ []) := by
    rw [List.append_nil]
    exact fun c hc => htrail c (List.mem_of_mem_head? hc)
  have htrailCount : wordCount false (trail ++ []) = 0 := wordCount_blank htrail []
  rw [List.nil_append, wordCount_step hlead (List.cons_ne_nil d t) hds
    (headBlank_append hgap fun h => absurd h hgapNe)]
  rcases harea with ⟨g, a, rfl, hg, ha⟩ | rfl
  · obtain ⟨hgNe, hg⟩ := accepts_some1 hg
    obtain ⟨haNe, ha⟩ := accepts_some1 ha
    have ha : ∀ c ∈ a, isSpace c = false := fun c hc => by simpa using ha c hc
    have hareaHead : HeadBlank ((g ++ a) ++ (trail ++ [])) := by
      rw [List.append_assoc]
      exact headBlank_append hg fun h => absurd h hgNe
    rw [wordCount_step hgap hnameNe hname hareaHead, List.append_assoc,
      wordCount_step hg haNe ha htrailHead, htrailCount]
  · rw [List.nil_append, wordCount_step hgap hnameNe hname htrailHead, htrailCount]
    omega

/-- Nothing starts to be a column where the next word begins with no digit. -/
theorem columnRe_at_gap {s : Str} (hs : ∀ c ∈ (s.dropWhile isSpace).head?, isHex c = false)
    {v t : Str} (h : s = v ++ t) : ¬ columnRe.Accepts v := by
  rintro ⟨lead, _, rfl, hlead, ds, u, rfl, hds, -⟩
  obtain ⟨⟨c, ds, rfl, hc⟩, -⟩ := accepts_address hds
  have hdrop : s.dropWhile isSpace = c :: (ds ++ u ++ t) := by
    rw [h, List.append_assoc, List.dropWhile_append_of_pos hlead, List.cons_append,
      List.cons_append, List.dropWhile_cons_of_neg]
    rw [not_isSpace_of_isHex hc]
    exact Bool.false_ne_true
  have hfalse := hs c (by rw [hdrop]; rfl)
  rw [hc] at hfalse
  cases hfalse

/-- Between columns: white space and `|`. -/
def IsBetween (s : Str) : Prop := ∀ c ∈ s, isSpace c = true ∨ c = 124

/-- A `|` that comes first, or the end. -/
theorem head_between {d u : Str} (hd : IsBetween d) (hbar : 124 ∈ d ∨ u = []) :
    ∀ c ∈ ((d ++ u).dropWhile isSpace).head?, isHex c = false := by
  induction d with
  | nil =>
    rcases hbar with hbar | rfl
    · cases hbar
    · intro c hc
      cases hc
  | cons x d ih =>
    obtain ⟨hx, hd⟩ := List.forall_mem_cons.mp hd
    rw [List.cons_append, List.dropWhile_cons]
    split
    · rename_i hspace
      apply ih hd
      rcases hbar with hbar | hu
      · rcases List.mem_cons.mp hbar with rfl | hbar
        · exact absurd hspace (by decide)
        · exact Or.inl hbar
      · exact Or.inr hu
    · rename_i hspace
      obtain rfl : x = 124 := hx.resolve_left hspace
      intro c hc
      obtain rfl : 124 = c := Option.some.inj hc
      decide

/-- What the search passes over in front of a column. -/
def IsSeparator (s : Str) : Prop := s = [] ∨ ∃ a, s = a ++ [124] ∧ ∀ c ∈ a, isSpace c = true

theorem IsSeparator.skip {sep : Str} (h : IsSeparator sep) (u : Str) (before : Option UInt8) :
    ∃ before', search columnRe before (sep ++ u)
      = (search columnRe before' u).map fun f => (sep ++ f.1, f.2) := by
  refine search_skip ?_ before
  intro d hd hsuffix v t hv
  rcases h with rfl | ⟨a, rfl, ha⟩
  · exact absurd (List.suffix_nil.mp hsuffix) hd
  · rcases List.suffix_concat_iff.mp hsuffix with rfl | ⟨b, rfl, hb⟩
    · exact absurd rfl hd
    · refine columnRe_at_gap (head_between ?_ (Or.inl (by simp))) hv
      intro c hc
      rcases List.mem_append.mp hc with hc | hc
      · exact Or.inl (ha c (hb.subset hc))
      · exact Or.inr (List.mem_singleton.mp hc)

theorem IsBetween.search_none {s : Str} (h : IsBetween s) (before : Option UInt8) :
    search columnRe before s = none := by
  refine Regex.search_none ?_ before
  intro d hd v t hv
  have hbetween : IsBetween d := fun c hc => h c (hd.subset hc)
  refine columnRe_at_gap ?_ hv
  have hhead := head_between hbetween (Or.inr rfl)
  rwa [List.append_nil] at hhead

/-! ## The symbols of a row -/

namespace Entry

variable (e : Entry)

/-- What is kept of an entry. -/
def symbol : Symbol := { name := e.name.text, address := e.address }

def words : Words where
  ds := e.digits
  gap := e.gap.text
  name := e.name.text
  ds_length := e.digits_length
  ds_isHex := e.digits_isHex
  gap_ne_nil := e.gap.ne_nil
  gap_blank := e.gap.blank
  name_ne_nil := e.name.ne_nil
  name_word := e.name.not_isSpace

theorem digits_ne_nil : e.digits ≠ [] := e.words.ds_ne_nil

theorem digits_word : ∀ c ∈ e.digits, isSpace c = false := e.words.ds_word

/-- Eight digits are no heading. -/
theorem digits_ne_value : e.digits ≠ str "Value" := by
  intro h
  have hlength := e.digits_length
  rw [h] at hlength
  exact absurd hlength (by decide)

theorem columnOf_groups {groups : List (Nat × Str)} (hds : groupText groups 1 = e.digits)
    (hname : groupText groups 2 = e.name.text) : columnOf groups = some e.symbol := by
  rw [columnOf, hds, hname, readAddress_digits, if_neg]
  · rfl
  · rintro (h | h | h)
    · exact e.digits_ne_value h
    · exact e.not_heading.1 h
    · exact e.not_heading.2 h

/-- **A column is found where it starts**, and it is read back. -/
theorem search_column {sep lead u : Str} (hsep : IsSeparator sep)
    (hlead : ∀ c ∈ lead, isSpace c = true) (hu : HeadBlank u) (before : Option UInt8) :
    ∃ t, search columnRe before (sep ++ ((lead ++ e.text) ++ u)) = some (sep, t) ∧ t.rest = u ∧
      columnOf t.groups = some e.symbol := by
  have hplain : ∀ c ∈ e.name.text, (!isSpace c && c != 124) = true := by
    intro c hc
    have hspace := e.name.not_isSpace c hc
    have hbar : c ≠ 124 := fun h => e.name.not_mem (c := 124) (by decide) (h ▸ hc)
    simp [hspace, hbar]
  have hstop : ∀ c ∈ u.head?, (!isSpace c && c != 124) = false := by
    intro c hc
    rw [hu c hc]
    rfl
  obtain ⟨before', hskip⟩ := hsep.skip ((lead ++ e.text) ++ u) before
  have hrow : (lead ++ e.text) ++ u = lead ++ (e.digits ++ (e.gap.text ++ (e.name.text ++ u))) := by
    simp [Entry.text]
  have hfront := e.words.yields_front (k := some)
    (P := fun t => t.rest = u ∧ t.groups = [(2, e.name.text), (1, e.digits)])
    (s := { before := before', rest := (lead ++ e.text) ++ u }) _ hplain hlead hstop hrow rfl
    fun before => ⟨_, rfl, rfl, rfl⟩
  obtain ⟨t, hrun, hrest, hgroups⟩ := hfront
  have hhere : search columnRe before' ((lead ++ e.text) ++ u) = some ([], t) := search_here hrun
  refine ⟨t, ?_, hrest, ?_⟩
  · rw [hskip, hhere, Option.map_some, List.append_nil]
  · rw [hgroups]
    exact e.columnOf_groups rfl rfl

end Entry

/-- The separator and the text of a column. -/
def Column.sep (c : Column) : Str := c.before.text ++ [124]

theorem Column.text_eq (c : Column) : c.text = c.sep ++ (c.after.text ++ c.entry.text) := by
  rw [Column.text, Column.sep, List.append_assoc, List.singleton_append]

theorem Column.isSeparator (c : Column) : IsSeparator c.sep :=
  Or.inr ⟨c.before.text, rfl, c.before.blank⟩

theorem Column.headBlank (c : Column) (u : Str) : HeadBlank (c.text ++ u) := by
  rw [Column.text, List.append_assoc]
  exact headBlank_append c.before.blank fun h => absurd h c.before.ne_nil

theorem Entry.text_ne_nil (e : Entry) (lead : Str) : lead ++ e.text ≠ [] := by
  intro h
  have hlength := e.digits_length
  have htext : lead ++ (e.digits ++ (e.gap.text ++ e.name.text)) = [] := h
  simp only [List.append_eq_nil_iff] at htext
  rw [htext.2.1] at hlength
  cases hlength

/-- **The columns of a row are found one after the other**, by induction on the columns. -/
theorem columns_found {tail : Str} (htail : IsBetween tail) (hhead : HeadBlank tail)
    (more : List Column) (e : Entry) {sep lead : Str} (hsep : IsSeparator sep)
    (hlead : ∀ c ∈ lead, isSpace c = true) {fuel : Nat} (hfuel : more.length < fuel)
    (before : Option UInt8) :
    ((allMatches columnRe fuel before
        (sep ++ ((lead ++ e.text) ++ (more.flatMap Column.text ++ tail)))).1.filterMap
      fun m => columnOf m.groups) = e.symbol :: more.map fun c => c.entry.symbol := by
  induction more generalizing e sep lead fuel before with
  | nil =>
    obtain ⟨fuel, rfl⟩ := Nat.exists_eq_add_one_of_ne_zero (Nat.ne_of_gt hfuel)
    obtain ⟨t, hsearch, hrest, hsymbol⟩ := e.search_column hsep hlead hhead before
    rw [← hrest] at hsearch
    rw [List.flatMap_nil, List.nil_append, ← hrest, allMatches_cons hsearch (e.text_ne_nil lead), hrest,
      allMatches_none (htail.search_none t.before), List.filterMap_cons, hsymbol]
    rfl
  | cons c more ih =>
    obtain ⟨fuel, rfl⟩ := Nat.exists_eq_add_one_of_ne_zero (Nat.ne_of_gt (Nat.zero_lt_of_lt hfuel))
    have hrow : (c :: more).flatMap Column.text ++ tail
        = c.sep ++ ((c.after.text ++ c.entry.text) ++ (more.flatMap Column.text ++ tail)) := by
      rw [List.flatMap_cons, Column.text_eq]
      simp only [List.append_assoc]
    have hblank : HeadBlank ((c :: more).flatMap Column.text ++ tail) := by
      rw [List.flatMap_cons, List.append_assoc]
      exact c.headBlank _
    obtain ⟨t, hsearch, hrest, hsymbol⟩ := e.search_column hsep hlead hblank before
    rw [← hrest] at hsearch
    have hfound := ih c.entry c.isSeparator c.after.blank (Nat.lt_of_succ_lt_succ hfuel) t.before
    rw [← hrest, allMatches_cons hsearch (e.text_ne_nil lead), hrest, hrow, List.filterMap_cons,
      hsymbol]
    dsimp only
    rw [hfound]
    rfl

/-! ## Rows without the white space around them -/

/-- The last character is not white space. -/
def EndsWord (s : Str) : Prop := ∃ b y, s = b ++ [y] ∧ isSpace y = false

theorem EndsWord.append {s : Str} (h : EndsWord s) (a : Str) : EndsWord (a ++ s) := by
  obtain ⟨b, y, rfl, hy⟩ := h
  exact ⟨a ++ b, y, (List.append_assoc a b [y]).symm, hy⟩

theorem endsWord_of_word {s : Str} (hne : s ≠ []) (h : ∀ c ∈ s, isSpace c = false) : EndsWord s :=
  ⟨s.dropLast, s.getLast hne, (List.dropLast_append_getLast hne).symm, h _ (List.getLast_mem hne)⟩

theorem Entry.endsWord (e : Entry) : EndsWord e.text := by
  have hname := endsWord_of_word e.name.ne_nil e.name.not_isSpace
  exact (hname.append e.gap.text).append _

/-- Trimming takes off white space only. -/
theorem trim_row {lead trail : Str} (hlead : ∀ c ∈ lead, isSpace c = true)
    (htrail : ∀ c ∈ trail, isSpace c = true) (e : Entry) {u : Str} (hend : EndsWord (e.text ++ u)) :
    ∃ lead' trail', (∀ c ∈ lead', isSpace c = true) ∧ (∀ c ∈ trail', isSpace c = true) ∧
      trim (lead ++ ((e.text ++ u) ++ trail)) = lead' ++ ((e.text ++ u) ++ trail') := by
  obtain ⟨b, y, hlast, hy⟩ := hend
  obtain ⟨d, ds, hds⟩ := List.exists_cons_of_ne_nil e.digits_ne_nil
  have hd : isSpace d = false := e.digits_word d (by rw [hds]; exact List.mem_cons_self)
  have hfirst : e.text ++ u = d :: (ds ++ (e.gap.text ++ e.name.text) ++ u) := by
    have htext : e.text = e.digits ++ (e.gap.text ++ e.name.text) := rfl
    rw [htext, hds]
    rfl
  obtain ⟨lead', trail', hlead', htrail', htrim⟩ := trim_between (isTrimmed_of_isSpace hd)
    (isTrimmed_of_isSpace hy) hfirst hlast lead trail
  exact ⟨lead', trail', fun c hc => hlead c (hlead'.subset hc),
    fun c hc => htrail c (htrail'.subset hc), htrim⟩

/-- The name and the address of a symbol. -/
def pair (s : Symbol) : Str × UInt32 := (s.name, s.address)

/-- **A row of one symbol gives it.** -/
theorem symbolsOf_single {lead area trail : Str} (hlead : ∀ c ∈ lead, isSpace c = true)
    (harea : AreaText area) (htrail : ∀ c ∈ trail, isSpace c = true) (e : Entry) :
    (symbolsOf (lead ++ ((e.text ++ area) ++ trail))).map pair = [pair e.symbol] := by
  have hend : EndsWord (e.text ++ area) := by
    cases harea with
    | none =>
      rw [List.append_nil]
      exact e.endsWord
    | @some gap area _ _ area_ne_nil area_word =>
      exact ((endsWord_of_word area_ne_nil area_word).append gap).append e.text
  obtain ⟨lead', trail', hlead', htrail', htrim⟩ := trim_row hlead htrail e hend
  obtain ⟨m, hmatch, hds, hname⟩ := e.words.yields_symbol hlead' harea htrail'
  have hds : groupText m.groups 1 = e.digits := hds
  have hname : groupText m.groups 2 = e.name.text := hname
  have hrow : lead' ++ ((e.text ++ area) ++ trail')
      = lead' ++ (e.words.ds ++ (e.words.gap ++ (e.words.name ++ (area ++ trail')))) := by
    simp [Entry.text, Entry.words]
  have hheading : ¬ (e.digits = str "Value" ∨ e.name.text = str "Global") := by
    rintro (h | h)
    · exact e.digits_ne_value h
    · exact e.not_heading.1 h
  rw [symbolsOf, htrim, hrow, hmatch]
  dsimp only
  rw [hds, hname, if_neg hheading, readAddress_digits]
  rfl

theorem endsWord_columns (c : Column) (more : List Column) :
    EndsWord ((c :: more).flatMap Column.text) := by
  induction more generalizing c with
  | nil =>
    rw [List.flatMap_singleton, Column.text_eq]
    exact (c.entry.endsWord.append c.after.text).append c.sep
  | cons c' more ih =>
    rw [List.flatMap_cons]
    exact (ih c').append c.text

theorem length_le_columns (cs : List Column) : cs.length ≤ (cs.flatMap Column.text).length := by
  induction cs with
  | nil => exact Nat.zero_le _
  | cons c cs ih =>
    have hlength : 1 ≤ c.text.length := by
      simp [Column.text]
      omega
    rw [List.flatMap_cons, List.length_append, List.length_cons]
    omega

/-- A `|` is a word, too. -/
theorem bar_word : ∀ c ∈ ([124] : Str), isSpace c = false := by
  intro c hc
  rw [List.mem_singleton.mp hc]
  decide

/-- Two columns have more than three words. -/
theorem wordCount_columns {lead : Str} (hlead : ∀ c ∈ lead, isSpace c = true) (e : Entry)
    (c : Column) (u : Str) : 4 ≤ wordCount false (lead ++ (e.text ++ (c.text ++ u))) := by
  have hgap : ∀ (gap : Gap) (v : Str), HeadBlank (gap.text ++ v) :=
    fun gap v => headBlank_append gap.blank fun h => absurd h gap.ne_nil
  have hrow : lead ++ (e.text ++ (c.text ++ u)) = lead ++ (e.digits ++ (e.gap.text ++ (e.name.text ++
      (c.before.text ++ ([124] ++ (c.after.text ++ (c.entry.digits ++ (c.entry.gap.text ++
        (c.entry.name.text ++ u))))))))) := by
    simp [Entry.text, Column.text]
  rw [hrow, wordCount_step hlead e.digits_ne_nil e.digits_word (hgap _ _),
    wordCount_step e.gap.blank e.name.ne_nil e.name.not_isSpace (hgap _ _),
    wordCount_step c.before.blank (List.cons_ne_nil _ _) bar_word (hgap _ _),
    wordCount_step c.after.blank c.entry.digits_ne_nil c.entry.digits_word (hgap _ _)]
  omega

/-- **A row of several columns gives them all**: its words are too many for one symbol. -/
theorem symbolsOf_columns {lead finish trail : Str} (hlead : ∀ c ∈ lead, isSpace c = true)
    (hfinish : finish = [] ∨ ∃ gap : Gap, finish = gap.text ++ [124])
    (htrail : ∀ c ∈ trail, isSpace c = true) (e : Entry) (c : Column) (more : List Column) :
    symbolsOf (lead ++ ((e.text ++ ((c :: more).flatMap Column.text ++ finish)) ++ trail))
      = e.symbol :: (c :: more).map fun c => c.entry.symbol := by
  have hbody : EndsWord ((c :: more).flatMap Column.text ++ finish) := by
    rcases hfinish with rfl | ⟨gap, rfl⟩
    · rw [List.append_nil]
      exact endsWord_columns c more
    · refine EndsWord.append ?_ _
      exact ⟨gap.text, 124, rfl, by decide⟩
  obtain ⟨lead', trail', hlead', htrail', htrim⟩ := trim_row hlead htrail e (hbody.append e.text)
  -- two columns have more words than a row of one symbol
  have hnone : fullMatch symbolRe (trim (lead ++ ((e.text ++ ((c :: more).flatMap Column.text ++
      finish)) ++ trail))) = none := by
    rw [← Option.not_isSome_iff_eq_none]
    intro hmatch
    have hwords := symbolRe_words (accepts_of_fullMatch hmatch)
    have hmany := wordCount_columns hlead' e c (more.flatMap Column.text ++ finish ++ trail')
    have hrow : lead' ++ ((e.text ++ ((c :: more).flatMap Column.text ++ finish)) ++ trail')
        = lead' ++ (e.text ++ (c.text ++ (more.flatMap Column.text ++ finish ++ trail'))) := by
      simp
    rw [htrim, hrow] at hwords
    omega
  -- so the columns are searched for, one behind another
  have hbar : (lead ++ ((e.text ++ ((c :: more).flatMap Column.text ++ finish)) ++ trail)).contains 124
      = true := by
    rw [List.contains_iff_mem]
    simp [Column.text]
  have htail : IsBetween (finish ++ trail) := by
    intro x hx
    rcases List.mem_append.mp hx with hx | hx
    · rcases hfinish with rfl | ⟨gap, rfl⟩
      · cases hx
      · rcases List.mem_append.mp hx with hx | hx
        · exact Or.inl (gap.blank x hx)
        · exact Or.inr (List.mem_singleton.mp hx)
    · exact Or.inl (htrail x hx)
  have hhead : HeadBlank (finish ++ trail) := by
    rcases hfinish with rfl | ⟨gap, rfl⟩
    · exact fun x hx => htrail x (List.mem_of_mem_head? hx)
    · rw [List.append_assoc]
      exact headBlank_append gap.blank fun h => absurd h gap.ne_nil
  have hrow : lead ++ ((e.text ++ ((c :: more).flatMap Column.text ++ finish)) ++ trail)
      = [] ++ ((lead ++ e.text) ++ ((c :: more).flatMap Column.text ++ (finish ++ trail))) := by
    simp
  have hfuel : (c :: more).length <
      (lead ++ ((e.text ++ ((c :: more).flatMap Column.text ++ finish)) ++ trail)).length + 1 := by
    have hlength := length_le_columns (c :: more)
    simp only [List.length_append]
    omega
  rw [symbolsOf, hnone]
  dsimp only
  rw [columnsOf, if_pos hbar, matchesOf, hrow]
  rw [hrow] at hfuel
  exact columns_found htail hhead (c :: more) e (Or.inl rfl) hlead hfuel none

/-! ## The table -/

/-- A row has no parenthesis. -/
theorem Row.not_mem (r : Row) : (40 : UInt8) ∉ r.text := by
  have hblank : ∀ b : Blank, (40 : UInt8) ∉ b.text := by
    intro b h
    exact absurd (b.blank 40 h) (by decide)
  have hword : ∀ w : Word, (40 : UInt8) ∉ w.text := fun w => w.not_mem (by decide)
  have hentry : ∀ e : Entry, (40 : UInt8) ∉ e.text := by
    intro e h
    rcases List.mem_append.mp h with h | h
    · exact absurd (e.digits_isHex 40 h) (by decide)
    · rcases List.mem_append.mp h with h | h
      · exact hblank e.gap.toBlank h
      · exact hword e.name h
  have hcolumn : ∀ c : Column, (40 : UInt8) ∉ c.text := by
    intro c h
    rw [Column.text_eq, Column.sep] at h
    simp only [List.mem_append, List.mem_singleton] at h
    rcases h with (h | h) | h | h
    · exact hblank c.before.toBlank h
    · exact absurd h (by decide)
    · exact hblank c.after.toBlank h
    · exact hentry c.entry h
  intro h
  cases r with
  | single lead entry area trail =>
    rw [Row.text] at h
    simp only [List.mem_append] at h
    rcases h with h | h | h | h
    · exact hblank lead h
    · exact hentry entry h
    · cases area with
      | none => cases h
      | some a =>
        rcases List.mem_append.mp h with h | h
        · exact hblank a.1.toBlank h
        · exact hword a.2 h
    · exact hblank trail h
  | columns lead first more last trail =>
    rw [Row.text] at h
    simp only [List.mem_append, List.mem_flatMap] at h
    rcases h with h | h | ⟨c, -, h⟩ | h | h
    · exact hblank lead h
    · exact hentry first h
    · exact hcolumn c h
    · cases last with
      | none => cases h
      | some gap =>
        rcases List.mem_append.mp h with h | h
        · exact hblank gap.toBlank h
        · exact absurd (List.mem_singleton.mp h) (by decide)
    · exact hblank trail h

/-- A row begins with an address. -/
theorem Row.exists_first (r : Row) : ∃ e : Entry, ∃ lead u, r.text = lead ++ (e.digits ++ u) := by
  cases r with
  | single lead entry area trail =>
    rw [Row.text, Entry.text, List.append_assoc]
    exact ⟨entry, lead.text, _, rfl⟩
  | columns lead first more last trail =>
    rw [Row.text, Entry.text, List.append_assoc]
    exact ⟨first, lead.text, _, rfl⟩

theorem trim_ne_nil {s : Str} {c : UInt8} (h : c ∈ s) (hc : isTrimmed c = false) : trim s ≠ [] := by
  intro hnil
  have hback : ∀ x ∈ s.dropWhile isTrimmed, isTrimmed x = true := by
    intro x hx
    have hall := List.dropWhile_eq_nil_iff.mp (List.reverse_eq_nil_iff.mp hnil)
    exact hall x (List.mem_reverse.mpr hx)
  rw [← List.takeWhile_append_dropWhile (p := isTrimmed) (l := s)] at h
  have htrue : isTrimmed c = true := by
    rcases List.mem_append.mp h with h | h
    · exact List.mem_takeWhile_imp h
    · exact hback c h
  rw [hc] at htrue
  cases htrue

/-- **Each row gives its symbols.** -/
theorem symbolsOf_row (r : Row) :
    (symbolsOf r.text).map pair = r.entries.map fun e => pair e.symbol := by
  cases r with
  | single lead entry area trail =>
    have harea : AreaText (area.elim [] fun a => a.1.text ++ a.2.text) := by
      cases area with
      | none => exact AreaText.none
      | some a => exact AreaText.some a.1.ne_nil a.1.blank a.2.ne_nil a.2.not_isSpace
    have hsingle := symbolsOf_single lead.blank harea trail.blank entry
    rw [Row.text, ← List.append_assoc entry.text]
    exact hsingle
  | columns lead first more last trail =>
    cases more with
    | nil =>
      -- a `|` behind the only column stands where the area would
      have harea : AreaText (last.elim [] fun gap => gap.text ++ [124]) := by
        cases last with
        | none => exact AreaText.none
        | some gap => exact AreaText.some gap.ne_nil gap.blank (List.cons_ne_nil _ _) bar_word
      have hsingle := symbolsOf_single lead.blank harea trail.blank first
      rw [Row.text, List.flatMap_nil, List.nil_append, ← List.append_assoc first.text]
      exact hsingle
    | cons c more =>
      have hfinish : (last.elim [] fun gap => gap.text ++ [124]) = [] ∨
          ∃ gap : Gap, (last.elim [] fun gap => gap.text ++ [124]) = gap.text ++ [124] := by
        cases last with
        | none => exact Or.inl rfl
        | some gap => exact Or.inr ⟨gap, rfl⟩
      have hcolumns := symbolsOf_columns lead.blank hfinish trail.blank first c more
      have hrow : (Row.columns lead first (c :: more) last trail).text
          = lead.text ++ ((first.text ++ ((c :: more).flatMap Column.text ++
              (last.elim [] fun gap => gap.text ++ [124]))) ++ trail.text) := by
        simp [Row.text]
      rw [hrow, hcolumns]
      simp [Row.entries]

/-- A row is neither empty nor a segment. -/
theorem parseLine_row (info : MapInfo) (r : Row) :
    (parseLine info r.text).symbols.map pair
      = info.symbols.map pair ++ r.entries.map fun e => pair e.symbol := by
  have hsymbols := symbolsOf_row r
  have hsegment : fullMatch segmentRe (trim r.text) = none := by
    rw [← Option.not_isSome_iff_eq_none]
    intro hmatch
    exact r.not_mem (mem_of_mem_trim (mem_of_segmentRe (accepts_of_fullMatch hmatch)))
  have hne : ¬ (trim r.text).isEmpty = true := by
    obtain ⟨e, lead, u, hrow⟩ := r.exists_first
    obtain ⟨d, ds, hds⟩ := List.exists_cons_of_ne_nil e.digits_ne_nil
    have hd : isSpace d = false := e.digits_word d (by rw [hds]; exact List.mem_cons_self)
    have hmem : d ∈ r.text := by
      rw [hrow, hds]
      simp
    rw [List.isEmpty_iff]
    exact trim_ne_nil hmem (isTrimmed_of_isSpace hd)
  rw [parseLine, if_neg hne, hsegment]
  dsimp only [Option.bind_none]
  rw [List.map_append, hsymbols]

/-- **What the table lists is what is read**, in order and each symbol once, whatever the layout of
    the rows. -/
theorem parse_table {disk : Disk} {path : Str} {rows : List Row}
    (h : readLines disk path = some (rows.map Row.text)) :
    ∃ info, parse disk path = some info ∧
      info.symbols.map (fun s => (s.name, s.address))
        = (rows.flatMap Row.entries).map fun e => (e.name.text, e.address) := by
  have hrows : ∀ info : MapInfo, ((rows.map Row.text).foldl parseLine info).symbols.map pair
      = info.symbols.map pair ++ (rows.flatMap Row.entries).map fun e => pair e.symbol := by
    clear h
    induction rows with
    | nil => intro info; simp
    | cons r rows ih =>
      intro info
      rw [List.map_cons, List.foldl_cons, ih, parseLine_row, List.flatMap_cons, List.map_append,
        List.append_assoc]
  refine ⟨(rows.map Row.text).foldl parseLine {}, ?_, ?_⟩
  · rw [parse, h, Option.map_some]
  · exact hrows {}

/-! ## A table of both kinds of rows -/

def noBlank : Blank := ⟨[], fun c hc => absurd hc List.not_mem_nil⟩

def space : Gap := ⟨⟨[32], List.all_eq_true.mp rfl⟩, List.cons_ne_nil _ _⟩

/-- The name looks like an address. -/
def dead : Entry :=
  ⟨0x100, str "00000100", by decide +kernel, space, ⟨str "DEAD", by decide, List.all_eq_true.mp (by decide +kernel)⟩,
    by decide⟩

def putc : Entry :=
  ⟨0xABCD, str "0000aBCd", by decide +kernel, space, ⟨str "_cputc", by decide, List.all_eq_true.mp (by decide +kernel)⟩,
    by decide⟩

def clockArea : Word := ⟨str "clock", by decide, List.all_eq_true.mp (by decide +kernel)⟩

def clockRows : List Row :=
  [.single space.toBlank dead (some (space, clockArea)) noBlank,
   .columns noBlank putc [] (some space) ⟨[13], List.all_eq_true.mp rfl⟩,
   .columns noBlank putc [⟨space, space, dead⟩, ⟨space, space, putc⟩] (some space) noBlank]

/-- A disk with this table in every file. -/
def clockDisk : Disk :=
  { (default : Disk) with
    read := fun _ => some (str " 00000100 DEAD clock\n0000aBCd _cputc |\r\n" ++
      str "0000aBCd _cputc | 00000100 DEAD | 0000aBCd _cputc |\n") }

theorem parse_table_clock :
    ∃ info, parse clockDisk (str "clock.map") = some info ∧
      info.symbols.map (fun s => (s.name, s.address))
        = [(str "DEAD", 0x100), (str "_cputc", 0xABCD), (str "_cputc", 0xABCD), (str "DEAD", 0x100),
            (str "_cputc", 0xABCD)] := by
  have hlines : readLines clockDisk (str "clock.map") = some (clockRows.map Row.text) := by
    decide +kernel
  exact parse_table hlines

end Udap.Sdcc.MapParser
