/-
  A WHOLE MAP FILE — are the areas and the symbols of a linker's listing read back from between its
  headings?

  The listing comes in pages.  Each has two lines of headings, the area with its address, its size and
  its attributes in parentheses, and a table of symbols under headings of its own.

  1. **Areas** — the first expression reads an area (`yields_segment`).  Between the size and the
     attributes may stand anything, parentheses too: the star takes all of the line, and gives back
     up to the last parenthesis.

  2. **Headings** — a line is passed over if it does not begin with an address, and neither is its
     second word one, or there is no parenthesis (`parseLine_heading`).

  3. **Result** — `parse_file`: whatever the order of the lines, the areas and the symbols are those of
     the file, each in their order.
-/
import Udap.Sdcc.MapText

set_option linter.unusedVariables false

namespace Udap.Sdcc.MapParser

open Udap Udap.Cxx Regex

/-! ## The lines of a file -/

/-- A number in eight digits, capital or small. -/
structure Number where
  value : UInt32
  digits : Str
  printed : digits.map capital = hexPadded 8 value.toNat

/-- The line of an area. -/
structure AreaLine where
  lead : Blank
  name : Str
  name_ne_nil : name ≠ []
  name_plain : ∀ c ∈ name, isSegmentChar c = true
  gap : Gap
  address : Number
  gap' : Gap
  size : Number
  /-- The size once more, as a decimal number. -/
  middle : Str
  middle_plain : ∀ c ∈ middle, c ≠ 10 ∧ c ≠ 13
  attributes : Str
  attributes_plain : ∀ c ∈ attributes, c ≠ 40 ∧ c ≠ 41
  trail : Blank

namespace AreaLine

/-- What stands behind the size. -/
def behind (a : AreaLine) : Str := a.middle ++ 40 :: (a.attributes ++ [41])

/-- The line without the white space around it. -/
def core (a : AreaLine) : Str :=
  a.name ++ (a.gap.text ++ (a.address.digits ++ (a.gap'.text ++ (a.size.digits ++ a.behind))))

def text (a : AreaLine) : Str := a.lead.text ++ (a.core ++ a.trail.text)

/-- The segment that it stands for. -/
def segment (a : AreaLine) : Segment :=
  { name := a.name, address := a.address.value, size := a.size.value, attributes := a.attributes }

end AreaLine

/-- Does a text begin with an address?  It may be `0x` and anything. -/
def beginsAddress (s : Str) : Bool :=
  (4 ≤ s.length && (s.take 4).all isHex) || s.take 2 == str "0x" || s.take 2 == str "0X"

/-- The text behind its first word. -/
def behindWord (s : Str) : Str :=
  ((s.dropWhile isSpace).dropWhile fun c => !isSpace c).dropWhile isSpace

/-- A line that is passed over. -/
structure Heading where
  text : Str
  first : beginsAddress ((trim text).dropWhile isSpace) = false
  second : text.contains 40 = false ∨ beginsAddress (behindWord (trim text)) = false
  /-- No column is found in it. -/
  columns : text.contains 124 = false ∨ ∀ d ∈ text.tails, beginsAddress d = false

/-- A line of the file. -/
inductive MapLine where
  | area (a : AreaLine)
  | row (r : Row)
  | heading (h : Heading)

def MapLine.text : MapLine → Str
  | .area a => a.text
  | .row r => r.text
  | .heading h => h.text

def MapLine.segment? : MapLine → Option Segment
  | .area a => some a.segment
  | .row _ => none
  | .heading _ => none

def MapLine.entries : MapLine → List Entry
  | .area _ => []
  | .row r => r.entries
  | .heading _ => []

/-! ## Areas -/

namespace Number

variable (n : Number)

theorem digits_length : n.digits.length = 8 := by
  have hlength : (n.digits.map capital).length = 8 := by
    rw [n.printed]
    exact hexPadded_length (by decide) n.value.toNat_lt
  rwa [List.length_map] at hlength

theorem digits_isHex : ∀ c ∈ n.digits, isHex c = true := by
  intro c hc
  exact isHex_of_isHexDigit (isHexDigit_of_printed n.printed c hc)

theorem digits_ne_nil : n.digits ≠ [] := List.ne_nil_of_length_eq_add_one n.digits_length

theorem digits_word : ∀ c ∈ n.digits, isSpace c = false :=
  fun c hc => not_isSpace_of_isHex (n.digits_isHex c hc)

theorem readAddress_eq : readAddress n.digits = some n.value := by
  have hlt : n.value.toNat < 2 ^ 64 := Nat.lt_trans n.value.toNat_lt (by decide)
  rw [readAddress, stoul_printed n.printed hlt, Option.map_some, UInt32.ofNat_toNat]

end Number

/-- A character of a segment's name is no white space. -/
theorem not_isSpace_of_isSegmentChar {c : UInt8} (h : isSegmentChar c = true) : isSpace c = false := by
  by_contra hspace
  have hle := isSpace_range (Bool.eq_true_of_not_eq_false hspace)
  simp only [isSegmentChar, isWord, Bool.or_eq_true, Bool.and_eq_true, decide_eq_true_eq, beq_iff_eq,
    UInt8.le_iff_toNat_le, ← UInt8.toNat_inj] at h
  have h48 : (48 : UInt8).toNat = 48 := rfl
  have h65 : (65 : UInt8).toNat = 65 := rfl
  have h97 : (97 : UInt8).toNat = 97 := rfl
  have h95 : (95 : UInt8).toNat = 95 := rfl
  have h46 : (46 : UInt8).toNat = 46 := rfl
  have h36 : (36 : UInt8).toNat = 36 := rfl
  omega

namespace AreaLine

variable (a : AreaLine)

theorem name_word : ∀ c ∈ a.name, isSpace c = false :=
  fun c hc => not_isSpace_of_isSegmentChar (a.name_plain c hc)

/-- The expression behind the size. -/
def behindRe : Regex :=
  .seq (.many fun c => c != 10 && c != 13) <| .seq (.one (· == 40)) <|
  .seq (.group 4 (.many (· != 41))) <| .seq (.one (· == 41)) <| .seq (.many isSpace) .atEnd

/-- **Behind the size**: the attributes are what stands in the last parentheses. -/
theorem yields_behind {trail : Str} (htrail : ∀ c ∈ trail, isSpace c = true) {s : Cursor}
    (hs : s.rest = a.behind ++ trail) :
    Yields (behindRe.run s fun t => if t.rest.isEmpty then some t else none)
      fun m => m.groups = (4, a.attributes) :: s.groups := by
  have hmiddle : ∀ c ∈ a.middle, (c != 10 && c != 13) = true := by
    intro c hc
    obtain ⟨h10, h13⟩ := a.middle_plain c hc
    simp [h10, h13]
  have hattributes : ∀ c ∈ a.attributes, (c != 41) = true := by
    intro c hc
    simpa using (a.attributes_plain c hc).2
  have hsplit : s.rest = a.middle ++ 40 :: (a.attributes ++ 41 :: trail) := by
    rw [hs, behind]
    simp
  refine yields_many_back hmiddle hsplit ?_ ?_
  · -- behind the parenthesis there is no other
    intro before d hd
    cases d with
    | nil => rfl
    | cons x d =>
      have hx : x ∈ a.attributes ++ 41 :: trail := hd.subset List.mem_cons_self
      have hne : (x == 40) = false := by
        apply beq_eq_false_iff_ne.mpr
        rcases List.mem_append.mp hx with hx | hx
        · exact (a.attributes_plain x hx).1
        · rcases List.mem_cons.mp hx with rfl | hx
          · decide
          · rintro rfl
            exact absurd (htrail 40 hx) (by decide)
      show (if (x == 40) = true then _ else none) = none
      rw [hne, if_neg Bool.false_ne_true]
  · intro before
    refine yields_seq (yields_one (by rfl) rfl ?_)
    refine yields_seq (yields_group (yields_many hattributes (fun c hc => ?_) rfl fun before' => ?_))
    · obtain rfl : 41 = c := Option.some.inj hc
      rfl
    · rw [take_group]
      refine yields_seq (yields_one (by rfl) rfl ?_)
      exact yields_end htrail rfl fun before'' => rfl

/-- **The line of an area** is read by the first expression. -/
theorem yields_segment {lead trail : Str} (hlead : ∀ c ∈ lead, isSpace c = true)
    (htrail : ∀ c ∈ trail, isSpace c = true) :
    Yields (fullMatch segmentRe (lead ++ (a.core ++ trail))) fun m => m.groups
      = [(4, a.attributes), (3, a.size.digits), (2, a.address.digits), (1, a.name)] := by
  have hgap : ∀ (gap : Gap) (v : Str), ∀ c ∈ (gap.text ++ v).head?, isSpace c = true := by
    intro gap v
    exact headBlank_append gap.blank fun h => absurd h gap.ne_nil
  have hline : lead ++ (a.core ++ trail) = lead ++ (a.name ++ (a.gap.text ++ (a.address.digits ++
      (a.gap'.text ++ (a.size.digits ++ (a.behind ++ trail)))))) := by
    simp [core]
  have hsize : ∀ before, Yields ((Regex.group 3 addressRe).run
      ⟨before, a.size.digits ++ (a.behind ++ trail), [(2, a.address.digits), (1, a.name)]⟩
      fun t => behindRe.run t fun t => if t.rest.isEmpty then some t else none) fun m => m.groups
        = [(4, a.attributes), (3, a.size.digits), (2, a.address.digits), (1, a.name)] := by
    intro before
    apply yields_group
    refine yields_address a.size.digits_length a.size.digits_isHex rfl fun before' => ?_
    rw [take_group]
    exact a.yields_behind htrail rfl
  have haddress : ∀ before, Yields ((Regex.group 2 addressRe).run
      ⟨before, a.address.digits ++ (a.gap'.text ++ (a.size.digits ++ (a.behind ++ trail))), [(1, a.name)]⟩
      fun t => (some1 isSpace).run t fun t => (Regex.group 3 addressRe).run t fun t =>
        behindRe.run t fun t => if t.rest.isEmpty then some t else none) fun m => m.groups
        = [(4, a.attributes), (3, a.size.digits), (2, a.address.digits), (1, a.name)] := by
    intro before
    apply yields_group
    refine yields_address a.address.digits_length a.address.digits_isHex rfl fun before' => ?_
    rw [take_group]
    exact yields_some1 a.gap'.ne_nil a.gap'.blank
      (headWord_append a.size.digits_ne_nil a.size.digits_word _) rfl hsize
  have hname : ∀ before, Yields ((Regex.group 1 (some1 isSegmentChar)).run
      ⟨before, a.name ++ (a.gap.text ++ (a.address.digits ++ (a.gap'.text ++
        (a.size.digits ++ (a.behind ++ trail))))), []⟩
      fun t => (some1 isSpace).run t fun t => (Regex.group 2 addressRe).run t fun t =>
        (some1 isSpace).run t fun t => (Regex.group 3 addressRe).run t fun t =>
          behindRe.run t fun t => if t.rest.isEmpty then some t else none) fun m => m.groups
        = [(4, a.attributes), (3, a.size.digits), (2, a.address.digits), (1, a.name)] := by
    intro before
    apply yields_group
    refine yields_some1 a.name_ne_nil a.name_plain (fun c hc => ?_) rfl fun before' => ?_
    · by_contra hplain
      have hspace := not_isSpace_of_isSegmentChar (Bool.eq_true_of_not_eq_false hplain)
      rw [hgap a.gap _ c hc] at hspace
      cases hspace
    · rw [take_group]
      exact yields_some1 a.gap.ne_nil a.gap.blank
        (headWord_append a.address.digits_ne_nil a.address.digits_word _) rfl haddress
  rw [hline]
  exact yields_many hlead (headWord_append a.name_ne_nil a.name_word _) rfl hname

/-- **The line of an area** gives its segment and nothing else. -/
theorem parseLine_area (info : MapInfo) :
    parseLine info a.text = { info with segments := info.segments ++ [a.segment] } := by
  obtain ⟨c, rest, hname⟩ := List.exists_cons_of_ne_nil a.name_ne_nil
  have hc : isSpace c = false := a.name_word c (by rw [hname]; exact List.mem_cons_self)
  have hfirst : a.core = c :: (rest ++ (a.gap.text ++ (a.address.digits ++ (a.gap'.text ++
      (a.size.digits ++ a.behind))))) := by
    rw [core, hname]
    rfl
  have hlast : a.core = (a.name ++ (a.gap.text ++ (a.address.digits ++ (a.gap'.text ++
      (a.size.digits ++ (a.middle ++ 40 :: a.attributes)))))) ++ [41] := by
    simp [core, behind]
  obtain ⟨lead, trail, hlead, htrail, htrim⟩ := trim_between (isTrimmed_of_isSpace hc)
    (by decide : isTrimmed 41 = false) hfirst hlast a.lead.text a.trail.text
  obtain ⟨m, hmatch, hgroups⟩ := a.yields_segment (fun c hc => a.lead.blank c (hlead.subset hc))
    (fun c hc => a.trail.blank c (htrail.subset hc))
  have hsegment : segmentOf m.groups = some a.segment := by
    rw [hgroups]
    show (readAddress a.address.digits).bind (fun address => (readAddress a.size.digits).bind _) = _
    rw [a.address.readAddress_eq, a.size.readAddress_eq]
    rfl
  have hne : ¬ (trim a.text).isEmpty = true := by
    rw [text, htrim, hfirst, List.isEmpty_iff]
    simp
  rw [parseLine, if_neg hne, text, htrim, hmatch, Option.bind_some, hsegment]

end AreaLine

/-! ## Headings -/

/-- What an address accepts begins with one. -/
theorem beginsAddress_of_accepts {v : Str} (h : addressRe.Accepts v) (u : Str) :
    beginsAddress (v ++ u) = true := by
  obtain ⟨a, _, rfl, ha, b, c, rfl, hb, -⟩ := h
  unfold beginsAddress
  rcases ha with ⟨_, _, rfl, ⟨x, hx, rfl⟩, y, hy, rfl⟩ | rfl
  · obtain rfl : x = 48 := by simpa using hx
    have hxX : y = 120 ∨ y = 88 := by simpa using hy
    rcases hxX with rfl | rfl
    · rw [Bool.or_eq_true, Bool.or_eq_true]
      exact Or.inl (Or.inr rfl)
    · rw [Bool.or_eq_true]
      exact Or.inr rfl
  · obtain ⟨hlength, hhex⟩ := accepts_times hb
    have htake : ([] ++ (b ++ c) ++ u).take 4 = b := by
      rw [List.nil_append, List.append_assoc, ← hlength, List.take_left]
    have hall : b.all isHex = true := List.all_eq_true.mpr hhex
    rw [htake, hall, Bool.and_true, Bool.or_eq_true, Bool.or_eq_true]
    refine Or.inl (Or.inl (decide_eq_true ?_))
    rw [List.nil_append, List.append_assoc, List.length_append]
    omega

theorem dropWhile_blank {a u : Str} (ha : ∀ c ∈ a, isSpace c = true) (hu : HeadWord u) :
    (a ++ u).dropWhile isSpace = u := by
  rw [List.dropWhile_append_of_pos ha]
  cases u with
  | nil => rfl
  | cons c u => rw [List.dropWhile_cons_of_neg (by rw [hu c rfl]; exact Bool.false_ne_true)]

/-- The text behind a word that stands between white space. -/
theorem behindWord_eq {lead name gap u : Str} (hlead : ∀ c ∈ lead, isSpace c = true)
    (hne : name ≠ []) (hname : ∀ c ∈ name, isSpace c = false) (hgapNe : gap ≠ [])
    (hgap : ∀ c ∈ gap, isSpace c = true) (hu : HeadWord u) :
    behindWord (lead ++ (name ++ (gap ++ u))) = u := by
  obtain ⟨g, gs, rfl⟩ := List.exists_cons_of_ne_nil hgapNe
  have hword : (name ++ (g :: gs ++ u)).dropWhile (fun c => !isSpace c) = g :: gs ++ u := by
    rw [List.dropWhile_append_of_pos (fun c hc => by rw [hname c hc]; rfl), List.cons_append,
      List.dropWhile_cons_of_neg (by rw [hgap g List.mem_cons_self]; exact Bool.false_ne_true)]
  rw [behindWord, dropWhile_blank hlead (headWord_append hne hname _), hword, dropWhile_blank hgap hu]

/-- An address has no white space in front. -/
theorem headWord_of_accepts {v : Str} (h : addressRe.Accepts v) (u : Str) : HeadWord (v ++ u) := by
  obtain ⟨⟨c, t, rfl, -⟩, hword⟩ := accepts_address h
  exact headWord_append (List.cons_ne_nil c t) hword u

namespace Heading

variable (h : Heading)

/-- A heading is no area: its second word is no address, or there are no attributes. -/
theorem segmentRe_none : fullMatch segmentRe (trim h.text) = none := by
  rw [← Option.not_isSome_iff_eq_none]
  intro hmatch
  have haccepts := accepts_of_fullMatch hmatch
  rcases h.second with hparen | hword
  · have hmem := List.contains_iff_mem.mpr (mem_of_mem_trim (mem_of_segmentRe haccepts))
    rw [hparen] at hmem
    cases hmem
  · obtain ⟨_, _, heq, rfl, lead, _, rfl, hlead, name, _, rfl, hname, gap, _, rfl, hgap, address,
      u, rfl, haddress, -⟩ := haccepts
    obtain ⟨hnameNe, hname⟩ := accepts_some1 hname
    obtain ⟨hgapNe, hgap⟩ := accepts_some1 hgap
    rw [heq, List.nil_append, behindWord_eq hlead hnameNe
      (fun c hc => not_isSpace_of_isSegmentChar (hname c hc)) hgapNe hgap
      (headWord_of_accepts haddress u), beginsAddress_of_accepts haddress] at hword
    cases hword

/-- Nor is it a symbol: it begins with no address. -/
theorem symbolRe_none : fullMatch symbolRe (trim h.text) = none := by
  rw [← Option.not_isSome_iff_eq_none]
  intro hmatch
  obtain ⟨_, _, heq, rfl, lead, _, rfl, hlead, address, u, rfl, haddress, -⟩ :=
    accepts_of_fullMatch hmatch
  have hfirst := h.first
  rw [heq, List.nil_append, dropWhile_blank hlead (headWord_of_accepts haddress u),
    beginsAddress_of_accepts haddress] at hfirst
  cases hfirst

/-- And it has no columns. -/
theorem columnsOf_nil : columnsOf h.text = [] := by
  rcases h.columns with hbar | htails
  · rw [columnsOf, hbar, if_neg Bool.false_ne_true]
  · have hsearch : search columnRe none h.text = none := by
      refine search_none ?_ none
      rintro d hd v t rfl ⟨lead, _, rfl, -, address, u, rfl, haddress, -⟩
      have hmem : address ++ (u ++ t) ∈ h.text.tails := by
        rw [List.mem_tails]
        refine List.IsSuffix.trans ?_ hd
        rw [List.append_assoc, List.append_assoc]
        exact List.suffix_append _ _
      have hfalse := htails _ hmem
      rw [beginsAddress_of_accepts haddress] at hfalse
      cases hfalse
    rw [columnsOf, matchesOf, allMatches_none hsearch, List.filterMap_nil, ite_self]

/-- **A heading is passed over.** -/
theorem parseLine_heading (info : MapInfo) : parseLine info h.text = info := by
  unfold parseLine
  split
  · rfl
  · rw [h.segmentRe_none, Option.bind_none]
    dsimp only
    rw [symbolsOf, h.symbolRe_none]
    dsimp only
    rw [h.columnsOf_nil, List.append_nil]

end Heading

/-! ## The file -/

/-- A row of symbols adds no segment. -/
theorem segments_row (info : MapInfo) (r : Row) : (parseLine info r.text).segments = info.segments := by
  have hsegment : fullMatch segmentRe (trim r.text) = none := by
    rw [← Option.not_isSome_iff_eq_none]
    intro hmatch
    exact r.not_mem (mem_of_mem_trim (mem_of_segmentRe (accepts_of_fullMatch hmatch)))
  unfold parseLine
  split
  · rfl
  · rw [hsegment]
    rfl

/-- **The step lemma.** -/
theorem parseLine_line (info : MapInfo) (l : MapLine) :
    (parseLine info l.text).segments = info.segments ++ l.segment?.toList ∧
      (parseLine info l.text).symbols.map pair
        = info.symbols.map pair ++ l.entries.map fun e => pair e.symbol := by
  cases l with
  | area a =>
    rw [MapLine.text, a.parseLine_area]
    exact ⟨rfl, (List.append_nil _).symm⟩
  | row r =>
    refine ⟨?_, parseLine_row info r⟩
    rw [MapLine.text, segments_row]
    exact (List.append_nil _).symm
  | heading h =>
    rw [MapLine.text, h.parseLine_heading]
    exact ⟨(List.append_nil _).symm, (List.append_nil _).symm⟩

/-- **The run lemma.** -/
theorem foldl_lines (lines : List MapLine) (info : MapInfo) :
    ((lines.map MapLine.text).foldl parseLine info).segments
        = info.segments ++ lines.filterMap MapLine.segment? ∧
      ((lines.map MapLine.text).foldl parseLine info).symbols.map pair
        = info.symbols.map pair ++ (lines.flatMap MapLine.entries).map fun e => pair e.symbol := by
  induction lines generalizing info with
  | nil => exact ⟨(List.append_nil _).symm, (List.append_nil _).symm⟩
  | cons l lines ih =>
    obtain ⟨hsegments, hsymbols⟩ := parseLine_line info l
    obtain ⟨hrestSegments, hrestSymbols⟩ := ih (parseLine info l.text)
    rw [List.map_cons, List.foldl_cons, hrestSegments, hrestSymbols, hsegments, hsymbols,
      List.append_assoc, List.append_assoc, List.flatMap_cons, List.map_append]
    refine ⟨?_, rfl⟩
    cases hsegment : l.segment? with
    | none => rw [List.filterMap_cons_none hsegment]; rfl
    | some s => rw [List.filterMap_cons_some hsegment]; rfl

/-- **What the file lists is what is read**: the segments and the symbols of its areas and rows, in
    their order and each once, in whatever order the lines stand and whatever headings stand between
    them. -/
theorem parse_file {disk : Disk} {path : Str} {lines : List MapLine}
    (h : readLines disk path = some (lines.map MapLine.text)) :
    ∃ info, parse disk path = some info ∧ info.segments = lines.filterMap MapLine.segment? ∧
      info.symbols.map (fun s => (s.name, s.address))
        = (lines.flatMap MapLine.entries).map fun e => (e.name.text, e.address) := by
  obtain ⟨hsegments, hsymbols⟩ := foldl_lines lines {}
  refine ⟨(lines.map MapLine.text).foldl parseLine {}, ?_, hsegments, hsymbols⟩
  rw [parse, h, Option.map_some]

/-! ### A page of a listing -/

def pageHeading : Heading :=
  ⟨str "ASxxxx Linker V03.00 + NoICE + sdld,  page 2.", by decide +kernel, by decide +kernel,
    by decide +kernel⟩

def areaHeading : Heading :=
  ⟨str "Area        Addr        Size   Decimal Bytes (Attributes)", by decide +kernel,
    by decide +kernel, by decide +kernel⟩

def tableHeading : Heading :=
  ⟨str "  Value  Global  |  Value  Global  |", by decide +kernel, by decide +kernel, by decide +kernel⟩

def blankLine : Heading := ⟨[], by decide, by decide, by decide⟩

theorem codeAddress_printed : (str "00000100").map capital = hexPadded 8 (0x100 : UInt32).toNat := by
  decide +kernel

theorem bytes_plain : ∀ c ∈ str " = 9727. bytes ", c ≠ 10 ∧ c ≠ 13 := by decide +kernel

theorem relocatable_plain : ∀ c ∈ str "REL,CON", c ≠ 40 ∧ c ≠ 41 := by decide +kernel

def codeArea : AreaLine where
  lead := noBlank
  name := str "_CODE"
  name_ne_nil := by decide
  name_plain := List.all_eq_true.mp (by decide +kernel)
  gap := space
  address := ⟨0x100, str "00000100", codeAddress_printed⟩
  gap' := space
  size := ⟨0x25FF, str "000025FF", by decide +kernel⟩
  middle := str " = 9727. bytes "
  middle_plain := bytes_plain
  attributes := str "REL,CON"
  attributes_plain := relocatable_plain
  trail := noBlank

def pageLines : List MapLine :=
  [.heading pageHeading, .heading blankLine, .heading areaHeading, .area codeArea,
   .heading tableHeading, .row (.columns noBlank putc [⟨space, space, dead⟩] (some space) noBlank),
   .row (.single noBlank putc (some (space, clockArea)) noBlank)]

/-- A disk with this page in every file. -/
def pageDisk : Disk :=
  { (default : Disk) with
    read := fun _ => some (str "ASxxxx Linker V03.00 + NoICE + sdld,  page 2.\n\n" ++
      str "Area        Addr        Size   Decimal Bytes (Attributes)\n" ++
      str "_CODE 00000100 000025FF = 9727. bytes (REL,CON)\n" ++
      str "  Value  Global  |  Value  Global  |\n" ++
      str "0000aBCd _cputc | 00000100 DEAD |\n0000aBCd _cputc clock\n") }

theorem parse_file_page : ∃ info, parse pageDisk (str "clock.map") = some info ∧
    info.segments = [⟨str "_CODE", 0x100, 0x25FF, str "REL,CON"⟩] ∧
    info.symbols.map (fun s => (s.name, s.address))
      = [(str "_cputc", 0xABCD), (str "DEAD", 0x100), (str "_cputc", 0xABCD)] :=
  parse_file (show readLines pageDisk (str "clock.map") = some (pageLines.map MapLine.text) by
    decide +kernel)

end Udap.Sdcc.MapParser
