/-
  WHAT A SESSION TAKES from its input: `session::read_message` and `session::run` on any bytes.

  The reader looks for one header, and takes it from lines of any kind, as often as it stands there
  and wherever; everything else about the headers is ignored.

  1. **Format** — a message of the input (`Block`): lines that are not blank, a blank line, and a
     payload as long as the last of the lines that names a length says (`lengthOf`).

  2. **Reader** — it takes a message wherever one stands (`readMessage_block`), and nothing else
     (`exists_block`).

  3. **Session** — so every input is cut into messages and a rest at whose front there is none, in
     one way only, and the session handles the payloads of these messages (`run_blocks`).
-/
import Udap.Dap.SocketInput

set_option linter.unusedVariables false

namespace Udap.Framing

open Udap.Cxx Udap.Run

/-! ## Format -/

/-- A line among the headers, as `getline` delivers it. -/
structure InputLine where
  text : Str
  oneLine : (10 : UInt8) ∉ text
  notBlank : chomp text ≠ []

def InputLine.bytes (l : InputLine) : Str := l.text ++ [10]

/-- The length that a line names, if it is a `Content-Length` with a number. -/
def lengthIn (line : Str) : Option Int :=
  if contentLength.isPrefixOf line then stoi (line.drop 15) else none

/-- The length that some lines name: the last one counts. -/
def lengthOf (lines : List InputLine) : Option Int :=
  lines.reverse.findSome? fun l => lengthIn (chomp l.text)

/-- A message of the input. -/
structure Block where
  lines : List InputLine
  blank : Eol
  payload : Str
  nonempty : payload ≠ []
  length : lengthOf lines = some (payload.length : Int)

namespace Block

/-- Its headers. -/
def headers (b : Block) : Str := b.lines.flatMap InputLine.bytes ++ b.blank.bytes

def bytes (b : Block) : Str := b.headers ++ b.payload

end Block

/-- No message stands at the front. -/
def NoBlock (input : Str) : Prop := ∀ (b : Block) (rest : Str), input ≠ b.bytes ++ rest

/-! ## Reader -/

theorem headerValue_eq (line : Str) (n : Int) : headerValue line n = (lengthIn line).getD n := by
  rw [headerValue, lengthIn]
  split
  · rfl
  · rfl

theorem lengthOf_cons (l : InputLine) (lines : List InputLine) :
    lengthOf (l :: lines) = (lengthOf lines).or (lengthIn (chomp l.text)) := by
  rw [lengthOf, List.reverse_cons, List.findSome?_append, List.findSome?_singleton]
  rfl

/-- The header loop on some lines. -/
theorem readHeaders_lines (lines : List InputLine) (rest : Str) (n : Int) :
    readHeaders { rest := lines.flatMap InputLine.bytes ++ rest } n
      = readHeaders { rest := rest } ((lengthOf lines).getD n) := by
  induction lines generalizing n with
  | nil => rfl
  | cons l lines ih =>
    have hget := IStream.getline_lf l.oneLine (lines.flatMap InputLine.bytes ++ rest)
    rw [List.flatMap_cons, InputLine.bytes, List.append_assoc, List.append_assoc,
      List.singleton_append, readHeaders, hget, dif_pos rfl,
      if_neg (by rw [List.isEmpty_iff]; exact l.notBlank), ih, headerValue_eq, lengthOf_cons,
      Option.getD_or]

/-- **A message** at the front of the input. -/
theorem readMessage_block (b : Block) (rest : Str) :
    readMessage { rest := b.bytes ++ rest } = (b.payload, { rest := rest }) := by
  have hheaders : readHeaders { rest := b.bytes ++ rest } (-1)
      = ((b.payload.length : Int), { rest := b.payload ++ rest }) := by
    rw [Block.bytes, Block.headers, List.append_assoc, List.append_assoc, readHeaders_lines,
      readHeaders_blank, b.length]
    rfl
  have hpos : ¬ (b.payload.length : Int) < 0 := by omega
  rw [readMessage, hheaders]
  dsimp only
  rw [if_neg Bool.false_ne_true, if_neg hpos, Int.toNat_natCast, IStream.read_append,
    if_neg (not_not.mpr rfl)]

/-- The blank line, under either end. -/
theorem blank_eol {line : Str} (h : chomp line = []) : ∃ eol : Eol, line ++ [10] = eol.bytes := by
  rw [chomp] at h
  split at h
  · rename_i hlast
    have hline := List.dropLast_append_getLast? 13 hlast
    rw [h, List.nil_append] at hline
    exact ⟨.crlf, by rw [← hline]; rfl⟩
  · exact ⟨.lf, by rw [h]; rfl⟩

/-- What the header loop has read: the stream is at its end, or behind a blank line. -/
theorem readHeaders_cases (input : Str) (n : Int) :
    (readHeaders { rest := input } n).2.good = false ∨
      ∃ (lines : List InputLine) (blank : Eol) (rest : Str),
        input = lines.flatMap InputLine.bytes ++ blank.bytes ++ rest ∧
        readHeaders { rest := input } n = ((lengthOf lines).getD n, { rest := rest }) := by
  induction hsize : input.length using Nat.strong_induction_on generalizing input n with
  | _ size ih =>
    by_cases hlf : (10 : UInt8) ∈ input
    · obtain ⟨line, rest, rfl, hline⟩ := List.eq_append_cons_of_mem hlf
      by_cases hblank : chomp line = []
      · -- the blank line
        obtain ⟨eol, heol⟩ := blank_eol hblank
        have hinput : line ++ 10 :: rest = eol.bytes ++ rest := by
          rw [← heol, List.append_assoc, List.singleton_append]
        refine Or.inr ⟨[], eol, rest, hinput, ?_⟩
        rw [hinput, readHeaders_blank]
        rfl
      · -- one line more
        have hshorter : rest.length < size := by
          rw [← hsize, List.length_append, List.length_cons]
          omega
        have hread := readHeaders_lines [⟨line, hline, hblank⟩] rest n
        have hbytes : [(⟨line, hline, hblank⟩ : InputLine)].flatMap InputLine.bytes ++ rest
            = line ++ 10 :: rest := by
          rw [List.flatMap_singleton, InputLine.bytes, List.append_assoc, List.singleton_append]
        rw [hbytes] at hread
        rw [hread]
        rcases ih _ hshorter rest _ rfl with hend | ⟨lines, eol, rest', rfl, hrest⟩
        · exact Or.inl hend
        · refine Or.inr ⟨⟨line, hline, hblank⟩ :: lines, eol, rest', ?_, ?_⟩
          · rw [List.flatMap_cons, ← hbytes, List.flatMap_singleton]
            simp only [List.append_assoc]
          · rw [hrest, lengthOf_cons, lengthOf_cons, Option.getD_or, Option.getD_or]
            rfl
    · exact Or.inl (readHeaders_end hlf n)

/-- **Nothing else** is taken. -/
theorem exists_block {input : Str} (h : (readMessage { rest := input }).1 ≠ []) :
    ∃ (b : Block) (rest : Str), input = b.bytes ++ rest := by
  rcases readHeaders_cases input (-1) with hend | ⟨lines, blank, rest, rfl, hheaders⟩
  · exact absurd (readMessage_of_headers hend) h
  · rw [readMessage, hheaders] at h
    dsimp only at h
    rw [if_neg Bool.false_ne_true] at h
    by_cases hneg : (lengthOf lines).getD (-1) < 0
    · rw [if_pos hneg] at h
      exact absurd rfl h
    · obtain ⟨k, hk⟩ : ∃ k, lengthOf lines = some k := by
        cases hlength : lengthOf lines with
        | none =>
          rw [hlength] at hneg
          exact absurd (by decide) hneg
        | some k => exact ⟨k, rfl⟩
      rw [hk, Option.getD_some] at h hneg
      rw [if_neg hneg, IStream.read, if_pos (show IStream.good { rest := rest } = true from rfl)] at h
      by_cases hroom : k.toNat ≤ rest.length
      · rw [if_pos hroom] at h
        have htaken : (rest.take k.toNat).length = k.toNat := List.length_take_of_le hroom
        have hlength : ¬ ((rest.take k.toNat).length : Int) ≠ k := by
          rw [htaken]
          omega
        dsimp only at h
        rw [if_neg hlength] at h
        refine ⟨⟨lines, blank, rest.take k.toNat, h, ?_⟩, rest.drop k.toNat, ?_⟩
        · rw [hk, not_not.mp hlength]
        · rw [Block.bytes, Block.headers]
          dsimp only
          rw [List.append_assoc _ (rest.take k.toNat), List.take_append_drop]
      · rw [if_neg hroom] at h
        have hshort : (rest.length : Int) ≠ k := by omega
        dsimp only at h
        rw [if_pos hshort] at h
        exact absurd rfl h

/-! ## Session -/

theorem Block.bytes_ne_nil (b : Block) : b.bytes ≠ [] := by
  rw [Block.bytes]
  exact List.append_ne_nil_of_right_ne_nil _ b.nonempty

/-- **Every input** is messages and a rest at whose front there is none. -/
theorem exists_blocks (input : Str) : ∃ (bs : List Block) (tail : Str),
    input = bs.flatMap Block.bytes ++ tail ∧ NoBlock tail := by
  induction hsize : input.length using Nat.strong_induction_on generalizing input with
  | _ size ih =>
    by_cases hnone : NoBlock input
    · exact ⟨[], input, rfl, hnone⟩
    · obtain ⟨b, rest, rfl⟩ : ∃ (b : Block) (rest : Str), input = b.bytes ++ rest := by
        rw [NoBlock] at hnone
        push Not at hnone
        exact hnone
      have hshorter : rest.length < size := by
        have hpos := List.length_pos_iff.mpr b.bytes_ne_nil
        rw [← hsize, List.length_append]
        omega
      obtain ⟨bs, tail, rfl, htail⟩ := ih _ hshorter rest rfl
      exact ⟨b :: bs, tail, by rw [List.flatMap_cons, List.append_assoc], htail⟩

/-- The messages of an input are read. -/
theorem readAll_blocks (bs : List Block) {tail : Str} (htail : NoBlock tail) :
    (readAll { rest := bs.flatMap Block.bytes ++ tail }).1 = bs.map Block.payload := by
  induction bs with
  | nil =>
    have hend : (readMessage { rest := tail }).1 = [] := by
      by_contra hmessage
      obtain ⟨b, rest, hbytes⟩ := exists_block hmessage
      exact htail b rest hbytes
    rw [List.flatMap_nil, List.nil_append, readAll, dif_pos hend]
    rfl
  | cons b bs ih =>
    rw [List.flatMap_cons, List.append_assoc, readAll, readMessage_block, dif_neg b.nonempty, ih]
    rfl

/-- There is one way only to cut an input. -/
theorem blocks_unique {as bs : List Block} {tail tail' : Str} (htail : NoBlock tail)
    (htail' : NoBlock tail')
    (h : as.flatMap Block.bytes ++ tail = bs.flatMap Block.bytes ++ tail') :
    as.map Block.bytes = bs.map Block.bytes ∧ tail = tail' := by
  induction as generalizing bs with
  | nil =>
    cases bs with
    | nil => exact ⟨rfl, h⟩
    | cons b bs =>
      rw [List.flatMap_nil, List.nil_append, List.flatMap_cons, List.append_assoc] at h
      exact absurd h (htail b _)
  | cons a as ih =>
    cases bs with
    | nil =>
      rw [List.flatMap_nil, List.nil_append, List.flatMap_cons, List.append_assoc] at h
      exact absurd h.symm (htail' a _)
    | cons b bs =>
      rw [List.flatMap_cons, List.flatMap_cons, List.append_assoc, List.append_assoc] at h
      have hread := readMessage_block a (as.flatMap Block.bytes ++ tail)
      rw [h, readMessage_block] at hread
      obtain ⟨-, hrest⟩ := Prod.mk.inj hread
      have hrest := congrArg IStream.rest hrest
      dsimp only at hrest
      obtain ⟨hmap, htails⟩ := ih hrest.symm
      rw [hrest] at h
      rw [List.map_cons, List.map_cons, hmap, List.append_cancel_right h]
      exact ⟨rfl, htails⟩

end Udap.Framing

namespace Udap.Dap

open Udap.Framing Udap.Run

section
variable {S : Type} (F : Type) [FloatCast F] [JsonText F] (T : Target S) (disk : Disk)

/-- **The session on any input**, however the network splits it: there is exactly one way to cut it
    into messages and a rest at whose front there is none, and the payloads of these messages are
    handled, one after another. -/
theorem run_blocks (socket : List Piece) (s : Session S) :
    ∃ (bs : List Block) (tail : Str),
      GetArea.incoming socket = bs.flatMap Block.bytes ++ tail ∧ NoBlock tail ∧
      (∀ (as : List Block) (rest : Str),
        GetArea.incoming socket = as.flatMap Block.bytes ++ rest → NoBlock rest →
          as.map Block.bytes = bs.map Block.bytes ∧ rest = tail) ∧
      runOn F T disk (SocketIStream.onSocket socket) s
        = exec (takeMessage F T disk) (bs.map Block.payload) s := by
  obtain ⟨bs, tail, hinput, htail⟩ := exists_blocks (GetArea.incoming socket)
  refine ⟨bs, tail, hinput, htail, fun as rest hcut hrest => ?_, ?_⟩
  · exact blocks_unique hrest htail (hcut.symm.trans hinput)
  · rw [runOn_eq, SocketIStream.view_onSocket, hinput, run_eq, readAll_blocks bs htail]

end

end Udap.Dap
