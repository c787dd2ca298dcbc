/-
  INPUT STREAMS: `std::getline` and `std::istream::read` over the bytes still to come.

  A `std::istream` is the bytes not yet extracted and the two state bits the callers look at.
  `eofbit` is set by an operation that ran into the end of input, `failbit` by one that extracted
  nothing although it had to (or started on a stream that was no longer `good()`).  A stream in a
  boolean context is `!fail()`.

  * `getline` extracts up to and including the next LF and yields the line without it; a last line
    without LF is still delivered, with `eofbit` set; with nothing left at all it fails;
  * `read n` extracts `n` bytes, or what is left of them, then with `eofbit` and `failbit` set.

  `getline_lf` and `read_append` are the two readings the framing proofs rest on; `size` is the
  measure by which every loop over `getline` ends.
-/
import Udap.Cxx.Text

namespace Udap.Cxx

/-- A `std::istream`: the bytes still to come and the state bits. -/
structure IStream where
  rest : Str
  eof : Bool := false
  fail : Bool := false
  deriving DecidableEq

namespace IStream

/-- `good()`: no state bit is set. -/
def good (s : IStream) : Bool := !s.eof && !s.fail

/-- The bytes before the first LF and those after it, if there is one. -/
def splitLine : Str → Option (Str × Str)
  | [] => none
  | 10 :: cs => some ([], cs)
  | c :: cs => (splitLine cs).map fun (l, r) => (c :: l, r)

/-- `std::getline(in, line)`: the line and the stream after it. -/
def getline (s : IStream) : Str × IStream :=
  if s.good then
    match splitLine s.rest with
    | some (line, rest) => (line, { s with rest })
    | none => (s.rest, { rest := [], eof := true, fail := s.rest.isEmpty })
  else ([], { s with fail := true })

/-- `in.read(p, n)`: the bytes stored (as many as `gcount()` says) and the stream after it. -/
def read (s : IStream) (n : Nat) : Str × IStream :=
  if s.good then
    if n ≤ s.rest.length then (s.rest.take n, { s with rest := s.rest.drop n })
    else (s.rest, { rest := [], eof := true, fail := true })
  else ([], { s with fail := true })

/-- The measure of a `getline` loop: the bytes left, and one more for the end of input. -/
def size (s : IStream) : Nat := s.rest.length + if s.eof then 0 else 1

/-! ## What a line is -/

theorem splitLine_append {line : Str} (h : (10 : UInt8) ∉ line) (rest : Str) :
    splitLine (line ++ 10 :: rest) = some (line, rest) := by
  induction line with
  | nil => rfl
  | cons c cs ih =>
    have hc : c ≠ 10 := fun hc => h (by simp [hc])
    have hcs : (10 : UInt8) ∉ cs := fun hcs => h (by simp [hcs])
    rw [List.cons_append, splitLine, ih hcs]
    · rfl
    · exact fun heq => hc heq

theorem splitLine_none {s : Str} (h : (10 : UInt8) ∉ s) : splitLine s = none := by
  induction s with
  | nil => rfl
  | cons c cs ih =>
    obtain ⟨hc, hcs⟩ := List.ne_and_not_mem_of_not_mem_cons h
    rw [splitLine, ih hcs]
    · rfl
    · exact fun heq => hc heq.symm

theorem splitLine_length {s line rest : Str} (h : splitLine s = some (line, rest)) :
    rest.length < s.length := by
  induction s generalizing line with
  | nil => nomatch h
  | cons c cs ih =>
    by_cases hc : c = 10
    · subst hc
      obtain ⟨-, rfl⟩ := Prod.mk.inj (Option.some.inj h)
      simp
    · rw [splitLine] at h
      · obtain ⟨⟨l, r⟩, hl, heq⟩ := Option.map_eq_some_iff.mp h
        obtain ⟨-, rfl⟩ := Prod.mk.inj heq
        have := ih hl
        simp only [List.length_cons]
        omega
      · exact fun heq => hc heq

/-! ## The readings of `getline` and `read` -/

/-- On a good stream, `getline` yields the bytes up to the next LF. -/
theorem getline_lf {line : Str} (h : (10 : UInt8) ∉ line) (rest : Str) :
    getline { rest := line ++ 10 :: rest } = (line, { rest := rest }) := by
  simp only [getline, good, splitLine_append h]
  rfl

/-- Without another LF, `getline` yields what is left. -/
theorem getline_end {s : Str} (h : (10 : UInt8) ∉ s) :
    getline { rest := s } = (s, { rest := [], eof := true, fail := s.isEmpty }) := by
  simp only [getline, good, splitLine_none h]
  rfl

/-- A `getline` that did not fail made the stream smaller. -/
theorem size_getline {s : IStream} (h : s.getline.2.fail = false) : s.getline.2.size < s.size := by
  unfold getline at h ⊢
  split
  · rename_i hgood
    have heof : s.eof = false := by
      simp only [good, Bool.and_eq_true, Bool.not_eq_true'] at hgood
      exact hgood.1
    split
    · rename_i line rest hsplit
      have := splitLine_length hsplit
      simp only [size, heof, Bool.false_eq_true, if_false]
      omega
    · simp only [size, heof, Bool.false_eq_true, if_false, if_true, List.length_nil]
      omega
  · rename_i hgood
    rw [if_neg hgood] at h
    nomatch h

/-- Reading exactly the bytes in front. -/
theorem read_append (p rest : Str) :
    read { rest := p ++ rest } p.length = (p, { rest := rest }) := by
  simp [read, good]

/-- A `read` never makes the stream larger. -/
theorem size_read_le (s : IStream) (n : Nat) : (s.read n).2.size ≤ s.size := by
  unfold read
  split
  · split
    · simp only [size, List.length_drop]
      omega
    · simp only [size, List.length_nil, if_true]
      omega
  · exact Nat.le_refl _

end IStream
end Udap.Cxx
