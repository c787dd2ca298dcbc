/-
  COMMON UTILITIES of the parsers for SDCC output: lines, trimming and splitting.
-/
import Udap.Cxx.Disk

namespace Udap.Sdcc

open Udap.Cxx

/-- The lines that a loop over `std::getline` delivers: what stands between line feeds, and behind
    the last one only if there is something. -/
def getLines (content : Str) : List Str :=
  let parts := content.splitOn 10
  if parts.getLast? = some [] then parts.dropLast else parts

/-- `util::read_lines`: none if the file cannot be opened. -/
def readLines (disk : Disk) (path : Str) : Option (List Str) := (disk.read path).map getLines

/-- The white space that `util::trim` removes. -/
def isTrimmed (c : UInt8) : Bool := c == 32 || c == 9 || c == 13 || c == 10

/-- `util::trim`. -/
def trim (s : Str) : Str := ((s.dropWhile isTrimmed).reverse.dropWhile isTrimmed).reverse

/-- `util::split`: all tokens, empty ones too. -/
def split (s : Str) (delim : UInt8) : List Str := s.splitOn delim

example : getLines (str "M:main\n\nL:x\n") = [str "M:main", [], str "L:x"] := by decide
example : trim (str " \tF:G$x \r") = str "F:G$x" := by decide
example : split (str "C$a.c$5$") 36 = [str "C", str "a.c", str "5", []] := by decide

/-! ## Lines and parts that are kept as they are -/

/-- The text of some lines. -/
def unlines (lines : List Str) : Str := lines.flatMap (· ++ [10])

/-- Lines without a line feed are the lines of their text. -/
theorem getLines_unlines {lines : List Str} (h : ∀ line ∈ lines, (10 : UInt8) ∉ line) :
    getLines (unlines lines) = lines := by
  have hparts : (unlines lines).splitOn 10 = lines ++ [[]] := by
    induction lines with
    | nil => rfl
    | cons line lines ih =>
      obtain ⟨hline, hlines⟩ := List.forall_mem_cons.mp h
      have hcut : unlines (line :: lines) = line ++ 10 :: unlines lines := by
        rw [unlines, List.flatMap_cons, List.append_assoc, List.singleton_append]
        rfl
      rw [hcut, List.splitOn_append_cons_self_of_not_mem hline, ih hlines, List.cons_append]
  unfold getLines
  dsimp only
  rw [hparts, List.getLast?_concat, if_pos rfl, List.dropLast_concat]

/-- Dropping stops at the first character that is to stay. -/
theorem dropWhile_append_cons {p : UInt8 → Bool} {c : UInt8} (hc : p c = false) (l m : Str) :
    ∃ l', l' <:+ l ∧ (l ++ c :: m).dropWhile p = l' ++ c :: m := by
  induction l with
  | nil =>
    refine ⟨[], List.suffix_refl _, ?_⟩
    rw [List.nil_append, List.dropWhile_cons_of_neg (by rw [hc]; exact Bool.false_ne_true)]
  | cons y l ih =>
    rw [List.cons_append, List.dropWhile_cons]
    split
    · obtain ⟨l', hl', heq⟩ := ih
      exact ⟨l', hl'.trans (List.suffix_cons y l), heq⟩
    · exact ⟨y :: l, List.suffix_refl _, rfl⟩

theorem blank_cases {c : UInt8} (h : ¬ isTrimmed c = false) : c = 32 ∨ c = 9 ∨ c = 13 ∨ c = 10 := by
  have htrue : isTrimmed c = true := by simpa using h
  simpa [isTrimmed, or_assoc] using htrue

/-- Trimming takes nothing off what stands between two characters that are not white space. -/
theorem trim_between {x y : UInt8} (hx : isTrimmed x = false) (hy : isTrimmed y = false)
    {core a b : Str} (hfirst : core = x :: a) (hlast : core = b ++ [y]) (lead trail : Str) :
    ∃ lead' trail', lead' <:+ lead ∧ trail' <+: trail ∧
      trim (lead ++ (core ++ trail)) = lead' ++ (core ++ trail') := by
  obtain ⟨lead', hlead, hfront⟩ := dropWhile_append_cons hx lead (a ++ trail)
  obtain ⟨trail', htrail, hback⟩ :=
    dropWhile_append_cons hy trail.reverse (b.reverse ++ lead'.reverse)
  rw [← List.cons_append, ← hfirst] at hfront
  refine ⟨lead', trail'.reverse, hlead, List.reverse_suffix.mp (by rwa [List.reverse_reverse]), ?_⟩
  have hreverse : (lead' ++ (core ++ trail)).reverse
      = trail.reverse ++ y :: (b.reverse ++ lead'.reverse) := by
    rw [hlast]
    simp
  rw [trim, hfront, hreverse, hback, hlast]
  simp

/-- Trimming takes nothing off what stands in front of a character that is not white space. -/
theorem trim_append {x c : UInt8} (hx : isTrimmed x = false) (hc : isTrimmed c = false)
    (a t : Str) : ∃ t', trim (x :: a ++ c :: t) = x :: a ++ c :: t' := by
  obtain ⟨lead, trail, hlead, -, htrim⟩ := trim_between hx hc rfl rfl [] t (a := a ++ [c]) (b := x :: a)
  obtain rfl := List.suffix_nil.mp hlead
  refine ⟨trail, ?_⟩
  simpa using htrim

/-- A text that starts and ends with something else than white space. -/
theorem trim_eq_self {x c : UInt8} (hx : isTrimmed x = false) (hc : isTrimmed c = false) (a : Str) :
    trim (x :: a ++ [c]) = x :: a ++ [c] := by
  have hfront : (x :: a ++ [c]).dropWhile isTrimmed = x :: a ++ [c] := by
    rw [List.cons_append, List.dropWhile_cons_of_neg (by rw [hx]; exact Bool.false_ne_true)]
  rw [trim, hfront, List.reverse_append, List.reverse_singleton, List.singleton_append,
    List.dropWhile_cons_of_neg (by rw [hc]; exact Bool.false_ne_true), List.reverse_cons,
    List.reverse_reverse]

theorem mem_of_mem_trim {s : Str} {c : UInt8} (h : c ∈ trim s) : c ∈ s := by
  have hback := (List.dropWhile_suffix isTrimmed).subset (List.mem_reverse.mp h)
  exact (List.dropWhile_suffix isTrimmed).subset (List.mem_reverse.mp hback)

/-- The first part of a text and the others. -/
theorem split_cons {a : Str} {delim : UInt8} (h : delim ∉ a) (t : Str) :
    split (a ++ delim :: t) delim = a :: split t delim :=
  List.splitOn_append_cons_self_of_not_mem h t

/-- A text without a delimiter has one part. -/
theorem split_single {a : Str} {delim : UInt8} (h : delim ∉ a) : split a delim = [a] :=
  List.splitOn_eq_singleton h

/-! ## The loop of `split` -/

/-- The loop of `util::split` from `start` on, with the tokens `parts` so far: its condition is
    tested `fuel` times at most, and there is no result if it has not failed by then. -/
def splitLoop (s : Str) (delim : UInt8) : Nat → Nat → List Str → Option (List Str)
  | 0, _, _ => none
  | fuel + 1, start, parts =>
    if start ≤ s.length then
      let stop := (find s delim start).getD s.length
      -- behind the last delimiter this leads one past the end, which ends the loop
      (substr s start (stop - start)).bind fun part =>
        splitLoop s delim fuel (stop + 1) (parts ++ [part])
    else some parts

/-- **What the loop does from a position on**: it adds the tokens of the text that is left, in one
    round for each delimiter and one more. -/
theorem splitLoop_append (delim : UInt8) (fuel : Nat) :
    ∀ (done rest : Str) (parts : List Str), rest.count delim + 1 < fuel →
      splitLoop (done ++ rest) delim fuel done.length parts = some (parts ++ split rest delim) := by
  induction fuel with
  | zero =>
    intro done rest parts hfuel
    omega
  | succ fuel ih =>
    intro done rest parts hfuel
    have hstart : done.length ≤ (done ++ rest).length := by
      rw [List.length_append]
      omega
    rw [splitLoop, if_pos hstart]
    dsimp only
    rw [substr_of_le hstart, Option.bind_some, List.drop_left]
    by_cases hmem : delim ∈ rest
    · obtain ⟨a, t, rfl, ha⟩ := List.eq_append_cons_of_mem hmem
      have hfind : find (done ++ (a ++ delim :: t)) delim done.length
          = some (done.length + a.length) := by
        have hfree : delim ∉ (done ++ a).drop done.length := by rwa [List.drop_left]
        have h := find_append (t := t) (by rw [List.length_append]; omega) hfree
        rwa [List.append_assoc, List.length_append] at h
      have hcount : t.count delim + 1 < fuel := by
        rw [List.count_append, List.count_cons_self] at hfuel
        omega
      have hnext := ih (done ++ a ++ [delim]) t (parts ++ [a]) hcount
      have hlength : (done ++ a ++ [delim]).length = done.length + a.length + 1 := by
        rw [List.length_append, List.length_append, List.length_singleton]
      rw [hlength, List.append_assoc, List.append_assoc, List.singleton_append] at hnext
      rw [hfind, Option.getD_some, Nat.add_sub_cancel_left, List.take_left, hnext, split_cons ha,
        List.append_assoc, List.singleton_append]
    · have hnone : find (done ++ rest) delim done.length = none :=
        find_none (by rwa [List.drop_left])
      obtain ⟨fuel, rfl⟩ : ∃ k, fuel = k + 1 := ⟨fuel - 1, by omega⟩
      have hend : ¬ (done ++ rest).length + 1 ≤ (done ++ rest).length := by omega
      have hlength : (done ++ rest).length - done.length = rest.length := by
        rw [List.length_append]
        omega
      rw [hnone, Option.getD_none, hlength, List.take_length, splitLoop, if_neg hend,
        split_single hmem]

/-- The loop, from the beginning. -/
theorem splitLoop_split (s : Str) (delim : UInt8) {fuel : Nat} (hfuel : s.count delim + 1 < fuel) :
    splitLoop s delim fuel 0 [] = some (split s delim) :=
  splitLoop_append delim fuel [] s [] hfuel

/-- One token more than there are delimiters, and no delimiter in a token. -/
theorem split_spec (s : Str) (delim : UInt8) :
    (split s delim).length = s.count delim + 1 ∧ ∀ token ∈ split s delim, delim ∉ token := by
  induction s with
  | nil => exact ⟨rfl, by simp [split]⟩
  | cons x s ih =>
    obtain ⟨hlength, hfree⟩ := ih
    rw [split] at hlength hfree ⊢
    rw [List.splitOn_cons_eq_if_modifyHead]
    by_cases hx : x = delim
    · subst hx
      rw [beq_self_eq_true, if_pos rfl, List.length_cons, hlength, List.count_cons_self]
      refine ⟨rfl, ?_⟩
      intro token htoken
      rcases List.mem_cons.mp htoken with rfl | htoken
      · exact List.not_mem_nil
      · exact hfree token htoken
    · rw [beq_eq_false_iff_ne.mpr hx, if_neg Bool.false_ne_true, List.length_modifyHead, hlength,
        List.count_cons_of_ne hx]
      refine ⟨rfl, ?_⟩
      -- only the first token has grown, by a character that is no delimiter
      cases hparts : s.splitOn delim with
      | nil => exact absurd hparts (List.splitOn_ne_nil delim s)
      | cons first tokens =>
        rw [hparts] at hfree
        intro token htoken
        rw [List.modifyHead_cons] at htoken
        rcases List.mem_cons.mp htoken with rfl | htoken
        · intro hmem
          rcases List.mem_cons.mp hmem with rfl | hmem
          · exact hx rfl
          · exact hfree first List.mem_cons_self hmem
        · exact hfree token (List.mem_cons_of_mem first htoken)

/-- No line has a line feed in it. -/
theorem newline_not_mem_getLines {content line : Str} (h : line ∈ getLines content) :
    (10 : UInt8) ∉ line := by
  have hfree := (split_spec content 10).2
  unfold getLines at h
  dsimp only at h
  split at h
  · exact hfree line (List.mem_of_mem_dropLast h)
  · exact hfree line h

/-- **`util::split`**: for every text the loop ends, with one token more than the text has
    delimiters, none of which contains a delimiter, and which the delimiter joins to the text again.
    So fields that are printed with the delimiter between them stand at their own positions. -/
theorem split_tokens (s : Str) (delim : UInt8) :
    ∃ tokens : List Str,
      (∀ fuel, s.count delim + 1 < fuel → splitLoop s delim fuel 0 [] = some tokens) ∧
      tokens.length = s.count delim + 1 ∧
      (∀ token ∈ tokens, delim ∉ token) ∧
      [delim].intercalate tokens = s ∧
      ∀ fields : List Str, fields ≠ [] → (∀ field ∈ fields, delim ∉ field) →
        [delim].intercalate fields = s → tokens = fields := by
  obtain ⟨hlength, hfree⟩ := split_spec s delim
  refine ⟨split s delim, ?_, hlength, hfree, List.intercalate_splitOn delim, ?_⟩
  · intro fuel hfuel
    exact splitLoop_split s delim hfuel
  · rintro fields hne hfields rfl
    exact List.splitOn_intercalate delim hfields hne

/-- Adjacent delimiters, and one at the end. -/
theorem split_tokens_adjacent :
    splitLoop (str "C$a.c$$") 36 5 0 [] = some [str "C", str "a.c", [], []] := by
  obtain ⟨tokens, hloop, -, -, -, hfields⟩ := split_tokens (str "C$a.c$$") 36
  rw [hloop 5 (by decide), hfields [str "C", str "a.c", [], []] (by decide) (by decide) (by decide)]

end Udap.Sdcc
