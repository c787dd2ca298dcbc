/-
  REGULAR EXPRESSIONS after `std::regex` (ECMAScript), by backtracking.

  `Regex.run r s k` tries the ways in which `r` accepts a part of the text from the cursor `s`, in
  the order of the standard: a star takes as much as it can, and the first side of an alternative
  comes first.  Each way is handed to the continuation `k`, and the first result counts.

  * `fullMatch`  — `std::regex_match`: the whole text;
  * `search`     — `std::regex_search`: the leftmost place where the expression accepts something;
  * `allMatches` — the walk of a `std::sregex_iterator`, with what stands between the matches.  It
                   is meant for expressions that accept no empty text, and stops at an empty match.

  What is known of a run without looking at the order: a result comes from a way that is accepted
  (`run_sound`), where `Accepts` is the language of the expression without its anchors.  And where
  the first way is the right one, the rules `yields_…` follow it.  Nothing here mentions a program.
-/
import Udap.Cxx.Text

set_option linter.unusedVariables false

namespace Udap.Cxx

inductive Regex where
  | empty
  | one (p : UInt8 → Bool)
  /-- `[...]*` -/
  | many (p : UInt8 → Bool)
  | seq (r q : Regex)
  | alt (r q : Regex)
  | group (i : Nat) (r : Regex)
  /-- `\b` -/
  | edge
  /-- `^` -/
  | atStart
  /-- `$` -/
  | atEnd

/-- A place in a text: the character in front, what follows, and the groups matched so far. -/
structure Cursor where
  before : Option UInt8 := none
  rest : Str
  groups : List (Nat × Str) := []

namespace Regex

variable {α : Type}

/-! ## Running -/

/-- A character of `\w`. -/
def isWord (c : UInt8) : Bool :=
  (48 ≤ c && c ≤ 57) || (65 ≤ c && c ≤ 90) || (97 ≤ c && c ≤ 122) || c == 95

/-- `[0-9A-Fa-f]` -/
def isHex (c : UInt8) : Bool :=
  (48 ≤ c && c ≤ 57) || (65 ≤ c && c ≤ 70) || (97 ≤ c && c ≤ 102)

/-- As many characters as possible; fewer where the continuation has no result. -/
def munch (p : UInt8 → Bool) (groups : List (Nat × Str)) (k : Cursor → Option α) :
    Option UInt8 → Str → Option α
  | before, [] => k ⟨before, [], groups⟩
  | before, c :: rest =>
    if p c then (munch p groups k (some c) rest).or (k ⟨before, c :: rest, groups⟩)
    else k ⟨before, c :: rest, groups⟩

def run : Regex → Cursor → (Cursor → Option α) → Option α
  | .empty, s, k => k s
  | .one p, s, k =>
    match s.rest with
    | [] => none
    | c :: rest => if p c then k { s with before := some c, rest := rest } else none
  | .many p, s, k => munch p s.groups k s.before s.rest
  | .seq r q, s, k => r.run s fun t => q.run t k
  | .alt r q, s, k => (r.run s k).or (q.run s k)
  | .group i r, s, k => r.run s fun t =>
      k { t with groups := (i, s.rest.take (s.rest.length - t.rest.length)) :: t.groups }
  | .edge, s, k => if s.before.any isWord != s.rest.head?.any isWord then k s else none
  | .atStart, s, k => if s.before.isNone then k s else none
  | .atEnd, s, k => if s.rest.isEmpty then k s else none

/-- `r?` -/
def opt (r : Regex) : Regex := .alt r .empty

/-- `[...]+` -/
def some1 (p : UInt8 → Bool) : Regex := .seq (.one p) (.many p)

/-- `[...]{n}` -/
def times (p : UInt8 → Bool) : Nat → Regex
  | 0 => .empty
  | n + 1 => .seq (.one p) (times p n)

/-- `[...]{0,n}` -/
def upTo (p : UInt8 → Bool) : Nat → Regex
  | 0 => .empty
  | n + 1 => .opt (.seq (.one p) (upTo p n))

/-- `[...]{m,n}` -/
def between (p : UInt8 → Bool) (m n : Nat) : Regex := .seq (times p m) (upTo p (n - m))

/-- `std::regex_match`. -/
def fullMatch (r : Regex) (s : Str) : Option Cursor :=
  r.run { rest := s } fun t => if t.rest.isEmpty then some t else none

/-- `std::regex_search`: what stands in front of the match, and the cursor behind it. -/
def search (r : Regex) : Option UInt8 → Str → Option (Str × Cursor)
  | before, [] => (r.run { before := before, rest := [] } some).map fun t => ([], t)
  | before, c :: rest =>
    match r.run { before := before, rest := c :: rest } some with
    | some t => some ([], t)
    | none => (search r (some c) rest).map fun found => (c :: found.1, found.2)

/-- A match: what stands between it and the match in front, its text and its groups. -/
structure Match where
  skipped : Str
  text : Str
  groups : List (Nat × Str)

/-- All matches from a place on, and what is left behind the last. -/
def allMatches (r : Regex) : Nat → Option UInt8 → Str → List Match × Str
  | 0, _, s => ([], s)
  | fuel + 1, before, s =>
    match search r before s with
    | none => ([], s)
    | some (skipped, t) =>
      let text := (s.drop skipped.length).take (s.length - skipped.length - t.rest.length)
      if text.isEmpty then ([], s)
      else
        let (ms, tail) := allMatches r fuel t.before t.rest
        (⟨skipped, text, t.groups⟩ :: ms, tail)

/-- The matches that an iterator over the text delivers, and what is left. -/
def matchesOf (r : Regex) (s : Str) : List Match × Str := allMatches r (s.length + 1) none s

/-- The text of a group; empty if the group took no part. -/
def groupText (groups : List (Nat × Str)) (i : Nat) : Str := (groups.lookup i).getD []

/-! ## Whatever is found is accepted -/

/-- The texts that an expression accepts, without regard to its anchors. -/
def Accepts : Regex → Str → Prop
  | .empty, w => w = []
  | .one p, w => ∃ c, p c = true ∧ w = [c]
  | .many p, w => ∀ c ∈ w, p c = true
  | .seq r q, w => ∃ u v, w = u ++ v ∧ r.Accepts u ∧ q.Accepts v
  | .alt r q, w => r.Accepts w ∨ q.Accepts w
  | .group _ r, w => r.Accepts w
  | .edge, w => w = []
  | .atStart, w => w = []
  | .atEnd, w => w = []

theorem munch_sound {p : UInt8 → Bool} {groups : List (Nat × Str)} {k : Cursor → Option α}
    {before : Option UInt8} {s : Str} {v : α} (h : munch p groups k before s = some v) :
    ∃ w t, s = w ++ t.rest ∧ (∀ c ∈ w, p c = true) ∧ k t = some v := by
  induction s generalizing before with
  | nil => exact ⟨[], _, rfl, fun c hc => absurd hc List.not_mem_nil, h⟩
  | cons c s ih =>
    rw [munch] at h
    split at h
    · rename_i hp
      rcases Option.or_eq_some_iff.mp h with h | ⟨-, h⟩
      · obtain ⟨w, t, rfl, hw, hk⟩ := ih h
        exact ⟨c :: w, t, rfl, List.forall_mem_cons.mpr ⟨hp, hw⟩, hk⟩
      · exact ⟨[], _, rfl, fun c hc => absurd hc List.not_mem_nil, h⟩
    · exact ⟨[], _, rfl, fun c hc => absurd hc List.not_mem_nil, h⟩

/-- **A result comes from a way that is accepted.** -/
theorem run_sound {r : Regex} {s : Cursor} {k : Cursor → Option α} {v : α}
    (h : r.run s k = some v) : ∃ w t, s.rest = w ++ t.rest ∧ r.Accepts w ∧ k t = some v := by
  induction r generalizing s k with
  | empty => exact ⟨[], s, rfl, rfl, h⟩
  | one p =>
    rw [run] at h
    split at h
    · cases h
    · rename_i c rest hrest
      split at h
      · rename_i hp
        exact ⟨[c], { s with before := some c, rest := rest }, hrest, ⟨c, hp, rfl⟩, h⟩
      · cases h
  | many p => exact munch_sound h
  | seq r q ihr ihq =>
    obtain ⟨u, t, hu, hru, h⟩ := ihr h
    obtain ⟨v, t', hv, hqv, hk⟩ := ihq h
    refine ⟨u ++ v, t', ?_, ⟨u, v, rfl, hru, hqv⟩, hk⟩
    rw [hu, hv, List.append_assoc]
  | alt r q ihr ihq =>
    rcases Option.or_eq_some_iff.mp h with h | ⟨-, h⟩
    · obtain ⟨w, t, hw, hr, hk⟩ := ihr h
      exact ⟨w, t, hw, Or.inl hr, hk⟩
    · obtain ⟨w, t, hw, hq, hk⟩ := ihq h
      exact ⟨w, t, hw, Or.inr hq, hk⟩
  | group i r ih =>
    obtain ⟨w, t, hw, hr, hk⟩ := ih h
    exact ⟨w, { t with groups := (i, s.rest.take (s.rest.length - t.rest.length)) :: t.groups },
      hw, hr, hk⟩
  | edge =>
    rw [run] at h
    split at h
    · exact ⟨[], s, rfl, rfl, h⟩
    · cases h
  | atStart =>
    rw [run] at h
    split at h
    · exact ⟨[], s, rfl, rfl, h⟩
    · cases h
  | atEnd =>
    rw [run] at h
    split at h
    · exact ⟨[], s, rfl, rfl, h⟩
    · cases h

/-- A text that is matched is accepted. -/
theorem accepts_of_fullMatch {r : Regex} {s : Str} (h : (r.fullMatch s).isSome = true) :
    r.Accepts s := by
  obtain ⟨v, hv⟩ := Option.isSome_iff_exists.mp h
  obtain ⟨w, t, hw, hr, hk⟩ := run_sound hv
  split at hk
  · rename_i hempty
    have hs : s = w ++ t.rest := hw
    rw [List.isEmpty_iff.mp hempty, List.append_nil] at hs
    rwa [hs]
  · cases hk

theorem accepts_times {p : UInt8 → Bool} {n : Nat} {v : Str} (h : (times p n).Accepts v) :
    v.length = n ∧ ∀ c ∈ v, p c = true := by
  induction n generalizing v with
  | zero =>
    obtain rfl : v = [] := h
    exact ⟨rfl, fun c hc => absurd hc List.not_mem_nil⟩
  | succ n ih =>
    obtain ⟨_, v, rfl, ⟨c, hc, rfl⟩, hv⟩ := h
    obtain ⟨hlength, hall⟩ := ih hv
    exact ⟨by simp [hlength], List.forall_mem_cons.mpr ⟨hc, hall⟩⟩

theorem accepts_upTo {p : UInt8 → Bool} {n : Nat} {v : Str} (h : (upTo p n).Accepts v) :
    ∀ c ∈ v, p c = true := by
  induction n generalizing v with
  | zero =>
    obtain rfl : v = [] := h
    exact fun c hc => absurd hc List.not_mem_nil
  | succ n ih =>
    rcases h with ⟨_, v, rfl, ⟨c, hc, rfl⟩, hv⟩ | rfl
    · exact List.forall_mem_cons.mpr ⟨hc, ih hv⟩
    · exact fun c hc => absurd hc List.not_mem_nil

theorem accepts_some1 {p : UInt8 → Bool} {v : Str} (h : (some1 p).Accepts v) :
    v ≠ [] ∧ ∀ c ∈ v, p c = true := by
  obtain ⟨_, v, rfl, ⟨c, hc, rfl⟩, hv⟩ := h
  exact ⟨List.cons_ne_nil _ _, List.forall_mem_cons.mpr ⟨hc, hv⟩⟩

/-- What a search finds: a place, and a text there that is accepted. -/
theorem search_sound {r : Regex} {before : Option UInt8} {s skipped : Str} {t : Cursor}
    (h : search r before s = some (skipped, t)) :
    ∃ w, s = skipped ++ (w ++ t.rest) ∧ r.Accepts w := by
  induction s generalizing before skipped with
  | nil =>
    rw [search, Option.map_eq_some_iff] at h
    obtain ⟨t', hrun, heq⟩ := h
    obtain ⟨rfl, rfl⟩ := Prod.mk.inj heq
    obtain ⟨w, t, hw, hr, hk⟩ := run_sound hrun
    obtain rfl := Option.some.inj hk
    exact ⟨w, hw, hr⟩
  | cons c s ih =>
    rw [search] at h
    split at h
    · rename_i t' hrun
      obtain ⟨rfl, rfl⟩ := Prod.mk.inj (Option.some.inj h)
      obtain ⟨w, t, hw, hr, hk⟩ := run_sound hrun
      obtain rfl := Option.some.inj hk
      exact ⟨w, hw, hr⟩
    · obtain ⟨found, hfound, heq⟩ := Option.map_eq_some_iff.mp h
      obtain ⟨rfl, rfl⟩ := Prod.mk.inj heq
      obtain ⟨w, hw, hr⟩ := ih hfound
      exact ⟨w, congrArg (c :: ·) hw, hr⟩

/-- **The matches and what stands between them are the text.** -/
theorem allMatches_join (r : Regex) (fuel : Nat) (before : Option UInt8) (s : Str) :
    (allMatches r fuel before s).1.flatMap (fun m => m.skipped ++ m.text) ++
      (allMatches r fuel before s).2 = s := by
  induction fuel generalizing before s with
  | zero => rfl
  | succ fuel ih =>
    rw [allMatches]
    split
    · rfl
    · rename_i skipped t hsearch
      obtain ⟨w, rfl, -⟩ := search_sound hsearch
      have htext : ((skipped ++ (w ++ t.rest)).drop skipped.length).take
          ((skipped ++ (w ++ t.rest)).length - skipped.length - t.rest.length) = w := by
        rw [List.drop_left, List.length_append, Nat.add_sub_cancel_left, List.length_append,
          Nat.add_sub_cancel, List.take_left]
      dsimp only
      rw [htext]
      split
      · rfl
      · rw [List.flatMap_cons, List.append_assoc, ih t.before t.rest, List.append_assoc]

/-! ## Where the first way is the right one -/

/-- There is a result, and it is as `P` says. -/
def Yields (o : Option α) (P : α → Prop) : Prop := ∃ v, o = some v ∧ P v

variable {P : α → Prop} {k : Cursor → Option α}

theorem yields_munch {p : UInt8 → Bool} {groups : List (Nat × Str)} {a u : Str}
    (ha : ∀ c ∈ a, p c = true) (hu : ∀ c ∈ u.head?, p c = false)
    (hk : ∀ before, Yields (k ⟨before, u, groups⟩) P) (before : Option UInt8) :
    Yields (munch p groups k before (a ++ u)) P := by
  induction a generalizing before with
  | nil =>
    cases u with
    | nil => exact hk before
    | cons c u =>
      rw [List.nil_append, munch, hu c rfl]
      exact hk before
  | cons c a ih =>
    obtain ⟨hc, ha⟩ := List.forall_mem_cons.mp ha
    obtain ⟨v, hv, hP⟩ := ih ha (some c)
    rw [List.cons_append, munch, if_pos hc, hv]
    exact ⟨v, rfl, hP⟩

/-- A star takes all that it can. -/
theorem yields_many {p : UInt8 → Bool} {a u : Str} (ha : ∀ c ∈ a, p c = true)
    (hu : ∀ c ∈ u.head?, p c = false) {s : Cursor} (hs : s.rest = a ++ u)
    (hk : ∀ before, Yields (k ⟨before, u, s.groups⟩) P) : Yields ((many p).run s k) P := by
  rw [run, hs]
  exact yields_munch ha hu hk s.before

/-- A star that has to give back: where the continuation has no result behind `a`, the place behind
    `a` counts, however much the star can take there. -/
theorem yields_many_back {p : UInt8 → Bool} {a : Str} {c : UInt8} {u : Str}
    (ha : ∀ c ∈ a, p c = true) {s : Cursor} (hs : s.rest = a ++ c :: u)
    (hlater : ∀ before d, d <:+ u → k ⟨before, d, s.groups⟩ = none)
    (hk : ∀ before, Yields (k ⟨before, c :: u, s.groups⟩) P) : Yields ((many p).run s k) P := by
  have hnone : ∀ (d : Str) (before : Option UInt8), d <:+ u → munch p s.groups k before d = none := by
    intro d
    induction d with
    | nil => exact fun before hd => hlater before [] hd
    | cons x d ih =>
      intro before hd
      rw [munch, hlater before (x :: d) hd, ih (some x) ((List.suffix_cons x d).trans hd),
        Option.or_none, ite_self]
  have hback : ∀ before, Yields (munch p s.groups k before (a ++ c :: u)) P := by
    clear hs
    induction a with
    | nil =>
      intro before
      rw [List.nil_append, munch, hnone u (some c) (List.suffix_refl u), Option.none_or, ite_self]
      exact hk before
    | cons x a ih =>
      intro before
      obtain ⟨hx, ha⟩ := List.forall_mem_cons.mp ha
      obtain ⟨v, hv, hP⟩ := ih ha (some x)
      rw [List.cons_append, munch, if_pos hx, hv]
      exact ⟨v, rfl, hP⟩
  rw [run, hs]
  exact hback s.before

theorem yields_one {p : UInt8 → Bool} {c : UInt8} (hc : p c = true) {u : Str} {s : Cursor}
    (hs : s.rest = c :: u) (hk : Yields (k ⟨some c, u, s.groups⟩) P) :
    Yields ((one p).run s k) P := by
  rw [run, hs]
  dsimp only
  rw [if_pos hc]
  exact hk

theorem yields_some1 {p : UInt8 → Bool} {a u : Str} (hne : a ≠ []) (ha : ∀ c ∈ a, p c = true)
    (hu : ∀ c ∈ u.head?, p c = false) {s : Cursor} (hs : s.rest = a ++ u)
    (hk : ∀ before, Yields (k ⟨before, u, s.groups⟩) P) : Yields ((some1 p).run s k) P := by
  obtain ⟨c, a, rfl⟩ := List.exists_cons_of_ne_nil hne
  obtain ⟨hc, ha⟩ := List.forall_mem_cons.mp ha
  show Yields ((one p).run s fun t => (many p).run t k) P
  apply yields_one hc hs
  exact yields_many ha hu rfl hk

theorem yields_times {p : UInt8 → Bool} {a u : Str} (ha : ∀ c ∈ a, p c = true) {s : Cursor}
    (hs : s.rest = a ++ u) (hk : ∀ before, Yields (k ⟨before, u, s.groups⟩) P) :
    Yields ((times p a.length).run s k) P := by
  induction a generalizing s with
  | nil =>
    obtain ⟨before, rest, groups⟩ := s
    obtain rfl : rest = u := hs
    exact hk before
  | cons c a ih =>
    obtain ⟨hc, ha⟩ := List.forall_mem_cons.mp ha
    show Yields ((one p).run s fun t => (times p a.length).run t k) P
    apply yields_one hc hs
    exact ih ha rfl hk

/-- The first side of an alternative, where it has a result. -/
theorem yields_first {r q : Regex} {s : Cursor} (hr : Yields (r.run s k) P) :
    Yields ((alt r q).run s k) P := by
  obtain ⟨v, hv, hP⟩ := hr
  exact ⟨v, Option.or_eq_some_iff.mpr (Or.inl hv), hP⟩

theorem yields_upTo {p : UInt8 → Bool} {a u : Str} (ha : ∀ c ∈ a, p c = true) {s : Cursor}
    (hs : s.rest = a ++ u) (hk : ∀ before, Yields (k ⟨before, u, s.groups⟩) P) :
    Yields ((upTo p a.length).run s k) P := by
  induction a generalizing s with
  | nil =>
    obtain ⟨before, rest, groups⟩ := s
    obtain rfl : rest = u := hs
    exact hk before
  | cons c a ih =>
    obtain ⟨hc, ha⟩ := List.forall_mem_cons.mp ha
    apply yields_first
    show Yields ((one p).run s fun t => (upTo p a.length).run t k) P
    apply yields_one hc hs
    exact ih ha rfl hk

/-- The second side of an alternative, where the first accepts nothing at the front. -/
theorem yields_alt {r q : Regex} {s : Cursor} (hr : ∀ w u, s.rest = w ++ u → ¬ r.Accepts w)
    (hq : Yields (q.run s k) P) : Yields ((alt r q).run s k) P := by
  obtain ⟨v, hv, hP⟩ := hq
  have hnone : r.run s k = none := by
    rw [Option.eq_none_iff_forall_ne_some]
    intro v hv
    obtain ⟨w, t, hw, haccepts, -⟩ := run_sound hv
    exact hr w t.rest hw haccepts
  rw [run, hnone, hv]
  exact ⟨v, rfl, hP⟩

/-- One expression behind the other. -/
theorem yields_seq {r q : Regex} {s : Cursor} (h : Yields (r.run s fun t => q.run t k) P) :
    Yields ((seq r q).run s k) P := h

/-- A group adds what it has taken. -/
theorem yields_group {i : Nat} {r : Regex} {s : Cursor}
    (hr : Yields (r.run s fun t =>
      k { t with groups := (i, s.rest.take (s.rest.length - t.rest.length)) :: t.groups }) P) :
    Yields ((group i r).run s k) P := hr

/-- What a group has taken. -/
theorem take_group (a u : Str) : (a ++ u).take ((a ++ u).length - u.length) = a := by
  rw [List.length_append, Nat.add_sub_cancel, List.take_left]

/-! ## Searching -/

/-- A search passes over a part at none of whose places anything is accepted. -/
theorem search_skip {r : Regex} {a u : Str}
    (ha : ∀ d, d ≠ [] → d <:+ a → ∀ w t, d ++ u = w ++ t → ¬ r.Accepts w) (before : Option UInt8) :
    ∃ before', search r before (a ++ u) = (search r before' u).map fun f => (a ++ f.1, f.2) := by
  induction a generalizing before with
  | nil =>
    refine ⟨before, ?_⟩
    rw [List.nil_append]
    cases search r before u with
    | none => rfl
    | some f => rfl
  | cons c a ih =>
    have hnone : r.run { before := before, rest := c :: (a ++ u) } some = none := by
      rw [Option.eq_none_iff_forall_ne_some]
      intro v hv
      obtain ⟨w, t, hw, haccepts, -⟩ := run_sound hv
      exact ha (c :: a) (List.cons_ne_nil c a) (List.suffix_refl _) w t.rest hw haccepts
    obtain ⟨before', hsearch⟩ := ih (fun d hd hda => ha d hd (hda.trans (List.suffix_cons c a))) (some c)
    refine ⟨before', ?_⟩
    rw [List.cons_append, search, hnone]
    dsimp only
    rw [hsearch, Option.map_map]
    rfl

/-- A match at the place where the search starts. -/
theorem search_here {r : Regex} {s : Str} {before : Option UInt8} {t : Cursor}
    (h : r.run { before := before, rest := s } some = some t) : search r before s = some ([], t) := by
  cases s with
  | nil => rw [search, h, Option.map_some]
  | cons c s => rw [search, h]

/-- Where nothing is accepted at any place, nothing is found. -/
theorem search_none {r : Regex} {s : Str} (h : ∀ d, d <:+ s → ∀ w t, d = w ++ t → ¬ r.Accepts w)
    (before : Option UInt8) : search r before s = none := by
  have hskip := search_skip (r := r) (a := s) (u := [])
    (fun d _ hd w t hw => h d hd w t (by rwa [List.append_nil] at hw)) before
  obtain ⟨before', hsearch⟩ := hskip
  have hend : r.run { before := before', rest := [] } some = none := by
    rw [Option.eq_none_iff_forall_ne_some]
    intro v hv
    obtain ⟨w, t, hw, haccepts, -⟩ := run_sound hv
    exact h [] List.nil_suffix w t.rest hw haccepts
  rw [List.append_nil] at hsearch
  rw [hsearch, search, hend]
  rfl

theorem allMatches_none {r : Regex} {before : Option UInt8} {s : Str} (h : search r before s = none)
    (fuel : Nat) : allMatches r fuel before s = ([], s) := by
  cases fuel with
  | zero => rfl
  | succ fuel => rw [allMatches, h]

/-- A match that is found, and the matches behind it. -/
theorem allMatches_cons {r : Regex} {before : Option UInt8} {skipped text : Str} {t : Cursor}
    (h : search r before (skipped ++ (text ++ t.rest)) = some (skipped, t)) (hne : text ≠ [])
    (fuel : Nat) : allMatches r (fuel + 1) before (skipped ++ (text ++ t.rest))
      = (⟨skipped, text, t.groups⟩ :: (allMatches r fuel t.before t.rest).1,
          (allMatches r fuel t.before t.rest).2) := by
  have htext : ((skipped ++ (text ++ t.rest)).drop skipped.length).take
      ((skipped ++ (text ++ t.rest)).length - skipped.length - t.rest.length) = text := by
    rw [List.drop_left, List.length_append, Nat.add_sub_cancel_left]
    exact take_group text t.rest
  rw [allMatches, h]
  dsimp only
  rw [htext, if_neg (by rwa [List.isEmpty_iff])]

end Regex

end Udap.Cxx
