/-
  LOOPS that test behind their body: `do body while (again)`.

  The body is partial, so that it may be a loop itself.  `doWhile` has fuel, and no result while it
  has not ended.

  * `doWhile_mono`      — more fuel, also in the body, changes no result;
  * `doWhile_iterate`   — a loop whose body does what a function `f` does ends at the first
                          iterate of `f` that fails the test;
  * `doWhile_inv`       — what the body establishes holds where the loop ends, and the test fails;
  * `doWhile_diverges`  — a loop that keeps an invariant under which it goes on has no result;
  * `doWhile_map`       — a loop on more data than another, which does the same to the common part.

  `times` is the body a number of times.  A loop has a result if and only if some number of its
  bodies ends where the test fails (`times_of_doWhile`, `doWhile_of_times`).

  A loop with a budget ends with the first round that passes its test, or with the last one:
  `FirstWithin`.  `FirstWithin.iff_agree` compares two tests.

  `P` is any type of states: nothing here mentions a program.
-/
import Mathlib.Logic.Function.Iterate

set_option linter.unusedVariables false

namespace Udap.Loop

variable {P : Type} {body body' : P → Option P} {again : P → Bool}

/-- Run `body` at least once, and as long as `again` holds behind it. -/
def doWhile (body : P → Option P) (again : P → Bool) : Nat → P → Option P
  | 0, _ => none
  | fuel + 1, p => (body p).bind fun q => if again q then doWhile body again fuel q else some q

/-- **More fuel changes nothing**, in the loop or in its body. -/
theorem doWhile_mono (hbody : ∀ p q, body p = some q → body' p = some q) {fuel fuel' : Nat}
    (hle : fuel ≤ fuel') {p q : P} (h : doWhile body again fuel p = some q) :
    doWhile body' again fuel' p = some q := by
  induction fuel generalizing fuel' p with
  | zero => cases h
  | succ fuel ih =>
    obtain ⟨fuel', rfl⟩ : ∃ k, fuel' = k + 1 := ⟨fuel' - 1, by omega⟩
    obtain ⟨u, hu, hrest⟩ := Option.bind_eq_some_iff.mp h
    rw [doWhile, hbody p u hu, Option.bind_some]
    by_cases hgo : again u = true
    · rw [if_pos hgo] at hrest ⊢
      exact ih (by omega) hrest
    · rw [if_neg hgo] at hrest ⊢
      exact hrest

/-- **Where a loop ends** whose body does what `f` does. -/
theorem doWhile_iterate {f : P → P} {n : Nat} {p : P}
    (hbody : ∀ k ≤ n, body (f^[k] p) = some (f^[k + 1] p))
    (hgo : ∀ k < n, again (f^[k + 1] p) = true) (hstop : again (f^[n + 1] p) = false) :
    doWhile body again (n + 1) p = some (f^[n + 1] p) := by
  induction n generalizing p with
  | zero =>
    rw [doWhile, show body p = some (f^[1] p) from hbody 0 (Nat.le_refl 0), Option.bind_some,
      if_neg (by rw [hstop]; exact Bool.false_ne_true)]
  | succ n ih =>
    have hrest := ih (p := f p) (fun k hk => hbody (k + 1) (by omega))
      (fun k hk => hgo (k + 1) (by omega)) hstop
    have hfirst : again (f p) = true := hgo 0 (Nat.succ_pos n)
    rw [doWhile, show body p = some (f p) from hbody 0 (Nat.zero_le _), Option.bind_some,
      if_pos hfirst, hrest]
    rfl

/-- **What holds where a loop ends.** -/
theorem doWhile_inv {Q : P → Prop} (hbody : ∀ p q, body p = some q → Q q) {fuel : Nat} {p q : P}
    (h : doWhile body again fuel p = some q) : Q q ∧ again q = false := by
  induction fuel generalizing p with
  | zero => cases h
  | succ fuel ih =>
    obtain ⟨u, hu, hrest⟩ := Option.bind_eq_some_iff.mp h
    by_cases hgo : again u = true
    · rw [if_pos hgo] at hrest
      exact ih hrest
    · rw [if_neg hgo] at hrest
      obtain rfl := Option.some.inj hrest
      exact ⟨hbody p u hu, Bool.eq_false_iff.mpr hgo⟩

/-- **A loop that never ends.** -/
theorem doWhile_diverges {I : P → Prop}
    (hstep : ∀ p q, I p → body p = some q → I q ∧ again q = true) {p : P} (hp : I p) (fuel : Nat) :
    doWhile body again fuel p = none := by
  induction fuel generalizing p with
  | zero => rfl
  | succ fuel ih =>
    rw [doWhile]
    cases hbody : body p with
    | none => rfl
    | some q =>
      obtain ⟨hq, hgo⟩ := hstep p q hp hbody
      rw [Option.bind_some, if_pos hgo]
      exact ih hq

/-- **Two loops side by side.** -/
theorem doWhile_map {P' : Type} {g : P → P'} {body' : P' → Option P'} {again' : P' → Bool}
    (hbody : ∀ p, (body p).map g = body' (g p)) (hagain : ∀ p, again p = again' (g p))
    (fuel : Nat) (p : P) :
    (doWhile body again fuel p).map g = doWhile body' again' fuel (g p) := by
  induction fuel generalizing p with
  | zero => rfl
  | succ fuel ih =>
    rw [doWhile, doWhile, ← hbody p]
    cases body p with
    | none => rfl
    | some q =>
      rw [Option.bind_some, Option.map_some, Option.bind_some, ← hagain q]
      by_cases hgo : again q = true
      · rw [if_pos hgo, if_pos hgo]
        exact ih q
      · rw [if_neg hgo, if_neg hgo]
        rfl

/-! ## The body a number of times -/

/-- Run `body` `n` times, whatever the test says. -/
def times (body : P → Option P) : Nat → P → Option P
  | 0, p => some p
  | n + 1, p => (body p).bind (times body n)

theorem times_add (m n : Nat) (p : P) :
    times body (m + n) p = (times body m p).bind (times body n) := by
  induction m generalizing p with
  | zero => rw [Nat.zero_add, times, Option.bind_some]
  | succ m ih =>
    rw [Nat.succ_add, times, times, Option.bind_assoc]
    exact congrArg (body p).bind (funext ih)

theorem times_mono (hbody : ∀ p q, body p = some q → body' p = some q) {n : Nat} {p q : P}
    (h : times body n p = some q) : times body' n p = some q := by
  induction n generalizing p with
  | zero => exact h
  | succ n ih =>
    obtain ⟨u, hu, hrest⟩ := Option.bind_eq_some_iff.mp h
    rw [times, hbody p u hu, Option.bind_some]
    exact ih hrest

theorem times_map {P' : Type} {g : P → P'} {body' : P' → Option P'}
    (hbody : ∀ p, (body p).map g = body' (g p)) (n : Nat) (p : P) :
    (times body n p).map g = times body' n (g p) := by
  induction n generalizing p with
  | zero => rfl
  | succ n ih =>
    rw [times, times, ← hbody p]
    cases body p with
    | none => rfl
    | some q => exact ih q

theorem times_iterate {f : P → P} {n : Nat} {p : P}
    (hbody : ∀ k < n, body (f^[k] p) = some (f^[k + 1] p)) : times body n p = some (f^[n] p) := by
  induction n generalizing p with
  | zero => rfl
  | succ n ih =>
    rw [times, show body p = some (f p) from hbody 0 (Nat.succ_pos n), Option.bind_some]
    exact ih fun k hk => hbody (k + 1) (by omega)

/-- **A result is reached by bodies.** -/
theorem times_of_doWhile {fuel : Nat} {p q : P} (h : doWhile body again fuel p = some q) :
    ∃ n, times body n p = some q := by
  induction fuel generalizing p with
  | zero => cases h
  | succ fuel ih =>
    obtain ⟨u, hu, hrest⟩ := Option.bind_eq_some_iff.mp h
    by_cases hgo : again u = true
    · rw [if_pos hgo] at hrest
      obtain ⟨n, hn⟩ := ih hrest
      exact ⟨n + 1, by rw [times, hu, Option.bind_some, hn]⟩
    · rw [if_neg hgo] at hrest
      exact ⟨1, by rw [times, hu, Option.bind_some, ← hrest]; rfl⟩

/-- **Bodies that reach the end of the test** are a result, or there is an earlier one. -/
theorem doWhile_of_times {n : Nat} {p q : P} (h : times body (n + 1) p = some q)
    (hstop : again q = false) : ∃ r, doWhile body again (n + 1) p = some r := by
  induction n generalizing p with
  | zero =>
    obtain ⟨u, hu, hrest⟩ := Option.bind_eq_some_iff.mp h
    obtain rfl := Option.some.inj hrest
    refine ⟨u, ?_⟩
    rw [doWhile, hu, Option.bind_some, if_neg (by rw [hstop]; exact Bool.false_ne_true)]
  | succ n ih =>
    obtain ⟨u, hu, hrest⟩ := Option.bind_eq_some_iff.mp h
    rw [doWhile, hu, Option.bind_some]
    by_cases hgo : again u = true
    · rw [if_pos hgo]
      exact ih hrest
    · rw [if_neg hgo]
      exact ⟨u, rfl⟩

/-! ## Loops with a budget -/

/-- Round `n` is the first of the rounds 1 to `budget` that passes the test, or none does and `n` is
    the last one. -/
def FirstWithin (budget : Nat) (test : Nat → Prop) (n : Nat) : Prop :=
  (1 ≤ n ∧ n ≤ budget ∧ test n ∧ ∀ k, 1 ≤ k → k < n → ¬ test k) ∨
    (n = budget ∧ ∀ k, 1 ≤ k → k ≤ budget → ¬ test k)

section FirstWithin

variable {budget n : Nat} {test test' : Nat → Prop}

theorem firstWithin_zero : FirstWithin 0 test 0 := by
  refine Or.inr ⟨rfl, ?_⟩
  intro k hk hle
  omega

theorem firstWithin_one (h : test 1) : FirstWithin (budget + 1) test 1 := by
  refine Or.inl ⟨Nat.le_refl 1, by omega, h, ?_⟩
  intro k hk hlt
  omega

/-- Behind a round that does not pass the test. -/
theorem FirstWithin.succ (hone : ¬ test 1) (h : FirstWithin budget (fun k => test (k + 1)) n) :
    FirstWithin (budget + 1) test (n + 1) := by
  have hshift : ∀ bound, (∀ k, 1 ≤ k → k < bound → ¬ test (k + 1)) →
      ∀ k, 1 ≤ k → k < bound + 1 → ¬ test k := by
    intro bound hnone k hk hlt
    rcases Nat.eq_or_lt_of_le hk with rfl | hmore
    · exact hone
    · obtain ⟨j, rfl⟩ : ∃ j, k = j + 1 := ⟨k - 1, by omega⟩
      exact hnone j (by omega) (by omega)
  rcases h with ⟨hpos, hle, htest, hnone⟩ | ⟨rfl, hnone⟩
  · exact Or.inl ⟨by omega, by omega, htest, hshift n hnone⟩
  · refine Or.inr ⟨rfl, ?_⟩
    intro k hk hle
    exact hshift (n + 1) (fun j hj hlt => hnone j hj (by omega)) k hk (by omega)

/-- Before round `n` no round has passed the test. -/
theorem FirstWithin.before (h : FirstWithin budget test n) :
    n ≤ budget ∧ ∀ k, 1 ≤ k → k < n → ¬ test k := by
  rcases h with ⟨hpos, hle, htest, hnone⟩ | ⟨rfl, hnone⟩
  · exact ⟨hle, hnone⟩
  · exact ⟨Nat.le_refl n, fun k hk hlt => hnone k hk (Nat.le_of_lt hlt)⟩

/-- It passes unless it is the last one. -/
theorem FirstWithin.passes (h : FirstWithin budget test n) (hlt : n < budget) :
    1 ≤ n ∧ test n := by
  rcases h with ⟨hpos, hle, htest, hnone⟩ | ⟨rfl, hnone⟩
  · exact ⟨hpos, htest⟩
  · omega

theorem firstWithin_of (hpos : 1 ≤ n) (hle : n ≤ budget) (hnone : ∀ k, 1 ≤ k → k < n → ¬ test k)
    (hlast : n < budget → test n) : FirstWithin budget test n := by
  by_cases htest : test n
  · exact Or.inl ⟨hpos, hle, htest, hnone⟩
  · have hbudget : n = budget := by
      by_contra hne
      exact htest (hlast (by omega))
    refine Or.inr ⟨hbudget, ?_⟩
    intro k hk hkle
    rcases Nat.lt_or_ge k n with hlt | hge
    · exact hnone k hk hlt
    · obtain rfl : k = n := by omega
      exact htest

theorem FirstWithin.congr (h : FirstWithin budget test n)
    (hsame : ∀ k, 1 ≤ k → (test k ↔ test' k)) : FirstWithin budget test' n := by
  rcases h with ⟨hpos, hle, htest, hnone⟩ | ⟨hlast, hnone⟩
  · refine Or.inl ⟨hpos, hle, (hsame n hpos).mp htest, ?_⟩
    intro k hk hlt
    exact fun htest' => hnone k hk hlt ((hsame k hk).mpr htest')
  · refine Or.inr ⟨hlast, ?_⟩
    intro k hk hle
    exact fun htest' => hnone k hk hle ((hsame k hk).mpr htest')

/-- With rounds to spend, at least one is run. -/
theorem FirstWithin.one_le (h : FirstWithin (budget + 1) test n) : 1 ≤ n := by
  rcases h with ⟨hpos, -⟩ | ⟨rfl, -⟩
  · exact hpos
  · exact Nat.le_add_left 1 budget

/-- **A weaker test ends no later**, unless its budget is larger. -/
theorem FirstWithin.le_of_imp {budget' n' : Nat} (h : FirstWithin budget test n)
    (h' : FirstWithin budget' test' n') (hbudget : budget ≤ budget')
    (himp : ∀ k, test' k → test k) : n ≤ n' := by
  by_contra hlt
  obtain ⟨hle, hnone⟩ := h.before
  obtain ⟨hpos, htest⟩ := h'.passes (by omega)
  exact hnone n' hpos (by omega) (himp n' htest)

/-- A test that is met where a weaker one first is ends there, too. -/
theorem FirstWithin.eq_of_imp {budget' n' : Nat} (h : FirstWithin budget test n)
    (h' : FirstWithin budget' test' n') (hbudget : budget ≤ budget')
    (himp : ∀ k, test' k → test k) (hpos : 1 ≤ n) (htest : test' n) : n' = n := by
  have hle := h.le_of_imp h' hbudget himp
  by_contra hne
  exact h'.before.2 n hpos (by omega) htest

/-- **Two tests end in the same round** if and only if they agree, round after round, as long as
    the second has not passed. -/
theorem FirstWithin.iff_agree (h : FirstWithin budget test n) (hpos : 1 ≤ n) :
    FirstWithin budget test' n ↔
      ∀ k, 1 ≤ k → k < budget → (∀ j, 1 ≤ j → j < k → ¬ test' j) → (test k ↔ test' k) := by
  obtain ⟨hle, hnone⟩ := h.before
  constructor
  · intro h' k hk hlt hnone'
    rcases Nat.lt_trichotomy k n with hbefore | rfl | hbehind
    · exact iff_of_false (hnone k hk hbefore) (h'.before.2 k hk hbefore)
    · exact iff_of_true (h.passes hlt).2 (h'.passes hlt).2
    · obtain ⟨-, htest⟩ := h'.passes (by omega)
      exact absurd htest (hnone' n hpos hbehind)
  · intro hagree
    have hnone' : ∀ k, 1 ≤ k → k < n → ¬ test' k := by
      intro k
      induction k using Nat.strongRecOn with
      | _ k ih =>
        intro hk hlt htest
        have hsame := hagree k hk (by omega) fun j hj hjk => ih j hjk hj (by omega)
        exact hnone k hk hlt (hsame.mpr htest)
    apply firstWithin_of hpos hle hnone'
    intro hlt
    exact (hagree n hpos hlt hnone').mp (h.passes hlt).2

end FirstWithin

end Udap.Loop
