/-
  SWEEPS — following `next` from a position for as long as a test holds.

  A disassembler walks through memory like this: where the next instruction starts is known only
  once this one is decoded.  The positions visited are `List.iterate next p n`; what a loop over
  them needs to know is how many there are.

  * `sweep`              — the loop, with fuel: `none` while it has not ended;
  * `sweep_eq_some`      — what it delivers are the positions before the first that fails the test;
  * `runWhile`           — the loop without a list, for a body that keeps its own results;
  * `exists_sweep_iff`   — it ends if and only if some position fails the test;
  * `sweep_nodup`        — if it does, no position was visited twice;
  * `exists_of_rising`   — it does if every step rises by a height that is bounded while the test
                           holds;
  * `iterate_window`     — how far `n` steps rise when each rises between 1 and `most`.

  `P` is any type of positions: nothing here mentions a program.
-/
import Mathlib.Data.List.Iterate
import Mathlib.Data.Nat.Find

set_option linter.unusedVariables false

namespace Udap.Sweep

variable {P : Type} {next : P → P} {go : P → Bool}

/-- Collect the positions from `p` on while `go` holds. -/
def sweep (next : P → P) (go : P → Bool) : Nat → P → Option (List P)
  | 0, _ => none
  | fuel + 1, p => if go p then (sweep next go fuel (next p)).map (p :: ·) else some []

/-- **What a sweep delivers**: the positions before the first that fails the test. -/
theorem sweep_eq_some {fuel : Nat} {p : P} {l : List P} :
    sweep next go fuel p = some l ↔
      ∃ n < fuel, l = List.iterate next p n ∧ (∀ m < n, go (next^[m] p) = true) ∧
        go (next^[n] p) = false := by
  induction fuel generalizing p l with
  | zero => exact ⟨fun h => absurd h (Option.some_ne_none l).symm, fun ⟨n, hn, _⟩ => absurd hn n.not_lt_zero⟩
  | succ fuel ih =>
    rw [sweep]
    by_cases hp : go p = true
    · rw [if_pos hp, Option.map_eq_some_iff]
      constructor
      · rintro ⟨rest, hrest, rfl⟩
        obtain ⟨n, hn, rfl, hgo, hstop⟩ := ih.mp hrest
        refine ⟨n + 1, by omega, rfl, ?_, hstop⟩
        intro m hm
        cases m with
        | zero => exact hp
        | succ m => exact hgo m (by omega)
      · rintro ⟨n, hn, rfl, hgo, hstop⟩
        cases n with
        | zero => exact absurd hp (by rw [show go p = false from hstop]; exact Bool.false_ne_true)
        | succ n =>
          exact ⟨_, ih.mpr ⟨n, by omega, rfl, fun m hm => hgo (m + 1) (by omega), hstop⟩, rfl⟩
    · rw [if_neg hp]
      constructor
      · intro h
        exact ⟨0, by omega, (Option.some.inj h).symm, fun m hm => absurd hm m.not_lt_zero,
          Bool.eq_false_iff.mpr hp⟩
      · rintro ⟨n, hn, rfl, hgo, hstop⟩
        cases n with
        | zero => rfl
        | succ n => exact absurd (hgo 0 (by omega)) hp

/-- Run `next` while `go` holds. -/
def runWhile (next : P → P) (go : P → Bool) : Nat → P → Option P
  | 0, _ => none
  | fuel + 1, p => if go p then runWhile next go fuel (next p) else some p

/-- It goes as far as a sweep does. -/
theorem runWhile_eq_sweep (fuel : Nat) (p : P) :
    runWhile next go fuel p = (sweep next go fuel p).map fun l => next^[l.length] p := by
  induction fuel generalizing p with
  | zero => rfl
  | succ fuel ih =>
    rw [runWhile, sweep]
    by_cases hp : go p = true
    · rw [if_pos hp, if_pos hp, ih (next p), Option.map_map]
      rfl
    · rw [if_neg hp, if_neg hp]
      rfl

/-- **Where a loop ends**: at the first position that fails the test. -/
theorem runWhile_eq_some {fuel : Nat} {p q : P} :
    runWhile next go fuel p = some q ↔
      ∃ n < fuel, q = next^[n] p ∧ (∀ m < n, go (next^[m] p) = true) ∧
        go (next^[n] p) = false := by
  rw [runWhile_eq_sweep, Option.map_eq_some_iff]
  constructor
  · rintro ⟨l, hsweep, rfl⟩
    obtain ⟨n, hn, rfl, hgo, hstop⟩ := sweep_eq_some.mp hsweep
    exact ⟨n, hn, by rw [List.length_iterate], hgo, hstop⟩
  · rintro ⟨n, hn, rfl, hgo, hstop⟩
    refine ⟨_, sweep_eq_some.mpr ⟨n, hn, rfl, hgo, hstop⟩, ?_⟩
    rw [List.length_iterate]

/-- The first position that fails the test, if any does. -/
theorem exists_first_stop (next : P → P) (go : P → Bool) (p : P)
    (h : ∃ n, go (next^[n] p) = false) :
    ∃ n, (∀ m < n, go (next^[m] p) = true) ∧ go (next^[n] p) = false := by
  refine ⟨Nat.find h, fun m hm => ?_, Nat.find_spec h⟩
  exact Bool.eq_true_of_not_eq_false (Nat.find_min h hm)

/-- **A sweep ends** if and only if it comes to a position that fails the test. -/
theorem exists_sweep_iff {p : P} :
    (∃ fuel l, sweep next go fuel p = some l) ↔ ∃ n, go (next^[n] p) = false := by
  constructor
  · rintro ⟨fuel, l, hl⟩
    obtain ⟨n, -, -, -, hstop⟩ := sweep_eq_some.mp hl
    exact ⟨n, hstop⟩
  · intro h
    obtain ⟨n, hgo, hstop⟩ := exists_first_stop next go p h
    exact ⟨n + 1, _, sweep_eq_some.mpr ⟨n, by omega, rfl, hgo, hstop⟩⟩

/-- Before a position that fails the test none is visited twice: from a repeated one on the sweep
    would go round for ever. -/
theorem nodup_of_stop {n : Nat} {p : P} (hgo : ∀ m < n, go (next^[m] p) = true)
    (hstop : go (next^[n] p) = false) : (List.iterate next p n).Nodup := by
  have hne : ∀ i j, i < j → j < n → next^[i] p ≠ next^[j] p := by
    intro i j hij hjn heq
    have hback : next^[n - j + i] p = next^[n] p := by
      rw [Function.iterate_add_apply, heq, ← Function.iterate_add_apply,
        show n - j + j = n by omega]
    have hagain := hgo (n - j + i) (by omega)
    rw [hback, hstop] at hagain
    exact Bool.false_ne_true hagain
  refine List.pairwise_iff_getElem.mpr fun i j hi hj hij => ?_
  rw [List.getElem_iterate, List.getElem_iterate]
  exact hne i j hij (by rwa [List.length_iterate] at hj)

theorem sweep_nodup {fuel : Nat} {p : P} {l : List P} (h : sweep next go fuel p = some l) :
    l.Nodup := by
  obtain ⟨n, -, rfl, hgo, hstop⟩ := sweep_eq_some.mp h
  exact nodup_of_stop hgo hstop

/-! ## Sweeps that rise -/

/-- A sweep ends if every step rises, and the test bounds the height. -/
theorem exists_of_rising (height : P → Nat) (bound : Nat)
    (hrise : ∀ p, go p = true → height p < height (next p))
    (hbound : ∀ p, go p = true → height p < bound) (p : P) : ∃ n, go (next^[n] p) = false := by
  by_contra hno
  have hgo : ∀ n, go (next^[n] p) = true := fun n =>
    Bool.eq_true_of_not_eq_false fun h => hno ⟨n, h⟩
  -- after `n` steps the sweep is at least `n` high
  have hhigh : ∀ n, n ≤ height (next^[n] p) := by
    intro n
    induction n with
    | zero => exact Nat.zero_le _
    | succ n ih =>
      have hstep := hrise _ (hgo n)
      rw [Function.iterate_succ_apply']
      omega
  have htop := hhigh bound
  have hlt := hbound _ (hgo bound)
  omega

/-- How far a sweep rises whose steps rise by 1 up to `most`. -/
theorem iterate_window {height : P → Nat} {most n : Nat} {p : P}
    (hstep : ∀ m < n, height (next^[m] p) < height (next^[m + 1] p) ∧
      height (next^[m + 1] p) ≤ height (next^[m] p) + most) :
    height p + n ≤ height (next^[n] p) ∧ height (next^[n] p) ≤ height p + most * n := by
  induction n with
  | zero => exact ⟨Nat.le_refl _, Nat.le_refl _⟩
  | succ n ih =>
    obtain ⟨hlow, hhigh⟩ := ih fun m hm => hstep m (by omega)
    obtain ⟨hrise, hmost⟩ := hstep n (by omega)
    rw [Nat.mul_succ]
    omega

end Udap.Sweep
