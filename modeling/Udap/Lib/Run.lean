/-
  RUNS of an executable step function, and the rules by which a fact about one step becomes a
  fact about a whole run.

  A concurrent program is modelled by the set of its atomic actions: `step a s` is the state
  after action `a`, or `none` where `a` is not enabled in `s`.  An interleaving is then nothing
  but a LIST of actions, and `exec step as s` runs it; whatever the scheduler can do is some list,
  so a theorem over every list is a theorem over every interleaving.

  * `exec_append`      — runs compose;
  * `exec_inv`         — the invariant rule: what one step preserves, a run preserves;
  * `exec_inv_along`   — the same for runs all of whose steps meet a condition `C` (`Along`);
  * `exec_first_step`  — a run that changes a predicate does so at one of its steps.

  Nothing here mentions a program: `A` is any type of actions, `S` any type of states.
-/
import Mathlib.Data.List.Infix

namespace Udap.Run

variable {A S : Type}

/-- Run a list of actions, one after another; `none` as soon as one is not enabled. -/
def exec (step : A → S → Option S) : List A → S → Option S
  | [], s => some s
  | a :: as, s => (step a s).bind (exec step as)

@[simp] theorem exec_nil (step : A → S → Option S) (s : S) : exec step [] s = some s := rfl

theorem exec_cons (step : A → S → Option S) (a : A) (as : List A) (s : S) :
    exec step (a :: as) s = (step a s).bind (exec step as) := rfl

/-- A run that starts with `a` takes one step and runs on from there. -/
theorem exec_cons_eq_some {step : A → S → Option S} {a : A} {as : List A} {s t : S} :
    exec step (a :: as) s = some t ↔ ∃ u, step a s = some u ∧ exec step as u = some t := by
  rw [exec_cons, Option.bind_eq_some_iff]

theorem exec_append (step : A → S → Option S) (as bs : List A) (s : S) :
    exec step (as ++ bs) s = (exec step as s).bind (exec step bs) := by
  induction as generalizing s with
  | nil => rfl
  | cons a as ih =>
    rw [List.cons_append, exec_cons, exec_cons, Option.bind_assoc]
    exact Option.bind_congr fun u _ => ih u

/-- A run over `as ++ bs` passes through the state that `as` alone reaches. -/
theorem exec_append_eq_some {step : A → S → Option S} {as bs : List A} {s t : S} :
    exec step (as ++ bs) s = some t ↔ ∃ u, exec step as s = some u ∧ exec step bs u = some t := by
  rw [exec_append, Option.bind_eq_some_iff]

/-! ## The invariant rules -/

/-- **The invariant rule.**  What every step preserves, every run preserves. -/
theorem exec_inv {step : A → S → Option S} {I : S → Prop}
    (hstep : ∀ a s t, I s → step a s = some t → I t) :
    ∀ (as : List A) (s t : S), I s → exec step as s = some t → I t := by
  intro as
  induction as with
  | nil =>
    intro s t hs h
    obtain rfl : s = t := Option.some.inj h
    exact hs
  | cons a as ih =>
    intro s t hs h
    obtain ⟨u, hu, ht⟩ := exec_cons_eq_some.mp h
    exact ih u t (hstep a s u hs hu) ht

/-- `Along step C as s`: every action of the run `as` from `s` meets `C` in the state in which it
    is taken. -/
def Along (step : A → S → Option S) (C : A → S → Prop) : List A → S → Prop
  | [], _ => True
  | a :: as, s => C a s ∧ ∀ t, step a s = some t → Along step C as t

/-- A decidable condition is decided along a run by running it. -/
instance Along.decidable {step : A → S → Option S} {C : A → S → Prop}
    [∀ a s, Decidable (C a s)] : ∀ (as : List A) (s : S), Decidable (Along step C as s)
  | [], _ => isTrue trivial
  | a :: as, s =>
    match h : step a s with
    | none => decidable_of_iff (C a s) (by simp [Along, h])
    | some t =>
      have : Decidable (Along step C as t) := Along.decidable as t
      decidable_of_iff (C a s ∧ Along step C as t) (by simp [Along, h])

/-- The invariant rule for runs whose steps all meet the condition `C`. -/
theorem exec_inv_along {step : A → S → Option S} {C : A → S → Prop} {I : S → Prop}
    (hstep : ∀ a s t, I s → C a s → step a s = some t → I t) :
    ∀ (as : List A) (s t : S), I s → Along step C as s → exec step as s = some t → I t := by
  intro as
  induction as with
  | nil =>
    intro s t hs _ h
    obtain rfl : s = t := Option.some.inj h
    exact hs
  | cons a as ih =>
    intro s t hs hC h
    obtain ⟨u, hu, ht⟩ := exec_cons_eq_some.mp h
    exact ih u t (hstep a s u hs hC.1 hu) (hC.2 u hu) ht

/-- A condition on the actions alone holds along every run made of such actions. -/
theorem along_of_forall {step : A → S → Option S} {P : A → Prop} :
    ∀ {as : List A} {s : S}, (∀ a ∈ as, P a) → Along step (fun a _ => P a) as s
  | [], _, _ => trivial
  | _ :: _, _, h => ⟨h _ List.mem_cons_self,
      fun _ _ => along_of_forall fun a ha => h a (List.mem_cons_of_mem _ ha)⟩

/-- Conditions that agree hold along the same runs. -/
theorem along_congr {step : A → S → Option S} {C D : A → S → Prop} (h : ∀ a s, C a s ↔ D a s) :
    ∀ {as : List A} {s : S}, Along step C as s ↔ Along step D as s
  | [], _ => Iff.rfl
  | a :: _, s => and_congr (h a s) (forall₂_congr fun _ _ => along_congr h)

/-- Conditions that agree where an invariant holds hold along the same runs from there. -/
theorem along_congr_inv {step : A → S → Option S} {I : S → Prop} {C D : A → S → Prop}
    (hstep : ∀ a s t, I s → step a s = some t → I t) (h : ∀ a s, I s → (C a s ↔ D a s)) :
    ∀ {as : List A} {s : S}, I s → (Along step C as s ↔ Along step D as s)
  | [], _, _ => Iff.rfl
  | a :: _, s, hs => and_congr (h a s hs) (forall₂_congr fun t ht =>
      along_congr_inv hstep h (hstep a s t hs ht))

/-- What holds wherever an invariant does holds along every run from there. -/
theorem along_of_inv {step : A → S → Option S} {I : S → Prop} {C : A → S → Prop}
    (hstep : ∀ a s t, I s → step a s = some t → I t) (h : ∀ a s, I s → C a s) :
    ∀ (as : List A) {s : S}, I s → Along step C as s
  | [], _, _ => trivial
  | a :: as, s, hs => ⟨h a s hs, fun t ht => along_of_inv hstep h as (hstep a s t hs ht)⟩

/-- A run whose steps are all enabled goes through. -/
theorem exec_isSome_of_along {step : A → S → Option S} {C : A → S → Prop}
    (h : ∀ a s, C a s → (step a s).isSome = true) :
    ∀ {as : List A} {s : S}, Along step C as s → (exec step as s).isSome = true
  | [], _, _ => rfl
  | a :: _, s, hC => by
    obtain ⟨t, ht⟩ := Option.isSome_iff_exists.mp (h a s hC.1)
    rw [exec_cons, ht, Option.bind_some]
    exact exec_isSome_of_along h (hC.2 t ht)

/-- A condition that holds along a run holds along every initial part of it. -/
theorem Along.of_append {step : A → S → Option S} {C : A → S → Prop} :
    ∀ {as bs : List A} {s : S}, Along step C (as ++ bs) s → Along step C as s
  | [], _, _, _ => trivial
  | _ :: _, _, _, h => ⟨h.1, fun t ht => (h.2 t ht).of_append⟩

/-- If the condition fails along a run, it fails at one of its steps: the run splits there. -/
theorem exists_of_not_along {step : A → S → Option S} {C : A → S → Prop} :
    ∀ {as : List A} {s : S}, ¬ Along step C as s →
      ∃ pre a post u, as = pre ++ a :: post ∧ exec step pre s = some u ∧ ¬ C a u
  | [], _, h => absurd trivial h
  | a :: as, s, h => by
    by_cases hC : C a s
    · have hrest : ∃ t, step a s = some t ∧ ¬ Along step C as t := by
        by_contra hno
        exact h ⟨hC, fun t ht => by_contra fun hn => hno ⟨t, ht, hn⟩⟩
      obtain ⟨t, ht, hn⟩ := hrest
      obtain ⟨pre, b, post, u, rfl, hu, hb⟩ := exists_of_not_along hn
      exact ⟨a :: pre, b, post, u, rfl, exec_cons_eq_some.mpr ⟨t, ht, hu⟩, hb⟩
    · exact ⟨[], a, as, s, rfl, rfl, hC⟩

/-- **The crossing rule.**  A run that leaves a predicate does so at one of its steps: there is a
    first action taken in a `P`-state to a state outside `P`. -/
theorem exec_first_step {step : A → S → Option S} {P : S → Prop} :
    ∀ {as : List A} {s t : S}, P s → ¬ P t → exec step as s = some t →
      ∃ pre a post u v, as = pre ++ a :: post ∧ exec step pre s = some u ∧ P u ∧
        step a u = some v ∧ ¬ P v
  | [], s, t, hs, ht, h => by
    obtain rfl : s = t := Option.some.inj h
    exact absurd hs ht
  | a :: as, s, t, hs, ht, h => by
    obtain ⟨u, hu, hrun⟩ := exec_cons_eq_some.mp h
    by_cases hPu : P u
    · obtain ⟨pre, b, post, v, w, rfl, hv, hPv, hw, hPw⟩ := exec_first_step hPu ht hrun
      exact ⟨a :: pre, b, post, v, w, rfl, exec_cons_eq_some.mpr ⟨u, hu, hv⟩, hPv, hw, hPw⟩
    · exact ⟨[], a, as, s, u, rfl, rfl, hs, hu, hPu⟩

end Udap.Run
