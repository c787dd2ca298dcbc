/-
  UNDO OVER A BOUNDED MEMORY.

  A program that can take its steps back keeps a record of each; when records are bounded, the
  oldest is dropped to make room.

  * `Log S bound`  — the ideal: every step not undone so far, the latest first, together with how
    many of the oldest are FORGOTTEN.  Recording a step forgets whatever lies beyond the `bound`
    latest; undoing takes the latest step away, if it is not forgotten.
  * `pushBounded`  — the program: a queue that is filled at one end and, once it is full, emptied
    at the other.
  * `Keeps q log`  — the queue holds the remembered steps, the oldest first; recording
    (`Keeps.push`) and undoing (`Keeps.pop`) keep it so.
  * `Leaves n q t` — steps that are all undone again, at most `n` at a time, have left of the queue
    `q` its latest records, all but `n` of those there is room for (`Leaves.bracket`).

  `S` is whatever is recorded: nothing here mentions a program.
-/
import Mathlib.Data.List.Basic

set_option linter.unusedVariables false

namespace Udap.Undo

variable {S R : Type} {bound : Nat}

/-- The steps not undone, the latest first; the `forgotten` oldest of them cannot be undone. -/
structure Log (S : Type) (bound : Nat) where
  notUndone : List S
  forgotten : Nat
  forgotten_le : forgotten ≤ notUndone.length
  kept_le : notUndone.length ≤ forgotten + bound

namespace Log

/-- No step so far. -/
def empty : Log S bound := ⟨[], 0, Nat.le_refl 0, Nat.zero_le _⟩

/-- The steps that can still be undone, the latest first. -/
def remembered (l : Log S bound) : List S := l.notUndone.take (l.notUndone.length - l.forgotten)

/-- One step more: what lies beyond the `bound` latest is forgotten. -/
def record (s : S) (l : Log S bound) : Log S bound where
  notUndone := s :: l.notUndone
  forgotten := max l.forgotten (l.notUndone.length + 1 - bound)
  forgotten_le := by
    have h := l.forgotten_le
    rw [List.length_cons]
    omega
  kept_le := by
    rw [List.length_cons]
    omega

/-- The latest step is taken back, unless there is none or it is forgotten. -/
def undo (l : Log S bound) : Log S bound :=
  if h : l.forgotten < l.notUndone.length then
    { notUndone := l.notUndone.tail
      forgotten := l.forgotten
      forgotten_le := by
        rw [List.length_tail]
        omega
      kept_le := by
        have hk := l.kept_le
        rw [List.length_tail]
        omega }
  else l

theorem remembered_length (l : Log S bound) :
    l.remembered.length + l.forgotten = l.notUndone.length := by
  have h := l.forgotten_le
  rw [remembered, List.length_take]
  omega

theorem remembered_le (l : Log S bound) : l.remembered.length ≤ bound := by
  have h := l.kept_le
  have hlen := l.remembered_length
  omega

/-- What can be undone is what was done last. -/
theorem remembered_isPrefix (l : Log S bound) : l.remembered <+: l.notUndone :=
  List.take_prefix _ _

/-- While there is room, recording forgets nothing. -/
theorem remembered_record_of_lt {l : Log S bound} (h : l.remembered.length < bound) (s : S) :
    (l.record s).remembered = s :: l.remembered := by
  have hlen := l.remembered_length
  have hforgotten : (l.record s).forgotten = l.forgotten := by
    show max l.forgotten (l.notUndone.length + 1 - bound) = l.forgotten
    omega
  rw [remembered, hforgotten]
  show (s :: l.notUndone).take (l.notUndone.length + 1 - l.forgotten) = s :: l.remembered
  rw [show l.notUndone.length + 1 - l.forgotten = (l.notUndone.length - l.forgotten) + 1 by omega,
    List.take_succ_cons, remembered]

/-- When there is none, the oldest step that was remembered is forgotten. -/
theorem remembered_record_of_full {l : Log S bound} (hbound : 0 < bound)
    (h : l.remembered.length = bound) (s : S) :
    (l.record s).remembered = s :: l.remembered.dropLast := by
  have hlen := l.remembered_length
  have hforgotten : (l.record s).forgotten = l.forgotten + 1 := by
    show max l.forgotten (l.notUndone.length + 1 - bound) = l.forgotten + 1
    omega
  rw [remembered, hforgotten, List.dropLast_eq_take, h]
  show (s :: l.notUndone).take (l.notUndone.length + 1 - (l.forgotten + 1)) = _
  rw [show l.notUndone.length + 1 - (l.forgotten + 1) = (bound - 1) + 1 by omega,
    List.take_succ_cons, remembered, List.take_take,
    show min (bound - 1) (l.notUndone.length - l.forgotten) = bound - 1 by omega]

theorem remembered_undo (l : Log S bound) : l.undo.remembered = l.remembered.tail := by
  have hle := l.forgotten_le
  unfold undo
  by_cases h : l.forgotten < l.notUndone.length
  · rw [dif_pos h, remembered, remembered]
    show l.notUndone.tail.take (l.notUndone.tail.length - l.forgotten) = _
    rw [List.length_tail, ← List.drop_one, ← List.drop_one, List.drop_take,
      show l.notUndone.length - 1 - l.forgotten = l.notUndone.length - l.forgotten - 1 by omega]
  · have hnone : l.remembered = [] := by
      rw [remembered, show l.notUndone.length - l.forgotten = 0 by omega, List.take_zero]
    rw [dif_neg h, hnone, List.tail_nil]

/-- What is forgotten stays so. -/
theorem forgotten_undo (l : Log S bound) : l.undo.forgotten = l.forgotten := by
  unfold undo
  split <;> rfl

theorem forgotten_record (l : Log S bound) (s : S) :
    (l.record s).forgotten = max l.forgotten (l.notUndone.length + 1 - bound) := rfl

end Log

/-! ## The program -/

/-- Put `r` at the back of the queue; a full queue loses its front first. -/
def pushBounded (bound : Nat) (r : R) (q : List R) : List R :=
  (if q.length ≥ bound then q.tail else q) ++ [r]

/-- The queue holds a record of each step that can be undone, the oldest first. -/
def Keeps (record : S → R) (q : List R) (l : Log S bound) : Prop :=
  q = (l.remembered.map record).reverse

variable {record : S → R} {q : List R} {l : Log S bound}

theorem keeps_empty : Keeps record [] (Log.empty : Log S bound) := rfl

theorem Keeps.length (h : Keeps record q l) : q.length = l.remembered.length := by
  rw [h, List.length_reverse, List.length_map]

/-- **Recording.**  The queue drops what the ideal forgets. -/
theorem Keeps.push (hbound : 0 < bound) (h : Keeps record q l) (s : S) :
    Keeps record (pushBounded bound (record s) q) (l.record s) := by
  have hlen := h.length
  unfold Keeps pushBounded
  rcases Nat.lt_or_ge l.remembered.length bound with hroom | hfull
  · rw [if_neg (by omega), Log.remembered_record_of_lt hroom, List.map_cons, List.reverse_cons, ← h]
  · have hle := l.remembered_le
    rw [if_pos (by omega), Log.remembered_record_of_full hbound (by omega), List.map_cons,
      List.reverse_cons, h, List.tail_reverse, List.map_dropLast]

/-- **Undoing.**  The back of the queue is the record of the latest step. -/
theorem Keeps.pop (h : Keeps record q l) : Keeps record q.dropLast l.undo := by
  unfold Keeps
  rw [Log.remembered_undo, h, List.dropLast_reverse, List.map_tail]

/-- What the back of the queue records. -/
theorem Keeps.getLast? (h : Keeps record q l) : q.getLast? = l.remembered.head?.map record := by
  rw [h, List.getLast?_reverse, List.head?_map]

/-! ## Steps that are undone again -/

/-- Of the queue `q` the latest records are left, in `t`: all of them, or all but `n` of the `bound`
    latest. -/
def Leaves (bound n : Nat) (q t : List R) : Prop := t <:+ q ∧ min q.length (bound - n) ≤ t.length

variable {n : Nat} {t u : List R} {r : R}

theorem Leaves.refl (bound n : Nat) (q : List R) : Leaves bound n q q :=
  ⟨List.suffix_refl q, Nat.min_le_left _ _⟩

theorem Leaves.trans (h : Leaves bound n q t) (k : Leaves bound n t u) : Leaves bound n q u := by
  obtain ⟨hsuffix, hlength⟩ := h
  obtain ⟨ksuffix, klength⟩ := k
  exact ⟨ksuffix.trans hsuffix, by omega⟩

theorem pushBounded_ne_nil (bound : Nat) (r : R) (q : List R) : pushBounded bound r q ≠ [] := by
  unfold pushBounded
  simp

/-- **A step that is undone again.**  If steps in between leave what they may, the record of the step
    is at the back of the queue when it is undone, and one record more may be lost. -/
theorem Leaves.bracket (hn : n < bound) (h : Leaves bound n (pushBounded bound r q) t) :
    t.getLast? = some r ∧ Leaves bound (n + 1) q t.dropLast := by
  obtain ⟨hsuffix, hlength⟩ := h
  have hpos := List.length_pos_iff.mpr (pushBounded_ne_nil bound r q)
  -- what is pushed, and what is in front of it
  obtain ⟨front, hfront, hpush, hroom⟩ : ∃ front, front <:+ q ∧
      pushBounded bound r q = front ++ [r] ∧ min q.length (bound - 1) ≤ front.length := by
    unfold pushBounded
    split
    · exact ⟨q.tail, List.tail_suffix q, rfl, by rw [List.length_tail]; omega⟩
    · exact ⟨q, List.suffix_refl q, rfl, Nat.min_le_left _ _⟩
  have hne : t ≠ [] := by
    rintro rfl
    rw [List.length_nil] at hlength
    omega
  rw [hpush, List.length_append, List.length_singleton] at hlength
  rw [hpush] at hsuffix
  obtain ⟨init, last, rfl⟩ : ∃ init last, t = init ++ [last] :=
    ⟨t.dropLast, t.getLast hne, (List.dropLast_append_getLast hne).symm⟩
  obtain ⟨lost, hlost⟩ := hsuffix
  rw [← List.append_assoc] at hlost
  obtain ⟨hinit, hlast⟩ := List.append_inj' hlost rfl
  obtain rfl : last = r := (List.cons.inj hlast).1
  rw [List.length_append, List.length_singleton] at hlength
  refine ⟨List.getLast?_concat, ?_, ?_⟩
  · rw [List.dropLast_concat]
    exact List.IsSuffix.trans ⟨lost, hinit⟩ hfront
  · rw [List.dropLast_concat]
    omega

end Udap.Undo
