/-
  A MUTEX around an object that several threads call, and what it makes of their interleavings.

  A call is a list of actions on the object (`body`), all of them under the mutex: a thread locks
  it, takes the actions of its next call one after another, and unlocks it.  Between any two of
  these the other threads may be scheduled, and so a run is a list of `Act`s.

  * `Serial`     — the invariant: the object is as if the calls had been made one after another, in
                   the order in which they took the mutex, up to the action that its holder has come
                   to; and each thread has made the first of its calls, in its own order;
  * `run_serial` — every run keeps it.

  Nothing here mentions a program: the threads, the calls, the actions and the objects are any types.
-/
import Udap.Lib.Run

namespace Udap.Mutex

open Udap.Run

variable {T C A S : Type} [DecidableEq T]

/-- The object, the thread that holds the mutex with the actions it has still to take, the calls
    that each thread has still to make, and those that have been made, in the order in which they
    took the mutex. -/
structure Guarded (T C A S : Type) where
  object : S
  holder : Option (T × List A) := none
  todo : T → List C
  made : List (T × C) := []

/-- What a thread can do. -/
inductive Act (T : Type) where
  | lock (t : T)
  | act (t : T)
  | unlock (t : T)

/-- The calls of one thread among some calls. -/
def callsOf (t : T) (calls : List (T × C)) : List C :=
  (calls.filter fun x => x.1 = t).map Prod.snd

theorem callsOf_append (t : T) (a b : List (T × C)) :
    callsOf t (a ++ b) = callsOf t a ++ callsOf t b := by
  rw [callsOf, List.filter_append, List.map_append]
  rfl

variable (body : C → List A) (apply : A → S → S)

/-- One action of a thread: the mutex is locked only while it is free, and it is unlocked behind
    the last action of a call. -/
def step : Act T → Guarded T C A S → Option (Guarded T C A S)
  | .lock t, s =>
    match s.holder, s.todo t with
    | none, c :: cs =>
      some { s with holder := some (t, body c), todo := fun u => if u = t then cs else s.todo u,
                    made := s.made ++ [(t, c)] }
    | _, _ => none
  | .act t, s =>
    match s.holder with
    | some (u, a :: as) =>
      if u = t then some { s with object := apply a s.object, holder := some (u, as) } else none
    | _ => none
  | .unlock t, s =>
    match s.holder with
    | some (u, []) => if u = t then some { s with holder := none } else none
    | _ => none

/-- No call has been made. -/
def start (object : S) (calls : T → List C) : Guarded T C A S where
  object := object
  todo := calls

namespace Guarded

/-- The actions that the holder has still to take. -/
def pending (s : Guarded T C A S) : List A := (s.holder.map Prod.snd).getD []

end Guarded

/-- **One call after another.** -/
structure Serial (object : S) (calls : T → List C) (s : Guarded T C A S) : Prop where
  object : ∃ done, done ++ s.pending = s.made.flatMap (fun x => body x.2) ∧
    s.object = done.foldl (fun o a => apply a o) object
  order : ∀ t, callsOf t s.made ++ s.todo t = calls t

theorem start_serial (object : S) (calls : T → List C) :
    Serial body apply object calls (start object calls : Guarded T C A S) :=
  ⟨⟨[], rfl, rfl⟩, fun _ => rfl⟩

variable {body : C → List A} {apply : A → S → S} {object : S} {calls : T → List C}

/-- **The step lemma.** -/
theorem step_serial (a : Act T) (s t : Guarded T C A S) (hs : Serial body apply object calls s)
    (h : step body apply a s = some t) : Serial body apply object calls t := by
  obtain ⟨⟨done, hdone, hobject⟩, horder⟩ := hs
  cases a with
  | lock u =>
    simp only [step] at h
    split at h
    · rename_i c cs hholder htodo
      obtain rfl := Option.some.inj h
      refine ⟨⟨done, ?_, hobject⟩, fun v => ?_⟩
      · rw [Guarded.pending, hholder] at hdone
        rw [List.flatMap_append, ← hdone]
        simp only [Guarded.pending, Option.map_some, Option.map_none, Option.getD_some,
          Option.getD_none, List.append_nil, List.flatMap_cons, List.flatMap_nil]
      · have hv := horder v
        dsimp only
        rw [callsOf_append, List.append_assoc]
        -- the call is one of `u`, and no other thread has made any
        by_cases hvu : v = u
        · subst hvu
          rw [htodo] at hv
          rw [← hv, if_pos rfl]
          simp only [callsOf, List.filter_cons, decide_true, if_true, List.filter_nil, List.map_cons,
            List.map_nil, List.singleton_append]
        · have hnone : callsOf v [(u, c)] = [] := by
            rw [callsOf, List.filter_cons_of_neg (by simpa using fun heq => hvu heq.symm)]
            rfl
          rw [hnone, if_neg hvu, List.nil_append, hv]
    · cases h
  | act u =>
    simp only [step] at h
    split at h
    · rename_i v b bs hholder
      split at h
      · obtain rfl := Option.some.inj h
        refine ⟨⟨done ++ [b], ?_, ?_⟩, horder⟩
        · rw [Guarded.pending, hholder] at hdone
          rw [List.append_assoc]
          exact hdone
        · rw [List.foldl_append, ← hobject]
          rfl
      · cases h
    · cases h
  | unlock u =>
    simp only [step] at h
    split at h
    · rename_i v hholder
      split at h
      · obtain rfl := Option.some.inj h
        refine ⟨⟨done, ?_, hobject⟩, horder⟩
        rw [Guarded.pending, hholder] at hdone
        exact hdone
      · cases h
    · cases h

/-- **The run lemma.** -/
theorem run_serial {as : List (Act T)} {s : Guarded T C A S}
    (h : exec (step body apply) as (start object calls) = some s) :
    Serial body apply object calls s :=
  exec_inv step_serial as _ s (start_serial body apply object calls) h

/-- **While the mutex is free**, the calls that have been made have been made to their ends. -/
theorem Serial.free {s : Guarded T C A S} (hs : Serial body apply object calls s)
    (hfree : s.holder = none) :
    s.object = (s.made.flatMap fun x => body x.2).foldl (fun o a => apply a o) object := by
  obtain ⟨done, hdone, hobject⟩ := hs.object
  rw [Guarded.pending, hfree, Option.map_none, Option.getD_none, List.append_nil] at hdone
  rw [hobject, hdone]

end Udap.Mutex
