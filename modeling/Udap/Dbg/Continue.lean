/-
  CONTINUE AS A PROGRAM RUN — what does the emulation thread compute, and does it end when told to?

  The emulation thread executes instructions between tests of flags that the main thread sets.
  Whatever the two threads do in between, the machine is where the program alone would be.

  1. **Sequential** — the program alone is the iterates of `stepInstruction`; it is to stop at the
     first iterate that stands at a breakpoint or at a HALT (`Stops`).

  2. **Refinement** — `Traced`: the records of all threads, one behind the other, are the program
     alone, and the machine is its last state.  Without `pause` and `disconnect` every thread ends
     where the program first stops (`continue_runs_program`).

  3. **In time** — behind `pause` and `disconnect` every action of the thread takes it closer to its
     end (`Point.toPause`, `Point.toEnd`), so there are few of them (`pause_in_time`); and
     `disconnect` returns (`disconnect_returns`).
-/
import Udap.Dap.ClientView

set_option linter.unusedVariables false

namespace Udap.Emulation

open Udap Udap.Run

section
variable {M : Type} (Z : Machine M) (bp : UInt16 → Bool)

/-! ## The program alone -/

/-- What the record of a thread has of a machine. -/
def observe (m : M) : UInt16 × UInt8 := (Z.pc m, Z.peek m (Z.pc m))

/-- The program after `n` instructions. -/
def alone (m : M) (n : Nat) : M := Z.stepInstruction^[n] m

/-- Is the program to stop here? -/
def Stops (m : M) : Bool := bp (Z.pc m) || Z.peek m (Z.pc m) == 0x76

/-- All that was reached, thread after thread. -/
def Sys.reached (s : Sys M) : List (UInt16 × UInt8) := s.threads.flatMap Thread.reached

variable {Z bp}

theorem alone_succ (m : M) (n : Nat) : alone Z m (n + 1) = Z.stepInstruction (alone Z m n) :=
  Function.iterate_succ_apply' _ _ _

theorem stops_eq_false {m : M} : Stops Z bp m = false ↔ Passed bp (observe Z m) := by
  rw [Stops, Bool.or_eq_false_iff, beq_eq_false_iff_ne]
  rfl

/-! ## The records are the program alone -/

/-- **What one action of a thread does to the machine**: nothing, or one instruction that it
    records. -/
theorem threadStep_records {i : Nat} {t t' : Thread} {g g' : Shared M}
    (h : threadStep Z bp i t g = some (t', g')) :
    (t'.reached = t.reached ∧ g'.machine = g.machine) ∨
      (t'.reached = t.reached ++ [observe Z g'.machine] ∧
        g'.machine = Z.stepInstruction g.machine) := by
  unfold threadStep at h
  split at h
  case h_2 =>
    obtain ⟨rfl, rfl⟩ := Prod.mk.inj (Option.some.inj h)
    exact Or.inr ⟨rfl, rfl⟩
  case h_10 => cases h
  all_goals
    refine Or.inl ?_
    try split at h
  all_goals
    obtain ⟨rfl, rfl⟩ := Prod.mk.inj (Option.some.inj h)
    exact ⟨rfl, rfl⟩

/-- The machine and the records are those of the program alone, and the thread in the handle is the
    one that was started last. -/
structure Traced (Z : Machine M) (m : M) (s : Sys M) : Prop where
  machine : s.shared.machine = alone Z m s.reached.length
  reached : s.reached = (List.range s.reached.length).map fun k => observe Z (alone Z m (k + 1))
  handle : ∀ i, s.emulationThread = some i → i + 1 = s.threads.length

theorem start_traced (m : M) (launched : Bool) : Traced Z m (start m launched) :=
  ⟨rfl, rfl, by simp [start]⟩

/-- The last of the threads moves. -/
theorem set_last {ts : List Thread} {i : Nat} {t : Thread} (ht : ts[i]? = some t)
    (hlast : i + 1 = ts.length) (t' : Thread) :
    ∃ pre, ts = pre ++ [t] ∧ ts.set i t' = pre ++ [t'] := by
  rcases List.eq_nil_or_concat ts with rfl | ⟨pre, u, rfl⟩
  · cases ht
  · rw [List.concat_eq_append] at ht hlast ⊢
    rw [List.length_append, List.length_singleton] at hlast
    obtain rfl : i = pre.length := by omega
    rw [List.getElem?_append_right (Nat.le_refl _), Nat.sub_self] at ht
    obtain rfl : u = t := Option.some.inj ht
    refine ⟨pre, rfl, ?_⟩
    rw [List.set_append_right _ _ (Nat.le_refl _), Nat.sub_self]
    rfl

/-- A thread that was just started has reached nothing. -/
theorem reached_spawn {s u : Sys M} (h : u.threads = s.threads ++ [Thread.fresh]) :
    u.reached = s.reached := by
  rw [Sys.reached, h, List.flatMap_append]
  exact List.append_nil _

/-- A step of the main thread starts a thread with an empty record, or none. -/
theorem mainStep_traced {m : M} {s t : Sys M} (hs : Traced Z m s) (h : mainStep s = some t) :
    Traced Z m t := by
  have hframe : ∀ {u : Sys M}, u.threads = s.threads → u.shared.machine = s.shared.machine →
      (∀ i, u.emulationThread = some i → s.emulationThread = some i) → Traced Z m u := by
    intro u hthreads hmachine hhandle
    have hreached : u.reached = s.reached := by rw [Sys.reached, hthreads, Sys.reached]
    refine ⟨?_, ?_, fun i hi => ?_⟩
    · rw [hmachine, hreached, hs.machine]
    · rw [hreached]
      exact hs.reached
    · rw [hthreads]
      exact hs.handle i (hhandle i hi)
  have hjoin : ∀ {next : Main}, joinStep next s = some t → Traced Z m t := by
    intro next h
    obtain ⟨hthreads, hshared, -⟩ := joinStep_frame h
    refine hframe hthreads (by rw [hshared]) fun i hi => ?_
    unfold joinStep at h
    split at h
    · rename_i hnone
      rw [← Option.some.inj h] at hi
      exact hi
    · split at h
      · cases h
      · split at h
        · cases h
        · rw [← Option.some.inj h] at hi
          cases hi
  unfold mainStep at h
  split at h
  · cases h
  · split at h
    all_goals
      obtain rfl := Option.some.inj h
      exact hframe rfl rfl fun i hi => hi
  · exact hjoin h
  · obtain rfl := Option.some.inj h
    refine ⟨?_, ?_, fun i hi => ?_⟩
    · rw [reached_spawn rfl]
      exact hs.machine
    · rw [reached_spawn rfl]
      exact hs.reached
    · obtain rfl := Option.some.inj hi
      show s.threads.length + 1 = (s.threads ++ [Thread.fresh]).length
      rw [List.length_append, List.length_singleton]
  · obtain rfl := Option.some.inj h
    exact hframe rfl rfl fun i hi => hi
  · exact hjoin h
  · obtain rfl := Option.some.inj h
    exact hframe rfl rfl fun i hi => hi

/-- **One action of any thread** keeps the records the program alone. -/
theorem step_traced {m : M} {a : Act} {s t : Sys M} (hinv : Inv Z bp s) (hs : Traced Z m s)
    (h : step Z bp a s = some t) : Traced Z m t := by
  rcases step_cases h with ⟨c, rfl, -, rfl⟩ | ⟨-, hmain⟩ | ⟨i, u, u', g, -, hu, hstep, rfl⟩
  · cases c with
    | resume | pause | disconnect => exact ⟨hs.machine, hs.reached, hs.handle⟩
  · exact mainStep_traced hs hmain
  · -- only the last thread is live, so its record is the end of all
    have hlast := hs.handle i (hinv.live i u hu (live_of_threadStep hstep))
    obtain ⟨pre, hpre, hset⟩ := set_last hu hlast u'
    have hold : s.reached = pre.flatMap Thread.reached ++ u.reached := by
      rw [Sys.reached, hpre, List.flatMap_append, List.flatMap_singleton]
    have hnew : Sys.reached { s with shared := g, threads := s.threads.set i u' }
        = pre.flatMap Thread.reached ++ u'.reached := by
      rw [Sys.reached]
      dsimp only
      rw [hset, List.flatMap_append, List.flatMap_singleton]
    have hhandle : ∀ j, s.emulationThread = some j → j + 1 = (s.threads.set i u').length := by
      intro j hj
      rw [List.length_set]
      exact hs.handle j hj
    rcases threadStep_records hstep with ⟨hsame, hmachine⟩ | ⟨hmore, hmachine⟩
    · have heq : Sys.reached { s with shared := g, threads := s.threads.set i u' } = s.reached := by
        rw [hnew, hsame, hold]
      refine ⟨?_, ?_, hhandle⟩
      · rw [heq]
        exact hmachine.trans hs.machine
      · rw [heq]
        exact hs.reached
    · have heq : Sys.reached { s with shared := g, threads := s.threads.set i u' }
          = s.reached ++ [observe Z g.machine] := by
        rw [hnew, hmore, hold, List.append_assoc]
      have hnext : g.machine = alone Z m (s.reached.length + 1) := by
        rw [hmachine, hs.machine, alone_succ]
      refine ⟨?_, ?_, hhandle⟩
      · rw [heq, List.length_append, List.length_singleton]
        exact hnext
      · rw [heq, List.length_append, List.length_singleton, List.range_succ, List.map_append,
          List.map_singleton, ← hs.reached, ← hnext]

/-- **The run lemma.** -/
theorem run_traced {m : M} {launched : Bool} {acts : List Act} {s : Sys M}
    (h : exec (step Z bp) acts (start m launched) = some s) : Inv Z bp s ∧ Traced Z m s :=
  exec_inv (I := fun u => Inv Z bp u ∧ Traced Z m u)
    (fun a u v hu hstep => ⟨step_inv a u v hu.1 hstep, step_traced hu.1 hu.2 hstep⟩)
    acts _ s ⟨start_inv m launched, start_traced m launched⟩ h

/-! ## Runs in which nobody interferes -/

/-- A thread behind its loop has reached a place to stop, and says which kind; it never takes back a
    request to pause, since there is none. -/
structure Thread.Ended (bp : UInt16 → Bool) (t : Thread) : Prop where
  unpaused : t.point ≠ .clearPause
  stopped : t.point.AfterLoop → ∃ x, t.reached.getLast? = some x ∧ ¬ Passed bp x ∧
    (t.hitBreakpoint = true ↔ bp x.1 = true)

/-- Nobody has paused or ended the program: the running flag is set while a thread is looping, and
    where the main thread starts one no other is. -/
structure Undisturbed (bp : UInt16 → Bool) (s : Sys M) : Prop where
  launched : s.shared.launched = true
  noPause : s.shared.pauseRequested = false
  noStop : s.main ≠ .storeRunning
  running : ∀ (i : Nat) t, s.threads[i]? = some t → t.Looping → s.shared.running = true
  starting : s.main = .join ∨ s.main = .spawn →
    s.shared.running = true ∧ ∀ (i : Nat) t, s.threads[i]? = some t → ¬ t.Looping
  ended : ∀ (i : Nat) t, s.threads[i]? = some t → t.Ended bp

theorem start_undisturbed (m : M) : Undisturbed bp (start m true) := by
  refine ⟨rfl, rfl, by simp [start], fun i t h => ?_, by simp [start], fun i t h => ?_⟩ <;>
    simp [start] at h

/-- **One action of a thread that nobody disturbs**: it leaves its loop only where the program is to
    stop. -/
theorem threadStep_ended {i : Nat} {t t' : Thread} {g g' : Shared M}
    (hok : ThreadOk Z bp g.machine t) (hended : t.Ended bp) (hlaunched : g.launched = true)
    (hpause : g.pauseRequested = false) (hrunning : t.Looping → g.running = true)
    (h : threadStep Z bp i t g = some (t', g')) :
    t'.Ended bp ∧ g'.launched = true ∧ g'.pauseRequested = false ∧
      (t'.Looping → g'.running = true) ∧ (t.Looping ∨ (g'.running = g.running ∧ ¬ t'.Looping)) := by
  have hnohit : ¬ t.point.AfterLoop → t.hitBreakpoint = false := fun hp =>
    Bool.eq_false_iff.mpr fun hh => hp (hok.hit hh).1
  unfold threadStep at h
  split at h
  case h_1 hp =>
    have hloop : t.Looping := by simp [Thread.Looping, hp]
    rw [if_pos (hrunning hloop)] at h
    obtain ⟨rfl, rfl⟩ := Prod.mk.inj (Option.some.inj h)
    exact ⟨⟨by simp, fun ha => ha.elim⟩, hlaunched, hpause, fun _ => hrunning hloop, Or.inl hloop⟩
  case h_2 hp =>
    have hloop : t.Looping := by simp [Thread.Looping, hp]
    obtain ⟨rfl, rfl⟩ := Prod.mk.inj (Option.some.inj h)
    exact ⟨⟨by simp, fun ha => ha.elim⟩, hlaunched, hpause, fun _ => hrunning hloop, Or.inl hloop⟩
  case h_3 hp =>
    have hloop : t.Looping := by simp [Thread.Looping, hp]
    rw [if_pos hlaunched] at h
    obtain ⟨rfl, rfl⟩ := Prod.mk.inj (Option.some.inj h)
    exact ⟨⟨by simp, fun ha => ha.elim⟩, hlaunched, hpause, fun _ => hrunning hloop, Or.inl hloop⟩
  case h_4 hp =>
    have hloop : t.Looping := by simp [Thread.Looping, hp]
    have hhere := hok.here (by simp [hp, Point.AfterStep])
    split at h
    · rename_i hbp
      obtain ⟨rfl, rfl⟩ := Prod.mk.inj (Option.some.inj h)
      refine ⟨⟨by simp, fun _ => ⟨_, hhere, fun hpass => ?_, ?_⟩⟩, hlaunched, hpause,
        fun _ => hrunning hloop, Or.inl hloop⟩
      · rw [hpass.1] at hbp
        cases hbp
      · exact iff_of_true rfl hbp
    · obtain ⟨rfl, rfl⟩ := Prod.mk.inj (Option.some.inj h)
      exact ⟨⟨by simp, fun ha => ha.elim⟩, hlaunched, hpause, fun _ => hrunning hloop, Or.inl hloop⟩
  case h_5 hp =>
    have hloop : t.Looping := by simp [Thread.Looping, hp]
    rw [if_neg (by rw [hpause]; exact Bool.false_ne_true)] at h
    obtain ⟨rfl, rfl⟩ := Prod.mk.inj (Option.some.inj h)
    exact ⟨⟨by simp, fun ha => ha.elim⟩, hlaunched, hpause, fun _ => hrunning hloop, Or.inl hloop⟩
  case h_6 hp => exact absurd hp hended.unpaused
  case h_7 hp =>
    have hloop : t.Looping := by simp [Thread.Looping, hp]
    split at h
    · rename_i hhalt
      obtain ⟨rfl, rfl⟩ := Prod.mk.inj (Option.some.inj h)
      have hhere := hok.here (by simp [hp, Point.AfterStep])
      have hno := hok.untouched (by simp [hp, Point.AfterTest])
      refine ⟨⟨by simp, fun _ => ⟨_, hhere, fun hpass => hpass.2 hhalt, ?_⟩⟩, hlaunched, hpause,
        fun _ => hrunning hloop, Or.inl hloop⟩
      show t.hitBreakpoint = true ↔ bp (Z.pc g.machine) = true
      rw [hnohit (by simp [hp, Point.AfterLoop]), hno]
    · obtain ⟨rfl, rfl⟩ := Prod.mk.inj (Option.some.inj h)
      exact ⟨⟨by simp, fun ha => ha.elim⟩, hlaunched, hpause, fun _ => hrunning hloop, Or.inl hloop⟩
  case h_8 hp =>
    have hloop : t.Looping := by simp [Thread.Looping, hp]
    obtain ⟨rfl, rfl⟩ := Prod.mk.inj (Option.some.inj h)
    exact ⟨⟨by simp, fun _ => hended.stopped (by simp [hp, Point.AfterLoop])⟩, hlaunched, hpause,
      fun hl => absurd rfl hl.1, Or.inl hloop⟩
  case h_9 hp =>
    obtain ⟨rfl, rfl⟩ := Prod.mk.inj (Option.some.inj h)
    exact ⟨⟨by simp, fun _ => hended.stopped (by simp [hp, Point.AfterLoop])⟩, hlaunched, hpause,
      fun hl => absurd rfl hl.2, Or.inr ⟨rfl, fun hl => hl.2 rfl⟩⟩
  case h_10 => cases h

theorem Undisturbed.of_main {s t : Sys M} (hs : Undisturbed bp s) (hthreads : t.threads = s.threads)
    (hshared : t.shared.launched = s.shared.launched ∧ t.shared.running = s.shared.running ∧
      t.shared.pauseRequested = s.shared.pauseRequested)
    (hmain : t.main ≠ .storeRunning)
    (hstart : t.main = .join ∨ t.main = .spawn → s.main = .join ∨ s.main = .spawn) :
    Undisturbed bp t := by
  obtain ⟨hlaunched, hrunning, hpause⟩ := hshared
  refine ⟨hlaunched.trans hs.launched, hpause.trans hs.noPause, hmain, ?_, ?_, ?_⟩
  · rw [hthreads, hrunning]
    exact hs.running
  · rw [hthreads, hrunning]
    exact fun h => hs.starting (hstart h)
  · rw [hthreads]
    exact hs.ended

/-- **The main thread** goes on without disturbing. -/
theorem mainStep_undisturbed {s t : Sys M} (hs : Undisturbed bp s) (h : mainStep s = some t) :
    Undisturbed bp t := by
  unfold mainStep at h
  split at h
  · cases h
  · rename_i hmain
    split at h
    · obtain rfl := Option.some.inj h
      exact hs.of_main rfl ⟨rfl, rfl, rfl⟩ (by simp) (by simp)
    · -- the flag was not set, so no thread was looping
      rename_i hoff
      obtain rfl := Option.some.inj h
      have hnone : ∀ (i : Nat) u, s.threads[i]? = some u → ¬ u.Looping := fun i u hu hl =>
        hoff (hs.running i u hu hl)
      exact ⟨hs.launched, hs.noPause, by simp, fun i u hu hl => absurd hl (hnone i u hu),
        fun _ => ⟨rfl, hnone⟩, hs.ended⟩
  · rename_i hmain
    obtain ⟨hthreads, hshared, hnext⟩ := joinStep_frame h
    exact hs.of_main hthreads (by rw [hshared]; exact ⟨rfl, rfl, rfl⟩) (by rw [hnext]; simp)
      fun _ => Or.inl hmain
  · rename_i hmain
    obtain rfl := Option.some.inj h
    obtain ⟨hrunning, -⟩ := hs.starting (Or.inr hmain)
    refine ⟨hs.launched, hs.noPause, by simp, fun i u hu hl => hrunning, by simp, fun i u hu => ?_⟩
    rw [List.getElem?_append] at hu
    split at hu
    · exact hs.ended i u hu
    · obtain rfl : u = Thread.fresh := List.mem_singleton.mp (List.mem_of_getElem? hu)
      exact ⟨by simp [Thread.fresh], fun ha => ha.elim⟩
  · rename_i hmain
    exact absurd hmain hs.noStop
  · obtain ⟨hthreads, hshared, hnext⟩ := joinStep_frame h
    exact hs.of_main hthreads (by rw [hshared]; exact ⟨rfl, rfl, rfl⟩) (by rw [hnext]; simp)
      (by rw [hnext]; simp)
  · obtain rfl := Option.some.inj h
    exact hs.of_main rfl ⟨rfl, rfl, rfl⟩ (by simp) (by simp)

/-- The calls that interfere with a program. -/
def Act.interferes : Act → Bool
  | .call .pause => true
  | .call .disconnect => true
  | _ => false

/-- **One action without interference.** -/
theorem step_undisturbed {a : Act} {s t : Sys M} (hinv : Inv Z bp s) (hs : Undisturbed bp s)
    (ha : a.interferes = false) (h : step Z bp a s = some t) : Undisturbed bp t := by
  rcases step_cases h with ⟨c, rfl, hidle, rfl⟩ | ⟨-, hmain⟩ | ⟨i, u, u', g, -, hu, hstep, rfl⟩
  · cases c with
    | resume =>
      exact ⟨hs.launched, rfl, by simp [callStep], hs.running, by simp [callStep], hs.ended⟩
    | pause | disconnect => cases ha
  · exact mainStep_undisturbed hs hmain
  · have hlive : u.Live := live_of_threadStep hstep
    obtain ⟨hended, hlaunched, hpause, hloop, hflag⟩ := threadStep_ended (hinv.record i u hu)
      (hs.ended i u hu) hs.launched hs.noPause (hs.running i u hu) hstep
    -- the other threads have returned
    have hothers : ∀ j v, j ≠ i → s.threads[j]? = some v → ¬ v.Looping := fun j v hj hv hl =>
      hj (hinv.unique hv hu hl.2 hlive)
    refine ⟨hlaunched, hpause, hs.noStop, fun j v hv hl => ?_, fun hm => ?_, fun j v hv => ?_⟩
    · rcases get_set_cases hv with ⟨rfl, rfl⟩ | ⟨hj, hv⟩
      · exact hloop hl
      · exact absurd hl (hothers j v hj hv)
    · obtain ⟨hrunning, hnone⟩ := hs.starting hm
      obtain ⟨hsame, hnot⟩ := hflag.resolve_left (hnone i u hu)
      refine ⟨hsame.trans hrunning, fun j v hv => ?_⟩
      rcases get_set_cases hv with ⟨rfl, rfl⟩ | ⟨hj, hv⟩
      · exact hnot
      · exact hothers j v hj hv
    · rcases get_set_cases hv with ⟨rfl, rfl⟩ | ⟨-, hv⟩
      · exact hended
      · exact hs.ended j v hv

theorem run_undisturbed {m : M} {acts : List Act} {s : Sys M}
    (hacts : ∀ a ∈ acts, a.interferes = false)
    (h : exec (step Z bp) acts (start m true) = some s) : Undisturbed bp s :=
  (exec_inv_along (I := fun u => Inv Z bp u ∧ Undisturbed bp u)
    (C := fun a _ => a.interferes = false)
    (fun a u v hu ha hstep => ⟨step_inv a u v hu.1 hstep, step_undisturbed hu.1 hu.2 ha hstep⟩)
    acts _ s ⟨start_inv m true, start_undisturbed m⟩ (along_of_forall hacts) h).2

/-- What is recorded of one thread is a stretch of the program alone. -/
theorem Traced.stretch {m : M} {s : Sys M} (hs : Traced Z m s) {pre post : List Thread} {t : Thread}
    (hsplit : s.threads = pre ++ t :: post) {k : Nat} (hk : k < t.reached.length) :
    t.reached[k]? = some (observe Z (alone Z m ((pre.flatMap Thread.reached).length + k + 1))) := by
  have hall : s.reached = pre.flatMap Thread.reached ++ (t.reached ++ post.flatMap Thread.reached) := by
    rw [Sys.reached, hsplit, List.flatMap_append, List.flatMap_cons]
  have hget : s.reached[(pre.flatMap Thread.reached).length + k]? = t.reached[k]? := by
    rw [hall, List.getElem?_append_right (Nat.le_add_right _ _), Nat.add_sub_cancel_left,
      List.getElem?_append_left hk]
  have hlt : (pre.flatMap Thread.reached).length + k < s.reached.length := by
    rw [hall, List.length_append, List.length_append]
    omega
  rw [← hget, hs.reached, List.getElem?_map, List.getElem?_range hlt]
  rfl

/-- **Continue runs the program.**  In every state of every interleaving the machine is where the
    program alone is after as many instructions, and it has been where the program alone has been.
    Without `pause` and `disconnect` every thread that has returned went on from where the one before
    it stopped, to the first place where the program is to stop, and its event says `breakpoint`
    exactly if this is one. -/
theorem continue_runs_program {m : M} {launched : Bool} {acts : List Act} {s : Sys M}
    (hrun : exec (step Z bp) acts (start m launched) = some s) :
    s.shared.machine = alone Z m s.reached.length ∧
    s.reached = (List.range s.reached.length).map (fun k => observe Z (alone Z m (k + 1))) ∧
    (launched = true → (∀ a ∈ acts, a.interferes = false) →
      ∀ pre t post, s.threads = pre ++ t :: post → ¬ t.Live →
        ∃ n, t.reached.length = n + 1 ∧
          (∀ k < n,
            Stops Z bp (alone Z m ((pre.flatMap Thread.reached).length + k + 1)) = false) ∧
          Stops Z bp (alone Z m ((pre.flatMap Thread.reached).length + n + 1)) = true ∧
          (t.reason = .breakpoint ↔
            bp (Z.pc (alone Z m ((pre.flatMap Thread.reached).length + n + 1))) = true)) := by
  obtain ⟨hinv, htraced⟩ := run_traced hrun
  refine ⟨htraced.machine, htraced.reached, ?_⟩
  rintro rfl hacts pre t post hsplit hdead
  have ht : s.threads[pre.length]? = some t := by
    rw [hsplit, List.getElem?_append_right (Nat.le_refl _), Nat.sub_self]
    rfl
  have hpoint : t.point = .done := Decidable.not_not.mp hdead
  obtain ⟨x, hlast, hstop, hhit⟩ :=
    ((run_undisturbed hacts hrun).ended pre.length t ht).stopped (by rw [hpoint]; trivial)
  have hne : t.reached ≠ [] := by
    rintro hnil
    rw [hnil] at hlast
    cases hlast
  obtain ⟨n, hn⟩ : ∃ n, t.reached.length = n + 1 :=
    ⟨t.reached.length - 1, by have := List.length_pos_iff.mpr hne; omega⟩
  have hend := htraced.stretch hsplit (show n < t.reached.length by omega)
  rw [List.getLast?_eq_getElem?, hn, Nat.add_sub_cancel, hend] at hlast
  obtain rfl := Option.some.inj hlast
  refine ⟨n, hn, fun k hk => ?_, ?_, ?_⟩
  · -- all but the last were passed
    rw [stops_eq_false]
    refine (hinv.record pre.length t ht).earlier _ ?_
    refine List.mem_of_getElem? (i := k) ?_
    rw [List.getElem?_dropLast, if_pos (by omega)]
    exact htraced.stretch hsplit (show k < t.reached.length by omega)
  · rw [← Bool.not_eq_false, stops_eq_false]
    exact hstop
  · refine Iff.trans ?_ hhit
    rw [Thread.reason]
    cases t.hitBreakpoint with
    | true => exact iff_of_true rfl rfl
    | false => exact iff_of_false (by simp) (by simp)

/-! ## In time -/

/-- How many actions a thread takes at most from a point to its end when a pause is requested. -/
def Point.toPause : Point → Nat
  | .testHalt => 9
  | .loopTest => 8
  | .stepping => 7
  | .testLaunched => 6
  | .testBreakpoint => 5
  | .testPause => 4
  | .clearPause => 3
  | .storeRunning => 2
  | .sendEvent => 1
  | .done => 0

/-- How many when the program is ended. -/
def Point.toEnd : Point → Nat
  | .testBreakpoint => 8
  | .testPause => 7
  | .testHalt => 6
  | .loopTest => 5
  | .stepping => 4
  | .testLaunched => 3
  | .clearPause => 3
  | .storeRunning => 2
  | .sendEvent => 1
  | .done => 0

theorem toPause_le (p : Point) : p.toPause ≤ 9 := by
  cases p <;> decide

theorem toEnd_le (p : Point) : p.toEnd ≤ 8 := by
  cases p <;> decide

/-- A thread that is asked to pause comes closer to its end with every action. -/
theorem threadStep_toPause {i : Nat} {t t' : Thread} {g g' : Shared M}
    (hp : g.pauseRequested = true ∨ t.Leaving) (h : threadStep Z bp i t g = some (t', g')) :
    t'.point.toPause < t.point.toPause := by
  unfold threadStep at h
  split at h
  case h_5 hpt =>
    have hreq : g.pauseRequested = true := hp.resolve_right (by simp [Thread.Leaving, hpt])
    rw [if_pos hreq] at h
    obtain ⟨rfl, rfl⟩ := Prod.mk.inj (Option.some.inj h)
    simp [hpt, Point.toPause]
  case h_10 => cases h
  all_goals
    rename_i hpt
    try split at h
  all_goals
    obtain ⟨rfl, rfl⟩ := Prod.mk.inj (Option.some.inj h)
    simp [hpt, Point.toPause]

/-- A thread of a program that was ended does so, too. -/
theorem threadStep_toEnd {i : Nat} {t t' : Thread} {g g' : Shared M} (hended : g.launched = false)
    (h : threadStep Z bp i t g = some (t', g')) :
    t'.point.toEnd < t.point.toEnd ∧ g'.launched = false := by
  unfold threadStep at h
  split at h
  case h_3 hpt =>
    rw [if_neg (by rw [hended]; exact Bool.false_ne_true)] at h
    obtain ⟨rfl, rfl⟩ := Prod.mk.inj (Option.some.inj h)
    exact ⟨by simp [hpt, Point.toEnd], hended⟩
  case h_10 => cases h
  all_goals
    rename_i hpt
    try split at h
  all_goals
    obtain ⟨rfl, rfl⟩ := Prod.mk.inj (Option.some.inj h)
    exact ⟨by simp [hpt, Point.toEnd], hended⟩

/-- An action of an emulation thread. -/
def Act.isEmu : Act → Bool
  | .emu _ => true
  | _ => false

/-- **A pause is in time**: behind it, and without a later `resume`, the emulation threads take at
    most nine actions more, in every interleaving. -/
theorem pause_in_time {m : M} {launched : Bool} {acts : List Act} {s s₁ s₂ : Sys M}
    (hrun : exec (step Z bp) acts (start m launched) = some s)
    (hpause : step Z bp (.call .pause) s = some s₁) {later : List Act}
    (hno : Act.call .resume ∉ later) (hlater : exec (step Z bp) later s₁ = some s₂) :
    later.countP Act.isEmu ≤ 9 := by
  have hinv : Inv Z bp s := run_inv hrun
  have hcall : s₁ = callStep .pause s := by
    simp only [step] at hpause
    split at hpause
    · exact (Option.some.inj hpause).symm
    · cases hpause
  subst hcall
  -- what a live thread still may do, and what was done, are nine at most
  have hcount : ∀ (later : List Act) (k : Nat) (u v : Sys M), k ≤ 9 →
      Pausing Z bp (s.shared.started + 1) u →
      (∀ (i : Nat) t, u.threads[i]? = some t → t.Live → t.point.toPause + k ≤ 9) →
      Act.call .resume ∉ later → exec (step Z bp) later u = some v →
      later.countP Act.isEmu + k ≤ 9 := by
    intro later
    induction later with
    | nil =>
      intro k u v hk _ _ _ _
      rw [List.countP_nil, Nat.zero_add]
      exact hk
    | cons a later ih =>
      intro k u v hk hu hleft hno hrun
      obtain ⟨w, hw, hrest⟩ := exec_cons_eq_some.mp hrun
      have ha : a ≠ .call .resume := fun heq => hno (heq ▸ List.mem_cons_self)
      have hmore : Act.call .resume ∉ later := fun hmem => hno (List.mem_cons_of_mem a hmem)
      have hpausing := step_pausing a u w hu ha hw
      rcases step_cases hw with ⟨c, rfl, -, rfl⟩ | ⟨rfl, hmain⟩ | ⟨i, t, t', g, rfl, ht, hstep, rfl⟩
      · rw [List.countP_cons_of_neg (by simp [Act.isEmu])]
        refine ih k _ v hk hpausing ?_ hmore hrest
        cases c with
        | resume => exact absurd rfl ha
        | pause | disconnect => exact hleft
      · rw [List.countP_cons_of_neg (by simp [Act.isEmu])]
        refine ih k _ v hk hpausing ?_ hmore hrest
        obtain ⟨hthreads, -⟩ := mainStep_quiet hu.inv hu.notResuming hmain
        rw [hthreads]
        exact hleft
      · have hlive := live_of_threadStep hstep
        have hless := threadStep_toPause (hu.thread i t ht hlive).1 hstep
        have hbound := hleft i t ht hlive
        rw [List.countP_cons_of_pos (by rfl)]
        have hrec := ih (k + 1) _ v (by omega) hpausing (fun j x hx hxl => ?_) hmore hrest
        · omega
        · rcases get_set_cases hx with ⟨rfl, rfl⟩ | ⟨hj, hx⟩
          · omega
          · exact absurd (hu.inv.unique hx ht hxl hlive) hj
  have hfirst := hcount later 0 _ s₂ (Nat.zero_le 9) (pausing_of_call hinv)
    (fun i t _ _ => toPause_le t.point) hno hlater
  omega

/-- A live thread can always go on. -/
theorem threadStep_isSome {t : Thread} (ht : t.Live) (i : Nat) (g : Shared M) :
    (threadStep Z bp i t g).isSome = true := by
  unfold threadStep
  split
  case h_10 hpt => exact absurd hpt ht
  all_goals
    try split
  all_goals rfl

/-- How many actions of the main thread `disconnect` still takes, with its response. -/
def Main.toIdle : Main → Nat
  | .storeRunning => 3
  | .joinStop => 2
  | .respond _ => 1
  | _ => 0

/-- `disconnect` is under way: once it has joined the thread none is live, and once its response is
    written this is the last message. -/
structure Ending (Z : Machine M) (bp : UInt16 → Bool) (m : M) (s : Sys M) : Prop where
  inv : Inv Z bp s
  traced : Traced Z m s
  ended : s.shared.launched = false
  main : s.main = .storeRunning ∨ s.main = .joinStop ∨ (s.main = .respond .disconnect ∧ s.NoneLive) ∨
    (s.main = .idle ∧ s.NoneLive ∧ s.shared.wire.getLast? = some (.response .disconnect))

/-- **One action while `disconnect` is under way**: the main thread is closer to its response, or a
    thread to its end. -/
theorem step_ending {m : M} {a : Act} {s t : Sys M} (hs : Ending Z bp m s)
    (ha : ∀ c, a ≠ .call c) (h : step Z bp a s = some t) :
    Ending Z bp m t ∧
      ((a.isEmu = false ∧ t.threads = s.threads ∧ t.main.toIdle < s.main.toIdle) ∨
        (t.main = s.main ∧ ∃ i u u', s.threads[i]? = some u ∧ u.Live ∧
          t.threads = s.threads.set i u' ∧ u'.point.toEnd < u.point.toEnd)) := by
  have hinv := step_inv a s t hs.inv h
  have htraced := step_traced hs.inv hs.traced h
  rcases step_cases h with ⟨c, rfl, -, -⟩ | ⟨rfl, hmain⟩ | ⟨i, u, u', g, rfl, hu, hstep, rfl⟩
  · exact absurd rfl (ha c)
  · have hended := hs.ended
    rcases hs.main with hm | hm | ⟨hm, hnone⟩ | ⟨hm, -⟩ <;> rw [mainStep, hm] at hmain
    · obtain rfl := Option.some.inj hmain
      exact ⟨⟨hinv, htraced, hended, Or.inr (Or.inl rfl)⟩, Or.inl ⟨rfl, rfl, by simp [hm, Main.toIdle]⟩⟩
    · obtain ⟨heq, hnone⟩ := joinStep_eq hs.inv hmain
      rw [heq] at hinv htraced ⊢
      exact ⟨⟨hinv, htraced, hended, Or.inr (Or.inr (Or.inl ⟨rfl, hnone⟩))⟩,
        Or.inl ⟨rfl, rfl, by simp [hm, Main.toIdle]⟩⟩
    · obtain rfl := Option.some.inj hmain
      exact ⟨⟨hinv, htraced, hended, Or.inr (Or.inr (Or.inr ⟨rfl, hnone, List.getLast?_concat⟩))⟩,
        Or.inl ⟨rfl, rfl, by simp [hm, Main.toIdle]⟩⟩
    · cases hmain
  · have hlive : u.Live := live_of_threadStep hstep
    obtain ⟨hless, hended⟩ := threadStep_toEnd hs.ended hstep
    refine ⟨⟨hinv, htraced, hended, ?_⟩, Or.inr ⟨rfl, i, u, u', hu, hlive, rfl, hless⟩⟩
    -- a thread still moves, so it was not joined yet
    rcases hs.main with hm | hm | ⟨-, hnone⟩ | ⟨-, hnone, -⟩
    · exact Or.inl hm
    · exact Or.inr (Or.inl hm)
    · exact absurd hlive (hnone i u hu)
    · exact absurd hlive (hnone i u hu)

/-- **Disconnect returns.**  Behind it, and without another call, the two threads take at most eleven
    actions together, in every interleaving; and where neither can go on, the response to
    `disconnect` is the last message and no emulation thread is live. -/
theorem disconnect_returns {m : M} {launched : Bool} {acts : List Act} {s s₁ s₂ : Sys M}
    (hrun : exec (step Z bp) acts (start m launched) = some s)
    (hcall : step Z bp (.call .disconnect) s = some s₁) {later : List Act}
    (hno : ∀ a ∈ later, ∀ c, a ≠ .call c) (hlater : exec (step Z bp) later s₁ = some s₂) :
    later.length ≤ 11 ∧
      ((∀ a, (∀ c, a ≠ .call c) → step Z bp a s₂ = none) →
        s₂.main = .idle ∧ s₂.NoneLive ∧
          s₂.shared.wire.getLast? = some (.response .disconnect)) := by
  obtain ⟨hinv, htraced⟩ := run_traced hrun
  have hstart : Ending Z bp m s₁ := by
    refine ⟨step_inv _ s s₁ hinv hcall, step_traced hinv htraced hcall, ?_, Or.inl ?_⟩
    all_goals
      simp only [step] at hcall
      split at hcall
      · rw [← Option.some.inj hcall]
        rfl
      · cases hcall
  -- what either thread still may do, and what was done, are eleven at most
  have hcount : ∀ (later : List Act) (k j : Nat) (u v : Sys M), k ≤ 8 →
      Ending Z bp m u → (∀ (i : Nat) t, u.threads[i]? = some t → t.Live → t.point.toEnd + k ≤ 8) →
      u.main.toIdle + j ≤ 3 → (∀ a ∈ later, ∀ c, a ≠ .call c) →
      exec (step Z bp) later u = some v → Ending Z bp m v ∧ later.length + k + j ≤ 11 := by
    intro later
    induction later with
    | nil =>
      intro k j u v hk hu _ hj _ hrun
      obtain rfl : u = v := Option.some.inj hrun
      refine ⟨hu, ?_⟩
      rw [List.length_nil]
      omega
    | cons a later ih =>
      intro k j u v hk hu hleft hj hno hrun
      obtain ⟨w, hw, hrest⟩ := exec_cons_eq_some.mp hrun
      obtain ⟨ha, hmore⟩ := List.forall_mem_cons.mp hno
      obtain ⟨hending, ⟨-, hthreads, hless⟩ | ⟨hmain, i, t, t', ht, hlive, hthreads, hless⟩⟩ :=
        step_ending hu ha hw
      · obtain ⟨hv, hle⟩ := ih k (j + 1) w v hk hending (by rw [hthreads]; exact hleft) (by omega)
          hmore hrest
        refine ⟨hv, ?_⟩
        rw [List.length_cons]
        omega
      · have hbound := hleft i t ht hlive
        have hkept : ∀ (n : Nat) x, w.threads[n]? = some x → x.Live →
            x.point.toEnd + (k + 1) ≤ 8 := by
          intro n x hx hxl
          rw [hthreads] at hx
          rcases get_set_cases hx with ⟨rfl, rfl⟩ | ⟨hn, hx⟩
          · omega
          · exact absurd (hu.inv.unique hx ht hxl hlive) hn
        obtain ⟨hv, hle⟩ := ih (k + 1) j w v (by omega) hending hkept (by rw [hmain]; exact hj) hmore
          hrest
        refine ⟨hv, ?_⟩
        rw [List.length_cons]
        omega
  have hfirst : s₁.main.toIdle + 0 ≤ 3 := by
    rcases hstart.main with hm | hm | ⟨hm, -⟩ | ⟨hm, -⟩ <;>
      simp [hm, Main.toIdle]
  obtain ⟨hend, hlength⟩ := hcount later 0 0 s₁ s₂ (Nat.zero_le 8) hstart
    (fun i t _ _ => toEnd_le t.point) hfirst hno hlater
  refine ⟨by omega, fun hstuck => ?_⟩
  -- a live thread could go on, and without one so could the main thread, but for the end
  have hnone : s₂.NoneLive := by
    intro i t ht hlive
    have hsome : (threadStep Z bp i t s₂.shared).isSome = true :=
      threadStep_isSome hlive i s₂.shared
    obtain ⟨r, hr⟩ := Option.isSome_iff_exists.mp hsome
    have hemu := hstuck (.emu i) (by simp)
    rw [step, ht] at hemu
    dsimp only at hemu
    rw [hr] at hemu
    cases hemu
  have hmainStuck : mainStep s₂ = none := hstuck .main (by simp)
  rcases hend.main with hm | hm | ⟨hm, -⟩ | ⟨hm, -, hlast⟩
  · rw [mainStep, hm] at hmainStuck
    cases hmainStuck
  · rw [mainStep, hm] at hmainStuck
    dsimp only at hmainStuck
    unfold joinStep at hmainStuck
    split at hmainStuck
    · cases hmainStuck
    · rename_i i hi
      have hvalid := hend.traced.handle i hi
      obtain ⟨t, ht⟩ : ∃ t, s₂.threads[i]? = some t :=
        ⟨_, List.getElem?_eq_getElem (show i < s₂.threads.length by omega)⟩
      rw [ht] at hmainStuck
      dsimp only at hmainStuck
      rw [if_neg (hnone i t ht)] at hmainStuck
      cases hmainStuck
  · rw [mainStep, hm] at hmainStuck
    cases hmainStuck
  · exact ⟨hm, hnone, hlast⟩

end

/-! ## The three along runs of the counter -/

/-- The counter runs from 0 to its breakpoint at 1. -/
theorem continue_runs_program_counter : ∃ (s : Sys UInt16) (t : Thread),
    exec (step counter (· == 1)) runToBreakpoint (start 0 true) = some s ∧ s.threads = [t] ∧
    s.shared.machine = alone counter 0 s.reached.length ∧
    ∃ n, t.reached.length = n + 1 ∧
      Stops counter (· == 1) (alone counter 0 (n + 1)) = true := by
  obtain ⟨s, t, hs, hthreads, hdone⟩ : ∃ (s : Sys UInt16) (t : Thread),
      exec (step counter (· == 1)) runToBreakpoint (start 0 true) = some s ∧ s.threads = [t] ∧
        ¬ t.Live := ⟨_, _, rfl, rfl, by simp [Thread.Live]⟩
  obtain ⟨hmachine, -, hall⟩ := continue_runs_program hs
  obtain ⟨n, hn, -, hstops, -⟩ := hall rfl (by decide) [] t [] hthreads hdone
  rw [List.flatMap_nil, List.length_nil, Nat.zero_add] at hstops
  exact ⟨s, t, hs, hthreads, hmachine, n, hn, hstops⟩

/-- A `continue` that nothing stops, as far as its first instruction. -/
def runFreely : List Act :=
  [.call .resume, .main, .main, .main, .main, .emu 0, .emu 0]

/-- The thread and the response that a `pause` leaves. -/
def pausedActs : List Act :=
  [.main, .emu 0, .emu 0, .emu 0, .emu 0, .emu 0, .emu 0]

/-- It is paused. -/
theorem pause_in_time_counter : ∃ s s₁ s₂ : Sys UInt16,
    exec (step counter fun _ => false) runFreely (start 0 true) = some s ∧
    step counter (fun _ => false) (.call .pause) s = some s₁ ∧
    exec (step counter fun _ => false) pausedActs s₁ = some s₂ ∧
    pausedActs.countP Act.isEmu ≤ 9 := by
  obtain ⟨s, s₁, s₂, hs, hs₁, hs₂⟩ : ∃ s s₁ s₂ : Sys UInt16,
      exec (step counter fun _ => false) runFreely (start 0 true) = some s ∧
        step counter (fun _ => false) (.call .pause) s = some s₁ ∧
        exec (step counter fun _ => false) pausedActs s₁ = some s₂ := ⟨_, _, _, rfl, rfl, rfl⟩
  exact ⟨s, s₁, s₂, hs, hs₁, hs₂, pause_in_time hs hs₁ (by decide) hs₂⟩

/-- What the two threads do for a `disconnect`. -/
def endedActs : List Act :=
  [.main, .emu 0, .emu 0, .emu 0, .main, .main]

/-- It is ended. -/
theorem disconnect_returns_counter : ∃ s s₁ s₂ : Sys UInt16,
    exec (step counter fun _ => false) runFreely (start 0 true) = some s ∧
    step counter (fun _ => false) (.call .disconnect) s = some s₁ ∧
    exec (step counter fun _ => false) endedActs s₁ = some s₂ ∧
    s₂.shared.wire.getLast? = some (.response .disconnect) := by
  obtain ⟨s, s₁, s₂, hs, hs₁, hs₂, hstuck⟩ : ∃ s s₁ s₂ : Sys UInt16,
      exec (step counter fun _ => false) runFreely (start 0 true) = some s ∧
        step counter (fun _ => false) (.call .disconnect) s = some s₁ ∧
        exec (step counter fun _ => false) endedActs s₁ = some s₂ ∧
        ∀ a, (∀ c, a ≠ .call c) → step counter (fun _ => false) a s₂ = none := by
    refine ⟨_, _, _, rfl, rfl, rfl, fun a ha => ?_⟩
    cases a with
    | call c => exact absurd rfl (ha c)
    | main => rfl
    | emu i => cases i <;> rfl
  obtain ⟨-, hreturns⟩ := disconnect_returns hs hs₁
    (by simp [endedActs]) hs₂
  exact ⟨s, s₁, s₂, hs, hs₁, hs₂, (hreturns hstuck).2.2⟩

end Udap.Emulation
