/-
  THE EMULATION THREAD — `dbg::start_emulation` and `dbg::stop_emulation` under the calls of the
  main thread, in every interleaving.

  `continue` runs the program on a thread of its own.  That thread and the main thread share the
  flags `emulation_running_`, `pause_requested_` and `launched_`; the main thread starts it
  (`resume`), asks it to stop (`pause`) and stops and joins it (`disconnect`).

  1. **State** — `Shared` is what both sides touch: the machine, the flags, the event counter and
     the messages written.  `threads` holds EVERY `std::thread` ever started, oldest first, so that
     "at most one is live" is a theorem and not a matter of representation; `emulationThread` is
     the joinable handle `emulation_thread_`.

  2. **Actions** — one load, store or exchange of a flag, one `step_instruction`, one test of the
     loop body, one write of a message.  `threadStep` is the emulation thread's program, indexed by
     the point it stands at (`Point`); `mainStep` the main thread's, through `resume`, `pause`,
     `disconnect` and the response that follows each of them.

  3. **Invariant** — `Inv`: a live thread is the one in the joinable handle (so there is only
     one), the handle is empty where a new thread is started and where `disconnect` returns, every
     thread's record of the PCs it reached fits the point it stands at (`ThreadOk`), and the events
     written are one for each finished thread.
-/
import Udap.Lib.Run
import Udap.Dbg.Machine

set_option linter.unusedVariables false

namespace Udap.Emulation

open Udap Udap.Run

/-! ## The state -/

/-- The reason of a `stopped` event of the emulation thread. -/
inductive Reason where
  | breakpoint
  | pause
  deriving DecidableEq

/-- The calls of the main thread that this is about. -/
inductive Call where
  | resume
  | pause
  | disconnect
  deriving DecidableEq

/-- A message written to the client: the response to a request, the `entry` event of
    `configurationDone`, or the `stopped` event of emulation thread `thread`. -/
inductive Msg where
  | response (c : Call)
  | entry
  | stopped (thread : Nat) (reason : Reason) (seq : Nat)
  deriving DecidableEq

/-- The points of the emulation thread's program, each before one atomic action. -/
inductive Point where
  /-- `while (emulation_running_.load())`. -/
  | loopTest
  /-- Inside `step_instruction()`. -/
  | stepping
  /-- `if (!launched_) break;`. -/
  | testLaunched
  /-- `if (is_breakpoint(pc))`. -/
  | testBreakpoint
  /-- `if (pause_requested())`. -/
  | testPause
  /-- `clear_pause(); break;`. -/
  | clearPause
  /-- `if (memory_[pc] == 0x76) break;`. -/
  | testHalt
  /-- `emulation_running_.store(false)` after the loop. -/
  | storeRunning
  /-- `queue_event` of the stopped event. -/
  | sendEvent
  /-- The thread's function has returned. -/
  | done
  deriving DecidableEq

/-- An emulation thread: where it stands, its local flag, and (for the statements only) the PCs it
    reached after each instruction, each with the byte it pointed at. -/
structure Thread where
  point : Point
  hitBreakpoint : Bool
  reached : List (UInt16 × UInt8)

/-- A thread at the start of its function. -/
def Thread.fresh : Thread := ⟨.loopTest, false, []⟩

/-- Not yet returned. -/
def Thread.Live (t : Thread) : Prop := t.point ≠ .done

instance (t : Thread) : Decidable t.Live := inferInstanceAs (Decidable (_ ≠ _))

/-- What the two threads share: the machine, the flags, `event_seq_`, the messages written, and
    (for the statements only) the number of `step_instruction` calls started. -/
structure Shared (M : Type) where
  machine : M
  running : Bool
  pauseRequested : Bool
  launched : Bool
  eventSeq : Nat
  wire : List Msg
  started : Nat

/-- The points of the main thread's program. -/
inductive Main where
  /-- In `read_message`, between two requests. -/
  | idle
  /-- `resume`: `emulation_running_.exchange(true)` comes next. -/
  | exchange
  /-- `resume`: `emulation_thread_.join()` if joinable. -/
  | join
  /-- `resume`: `emulation_thread_ = std::thread(...)`. -/
  | spawn
  /-- `disconnect`: `emulation_running_.store(false)`. -/
  | storeRunning
  /-- `disconnect`: `emulation_thread_.join()` if joinable. -/
  | joinStop
  /-- The handler has returned: its response is to be written. -/
  | respond (c : Call)
  deriving DecidableEq

structure Sys (M : Type) where
  shared : Shared M
  threads : List Thread
  emulationThread : Option Nat
  main : Main

/-- A target that was launched (or not), before any `continue`; the client has seen it stop at
    its entry. -/
def start {M : Type} (m : M) (launched : Bool) : Sys M where
  shared := { machine := m, running := false, pauseRequested := false, launched := launched,
              eventSeq := 1, wire := [.entry], started := 0 }
  threads := []
  emulationThread := none
  main := .idle

/-! ## The actions -/

section
variable {M : Type} (Z : Machine M) (bp : UInt16 → Bool)

/-- The emulation thread's program, one atomic action. -/
def threadStep (i : Nat) (t : Thread) (g : Shared M) : Option (Thread × Shared M) :=
  match t.point with
  | .loopTest =>
    if g.running then some ({ t with point := .stepping }, { g with started := g.started + 1 })
    else some ({ t with point := .storeRunning }, g)
  | .stepping =>
    let m := Z.stepInstruction g.machine
    some ({ t with point := .testLaunched, reached := t.reached ++ [(Z.pc m, Z.peek m (Z.pc m))] },
      { g with machine := m })
  | .testLaunched =>
    if g.launched then some ({ t with point := .testBreakpoint }, g)
    else some ({ t with point := .storeRunning }, g)
  | .testBreakpoint =>
    if bp (Z.pc g.machine) then some ({ t with point := .storeRunning, hitBreakpoint := true }, g)
    else some ({ t with point := .testPause }, g)
  | .testPause =>
    if g.pauseRequested then some ({ t with point := .clearPause }, g)
    else some ({ t with point := .testHalt }, g)
  | .clearPause => some ({ t with point := .storeRunning }, { g with pauseRequested := false })
  | .testHalt =>
    if Z.peek g.machine (Z.pc g.machine) = 0x76 then some ({ t with point := .storeRunning }, g)
    else some ({ t with point := .loopTest }, g)
  | .storeRunning => some ({ t with point := .sendEvent }, { g with running := false })
  | .sendEvent =>
    let reason := if t.hitBreakpoint then Reason.breakpoint else Reason.pause
    some ({ t with point := .done },
      { g with wire := g.wire ++ [.stopped i reason g.eventSeq], eventSeq := g.eventSeq + 1 })
  | .done => none

/-- The first atomic action of a call of the main thread. -/
def callStep (c : Call) (s : Sys M) : Sys M :=
  match c with
  | .resume => { s with shared := { s.shared with pauseRequested := false }, main := .exchange }
  | .pause => { s with shared := { s.shared with pauseRequested := true }, main := .respond .pause }
  | .disconnect => { s with shared := { s.shared with launched := false }, main := .storeRunning }

/-- `if (emulation_thread_.joinable()) emulation_thread_.join();`, which waits for the thread. -/
def joinStep (next : Main) (s : Sys M) : Option (Sys M) :=
  match s.emulationThread with
  | none => some { s with main := next }
  | some i =>
    match s.threads[i]? with
    | none => none
    | some t => if t.Live then none else some { s with emulationThread := none, main := next }

/-- The main thread's program, one atomic action. -/
def mainStep (s : Sys M) : Option (Sys M) :=
  match s.main with
  | .idle => none
  | .exchange =>
    if s.shared.running then some { s with main := .respond .resume }
    else some { s with shared := { s.shared with running := true }, main := .join }
  | .join => joinStep .spawn s
  | .spawn =>
    some { s with threads := s.threads ++ [Thread.fresh],
                  emulationThread := some s.threads.length, main := .respond .resume }
  | .storeRunning => some { s with shared := { s.shared with running := false }, main := .joinStop }
  | .joinStop => joinStep (.respond .disconnect) s
  | .respond c =>
    some { s with shared := { s.shared with wire := s.shared.wire ++ [.response c] },
                  main := .idle }

/-- One action of the system: the main thread takes up a request, goes on with it, or emulation
    thread `i` takes its next step. -/
inductive Act where
  | call (c : Call)
  | main
  | emu (i : Nat)
  deriving DecidableEq

def step (a : Act) (s : Sys M) : Option (Sys M) :=
  match a with
  | .call c => if s.main = .idle then some (callStep c s) else none
  | .main => mainStep s
  | .emu i =>
    match s.threads[i]? with
    | none => none
    | some t =>
      (threadStep Z bp i t s.shared).map fun (t', g) =>
        { s with shared := g, threads := s.threads.set i t' }

/-! ## What one action of the emulation thread does -/

variable {Z bp}

/-- The reason that a thread's stopped event carries. -/
def Thread.reason (t : Thread) : Reason :=
  if t.hitBreakpoint then .breakpoint else .pause

/-- Only a live thread takes a step. -/
theorem live_of_threadStep {i : Nat} {t t' : Thread} {g g' : Shared M}
    (h : threadStep Z bp i t g = some (t', g')) : t.Live := by
  intro hdone
  rw [threadStep, hdone] at h
  nomatch h

/-- **The thread's effect on the messages.**  It either writes nothing and stays live, or writes
    its one stopped event and is done. -/
theorem threadStep_wire {i : Nat} {t t' : Thread} {g g' : Shared M}
    (h : threadStep Z bp i t g = some (t', g')) :
    (t.point ≠ .sendEvent ∧ g'.wire = g.wire ∧ t'.Live) ∨
    (t.point = .sendEvent ∧ g'.wire = g.wire ++ [.stopped i t.reason g.eventSeq] ∧
      ¬ t'.Live ∧ t'.hitBreakpoint = t.hitBreakpoint) := by
  unfold threadStep at h
  split at h
  case h_9 hp =>
    obtain ⟨rfl, rfl⟩ := Prod.mk.inj (Option.some.inj h)
    exact Or.inr ⟨hp, rfl, fun hlive => hlive rfl, rfl⟩
  case h_10 => nomatch h
  all_goals
    rename_i hp
    refine Or.inl ⟨by simp [hp], ?_⟩
    try split at h
  all_goals
    obtain ⟨rfl, rfl⟩ := Prod.mk.inj (Option.some.inj h)
    exact ⟨rfl, by simp [Thread.Live]⟩

/-! ## What a thread's record of its run says at each point -/

/-- A PC after which the loop goes on: no breakpoint, and not at a HALT. -/
def Passed (bp : UInt16 → Bool) (x : UInt16 × UInt8) : Prop := bp x.1 = false ∧ x.2 ≠ 0x76

/-- The points of the loop body after the instruction. -/
def Point.AfterStep : Point → Prop
  | .testLaunched | .testBreakpoint | .testPause | .clearPause | .testHalt => True
  | _ => False

/-- The points of the loop body after the breakpoint test has failed. -/
def Point.AfterTest : Point → Prop
  | .testPause | .clearPause | .testHalt => True
  | _ => False

/-- The points after the loop. -/
def Point.AfterLoop : Point → Prop
  | .storeRunning | .sendEvent | .done => True
  | _ => False

/-- The points at which the next instruction has not been executed yet. -/
def Point.BeforeStep : Point → Prop
  | .loopTest | .stepping => True
  | _ => False

/-- What a thread's record says: all PCs but the last were passed, and the last one too where the
    next instruction is still to come; after the instruction it is the machine's PC; and
    `hit_breakpoint` is only set once the loop was left at a breakpoint. -/
structure ThreadOk (Z : Machine M) (bp : UInt16 → Bool) (m : M) (t : Thread) : Prop where
  earlier : ∀ x ∈ t.reached.dropLast, Passed bp x
  before : t.point.BeforeStep → ∀ x ∈ t.reached, Passed bp x
  here : t.point.AfterStep → t.reached.getLast? = some (Z.pc m, Z.peek m (Z.pc m))
  untouched : t.point.AfterTest → bp (Z.pc m) = false
  hit : t.hitBreakpoint = true →
    t.point.AfterLoop ∧ ∃ x, t.reached.getLast? = some x ∧ bp x.1 = true

theorem fresh_ok (m : M) : ThreadOk Z bp m Thread.fresh :=
  ⟨nofun, fun _ => nofun, fun h => h.elim, fun h => h.elim, nofun⟩

/-- Nothing about a thread that has returned depends on the machine. -/
theorem ThreadOk.frame {m : M} {t : Thread} (h : ThreadOk Z bp m t) (hdone : ¬ t.Live) (m' : M) :
    ThreadOk Z bp m' t := by
  have hp : t.point = .done := Decidable.not_not.mp hdone
  exact ⟨h.earlier, h.before, fun ha => by rw [hp] at ha; exact ha.elim,
    fun ha => by rw [hp] at ha; exact ha.elim, h.hit⟩

/-- The last PC joins the passed ones when the loop goes round. -/
theorem ThreadOk.all_passed {m : M} {t : Thread} (h : ThreadOk Z bp m t)
    (hlast : t.reached.getLast? = some (Z.pc m, Z.peek m (Z.pc m)))
    (hpass : Passed bp (Z.pc m, Z.peek m (Z.pc m))) : ∀ x ∈ t.reached, Passed bp x := by
  intro x hx
  rw [← List.dropLast_append_getLast? _ hlast] at hx
  rcases List.mem_append.mp hx with hx | hx
  · exact h.earlier x hx
  · rw [List.mem_singleton.mp hx]
    exact hpass

/-- Leaving the loop without a breakpoint. -/
theorem ThreadOk.leave {m : M} {t : Thread} (h : ThreadOk Z bp m t) (hp : ¬ t.point.AfterLoop) :
    ThreadOk Z bp m { t with point := .storeRunning } :=
  ⟨h.earlier, fun hb => hb.elim, fun ha => ha.elim, fun ha => ha.elim,
    fun hhit => absurd (h.hit hhit).1 hp⟩

/-- **One action of the thread keeps its record in order.** -/
theorem threadStep_ok {i : Nat} {t t' : Thread} {g g' : Shared M}
    (hok : ThreadOk Z bp g.machine t) (h : threadStep Z bp i t g = some (t', g')) :
    ThreadOk Z bp g'.machine t' := by
  have hnohit : ¬ t.point.AfterLoop → t.hitBreakpoint ≠ true := fun hp hh => hp (hok.hit hh).1
  unfold threadStep at h
  split at h
  case h_1 hp =>
    have hloop : ¬ t.point.AfterLoop := by simp [hp, Point.AfterLoop]
    split at h
    · obtain ⟨rfl, rfl⟩ := Prod.mk.inj (Option.some.inj h)
      exact ⟨hok.earlier, fun _ => hok.before (by simp [hp, Point.BeforeStep]),
        fun ha => ha.elim, fun ha => ha.elim, fun hh => absurd hh (hnohit hloop)⟩
    · obtain ⟨rfl, rfl⟩ := Prod.mk.inj (Option.some.inj h)
      exact hok.leave hloop
  case h_2 hp =>
    have hloop : ¬ t.point.AfterLoop := by simp [hp, Point.AfterLoop]
    obtain ⟨rfl, rfl⟩ := Prod.mk.inj (Option.some.inj h)
    refine ⟨?_, fun hb => hb.elim, fun _ => by simp, fun ha => ha.elim,
      fun hh => absurd hh (hnohit hloop)⟩
    rw [List.dropLast_concat]
    exact hok.before (by simp [hp, Point.BeforeStep])
  case h_3 hp =>
    have hloop : ¬ t.point.AfterLoop := by simp [hp, Point.AfterLoop]
    split at h
    · obtain ⟨rfl, rfl⟩ := Prod.mk.inj (Option.some.inj h)
      exact ⟨hok.earlier, fun hb => hb.elim, fun _ => hok.here (by simp [hp, Point.AfterStep]),
        fun ha => ha.elim, fun hh => absurd hh (hnohit hloop)⟩
    · obtain ⟨rfl, rfl⟩ := Prod.mk.inj (Option.some.inj h)
      exact hok.leave hloop
  case h_4 hp =>
    -- the flag `hit_breakpoint` is only set here
    have hloop : ¬ t.point.AfterLoop := by simp [hp, Point.AfterLoop]
    have hhere := hok.here (by simp [hp, Point.AfterStep])
    split at h
    · rename_i hbp
      obtain ⟨rfl, rfl⟩ := Prod.mk.inj (Option.some.inj h)
      exact ⟨hok.earlier, fun hb => hb.elim, fun ha => ha.elim, fun ha => ha.elim,
        fun _ => ⟨trivial, _, hhere, hbp⟩⟩
    · rename_i hbp
      obtain ⟨rfl, rfl⟩ := Prod.mk.inj (Option.some.inj h)
      exact ⟨hok.earlier, fun hb => hb.elim, fun _ => hhere, fun _ => by simpa using hbp,
        fun hh => absurd hh (hnohit hloop)⟩
  case h_5 hp =>
    have hloop : ¬ t.point.AfterLoop := by simp [hp, Point.AfterLoop]
    split at h
    all_goals
      obtain ⟨rfl, rfl⟩ := Prod.mk.inj (Option.some.inj h)
      exact ⟨hok.earlier, fun hb => hb.elim, fun _ => hok.here (by simp [hp, Point.AfterStep]),
        fun _ => hok.untouched (by simp [hp, Point.AfterTest]),
        fun hh => absurd hh (hnohit hloop)⟩
  case h_6 hp =>
    obtain ⟨rfl, rfl⟩ := Prod.mk.inj (Option.some.inj h)
    exact hok.leave (by simp [hp, Point.AfterLoop])
  case h_7 hp =>
    have hloop : ¬ t.point.AfterLoop := by simp [hp, Point.AfterLoop]
    split at h
    · obtain ⟨rfl, rfl⟩ := Prod.mk.inj (Option.some.inj h)
      exact hok.leave hloop
    · rename_i hhalt
      obtain ⟨rfl, rfl⟩ := Prod.mk.inj (Option.some.inj h)
      -- all three tests are passed: the instruction joins the earlier ones
      have hall := hok.all_passed (hok.here (by simp [hp, Point.AfterStep]))
        ⟨hok.untouched (by simp [hp, Point.AfterTest]), hhalt⟩
      exact ⟨hok.earlier, fun _ => hall, fun ha => ha.elim, fun ha => ha.elim,
        fun hh => absurd hh (hnohit hloop)⟩
  case h_8 hp =>
    obtain ⟨rfl, rfl⟩ := Prod.mk.inj (Option.some.inj h)
    exact ⟨hok.earlier, fun hb => hb.elim, fun ha => ha.elim, fun ha => ha.elim,
      fun hh => ⟨trivial, (hok.hit hh).2⟩⟩
  case h_9 hp =>
    obtain ⟨rfl, rfl⟩ := Prod.mk.inj (Option.some.inj h)
    exact ⟨hok.earlier, fun hb => hb.elim, fun ha => ha.elim, fun ha => ha.elim,
      fun hh => ⟨trivial, (hok.hit hh).2⟩⟩
  case h_10 => nomatch h

/-! ## The invariant of the whole system -/

/-- Is the message the stopped event of thread `i`? -/
def Msg.isStoppedOf (i : Nat) : Msg → Bool
  | .stopped j _ _ => j = i
  | _ => false

/-- The stopped events of thread `i` among the messages written. -/
def eventsOf (i : Nat) (wire : List Msg) : List Msg := wire.filter (Msg.isStoppedOf i)

/-- No emulation thread is live. -/
def Sys.NoneLive (s : Sys M) : Prop := ∀ (i : Nat) (t : Thread), s.threads[i]? = some t → ¬ t.Live

/-- **The invariant.**  A live thread is the one in the joinable handle; the handle is empty where
    a thread is started and where `disconnect` returns; every record is in order; and a thread has
    written its one event exactly if it has returned. -/
structure Inv (Z : Machine M) (bp : UInt16 → Bool) (s : Sys M) : Prop where
  live : ∀ (i : Nat) (t : Thread), s.threads[i]? = some t → t.Live → s.emulationThread = some i
  noHandle : s.main = .spawn ∨ s.main = .respond .disconnect → s.emulationThread = none
  record : ∀ (i : Nat) (t : Thread), s.threads[i]? = some t → ThreadOk Z bp s.shared.machine t
  silent : ∀ i : Nat, (∀ t, s.threads[i]? = some t → t.Live) → eventsOf i s.shared.wire = []
  event : ∀ (i : Nat) (t : Thread), s.threads[i]? = some t → ¬ t.Live →
    ∃ seq, eventsOf i s.shared.wire = [.stopped i t.reason seq]

theorem start_inv (m : M) (launched : Bool) : Inv Z bp (start m launched) := by
  refine ⟨fun i t h => ?_, fun _ => rfl, fun i t h => ?_, fun i _ => rfl, fun i t h => ?_⟩ <;>
    simp [start] at h

theorem Inv.unique {s : Sys M} (hs : Inv Z bp s) {i j : Nat} {t u : Thread}
    (hi : s.threads[i]? = some t) (hj : s.threads[j]? = some u) (ht : t.Live) (hu : u.Live) :
    i = j :=
  Option.some.inj ((hs.live i t hi ht).symm.trans (hs.live j u hj hu))

theorem Inv.noneLive {s : Sys M} (hs : Inv Z bp s) (h : s.emulationThread = none) : s.NoneLive :=
  fun i t hi ht => nomatch h.symm.trans (hs.live i t hi ht)

/-- After a join, the handle is empty and no thread is live. -/
theorem joinStep_eq {next : Main} {s t : Sys M} (hs : Inv Z bp s) (h : joinStep next s = some t) :
    t = { s with emulationThread := none, main := next } ∧ s.NoneLive := by
  unfold joinStep at h
  split at h
  · rename_i hnone
    obtain rfl := Option.some.inj h
    exact ⟨by rw [← hnone], hs.noneLive hnone⟩
  · rename_i i hi
    split at h
    · nomatch h
    · rename_i u hu
      split at h
      · nomatch h
      · rename_i hdead
        obtain rfl := Option.some.inj h
        refine ⟨rfl, fun j v hj hv => hdead ?_⟩
        obtain rfl : i = j := Option.some.inj (hi.symm.trans (hs.live j v hj hv))
        rw [hu] at hj
        rwa [Option.some.inj hj]

/-- A step of the main thread that touches neither threads, nor machine, nor messages keeps the
    invariant as long as it does not get to where the handle must be empty. -/
theorem Inv.of_main {s t : Sys M} (hs : Inv Z bp s) (hthreads : t.threads = s.threads)
    (hhandle : t.emulationThread = s.emulationThread)
    (hmachine : t.shared.machine = s.shared.machine) (hwire : t.shared.wire = s.shared.wire)
    (hmain : t.main ≠ .spawn ∧ t.main ≠ .respond .disconnect) : Inv Z bp t := by
  refine ⟨?_, fun h => absurd h (by simp [hmain]), ?_, ?_, ?_⟩
  · rw [hthreads, hhandle]; exact hs.live
  · rw [hthreads, hmachine]; exact hs.record
  · rw [hthreads, hwire]; exact hs.silent
  · rw [hthreads, hwire]; exact hs.event

/-- The join keeps the invariant wherever it leads. -/
theorem joinStep_inv {next : Main} {s t : Sys M} (hs : Inv Z bp s)
    (h : joinStep next s = some t) : Inv Z bp t := by
  obtain ⟨rfl, hnone⟩ := joinStep_eq hs h
  exact ⟨fun i u hu hlive => absurd hlive (hnone i u hu), fun _ => rfl, hs.record, hs.silent,
    hs.event⟩

theorem eventsOf_response (i : Nat) (wire : List Msg) (c : Call) :
    eventsOf i (wire ++ [.response c]) = eventsOf i wire := by
  simp [eventsOf, Msg.isStoppedOf]

/-- **The main thread keeps the invariant.** -/
theorem mainStep_inv {s t : Sys M} (hs : Inv Z bp s) (h : mainStep s = some t) : Inv Z bp t := by
  unfold mainStep at h
  split at h
  · nomatch h
  · split at h
    all_goals
      obtain rfl := Option.some.inj h
      exact hs.of_main rfl rfl rfl rfl (by simp)
  · exact joinStep_inv hs h
  · -- the new thread is the only live one: the handle was empty
    rename_i hmain
    obtain rfl := Option.some.inj h
    have hnone := hs.noneLive (hs.noHandle (Or.inl hmain))
    have hget : ∀ (i : Nat) (u : Thread), (s.threads ++ [Thread.fresh])[i]? = some u →
        s.threads[i]? = some u ∨ i = s.threads.length ∧ u = Thread.fresh := by
      intro i u hu
      rw [List.getElem?_append] at hu
      split at hu
      · exact Or.inl hu
      · rename_i hi
        obtain ⟨hlen, hval⟩ := List.getElem?_eq_some_iff.mp hu
        simp only [List.length_singleton] at hlen
        exact Or.inr ⟨by omega, by simpa using hval.symm⟩
    refine ⟨fun i u hu hlive => ?_, fun hc => absurd hc (by simp), fun i u hu => ?_,
      fun i hi => hs.silent i fun u hu => ?_, fun i u hu hdead => ?_⟩
    · rcases hget i u hu with hold | ⟨rfl, -⟩
      · exact absurd hlive (hnone i u hold)
      · rfl
    · rcases hget i u hu with hold | ⟨-, rfl⟩
      · exact hs.record i u hold
      · exact fresh_ok _
    · exact hi u (by rw [List.getElem?_append_left (List.getElem?_eq_some_iff.mp hu).1]; exact hu)
    · rcases hget i u hu with hold | ⟨-, rfl⟩
      · exact hs.event i u hold hdead
      · exact absurd (by simp [Thread.Live, Thread.fresh]) hdead
  · obtain rfl := Option.some.inj h
    exact hs.of_main rfl rfl rfl rfl (by simp)
  · exact joinStep_inv hs h
  · obtain rfl := Option.some.inj h
    refine ⟨hs.live, fun hc => absurd hc (by simp), hs.record, fun i hi => ?_, fun i u hu hd => ?_⟩
    · rw [eventsOf_response]
      exact hs.silent i hi
    · rw [eventsOf_response]
      exact hs.event i u hu hd

/-- The threads after one of them has moved: that one, or one of the others as it was. -/
theorem get_set_cases {ts : List Thread} {i j : Nat} {t' u : Thread}
    (h : (ts.set i t')[j]? = some u) : (j = i ∧ u = t') ∨ (j ≠ i ∧ ts[j]? = some u) := by
  rw [List.getElem?_set] at h
  split at h
  · rename_i hij
    split at h
    · exact Or.inl ⟨hij.symm, (Option.some.inj h).symm⟩
    · nomatch h
  · rename_i hij
    exact Or.inr ⟨fun heq => hij heq.symm, h⟩

theorem get_set_self {ts : List Thread} {i : Nat} {t : Thread} (h : ts[i]? = some t)
    (t' : Thread) : (ts.set i t')[i]? = some t' :=
  List.getElem?_set_self (List.getElem?_eq_some_iff.mp h).1

theorem eventsOf_stopped (i j : Nat) (wire : List Msg) (r : Reason) (seq : Nat) :
    eventsOf j (wire ++ [.stopped i r seq])
      = eventsOf j wire ++ if i = j then [.stopped i r seq] else [] := by
  by_cases h : i = j <;> simp [eventsOf, Msg.isStoppedOf, h]

/-- **An emulation thread keeps the invariant.** -/
theorem emuStep_inv {s : Sys M} {i : Nat} {t t' : Thread} {g : Shared M} (hs : Inv Z bp s)
    (ht : s.threads[i]? = some t) (h : threadStep Z bp i t s.shared = some (t', g)) :
    Inv Z bp { s with shared := g, threads := s.threads.set i t' } := by
  have hlive : t.Live := live_of_threadStep h
  -- of the threads only number `i` moves, and it was live
  have hself := get_set_self ht t'
  have hold : ∀ j u, j ≠ i → s.threads[j]? = some u → (s.threads.set i t')[j]? = some u :=
    fun j u hj hu => by rwa [List.getElem?_set_ne fun heq => hj heq.symm]
  refine ⟨fun j u hu hul => ?_, hs.noHandle, fun j u hu => ?_, fun j hj => ?_,
    fun j u hu hud => ?_⟩
  · rcases get_set_cases hu with ⟨rfl, -⟩ | ⟨-, hu⟩
    · exact hs.live j t ht hlive
    · exact hs.live j u hu hul
  · rcases get_set_cases hu with ⟨rfl, rfl⟩ | ⟨hj, hu⟩
    · exact threadStep_ok (hs.record j t ht) h
    · exact (hs.record j u hu).frame (fun hul => hj (hs.unique hu ht hul hlive)) _
  · have hsilent : j ≠ i ∨ g.wire = s.shared.wire := by
      rcases threadStep_wire h with ⟨-, hw, -⟩ | ⟨-, -, hdead, -⟩
      · exact Or.inr hw
      · exact Or.inl fun heq => hdead (hj t' (heq ▸ hself))
    have hbefore : eventsOf j s.shared.wire = [] := hs.silent j fun u hu => by
      by_cases hji : j = i
      · subst hji
        obtain rfl : t = u := Option.some.inj (ht.symm.trans hu)
        exact hlive
      · exact hj u (hold j u hji hu)
    rcases threadStep_wire h with ⟨-, hw, -⟩ | ⟨-, hw, -⟩
    · simp only [hw]; exact hbefore
    · have hij : ¬ i = j := by
        rcases hsilent with hne | heq
        · exact fun h => hne h.symm
        · exact absurd (hw.symm.trans heq) (by simp)
      simp only [hw, eventsOf_stopped, if_neg hij, hbefore, List.append_nil]
  · rcases threadStep_wire h with ⟨-, hw, hl⟩ | ⟨-, hw, hd, hhit⟩
    · simp only [hw]
      rcases get_set_cases hu with ⟨rfl, rfl⟩ | ⟨-, hu⟩
      · exact absurd hl hud
      · exact hs.event j u hu hud
    · simp only [hw, eventsOf_stopped]
      rcases get_set_cases hu with ⟨rfl, rfl⟩ | ⟨hj, hu⟩
      · have hbefore : eventsOf j s.shared.wire = [] := hs.silent j fun u hu => by
          rwa [← Option.some.inj (ht.symm.trans hu)]
        exact ⟨s.shared.eventSeq, by simp [hbefore, Thread.reason, hhit]⟩
      · obtain ⟨seq, hseq⟩ := hs.event j u hu hud
        exact ⟨seq, by rw [hseq, if_neg fun heq => hj heq.symm, List.append_nil]⟩

/-- Taking up a request keeps the invariant. -/
theorem callStep_inv {s : Sys M} (hs : Inv Z bp s) (c : Call) : Inv Z bp (callStep c s) := by
  cases c <;> exact hs.of_main rfl rfl rfl rfl (by simp [callStep])

/-- What an enabled action is: a request taken up, a step of the main thread or a step of one
    emulation thread. -/
theorem step_cases {a : Act} {s t : Sys M} (h : step Z bp a s = some t) :
    (∃ c, a = .call c ∧ s.main = .idle ∧ t = callStep c s) ∨
    (a = .main ∧ mainStep s = some t) ∨
    (∃ i u u' g, a = .emu i ∧ s.threads[i]? = some u ∧
      threadStep Z bp i u s.shared = some (u', g) ∧
      t = { s with shared := g, threads := s.threads.set i u' }) := by
  cases a with
  | call c =>
    simp only [step] at h
    split at h
    · rename_i hidle
      exact Or.inl ⟨c, rfl, hidle, (Option.some.inj h).symm⟩
    · nomatch h
  | main => exact Or.inr (Or.inl ⟨rfl, h⟩)
  | emu i =>
    simp only [step] at h
    split at h
    · nomatch h
    · rename_i u hu
      obtain ⟨⟨u', g⟩, hstep, heq⟩ := Option.map_eq_some_iff.mp h
      exact Or.inr (Or.inr ⟨i, u, u', g, rfl, hu, hstep, heq.symm⟩)

theorem step_inv (a : Act) (s t : Sys M) (hs : Inv Z bp s) (h : step Z bp a s = some t) :
    Inv Z bp t := by
  rcases step_cases h with ⟨c, -, -, rfl⟩ | ⟨-, hmain⟩ | ⟨i, u, u', g, -, hu, hstep, rfl⟩
  · exact callStep_inv hs c
  · exact mainStep_inv hs hmain
  · exact emuStep_inv hs hu hstep

/-- **The run lemma**: the invariant holds in every state that any interleaving reaches. -/
theorem run_inv {m : M} {launched : Bool} {acts : List Act} {s : Sys M}
    (h : exec (step Z bp) acts (start m launched) = some s) : Inv Z bp s :=
  exec_inv step_inv acts _ s (start_inv m launched) h

/-! ## Runs without a further `resume` -/

/-- The main thread is not inside `resume`. -/
def Sys.NotResuming (s : Sys M) : Prop := s.main ≠ .exchange ∧ s.main ≠ .join ∧ s.main ≠ .spawn

/-- Outside `resume`, a step of the main thread touches no thread and starts no instruction, takes
    back no pause request, and stays outside `resume`. -/
theorem mainStep_quiet {s t : Sys M} (hs : Inv Z bp s) (hq : s.NotResuming)
    (h : mainStep s = some t) :
    t.threads = s.threads ∧ t.shared.started = s.shared.started ∧
      t.shared.pauseRequested = s.shared.pauseRequested ∧ t.NotResuming := by
  unfold mainStep at h
  split at h
  · nomatch h
  case h_2 hm => exact absurd hm hq.1
  case h_3 hm => exact absurd hm hq.2.1
  case h_4 hm => exact absurd hm hq.2.2
  case h_6 =>
    obtain ⟨rfl, -⟩ := joinStep_eq hs h
    exact ⟨rfl, rfl, rfl, by simp [Sys.NotResuming]⟩
  all_goals
    obtain rfl := Option.some.inj h
    exact ⟨rfl, rfl, rfl, by simp [Sys.NotResuming]⟩

/-- Nothing is live and nothing is about to be started. -/
structure Down (Z : Machine M) (bp : UInt16 → Bool) (s : Sys M) : Prop where
  inv : Inv Z bp s
  notResuming : s.NotResuming
  noneLive : s.NoneLive

theorem step_down (a : Act) (s t : Sys M) (hs : Down Z bp s) (ha : a ≠ .call .resume)
    (h : step Z bp a s = some t) : Down Z bp t := by
  have hinv := step_inv a s t hs.inv h
  rcases step_cases h with ⟨c, rfl, -, rfl⟩ | ⟨-, hmain⟩ | ⟨i, u, u', g, -, hu, hstep, rfl⟩
  · cases c with
    | resume => exact absurd rfl ha
    | pause => exact ⟨hinv, by simp [Sys.NotResuming, callStep], hs.noneLive⟩
    | disconnect => exact ⟨hinv, by simp [Sys.NotResuming, callStep], hs.noneLive⟩
  · obtain ⟨hthreads, -, -, hq⟩ := mainStep_quiet hs.inv hs.notResuming hmain
    exact ⟨hinv, hq, fun i u hu => hs.noneLive i u (hthreads ▸ hu)⟩
  · exact absurd (live_of_threadStep hstep) (hs.noneLive i u hu)

/-- How many more instructions a thread may start under a pending pause request: one, if it stands
    between the pause test and the next instruction. -/
def Thread.further (t : Thread) : Nat :=
  match t.point with
  | .loopTest | .testHalt => 1
  | _ => 0

/-- Past the loop, on the way out. -/
def Thread.Leaving (t : Thread) : Prop := t.point = .storeRunning ∨ t.point = .sendEvent

/-- A pause request is pending at a thread, or the thread is leaving; at most `N` instructions are
    ever started. -/
structure Pausing (Z : Machine M) (bp : UInt16 → Bool) (N : Nat) (s : Sys M) : Prop where
  inv : Inv Z bp s
  notResuming : s.NotResuming
  bound : s.shared.started ≤ N
  thread : ∀ (i : Nat) (t : Thread), s.threads[i]? = some t → t.Live →
    (s.shared.pauseRequested = true ∨ t.Leaving) ∧ s.shared.started + t.further ≤ N

/-- One action of a thread under a pending pause request uses up what it may still start. -/
theorem threadStep_pausing {i : Nat} {t t' : Thread} {g g' : Shared M}
    (hp : g.pauseRequested = true ∨ t.Leaving) (h : threadStep Z bp i t g = some (t', g')) :
    (t'.Live → g'.pauseRequested = true ∨ t'.Leaving) ∧
      g'.started + t'.further ≤ g.started + t.further := by
  unfold threadStep at h
  split at h
  case h_10 => nomatch h
  case h_5 hpt =>
    -- at the pause test the request is seen
    have hreq : g.pauseRequested = true := hp.resolve_right (by simp [Thread.Leaving, hpt])
    rw [if_pos hreq] at h
    obtain ⟨rfl, rfl⟩ := Prod.mk.inj (Option.some.inj h)
    exact ⟨fun _ => Or.inl hreq, by simp [Thread.further, hpt]⟩
  all_goals
    rename_i hpt
    try split at h
  all_goals
    obtain ⟨rfl, rfl⟩ := Prod.mk.inj (Option.some.inj h)
    simp_all [Thread.Leaving, Thread.further, Thread.Live]

theorem step_pausing {N : Nat} (a : Act) (s t : Sys M) (hs : Pausing Z bp N s)
    (ha : a ≠ .call .resume) (h : step Z bp a s = some t) : Pausing Z bp N t := by
  have hinv := step_inv a s t hs.inv h
  rcases step_cases h with ⟨c, rfl, -, rfl⟩ | ⟨-, hmain⟩ | ⟨i, u, u', g, -, hu, hstep, rfl⟩
  · cases c with
    | resume => exact absurd rfl ha
    | pause =>
      exact ⟨hinv, by simp [Sys.NotResuming, callStep], hs.bound,
        fun i t ht hl => ⟨Or.inl rfl, (hs.thread i t ht hl).2⟩⟩
    | disconnect =>
      exact ⟨hinv, by simp [Sys.NotResuming, callStep], hs.bound, hs.thread⟩
  · obtain ⟨hthreads, hstarted, hreq, hq⟩ := mainStep_quiet hs.inv hs.notResuming hmain
    refine ⟨hinv, hq, by rw [hstarted]; exact hs.bound, ?_⟩
    rw [hthreads, hstarted, hreq]
    exact hs.thread
  · have hlive := live_of_threadStep hstep
    obtain ⟨hreq, hle⟩ := hs.thread i u hu hlive
    obtain ⟨hreq', hle'⟩ := threadStep_pausing hreq hstep
    refine ⟨hinv, hs.notResuming, by show g.started ≤ N; omega, fun j v hv hvl => ?_⟩
    rcases get_set_cases hv with ⟨rfl, rfl⟩ | ⟨hj, hv⟩
    · exact ⟨hreq' hvl, Nat.le_trans hle' hle⟩
    · exact absurd (hs.inv.unique hv hu hvl hlive) hj

/-- Right after `pause` has set its flag, at most one instruction more is started. -/
theorem pausing_of_call {s : Sys M} (hs : Inv Z bp s) :
    Pausing Z bp (s.shared.started + 1) (callStep .pause s) := by
  refine ⟨callStep_inv hs .pause, by simp [Sys.NotResuming, callStep], Nat.le_succ _,
    fun i t _ _ => ⟨Or.inl rfl, ?_⟩⟩
  have : t.further ≤ 1 := by
    unfold Thread.further
    split <;> omega
  exact Nat.add_le_add_left this _

/-! ## The guarantees of the emulation thread -/

/-- **Safety of the emulation thread.**  In every state that any interleaving of resume, pause and
    disconnect with the emulation threads reaches:
    (1) at most one emulation thread is live;
    (2) every thread that has finished has written exactly one stopped event;
    (3) once `disconnect` has returned no thread is live, until a later `resume`;
    (4) a stopped event says `breakpoint` only if the last PC its thread reached is a breakpoint
        and no PC it reached before was one or pointed at a HALT;
    (5) once `pause` has set its flag, and without a later `resume`, at most one further
        `step_instruction` is started. -/
theorem emulation_safe (Z : Machine M) (bp : UInt16 → Bool) (m : M) (launched : Bool)
    (acts : List Act) (s : Sys M)
    (hrun : exec (step Z bp) acts (start m launched) = some s) :
    (∀ (i j : Nat) (t u : Thread), s.threads[i]? = some t → s.threads[j]? = some u →
      t.Live → u.Live → i = j) ∧
    (∀ (i : Nat) (t : Thread), s.threads[i]? = some t → ¬ t.Live →
      ∃ r seq, eventsOf i s.shared.wire = [.stopped i r seq]) ∧
    (s.main = .respond .disconnect → ∀ (later : List Act) (s' : Sys M),
      Act.call .resume ∉ later → exec (step Z bp) later s = some s' → s'.NoneLive) ∧
    (∀ (i seq : Nat), Msg.stopped i .breakpoint seq ∈ s.shared.wire →
      ∃ t pre x, s.threads[i]? = some t ∧ t.reached = pre ++ [x] ∧ bp x.1 = true ∧
        ∀ y ∈ pre, bp y.1 = false ∧ y.2 ≠ 0x76) ∧
    (∀ (s₁ : Sys M) (later : List Act) (s₂ : Sys M), step Z bp (.call .pause) s = some s₁ →
      Act.call .resume ∉ later → exec (step Z bp) later s₁ = some s₂ →
      s₂.shared.started ≤ s₁.shared.started + 1) := by
  have hinv : Inv Z bp s := run_inv hrun
  have hne : ∀ {later : List Act}, Act.call .resume ∉ later →
      ∀ a ∈ later, a ≠ Act.call .resume := fun h a ha heq => h (heq ▸ ha)
  refine ⟨fun i j t u => hinv.unique, fun i t ht hd => ?_, fun hret later s' hno hlater => ?_,
    fun i seq hmem => ?_, fun s₁ later s₂ hpause hno hlater => ?_⟩
  · obtain ⟨seq, hseq⟩ := hinv.event i t ht hd
    exact ⟨t.reason, seq, hseq⟩
  · have hdown : Down Z bp s := ⟨hinv, by simp [Sys.NotResuming, hret],
      hinv.noneLive (hinv.noHandle (Or.inr hret))⟩
    exact (exec_inv_along step_down later s s' hdown (along_of_forall (hne hno)) hlater).noneLive
  · have hev : Msg.stopped i .breakpoint seq ∈ eventsOf i s.shared.wire :=
      List.mem_filter.mpr ⟨hmem, by simp [Msg.isStoppedOf]⟩
    -- an event was written, so the thread exists and has returned
    obtain ⟨t, ht, hdead⟩ : ∃ t, s.threads[i]? = some t ∧ ¬ t.Live := by
      by_contra hno
      have := hinv.silent i fun t ht => by_contra fun hd => hno ⟨t, ht, hd⟩
      rw [this] at hev
      nomatch hev
    obtain ⟨seq', hseq⟩ := hinv.event i t ht hdead
    rw [hseq, List.mem_singleton] at hev
    have hreason : t.hitBreakpoint = true := by
      have : Reason.breakpoint = t.reason := by injection hev
      by_contra hno
      rw [Thread.reason, if_neg hno] at this
      nomatch this
    have hok := hinv.record i t ht
    obtain ⟨-, x, hx, hbp⟩ := hok.hit hreason
    exact ⟨t, t.reached.dropLast, x, ht, (List.dropLast_append_getLast? x hx).symm, hbp,
      hok.earlier⟩
  · have hcall : s₁ = callStep .pause s := by
      simp only [step] at hpause
      split at hpause
      · exact (Option.some.inj hpause).symm
      · nomatch hpause
    subst hcall
    exact (exec_inv_along step_pausing later _ s₂ (pausing_of_call hinv)
      (along_of_forall (hne hno)) hlater).bound

end

/-- A machine whose whole state is its PC, which every instruction increments. -/
def counter : Machine UInt16 := ⟨id, fun _ => 0, fun _ _ => 0, fun m => m + 1⟩

/-- A run from 0 to a breakpoint at 1: the thread stops and sends its event before the main thread
    writes the response to `continue`. -/
def runToBreakpoint : List Act :=
  [.call .resume, .main, .main, .main, .emu 0, .emu 0, .emu 0, .emu 0, .emu 0, .emu 0, .main]

/-- The guarantees along that run. -/
theorem emulation_safe_counter : ∃ s : Sys UInt16,
    exec (step counter (· == 1)) runToBreakpoint (start 0 true) = some s ∧
    s.shared.wire = [.entry, .stopped 0 .breakpoint 1, .response .resume] ∧
    (∀ (i j : Nat) (t u : Thread), s.threads[i]? = some t → s.threads[j]? = some u →
      t.Live → u.Live → i = j) :=
  ⟨_, rfl, rfl, (emulation_safe counter (· == 1) 0 true runToBreakpoint _ rfl).1⟩

end Udap.Emulation
