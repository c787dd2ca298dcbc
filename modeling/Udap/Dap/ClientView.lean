/-
  THE CLIENT'S VIEW — who is right about whether the program runs?

  The client shows the program as running from the response to `continue` on and as stopped from a
  `stopped` event on.  The response is written by the main thread after `resume` has returned, the
  event by the emulation thread when its loop has ended, and nothing orders the two writes:
  `output_mutex_` keeps the bytes of one message together, no more.

  1. **Client** — `View` puts a client on the wire of `Sys`: it receives the messages in order and
     sends requests, `continue` only after a message that told it the program has stopped.

  2. **Agreement** — `Agrees`: the last message about running or stopped says stopped.  It is to
     hold whenever the target is `Quiet`: no live thread, the main thread back in `read_message`.

  3. **The race** — `InOrder` excludes one kind of step: an emulation thread writes its event while
     the main thread still has to write the response to `continue`.  `Synced` is the invariant of
     runs without such a step: as long as the client believes the program to be running, some
     thread is live.  One such step, and the response that follows it is wrong for good
     (`Overtaken`).
-/
import Udap.Dbg.Emulation

namespace Udap.Emulation

open Udap Udap.Run

/-! ## What the messages tell the client -/

/-- What a client takes the program to be doing. -/
inductive Status where
  | running
  | stopped
  deriving DecidableEq

/-- What a message says about the program, if it says anything. -/
def Msg.status : Msg → Option Status
  | .response .resume => some .running
  | .response _ => none
  | .entry => some .stopped
  | .stopped _ _ _ => some .stopped

/-- What the client believes after these messages: the last one that says anything counts. -/
def believes (wire : List Msg) : Option Status := (wire.filterMap Msg.status).getLast?

theorem believes_silent {x : Msg} (hx : x.status = none) (wire : List Msg) :
    believes (wire ++ [x]) = believes wire := by
  rw [believes, List.filterMap_append, List.filterMap_cons_none hx, List.filterMap_nil,
    List.append_nil, believes]

theorem believes_told {x : Msg} {st : Status} (hx : x.status = some st) (wire : List Msg) :
    believes (wire ++ [x]) = some st := by
  rw [believes, List.filterMap_append, List.filterMap_cons_some hx, List.filterMap_nil,
    List.getLast?_concat]

/-! ## The target together with its client -/

/-- The target, the requests on their way to it, and how many of the messages written the client
    has received. -/
structure View (M : Type) where
  sys : Sys M
  inbox : List Call
  seen : Nat

/-- A move: the client receives the next message, sends a request, or the target acts. -/
inductive Move where
  | receive
  | send (c : Call)
  | target (a : Act)

def viewStart {M : Type} (m : M) (launched : Bool) : View M := ⟨start m launched, [], 0⟩

section
variable {M : Type} (Z : Machine M) (bp : UInt16 → Bool)

/-- The client sends `continue` only when the messages it received say that the program has
    stopped; the target takes up requests in the order in which they were sent. -/
def viewStep : Move → View M → Option (View M)
  | .receive, v =>
    if v.seen < v.sys.shared.wire.length then some { v with seen := v.seen + 1 } else none
  | .send c, v =>
    if c = .resume → believes (v.sys.shared.wire.take v.seen) = some .stopped then
      some { v with inbox := v.inbox ++ [c] }
    else none
  | .target (.call c), v =>
    match v.inbox with
    | [] => none
    | c' :: rest =>
      if c = c' then
        (step Z bp (.call c) v.sys).map fun s => { v with sys := s, inbox := rest }
      else none
  | .target a, v => (step Z bp a v.sys).map fun s => { v with sys := s }

/-- No emulation thread is live, and the main thread has nothing left to write. -/
def Sys.Quiet (s : Sys M) : Prop := s.main = .idle ∧ s.NoneLive

/-- The client has been told that the program has stopped. -/
def Sys.Agrees (s : Sys M) : Prop := believes s.shared.wire = some .stopped

/-- The move does not let a stopped event overtake the response to the `continue` that is being
    handled. -/
def InOrder (a : Move) (v : View M) : Prop :=
  match a with
  | .target (.emu i) =>
    (v.sys.threads[i]?).map Thread.point = some .sendEvent → v.sys.main ≠ .respond .resume
  | _ => True

instance (a : Move) (v : View M) : Decidable (InOrder a v) :=
  match a with
  | .receive | .send _ | .target (.call _) | .target .main => isTrue trivial
  | .target (.emu _) => inferInstanceAs (Decidable (_ → _))

instance (s : Sys M) : Decidable s.NoneLive :=
  decidable_of_iff (∀ t ∈ s.threads, ¬ t.Live)
    ⟨fun h _ t ht => h t (List.mem_of_getElem? ht),
      fun h t ht => (List.getElem?_of_mem ht).elim fun _ hi => h _ t hi⟩

instance (s : Sys M) : Decidable s.Quiet := inferInstanceAs (Decidable (_ ∧ _))

instance (s : Sys M) : Decidable s.Agrees := inferInstanceAs (Decidable (_ = _))

variable {Z bp}

/-- A move leaves the target as it is or is one of its actions. -/
theorem viewStep_cases {a : Move} {v w : View M} (h : viewStep Z bp a v = some w) :
    w.sys = v.sys ∨ ∃ b, a = .target b ∧ step Z bp b v.sys = some w.sys := by
  cases a with
  | receive =>
    simp only [viewStep] at h
    split at h
    · obtain rfl := Option.some.inj h
      exact Or.inl rfl
    · nomatch h
  | send c =>
    simp only [viewStep] at h
    split at h
    · obtain rfl := Option.some.inj h
      exact Or.inl rfl
    · nomatch h
  | target b =>
    refine Or.inr ⟨b, rfl, ?_⟩
    cases b with
    | call c =>
      simp only [viewStep] at h
      split at h
      · nomatch h
      · split at h
        · obtain ⟨s, hs, rfl⟩ := Option.map_eq_some_iff.mp h
          exact hs
        · nomatch h
    | main =>
      obtain ⟨s, hs, rfl⟩ := Option.map_eq_some_iff.mp h
      exact hs
    | emu i =>
      obtain ⟨s, hs, rfl⟩ := Option.map_eq_some_iff.mp h
      exact hs

/-! ## The invariant of runs in which no event overtakes its response -/

/-- A thread that still has to leave its loop. -/
def Thread.Looping (t : Thread) : Prop := t.point ≠ .sendEvent ∧ t.point ≠ .done

/-- Some emulation thread is live. -/
def Sys.SomeLive (s : Sys M) : Prop := ∃ (i : Nat) (t : Thread), s.threads[i]? = some t ∧ t.Live

/-- Some emulation thread is still to leave its loop. -/
def Sys.SomeLooping (s : Sys M) : Prop :=
  ∃ (i : Nat) (t : Thread), s.threads[i]? = some t ∧ t.Looping

theorem Sys.SomeLooping.someLive {s : Sys M} : s.SomeLooping → s.SomeLive
  | ⟨i, t, ht, hloop⟩ => ⟨i, t, ht, hloop.2⟩

/-- While `emulation_running_` is set, the main thread is about to start a thread or one is
    looping; while the response to `continue` is due, and while the client believes the program to
    be running, a thread is live. -/
structure Synced (s : Sys M) : Prop where
  running : s.shared.running = true → s.main = .join ∨ s.main = .spawn ∨ s.SomeLooping
  responding : s.main = .respond .resume → s.SomeLive
  told : believes s.shared.wire = some .stopped ∨
    (believes s.shared.wire = some .running ∧ s.SomeLive)

theorem start_synced (m : M) (launched : Bool) : Synced (start m launched) :=
  ⟨nofun, nofun, Or.inl rfl⟩

/-- A thread's step: it writes nothing and goes on looping unless it clears the running flag. -/
theorem threadStep_looping {i : Nat} {t t' : Thread} {g g' : Shared M}
    (h : threadStep Z bp i t g = some (t', g')) :
    (t.Looping → t'.Looping ∨ g'.running = false) ∧ (g'.running = true → g.running = true) := by
  unfold threadStep at h
  split at h
  case h_10 => nomatch h
  all_goals
    rename_i hp
    try split at h
  all_goals
    obtain ⟨rfl, rfl⟩ := Prod.mk.inj (Option.some.inj h)
    simp_all [Thread.Looping]

/-- The step of thread `i` keeps whatever thread was looping, or clears the running flag. -/
theorem emu_running {s : Sys M} {i : Nat} {u u' : Thread} {g : Shared M} (hs : Synced s)
    (hu : s.threads[i]? = some u) (h : threadStep Z bp i u s.shared = some (u', g))
    (hrun : g.running = true) :
    s.main = .join ∨ s.main = .spawn ∨
      Sys.SomeLooping { s with shared := g, threads := s.threads.set i u' } := by
  obtain ⟨hloop, hflag⟩ := threadStep_looping h
  refine (hs.running (hflag hrun)).imp_right (Or.imp_right fun ⟨j, t, ht, htl⟩ => ?_)
  by_cases hij : i = j
  · subst hij
    obtain rfl : u = t := Option.some.inj (hu.symm.trans ht)
    refine ⟨i, u', get_set_self hu u', ?_⟩
    exact (hloop htl).resolve_right (by simp [hrun])
  · exact ⟨j, t, by rw [List.getElem?_set_ne hij]; exact ht, htl⟩

/-- **An emulation thread keeps the client in step**, unless it overtakes a response. -/
theorem emu_synced {s : Sys M} {i : Nat} {u u' : Thread} {g : Shared M} (hs : Synced s)
    (hu : s.threads[i]? = some u) (h : threadStep Z bp i u s.shared = some (u', g))
    (hin : u.point = .sendEvent → s.main ≠ .respond .resume) :
    Synced { s with shared := g, threads := s.threads.set i u' } := by
  have hself := get_set_self hu u'
  rcases threadStep_wire h with ⟨-, hw, hlive⟩ | ⟨hp, hw, -, -⟩
  · refine ⟨emu_running hs hu h, fun _ => ⟨i, u', hself, hlive⟩, ?_⟩
    show believes g.wire = _ ∨ believes g.wire = _ ∧ _
    rw [hw]
    exact hs.told.imp_right fun ht => ⟨ht.1, i, u', hself, hlive⟩
  · refine ⟨emu_running hs hu h, fun hm => absurd hm (hin hp), Or.inl ?_⟩
    show believes g.wire = _
    rw [hw]
    exact believes_told rfl _

/-- The main thread's join leaves threads, messages and the running flag alone. -/
theorem joinStep_frame {next : Main} {s t : Sys M} (h : joinStep next s = some t) :
    t.threads = s.threads ∧ t.shared = s.shared ∧ t.main = next := by
  unfold joinStep at h
  split at h
  · obtain rfl := Option.some.inj h
    exact ⟨rfl, rfl, rfl⟩
  · split at h
    · nomatch h
    · split at h
      · nomatch h
      · obtain rfl := Option.some.inj h
        exact ⟨rfl, rfl, rfl⟩

/-- Steps of the main thread that touch no thread and no message. -/
theorem Synced.of_main {s t : Sys M} (hs : Synced s) (hthreads : t.threads = s.threads)
    (hwire : t.shared.wire = s.shared.wire)
    (hrun : t.shared.running = true → t.main = .join ∨ t.main = .spawn ∨ t.SomeLooping)
    (hmain : t.main = .respond .resume → t.SomeLive) : Synced t := by
  refine ⟨hrun, hmain, ?_⟩
  rw [hwire]
  refine hs.told.imp_right fun ⟨hb, i, u, hu, hl⟩ => ⟨hb, i, u, ?_, hl⟩
  rw [hthreads]
  exact hu

/-- **The main thread keeps the client in step.** -/
theorem main_synced {s t : Sys M} (hs : Synced s) (h : mainStep s = some t) : Synced t := by
  unfold mainStep at h
  split at h
  · cases h
  · rename_i hmain
    split at h
    · -- already running: the looping thread is the one the response is about
      rename_i hrun
      obtain rfl := Option.some.inj h
      have hloop : s.SomeLooping :=
        ((hs.running hrun).resolve_left (by simp [hmain])).resolve_left (by simp [hmain])
      exact hs.of_main rfl rfl (fun _ => Or.inr (Or.inr hloop)) fun _ => hloop.someLive
    · obtain rfl := Option.some.inj h
      exact hs.of_main rfl rfl (fun _ => Or.inl rfl) fun hm => by cases hm
  · obtain ⟨hthreads, hshared, hnext⟩ := joinStep_frame h
    exact hs.of_main hthreads (by rw [hshared]) (fun _ => Or.inr (Or.inl hnext))
      fun hm => by rw [hnext] at hm; cases hm
  · obtain rfl := Option.some.inj h
    -- the new thread stands at the test of its loop
    have hnew : (s.threads ++ [Thread.fresh])[s.threads.length]? = some Thread.fresh := by simp
    refine ⟨fun _ => Or.inr (Or.inr ⟨_, _, hnew, by simp [Thread.Looping, Thread.fresh]⟩),
      fun _ => ⟨_, _, hnew, by simp [Thread.Live, Thread.fresh]⟩, ?_⟩
    exact hs.told.imp_right fun ht => ⟨ht.1, _, _, hnew, by simp [Thread.Live, Thread.fresh]⟩
  · obtain rfl := Option.some.inj h
    exact hs.of_main rfl rfl (fun hr => by cases hr) fun hm => by cases hm
  · rename_i hmain
    obtain ⟨hthreads, hshared, hnext⟩ := joinStep_frame h
    refine hs.of_main hthreads (by rw [hshared]) (fun hr => Or.inr (Or.inr ?_))
      fun hm => by rw [hnext] at hm; cases hm
    rw [hshared] at hr
    obtain ⟨i, u, hu, hl⟩ :=
      ((hs.running hr).resolve_left (by simp [hmain])).resolve_left (by simp [hmain])
    exact ⟨i, u, hthreads ▸ hu, hl⟩
  · -- the response is written: only that to `continue` tells the client anything
    rename_i c hmain
    obtain rfl := Option.some.inj h
    have hrun : s.shared.running = true → s.SomeLooping := fun hr =>
      ((hs.running hr).resolve_left (by simp [hmain])).resolve_left (by simp [hmain])
    refine ⟨fun hr => Or.inr (Or.inr (hrun hr)), fun hm => (by cases hm), ?_⟩
    cases c with
    | resume => exact Or.inr ⟨believes_told rfl _, hs.responding hmain⟩
    | pause =>
      rw [believes_silent rfl]
      exact hs.told
    | disconnect =>
      rw [believes_silent rfl]
      exact hs.told

/-- **The step lemma.** -/
theorem viewStep_synced (a : Move) (v w : View M) (hs : Synced v.sys) (hin : InOrder a v)
    (h : viewStep Z bp a v = some w) : Synced w.sys := by
  rcases viewStep_cases h with heq | ⟨b, rfl, hstep⟩
  · rw [heq]
    exact hs
  · rcases step_cases hstep with ⟨c, rfl, hidle, hw⟩ | ⟨-, hmain⟩ | ⟨i, u, u', g, rfl, hu, ht, hw⟩
    · rw [hw]
      have hrun : v.sys.shared.running = true → v.sys.SomeLooping := fun hr =>
        ((hs.running hr).resolve_left (by simp [hidle])).resolve_left (by simp [hidle])
      cases c with
      | resume =>
        exact hs.of_main rfl rfl (fun hr => Or.inr (Or.inr (hrun hr))) fun hm => by cases hm
      | pause =>
        exact hs.of_main rfl rfl (fun hr => Or.inr (Or.inr (hrun hr))) fun hm => by cases hm
      | disconnect =>
        exact hs.of_main rfl rfl (fun hr => Or.inr (Or.inr (hrun hr))) fun hm => by cases hm
    · exact main_synced hs hmain
    · rw [hw]
      exact emu_synced hs hu ht fun hp => hin (by rw [hu, Option.map_some, hp])

/-- A client in step is right about a target with no live thread. -/
theorem Synced.agrees {s : Sys M} (hs : Synced s) (hnone : s.NoneLive) : s.Agrees :=
  hs.told.resolve_right fun ⟨_, i, t, ht, hl⟩ => hnone i t ht hl

/-! ## One event that overtakes its response -/

/-- The response to `continue` is due, and no thread is left that could still stop. -/
structure Overtaken (Z : Machine M) (bp : UInt16 → Bool) (s : Sys M) : Prop where
  due : s.main = .respond .resume
  noneLive : s.NoneLive

/-- From there the only thing the target can do is to write that response, and to leave the client
    wrong. -/
theorem overtaken_step {a : Move} {v w : View M} (hs : Overtaken Z bp v.sys)
    (h : viewStep Z bp a v = some w) :
    Overtaken Z bp w.sys ∨ (w.sys.Quiet ∧ ¬ w.sys.Agrees) := by
  rcases viewStep_cases h with heq | ⟨b, rfl, hstep⟩
  · rw [heq]
    exact Or.inl hs
  · rcases step_cases hstep with ⟨c, rfl, hidle, -⟩ | ⟨-, hmain⟩ | ⟨i, u, u', g, rfl, hu, ht, -⟩
    · exact absurd (hidle.symm.trans hs.due) (by simp)
    · rw [mainStep, hs.due] at hmain
      have hw := Option.some.inj hmain
      rw [← hw]
      refine Or.inr ⟨⟨rfl, hs.noneLive⟩, fun hag => ?_⟩
      have hrunning := believes_told (x := .response .resume) rfl v.sys.shared.wire
      exact absurd (hrunning.symm.trans hag) (by decide)
    · exact absurd (live_of_threadStep ht) (hs.noneLive i u hu)

/-- An event out of order leaves the target overtaken. -/
theorem overtaken_of_not_inOrder {a : Move} {v w : View M} (hinv : Inv Z bp v.sys)
    (hbad : ¬ InOrder a v) (h : viewStep Z bp a v = some w) : Overtaken Z bp w.sys := by
  obtain ⟨i, rfl, hpoint, hdue⟩ : ∃ i, a = .target (.emu i) ∧
      (v.sys.threads[i]?).map Thread.point = some .sendEvent ∧ v.sys.main = .respond .resume := by
    unfold InOrder at hbad
    split at hbad
    · rename_i i
      obtain ⟨hp, hm⟩ := Classical.not_imp.mp hbad
      exact ⟨i, rfl, hp, Decidable.not_not.mp hm⟩
    · exact absurd trivial hbad
  obtain ⟨t, ht, hp⟩ := Option.map_eq_some_iff.mp hpoint
  obtain ⟨s, hs, rfl⟩ := Option.map_eq_some_iff.mp h
  rcases step_cases hs with ⟨c, hc, -, -⟩ | ⟨hc, -⟩ | ⟨j, u, u', g, hj, hu, hstep, rfl⟩
  · nomatch hc
  · nomatch hc
  · obtain rfl : i = j := by injection hj
    obtain rfl : t = u := Option.some.inj (ht.symm.trans hu)
    refine ⟨hdue, fun j x hx => ?_⟩
    rcases threadStep_wire hstep with ⟨hne, -, -⟩ | ⟨-, -, hdead, -⟩
    · exact absurd hp hne
    · rcases get_set_cases hx with ⟨rfl, rfl⟩ | ⟨hj, hx⟩
      · exact hdead
      · exact fun hl => hj (hinv.unique hx ht hl (live_of_threadStep hstep))

theorem viewStep_inv (a : Move) (v w : View M) (hs : Inv Z bp v.sys)
    (h : viewStep Z bp a v = some w) : Inv Z bp w.sys := by
  rcases viewStep_cases h with heq | ⟨b, rfl, hstep⟩
  · rw [heq]
    exact hs
  · exact step_inv b _ _ hs hstep

/-! ## When the client is right -/

/-- **The client and the target agree exactly if no event overtakes its response.**  In a run in
    which no stopped event is written while the response to a `continue` is still to be written,
    the client has been told that the program has stopped in every quiet state that is reached.
    And a run that ends with no response due, and in which it has been told so in every quiet
    state, is such a run. -/
theorem client_agrees (Z : Machine M) (bp : UInt16 → Bool) (m : M) (launched : Bool)
    (moves : List Move) (v : View M)
    (hrun : exec (viewStep Z bp) moves (viewStart m launched) = some v) :
    (Along (viewStep Z bp) InOrder moves (viewStart m launched) →
      ∀ (pre : List Move) (u : View M), pre <+: moves →
        exec (viewStep Z bp) pre (viewStart m launched) = some u →
        u.sys.Quiet → u.sys.Agrees) ∧
    (v.sys.main = .idle →
      (∀ (pre : List Move) (u : View M), pre <+: moves →
        exec (viewStep Z bp) pre (viewStart m launched) = some u →
        u.sys.Quiet → u.sys.Agrees) →
      Along (viewStep Z bp) InOrder moves (viewStart m launched)) := by
  refine ⟨fun halong pre u hpre hu hquiet => ?_, fun hidle hagree => ?_⟩
  · obtain ⟨post, rfl⟩ := hpre
    have hs : Synced u.sys := exec_inv_along (I := fun w : View M => Synced w.sys) viewStep_synced
      pre _ u (start_synced m launched) halong.of_append hu
    exact hs.agrees hquiet.2
  · by_contra hbad
    obtain ⟨pre, a, post, u, rfl, hu, hout⟩ := exists_of_not_along hbad
    obtain ⟨u', hu', hrest⟩ := exec_append_eq_some.mp hrun
    obtain rfl : u = u' := Option.some.inj (hu.symm.trans hu')
    obtain ⟨w, hw, hrest⟩ := exec_cons_eq_some.mp hrest
    have hinv : Inv Z bp u.sys := exec_inv (I := fun w : View M => Inv Z bp w.sys) viewStep_inv
      pre _ u (start_inv m launched) hu
    -- from the overtaken response on, follow the run to the step that writes it
    have hover := overtaken_of_not_inOrder hinv hout hw
    have hend : ¬ Overtaken Z bp v.sys := fun ho => nomatch hidle.symm.trans ho.due
    obtain ⟨mid, b, rest, x, y, rfl, hx, hxo, hy, hyo⟩ :=
      exec_first_step (P := fun w : View M => Overtaken Z bp w.sys) hover hend hrest
    obtain ⟨hquiet, hwrong⟩ := (overtaken_step hxo hy).resolve_left hyo
    have hreach : exec (viewStep Z bp) (pre ++ a :: (mid ++ [b])) (viewStart m launched)
        = some y :=
      exec_append_eq_some.mpr ⟨u, hu, exec_cons_eq_some.mpr ⟨w, hw,
        exec_append_eq_some.mpr ⟨x, hx, exec_cons_eq_some.mpr ⟨y, hy, rfl⟩⟩⟩⟩
    exact hwrong (hagree _ y ⟨rest, by simp⟩ hreach hquiet)

end

/-- The actions of the target on one `continue` over a single instruction onto a breakpoint: the
    main thread as far as the response, and the emulation thread. -/
def mainActs : List Act := [.call .resume, .main, .main, .main]

def threadActs : List Act := [.emu 0, .emu 0, .emu 0, .emu 0, .emu 0, .emu 0]

/-- The response first, then the event. -/
def answeredFirst : List Move :=
  Move.receive :: Move.send .resume :: (mainActs ++ Act.main :: threadActs).map Move.target

/-- The same actions, but the thread stops before the main thread writes the response. -/
def overtaken : List Move :=
  Move.receive :: Move.send .resume :: (mainActs ++ threadActs ++ [Act.main]).map Move.target

/-- Both halves along the run in order. -/
theorem client_agrees_answeredFirst : ∃ v : View UInt16,
    exec (viewStep counter (· == 1)) answeredFirst (viewStart 0 true) = some v ∧
      v.sys.Agrees ∧ Along (viewStep counter (· == 1)) InOrder answeredFirst (viewStart 0 true) := by
  have hsome : ((exec (viewStep counter (· == 1)) answeredFirst (viewStart 0 true)).any
      fun v => decide v.sys.Quiet) = true := by decide +kernel
  obtain ⟨v, hv, hquiet⟩ := (Option.any_eq_true _ _).mp hsome
  have halong : Along (viewStep counter (· == 1)) InOrder answeredFirst (viewStart 0 true) := by
    decide +kernel
  obtain ⟨hagree, hback⟩ := client_agrees counter (· == 1) 0 true answeredFirst v hv
  have hall := hagree halong
  exact ⟨v, hv, hall _ v (List.prefix_refl _) hv (of_decide_eq_true hquiet),
    hback (of_decide_eq_true hquiet).1 hall⟩

/-- The response overtaken by the event: the program stands at its breakpoint and the last the
    client is told is that it runs. -/
theorem overtaken_disagrees : ∃ v : View UInt16,
    exec (viewStep counter (· == 1)) overtaken (viewStart 0 true) = some v ∧
      v.sys.Quiet ∧ ¬ v.sys.Agrees := by
  have hwrong : ((exec (viewStep counter (· == 1)) overtaken (viewStart 0 true)).any
      fun v => decide (v.sys.Quiet ∧ ¬ v.sys.Agrees)) = true := by decide +kernel
  obtain ⟨v, hv, hd⟩ := (Option.any_eq_true _ _).mp hwrong
  exact ⟨v, hv, of_decide_eq_true hd⟩

end Udap.Emulation
