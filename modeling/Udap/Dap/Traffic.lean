/-
  THE NUMBERS OF THE MESSAGES — three counters, one output.

  Every message to the client is to carry a number, `seq`.  Responses take theirs from the session
  (`response_seq_`), the events of `dap::target` from the target (`event_seq_`), and the `stopped`
  events of the emulation thread from `dbg`, which has a counter of its own.

  1. **System** — `step` is one action of the main thread or of another thread: a message is
     received, its response written, an event sent by the target, an event sent by the emulation
     thread.  The response is a step of its own, so that events may come in front of it.

  2. **Property** — `Numbered`: every message has a number, those of the responses increase, and no two
     events have the same.

  3. **When** — both event counters start at 1, and the answer to a malformed message has no number:
     `ok` excludes the first clash of the two counters, and such messages.  Then every run is
     numbered (`numbered_run`).
-/
import Udap.Dap.Effects

set_option linter.unusedVariables false
set_option linter.unusedSectionVars false

namespace Udap.Dap

open Udap.Cxx Udap.Framing Udap.Run

variable {S : Type} (F : Type) [FloatCast F] [JsonText F]

/-! ## The system -/

/-- The events that `dap::target` can send by itself. -/
inductive TargetEvent where
  | stopped (reason : Str) (threadId : Int)
  | output (text category : Str)
  | terminated

def TargetEvent.name : TargetEvent → Str
  | .stopped _ _ => str "stopped"
  | .output _ _ => str "output"
  | .terminated => str "terminated"

def TargetEvent.body : TargetEvent → Json F
  | .stopped reason threadId => .object [(str "reason", .str reason),
      (str "threadId", .int threadId), (str "allThreadsStopped", .bool true)]
  | .output text category => .object [(str "output", .str text), (str "category", .str category)]
  | .terminated => .obj []

/-- The `stopped` event of the emulation thread. -/
def emulationStopped (hitBreakpoint : Bool) (seq : Int) : Option Str :=
  JsonText.dump (F := F) (.object [(str "seq", .int seq), (str "type", .str (str "event")),
    (str "event", .str (str "stopped")),
    (str "body", .object [(str "reason", .str (if hitBreakpoint then str "breakpoint"
        else str "pause")), (str "threadId", .int 1), (str "allThreadsStopped", .bool true)])])

/-- The session, the counter of `dbg`, and a response that is not written yet. -/
structure Traffic (S : Type) where
  session : Session S
  dbgEventSeq : Int := 1
  pending : Option Str := none

inductive Act where
  | receive (text : Str)
  | respond
  | targetEvent (e : TargetEvent)
  | emulationEnds (hitBreakpoint : Bool)

/-- A message is written. -/
def Traffic.write (text : Str) (w : Traffic S) : Traffic S :=
  { w with session := { w.session with out := w.session.out ++ [text] } }

variable (T : Target S) (disk : Disk)

def step (a : Act) (w : Traffic S) : Option (Traffic S) :=
  match a with
  | .receive text =>
    if w.pending.isSome then none
    else (handleMessage F T disk text w.session).map fun r =>
      { w with session := r.2, pending := some r.1 }
  | .respond =>
    w.pending.map fun resp =>
      if resp.isEmpty then { w with pending := none } else { w.write resp with pending := none }
  | .targetEvent e =>
    (sendEvent F e.name (e.body F) w.session).map fun s => { w with session := s }
  | .emulationEnds hitBreakpoint =>
    (emulationStopped F hitBreakpoint w.dbgEventSeq).map fun text =>
      { w.write text with dbgEventSeq := w.dbgEventSeq + 1 }

/-- Receiving a message and writing its response is one turn of `session::run`. -/
theorem step_receive_respond (text : Str) {w : Traffic S} (hw : w.pending = none) :
    exec (step F T disk) [.receive text, .respond] w
      = (takeMessage F T disk text w.session).map fun s => { w with session := s } := by
  have hreceive : step F T disk (.receive text) w
      = (handleMessage F T disk text w.session).map fun r =>
          { w with session := r.2, pending := some r.1 } := by
    rw [step, hw]
    rfl
  rw [exec_cons, hreceive, takeMessage]
  cases handleMessage F T disk text w.session with
  | none => rfl
  | some r =>
    obtain ⟨resp, s⟩ := r
    obtain ⟨session, dbgEventSeq, pending⟩ := w
    obtain rfl : pending = none := hw
    rw [Option.map_some, Option.bind_some, exec_cons, step]
    show (some _).bind _ = _
    cases resp with
    | nil => rfl
    | cons c cs => rfl

/-! ## What is claimed -/

/-- The number of a message. -/
def numberOf (m : Str) : Option Int :=
  (JsonText.parse (F := F) m).bind fun j =>
    match j.member (str "seq") with
    | some (.int i) => some i
    | _ => none

/-- The number of a message of that type. -/
def numberOfType (type : Str) (m : Str) : Option Int :=
  (JsonText.parse (F := F) m).bind fun j =>
    match j.member (str "type") with
    | some (.str t) => if t = type then numberOf F m else none
    | _ => none

/-- Every message has a number, the numbers of responses increase, and those of events differ. -/
structure Numbered (out : List Str) : Prop where
  all : ∀ m ∈ out, (numberOf F m).isSome = true
  responses : (out.filterMap (numberOfType F (str "response"))).Pairwise (· < ·)
  events : (out.filterMap (numberOfType F (str "event"))).Nodup

/-- When an action keeps the messages numbered: the message is a request; an event comes from the
    counter that has been used, or from either while none has; and the counters are still `int`s. -/
def ok (a : Act) (w : Traffic S) : Bool :=
  (match a with
    | .receive text => (Request.parse F text).any fun b =>
        !sendsEvent b.command w.session || decide (w.dbgEventSeq = 1)
    | .respond => true
    | .targetEvent _ => decide (w.dbgEventSeq = 1)
    | .emulationEnds _ => decide (w.session.eventSeq = 1)) &&
  decide (InInt w.session.responseSeq ∧ InInt w.session.eventSeq ∧ InInt w.dbgEventSeq)

variable {F T disk}

/-! ## Messages -/

variable (F) in
/-- The message is of that type and has that number. -/
def Carries (m type : Str) (i : Int) : Prop :=
  ∃ j : Json F, JsonText.parse m = some j ∧ j.member (str "type") = some (.str type) ∧
    j.member (str "seq") = some (.int i)

theorem Carries.numberOf {m type : Str} {i : Int} (h : Carries F m type i) :
    numberOf F m = some i := by
  obtain ⟨j, hj, -, hseq⟩ := h
  rw [Dap.numberOf, hj, Option.bind_some, hseq]

theorem Carries.numberOfType {m type : Str} {i : Int} (h : Carries F m type i) (type' : Str) :
    numberOfType F type' m = if type = type' then some i else none := by
  have hnumber := h.numberOf
  obtain ⟨j, hj, htype, -⟩ := h
  rw [Dap.numberOfType, hj, Option.bind_some, htype]
  dsimp only
  rw [hnumber]

/-- A response is written. -/
theorem Numbered.response {out : List Str} (h : Numbered F out) {m : Str} {i : Int}
    (hm : Carries F m (str "response") i)
    (hlast : ∀ k ∈ out.filterMap (numberOfType F (str "response")), k < i) :
    Numbered F (out ++ [m]) where
  all := by
    intro x hx
    rcases List.mem_append.mp hx with hx | hx
    · exact h.all x hx
    · rw [List.mem_singleton.mp hx, hm.numberOf]
      rfl
  responses := by
    rw [List.filterMap_append, List.filterMap_cons, hm.numberOfType, if_pos rfl]
    refine List.pairwise_append.mpr ⟨h.responses, List.pairwise_singleton _ _, ?_⟩
    intro k hk l hl
    rw [List.mem_singleton.mp hl]
    exact hlast k hk
  events := by
    rw [List.filterMap_append, List.filterMap_cons, hm.numberOfType, if_neg (by decide),
      List.filterMap_nil, List.append_nil]
    exact h.events

/-- An event is written. -/
theorem Numbered.event {out : List Str} (h : Numbered F out) {m : Str} {i : Int}
    (hm : Carries F m (str "event") i)
    (hnew : i ∉ out.filterMap (numberOfType F (str "event"))) : Numbered F (out ++ [m]) where
  all := by
    intro x hx
    rcases List.mem_append.mp hx with hx | hx
    · exact h.all x hx
    · rw [List.mem_singleton.mp hx, hm.numberOf]
      rfl
  responses := by
    rw [List.filterMap_append, List.filterMap_cons, hm.numberOfType, if_neg (by decide),
      List.filterMap_nil, List.append_nil]
    exact h.responses
  events := by
    rw [List.filterMap_append, List.filterMap_cons, hm.numberOfType, if_pos rfl]
    refine List.nodup_append.mpr ⟨h.events, List.nodup_singleton i, ?_⟩
    intro k hk l hl heq
    rw [List.mem_singleton.mp hl] at heq
    exact hnew (heq ▸ hk)

section
variable [LawfulJsonText F]

/-! ## What one call writes -/

/-- An event that is sent carries the number of the target's counter. -/
theorem sendEvent_carries {name : Str} {body : Json F} (hsorted : body.sorted = true)
    {s t : Session S} (h : sendEvent F name body s = some t) :
    ∃ text, t = { s with eventSeq := s.eventSeq + 1, out := s.out ++ [text] } ∧
      Carries F text (str "event") s.eventSeq := by
  obtain ⟨text, htext, h⟩ := Option.bind_eq_some_iff.mp h
  refine ⟨text, (Option.some.inj h).symm, _, parse_of_dump ?_ htext, rfl, rfl⟩
  refine Json.sorted_object fun f hf => ?_
  simp only [List.mem_cons, List.not_mem_nil, or_false] at hf
  rcases hf with rfl | rfl | rfl | rfl
  · rfl
  · rfl
  · rfl
  · exact hsorted

theorem emulationStopped_carries {hitBreakpoint : Bool} {seq : Int} {text : Str}
    (h : emulationStopped F hitBreakpoint seq = some text) : Carries F text (str "event") seq :=
  ⟨_, parse_of_dump (Json.sorted_object (by simp [Json.sorted_object])) h, rfl, rfl⟩

theorem TargetEvent.body_sorted (e : TargetEvent) : (e.body F).sorted = true := by
  cases e with
  | stopped reason threadId => exact Json.sorted_object (by simp)
  | output text category => exact Json.sorted_object (by simp)
  | terminated => rfl

/-- A response takes the number of the session's counter. -/
theorem injectSeq_carries {b : Request F} {result : Str} (h : Responds b result) (s : Session S) :
    (injectSeq F result s).2 = { s with responseSeq := s.responseSeq + 1 } ∧
      Carries F (injectSeq F result s).1 (str "response") s.responseSeq := by
  obtain ⟨j, text, -, hresult, htext, htype, -, -⟩ := injectSeq_parse h s
  rw [hresult]
  refine ⟨rfl, _, htext, ?_, ?_⟩
  · rw [Json.member_set, if_neg (by decide)]
    exact htype
  · rw [Json.member_set, if_pos rfl]

/-- **One message**: the effect of its command, and a response with the session's number. -/
theorem handleMessage_spec {text : Str} {b : Request F} (hb : Request.parse F text = some b)
    {s t : Session S} {resp : Str} (h : handleMessage F T disk text s = some (resp, t)) :
    ∃ u, Effect F s u ∧ (sendsEvent b.command s = false → Quiet s u ∨ Assigns s u) ∧
      t = { u with responseSeq := u.responseSeq + 1 } ∧
      Carries F resp (str "response") u.responseSeq := by
  obtain ⟨result, u, answer, hd, hresponds, -, hinject⟩ := handleMessage_inject hb h
  obtain ⟨heffect, hno⟩ := dispatch_effect hd
  have hcarries := injectSeq_carries hresponds u
  rw [hinject] at hcarries
  exact ⟨u, heffect, hno, hcarries⟩

/-! ## The invariant -/

variable (F) in
/-- The messages written and the counters: only one of the event counters has moved, and every
    number used lies below the counter it came from. -/
structure Inv (out : List Str) (responseSeq eventSeq dbgEventSeq : Int) (pending : Option Str) :
    Prop where
  numbered : Numbered F out
  waiting : ∀ resp, pending = some resp → Carries F resp (str "response") (responseSeq - 1)
  last : ∀ k ∈ out.filterMap (numberOfType F (str "response")),
    k < responseSeq - if pending.isSome then 1 else 0
  used : ∀ k ∈ out.filterMap (numberOfType F (str "event")), k < max eventSeq dbgEventSeq
  one : eventSeq = 1 ∨ dbgEventSeq = 1
  pos : 1 ≤ eventSeq ∧ 1 ≤ dbgEventSeq

variable {out : List Str} {r e d : Int} {p : Option Str}

theorem inv_start : Inv F [] 1 1 1 none where
  numbered := ⟨fun m hm => absurd hm List.not_mem_nil, List.Pairwise.nil, List.nodup_nil⟩
  waiting := fun resp h => absurd h.symm (Option.some_ne_none resp)
  last := fun k hk => absurd hk List.not_mem_nil
  used := fun k hk => absurd hk List.not_mem_nil
  one := Or.inl rfl
  pos := ⟨Int.le_refl 1, Int.le_refl 1⟩

/-- An event does not touch what is said of responses. -/
theorem last_event {text : Str} {i : Int} (hm : Carries F text (str "event") i) {bound : Int}
    (h : ∀ k ∈ out.filterMap (numberOfType F (str "response")), k < bound) :
    ∀ k ∈ (out ++ [text]).filterMap (numberOfType F (str "response")), k < bound := by
  rwa [List.filterMap_append, List.filterMap_cons, hm.numberOfType, if_neg (by decide),
    List.filterMap_nil, List.append_nil]

theorem used_event {text : Str} {i : Int} (hm : Carries F text (str "event") i) {bound : Int}
    (h : ∀ k ∈ out.filterMap (numberOfType F (str "event")), k < bound) (hi : i < bound) :
    ∀ k ∈ (out ++ [text]).filterMap (numberOfType F (str "event")), k < bound := by
  rw [List.filterMap_append, List.filterMap_cons, hm.numberOfType, if_pos rfl]
  intro k hk
  rcases List.mem_append.mp hk with hk | hk
  · exact h k hk
  · rw [List.mem_singleton.mp hk]
    exact hi

/-- The target sends an event while the emulation thread has sent none. -/
theorem Inv.targetEvent (h : Inv F out r e d p) (hd : d = 1) {text : Str}
    (hm : Carries F text (str "event") e) : Inv F (out ++ [text]) r (e + 1) d p where
  numbered := by
    refine h.numbered.event hm fun hmem => ?_
    have hlt := h.used e hmem
    have hpos := h.pos
    omega
  waiting := h.waiting
  last := last_event hm h.last
  used := by
    have hpos := h.pos
    refine used_event hm (fun k hk => ?_) (by omega)
    have hlt := h.used k hk
    omega
  one := Or.inr hd
  pos := ⟨by have hpos := h.pos; omega, h.pos.2⟩

/-- The emulation thread sends one while the target has sent none. -/
theorem Inv.emulationEvent (h : Inv F out r e d p) (he : e = 1) {text : Str}
    (hm : Carries F text (str "event") d) : Inv F (out ++ [text]) r e (d + 1) p where
  numbered := by
    refine h.numbered.event hm fun hmem => ?_
    have hlt := h.used d hmem
    have hpos := h.pos
    omega
  waiting := h.waiting
  last := last_event hm h.last
  used := by
    have hpos := h.pos
    refine used_event hm (fun k hk => ?_) (by omega)
    have hlt := h.used k hk
    omega
  one := Or.inl he
  pos := ⟨h.pos.1, by have hpos := h.pos; omega⟩

/-- A response is ready. -/
theorem Inv.receive (h : Inv F out r e d none) {resp : Str}
    (hm : Carries F resp (str "response") r) : Inv F out (r + 1) e d (some resp) where
  numbered := h.numbered
  waiting := by
    intro resp' heq
    obtain rfl := Option.some.inj heq
    rwa [Int.add_sub_cancel]
  last := by
    intro k hk
    have hlt := h.last k hk
    simp only [Option.isSome_none, Bool.false_eq_true, if_false] at hlt
    simp only [Option.isSome_some, if_true]
    omega
  used := h.used
  one := h.one
  pos := h.pos

/-- The response is written. -/
theorem Inv.respond {resp : Str} (h : Inv F out r e d (some resp)) :
    Inv F (out ++ [resp]) r e d none := by
  have hm := h.waiting resp rfl
  have hlast : ∀ k ∈ out.filterMap (numberOfType F (str "response")), k < r - 1 := h.last
  exact {
    numbered := h.numbered.response hm hlast
    waiting := fun resp' heq => absurd heq.symm (Option.some_ne_none resp')
    last := by
      rw [List.filterMap_append, List.filterMap_cons, hm.numberOfType, if_pos rfl]
      intro k hk
      simp only [Option.isSome_none, Bool.false_eq_true, if_false]
      rcases List.mem_append.mp hk with hk | hk
      · have hlt := hlast k hk
        omega
      · rw [List.mem_singleton.mp hk]
        omega
    used := by
      rw [List.filterMap_append, List.filterMap_cons, hm.numberOfType, if_neg (by decide),
        List.filterMap_nil, List.append_nil]
      exact h.used
    one := h.one
    pos := h.pos }

/-! ## Runs -/

variable (F) in
/-- The invariant of a system. -/
def Traffic.Ok (w : Traffic S) : Prop :=
  Inv F w.session.out w.session.responseSeq w.session.eventSeq w.dbgEventSeq w.pending

theorem Assigns.counters {s t : Session S} (h : Assigns s t) :
    t.out = s.out ∧ t.responseSeq = s.responseSeq ∧ t.eventSeq = s.eventSeq := by
  induction h with
  | refl => exact ⟨rfl, rfl, rfl⟩
  | @assign t _ path ih =>
    unfold assignSrcRef
    split
    · exact ih
    · exact ih

/-- Receiving a message that is a request. -/
theorem receive_ok {text : Str} {b : Request F} (hb : Request.parse F text = some b)
    {w : Traffic S} (hw : w.Ok F) (hpending : w.pending = none)
    (hevent : sendsEvent b.command w.session = true → w.dbgEventSeq = 1) {resp : Str}
    {t : Session S} (h : handleMessage F T disk text w.session = some (resp, t)) :
    Traffic.Ok F { w with session := t, pending := some resp } := by
  obtain ⟨u, heffect, hno, rfl, hm⟩ := handleMessage_spec hb h
  have hinv : Inv F w.session.out w.session.responseSeq w.session.eventSeq w.dbgEventSeq none := by
    rw [← hpending]
    exact hw
  have hdone : Inv F u.out u.responseSeq u.eventSeq w.dbgEventSeq none := by
    cases heffect with
    | quiet hq =>
      rw [hq.out, hq.responseSeq, hq.eventSeq]
      exact hinv
    | assigns ha =>
      obtain ⟨hout, hr, he⟩ := ha.counters
      rw [hout, hr, he]
      exact hinv
    | @event t u hq name body hsorted hsend =>
      obtain ⟨sent, rfl, hcarries⟩ := sendEvent_carries hsorted hsend
      show Inv F (t.out ++ [sent]) t.responseSeq (t.eventSeq + 1) w.dbgEventSeq none
      -- a command that must not send an event has not: then the state would not have changed
      have hsends : sendsEvent b.command w.session = true := by
        by_contra hn
        rcases hno (Bool.eq_false_iff.mpr hn) with hquiet | hassigns
        · have heq := hquiet.eventSeq
          rw [← hq.eventSeq] at heq
          exact absurd heq (by show t.eventSeq + 1 ≠ t.eventSeq; omega)
        · have heq := hassigns.counters.2.2
          rw [← hq.eventSeq] at heq
          exact absurd heq (by show t.eventSeq + 1 ≠ t.eventSeq; omega)
      rw [hq.out, hq.responseSeq, hq.eventSeq]
      rw [hq.eventSeq] at hcarries
      exact hinv.targetEvent (hevent hsends) hcarries
  exact hdone.receive hm

/-- **The step lemma.** -/
theorem step_ok {a : Act} {w w' : Traffic S} (hw : w.Ok F) (hok : ok F a w = true)
    (h : step F T disk a w = some w') : w'.Ok F := by
  obtain ⟨hcond, -⟩ := Bool.and_eq_true_iff.mp hok
  cases a with
  | receive text =>
    rw [step] at h
    split at h
    · cases h
    · rename_i hpending
      obtain ⟨⟨resp, t⟩, hh, rfl⟩ := Option.map_eq_some_iff.mp h
      obtain ⟨b, hb, hevent⟩ := (Option.any_eq_true ..).mp hcond
      refine receive_ok hb hw (Option.not_isSome_iff_eq_none.mp hpending) (fun hs => ?_) hh
      rw [hs, Bool.not_true, Bool.false_or] at hevent
      exact of_decide_eq_true hevent
  | respond =>
    obtain ⟨resp, hpending, rfl⟩ := Option.map_eq_some_iff.mp h
    have hinv : Inv F w.session.out w.session.responseSeq w.session.eventSeq w.dbgEventSeq
        (some resp) := by
      rw [← hpending]
      exact hw
    have hne : resp.isEmpty = false := by
      rw [List.isEmpty_eq_false_iff]
      rintro rfl
      obtain ⟨j, hj, -⟩ := hinv.waiting [] rfl
      rw [LawfulJsonText.parse_nil] at hj
      cases hj
    rw [hne]
    exact hinv.respond
  | targetEvent ev =>
    obtain ⟨t, hsend, rfl⟩ := Option.map_eq_some_iff.mp h
    obtain ⟨text, rfl, hcarries⟩ := sendEvent_carries ev.body_sorted hsend
    exact Inv.targetEvent hw (of_decide_eq_true hcond) hcarries
  | emulationEnds hitBreakpoint =>
    obtain ⟨text, htext, rfl⟩ := Option.map_eq_some_iff.mp h
    exact Inv.emulationEvent hw (of_decide_eq_true hcond) (emulationStopped_carries htext)

/-- **The messages of a session are numbered** in every run whose actions are all `ok`, in every
    state that it comes to. -/
theorem numbered_run (target : S) {as : List Act} {w : Traffic S}
    (hok : Along (step F T disk) (fun a u => ok F a u = true) as { session := { target } })
    (h : exec (step F T disk) as { session := { target } } = some w) :
    Numbered F w.session.out := by
  have hstart : Traffic.Ok F ({ session := { target } } : Traffic S) := inv_start
  have hinv : w.Ok F := exec_inv_along (fun a u v hu hC hs => step_ok hu hC hs) as _ w hstart hok h
  exact hinv.numbered

end

/-! ## Runs that are and are not numbered -/

/-- A request without arguments. -/
def plainRequest (command : Str) : Str :=
  str "\x7b\"seq\":1,\"type\":\"request\",\"command\":\"" ++ command ++ str "\"\x7d"

/-- The client initializes the session and takes a step. -/
theorem numbered_step :
    ∃ w, exec (step Empty (default : Target Unit) default)
        [.receive (plainRequest (str "initialize")), .respond,
          .receive (plainRequest (str "next")), .respond] { session := { target := () } } = some w ∧
      w.session.out.length = 4 ∧ Numbered Empty w.session.out := by
  have hrun : ((exec (step Empty (default : Target Unit) default)
      [.receive (plainRequest (str "initialize")), .respond,
        .receive (plainRequest (str "next")), .respond] { session := { target := () } }).map
          fun w => w.session.out.length) = some 4 := by
    decide +kernel
  obtain ⟨w, hw, hlength⟩ := Option.map_eq_some_iff.mp hrun
  exact ⟨w, hw, hlength, numbered_run () (by decide +kernel) hw⟩

/-- The client initializes the session and lets the program run to a breakpoint: both events carry
    the number 1.  And the answer to a message that is no JSON carries none. -/
theorem not_numbered :
    (∃ w, exec (step Empty (default : Target Unit) default)
        [.receive (plainRequest (str "initialize")), .respond,
          .receive (plainRequest (str "continue")), .respond, .emulationEnds true]
        { session := { target := () } } = some w ∧ ¬ Numbered Empty w.session.out) ∧
    ∃ w, exec (step Empty (default : Target Unit) default) [.receive (str "hello"), .respond]
        { session := { target := () } } = some w ∧ ¬ Numbered Empty w.session.out := by
  have hclash : ((exec (step Empty (default : Target Unit) default)
      [.receive (plainRequest (str "initialize")), .respond,
        .receive (plainRequest (str "continue")), .respond, .emulationEnds true]
      { session := { target := () } }).map
        fun w => w.session.out.filterMap (numberOfType Empty (str "event"))) = some [1, 1] := by
    decide +kernel
  have hmalformed : ((exec (step Empty (default : Target Unit) default)
      [.receive (str "hello"), .respond] { session := { target := () } }).map
        fun w => w.session.out.all fun m => (numberOf Empty m).isSome) = some false := by
    decide +kernel
  obtain ⟨w, hw, hevents⟩ := Option.map_eq_some_iff.mp hclash
  obtain ⟨v, hv, hall⟩ := Option.map_eq_some_iff.mp hmalformed
  refine ⟨⟨w, hw, fun h => ?_⟩, v, hv, fun h => ?_⟩
  · have hnodup := h.events
    rw [hevents] at hnodup
    exact absurd hnodup (by decide)
  · rw [List.all_eq_true.mpr h.all] at hall
    cases hall

end Udap.Dap
