/-
  THE TRANSCRIPT OF A SESSION — what the client is sent, from its requests alone.

  A response repeats the number and the command of its request.  Six commands also send an event,
  always ahead of their response: `initialize` says that it is done, the four steps that the program
  has stopped, and `configurationDone` that it stands at its entry, if it was launched before.

  1. **Abstract session** — `transcript` is the sequence of messages that belongs to a sequence of
     requests.  Its only state is whether a program is launched; it knows nothing of a target.

  2. **Code** — `Tells` is what a handler does to the messages written and to that state.  Every
     handler does what its command is to do (`handlers_tell`), and so does a message
     (`takeMessage_tells`).

  3. **Refinement** — `run_transcript`: whatever a target answers, whatever it is asked and in which
     order, a run of the session writes the transcript of its requests.
-/
import Udap.Dap.Effects

set_option linter.unusedVariables false
set_option linter.unusedSectionVars false

namespace Udap.Dap

open Udap.Cxx Udap.Framing Udap.Run

variable {S : Type} (F : Type) [FloatCast F] [JsonText F]

/-! ## The abstract session -/

/-- What a message to the client is: an event with its reason, if it has one, or the response to a
    request. -/
inductive Kind where
  | event (name : Str) (reason : Option Str)
  | response (requestSeq : Int) (command : Str)
  deriving DecidableEq

/-- The event ahead of the response to a command. -/
def announced (command : Str) (launched : Bool) : List Kind :=
  if command = str "initialize" then [.event (str "initialized") none]
  else if command = str "configurationDone" then
    if launched then [.event (str "stopped") (some (str "entry"))] else []
  else if command = str "next" ∨ command = str "stepIn" ∨ command = str "stepOut" ∨
      command = str "stepBack" then [.event (str "stopped") (some (str "step"))]
  else []

/-- Is a program launched behind a command? -/
def launchedAfter (command : Str) (launched : Bool) : Bool :=
  if command = str "launch" then true
  else if command = str "disconnect" then false
  else launched

variable {F} in
/-- The messages for a request; none stands for a message that is malformed. -/
def kindsFor (b : Option (Request F)) (launched : Bool) : List Kind :=
  match b with
  | none => [.response 0 (str "<unknown>")]
  | some b => announced b.command launched ++ [.response b.seq b.command]

variable {F} in
/-- Is a program launched behind a request? -/
def launchedBehind (b : Option (Request F)) (launched : Bool) : Bool :=
  match b with
  | none => launched
  | some b => launchedAfter b.command launched

variable {F} in
/-- The messages for a sequence of requests. -/
def transcript : List (Option (Request F)) → Bool → List Kind
  | [], _ => []
  | b :: bs, launched => kindsFor b launched ++ transcript bs (launchedBehind b launched)

/-! ## What is written -/

variable {F} in
/-- The member of an object that is a string. -/
def textMember (key : Str) (j : Json F) : Option Str := (j.member key).bind Json.getStr

/-- What a message written is. -/
def kindOf (m : Str) : Option Kind := do
  let j ← JsonText.parse (F := F) m
  let type ← textMember (str "type") j
  if type = str "event" then
    let name ← textMember (str "event") j
    some (.event name ((j.member (str "body")).bind (textMember (str "reason"))))
  else
    let command ← textMember (str "command") j
    match j.member (str "request_seq") with
    | some (.int seq) => some (.response seq command)
    | _ => none

/-- Nothing but the target's state has changed. -/
def OnlyTarget (s t : Session S) : Prop := t = { s with target := t.target }

/-- What a command does to the messages written, to what is launched and to the scopes. -/
structure Tells (T : Target S) (command : Str) (s t : Session S) : Prop where
  out : t.out.map (kindOf F) = s.out.map (kindOf F) ++ (announced command s.launched).map some
  launched : (∀ args u, (T.launch args u).1 = true) →
    t.launched = launchedAfter command s.launched
  scopeNames : command ≠ str "scopes" → t.scopeNames = s.scopeNames

variable {F} {T : Target S}

/-- A response is one, also with its number. -/
theorem kindOf_response {b : Request F} {m : Str} {j : Json F} (hj : JsonText.parse m = some j)
    (htype : j.member (str "type") = some (.str (str "response")))
    (hseq : j.member (str "request_seq") = some (.int b.seq))
    (hcommand : j.member (str "command") = some (.str b.command)) :
    kindOf F m = some (.response b.seq b.command) := by
  have htext : textMember (str "type") j = some (str "response") := by
    rw [textMember, htype]
    rfl
  have hname : textMember (str "command") j = some b.command := by
    rw [textMember, hcommand]
    rfl
  have hne : str "response" ≠ str "event" := by decide
  simp only [kindOf, hj, htext, hname, hseq, hne, Option.bind_eq_bind, Option.bind_some, if_false]

section
variable [LawfulJsonText F]

/-- An event that is sent is one. -/
theorem sendEvent_kind {name : Str} {body : Json F} (hsorted : body.sorted = true)
    {s t : Session S} (h : sendEvent F name body s = some t) :
    t.out.map (kindOf F) = s.out.map (kindOf F) ++ [some (.event name (textMember (str "reason") body))]
      ∧ t.launched = s.launched ∧ t.scopeNames = s.scopeNames := by
  obtain ⟨text, htext, h⟩ := Option.bind_eq_some_iff.mp h
  obtain rfl := Option.some.inj h
  have hparse := parse_of_dump (Json.sorted_object fun f hf => by
    simp only [List.mem_cons, List.not_mem_nil, or_false] at hf
    rcases hf with rfl | rfl | rfl | rfl
    · rfl
    · rfl
    · rfl
    · exact hsorted) htext
  refine ⟨?_, rfl, rfl⟩
  have hkind : kindOf F text = some (.event name (textMember (str "reason") body)) := by
    rw [kindOf, hparse]
    rfl
  rw [List.map_append, List.map_singleton, hkind]

/-! ## What the handlers tell -/

omit [LawfulJsonText F] in
/-- A command that is announced by nothing and launches nothing. -/
theorem tells_of_onlyTarget {command : Str} (hcalm : ∀ l, announced command l = [])
    (hlaunch : ∀ l, launchedAfter command l = l) {s t : Session S} (h : OnlyTarget s t) :
    Tells F T command s t := by
  rw [OnlyTarget] at h
  rw [h]
  refine ⟨?_, fun _ => (hlaunch s.launched).symm, fun _ => rfl⟩
  rw [hcalm, List.map_nil, List.append_nil]

/-- A command that sends one event. -/
theorem tells_of_event {command name : Str} {body : Json F} (hsorted : body.sorted = true)
    {s t u : Session S} (h : OnlyTarget s t) (hsend : sendEvent F name body t = some u)
    (hevent : announced command s.launched = [.event name (textMember (str "reason") body)])
    (hlaunch : launchedAfter command s.launched = s.launched) : Tells F T command s u := by
  obtain ⟨hout, hlaunched, hscopes⟩ := sendEvent_kind hsorted hsend
  rw [OnlyTarget] at h
  rw [h] at hout hlaunched hscopes
  refine ⟨?_, fun _ => hlaunched.trans hlaunch.symm, fun _ => hscopes⟩
  rw [hout, hevent]
  rfl

theorem tells_stopped {command reason : Str} {s t u : Session S} (h : OnlyTarget s t)
    (hsend : stopped F reason t = some u)
    (hevent : announced command s.launched = [.event (str "stopped") (some reason)])
    (hlaunch : launchedAfter command s.launched = s.launched) : Tells F T command s u :=
  tells_of_event (Json.sorted_object (by simp)) h hsend hevent hlaunch

omit [LawfulJsonText F] in
theorem Assigns.frame {s t : Session S} (h : Assigns s t) :
    t.out = s.out ∧ t.launched = s.launched ∧ t.scopeNames = s.scopeNames := by
  induction h with
  | refl => exact ⟨rfl, rfl, rfl⟩
  | assign _ path ih =>
    unfold assignSrcRef
    split
    · exact ih
    · exact ih

/-- The handler of a command tells what it is to tell. -/
def HasTold (T : Target S) (command : Str) (h : Handler F S) : Prop :=
  ∀ b s, Leads (Tells F T command s) (h b s)

omit [LawfulJsonText F] in
theorem hasTold_of_onlyTarget {command : Str} {h : Handler F S}
    (hcalm : ∀ l, announced command l = []) (hlaunch : ∀ l, launchedAfter command l = l)
    (hh : ∀ b s, Leads (OnlyTarget s) (h b s)) : HasTold T command h :=
  fun b s => (hh b s).imp fun _ => tells_of_onlyTarget hcalm hlaunch

omit [JsonText F] [LawfulJsonText F] [FloatCast F] in
/-- A handler that only computes a text. -/
theorem leads_only {α : Type} {s : Session S} {x : Option α} {f : α → Option Str} :
    Leads (OnlyTarget s) (x.bind fun a => (f a).bind fun text => some (text, s)) :=
  leads_bind fun _ _ => leads_bind fun _ _ => leads_some rfl

theorem stepHandler_told {command : Str}
    (hevent : ∀ l, announced command l = [.event (str "stopped") (some (str "step"))])
    (hlaunch : ∀ l, launchedAfter command l = l) (method : S → S) :
    HasTold T command (stepHandler method : Handler F S) := fun b s =>
  leads_bind fun _ _ => leads_bind fun _ _ => leads_bind fun _ hsend =>
    leads_some (tells_stopped (t := { s with target := method s.target }) rfl hsend
      (hevent s.launched) (hlaunch s.launched))

variable (T) (disk : Disk)

theorem onInitialize_told : HasTold T (str "initialize") (onInitialize : Handler F S) := fun b s =>
  leads_bind fun _ _ => leads_bind fun _ hsend => leads_bind fun _ _ =>
    leads_some (tells_of_event (t := s) rfl rfl hsend rfl rfl)

omit [LawfulJsonText F] in
theorem onLaunch_told : HasTold T (str "launch") (onLaunch T : Handler F S) := fun b s =>
  leads_bind fun _ _ => leads_bind fun args _ => leads_bind fun _ _ =>
    leads_some ⟨(List.append_nil _).symm, fun hlaunch => hlaunch args s.target, fun _ => rfl⟩

theorem onConfigurationDone_told :
    HasTold T (str "configurationDone") (onConfigurationDone : Handler F S) := by
  intro b s
  unfold onConfigurationDone
  refine leads_bind fun _ _ => ?_
  cases hlaunched : s.launched with
  | false =>
    refine leads_some ⟨?_, fun _ => rfl, fun _ => rfl⟩
    rw [hlaunched]
    exact (List.append_nil _).symm
  | true =>
    refine leads_bind fun _ hsend => leads_some (tells_stopped (t := s) rfl hsend ?_ rfl)
    rw [hlaunched]
    rfl

omit [LawfulJsonText F] in
theorem onDisconnect_told : HasTold T (str "disconnect") (onDisconnect T : Handler F S) := fun b s =>
  leads_bind fun _ _ => leads_bind fun _ _ =>
    leads_some ⟨(List.append_nil _).symm, fun _ => rfl, fun _ => rfl⟩

omit [LawfulJsonText F] in
theorem onStackTrace_told : HasTold T (str "stackTrace") (onStackTrace T disk : Handler F S) := by
  intro b s
  refine (onStackTrace_assigns T disk b s).imp fun t h => ?_
  obtain ⟨hout, hlaunched, hscopes⟩ := h.frame
  exact ⟨by rw [hout]; exact (List.append_nil _).symm, fun _ => hlaunched, fun _ => hscopes⟩

omit [LawfulJsonText F] in
theorem onScopes_told : HasTold T (str "scopes") (onScopes T : Handler F S) := fun b s =>
  leads_bind fun _ _ => leads_bind fun _ _ =>
    leads_some ⟨(List.append_nil _).symm, fun _ => rfl, fun h => absurd rfl h⟩

omit [LawfulJsonText F] in
theorem onSource_only (b : Request F) (s : Session S) :
    Leads (OnlyTarget s) (onSource T disk b s) := by
  unfold onSource
  refine leads_bind fun r _ => leads_bind fun path _ => ?_
  split
  · exact leads_bind fun _ _ => leads_some rfl
  · exact leads_bind fun _ _ => leads_some rfl

omit [LawfulJsonText F] in
theorem onEvaluate_only (b : Request F) (s : Session S) :
    Leads (OnlyTarget s) (onEvaluate T b s) := by
  unfold onEvaluate
  refine leads_bind fun r _ => ?_
  dsimp only
  split
  · exact leads_bind fun _ _ => leads_some rfl
  · exact leads_bind fun _ _ => leads_some rfl

/-- **Every handler tells what its command is to tell.** -/
theorem handlers_tell :
    ∀ p ∈ (handlers T disk : List (Str × Handler F S)), HasTold T p.1 p.2 := by
  have hcalm : ∀ {command : Str} {h : Handler F S}, (∀ l, announced command l = []) →
      (∀ l, launchedAfter command l = l) → (∀ b s, Leads (OnlyTarget s) (h b s)) →
      HasTold T command h := hasTold_of_onlyTarget
  simp only [handlers, List.forall_mem_cons]
  refine ⟨onInitialize_told T, onLaunch_told T, onConfigurationDone_told T, onDisconnect_told T,
    hcalm (fun _ => rfl) (fun _ => rfl) fun b s => leads_bind fun _ _ => leads_some rfl,
    onStackTrace_told T disk, onScopes_told T,
    hcalm (fun _ => rfl) (fun _ => rfl) fun b s => leads_only,
    hcalm (fun _ => rfl) (fun _ => rfl) fun b s => leads_bind fun _ _ => leads_bind fun _ _ =>
      leads_some rfl,
    ?_, stepHandler_told (fun _ => rfl) (fun _ => rfl) T.stepIn,
    stepHandler_told (fun _ => rfl) (fun _ => rfl) T.stepOut,
    stepHandler_told (fun _ => rfl) (fun _ => rfl) T.stepBack,
    hcalm (fun _ => rfl) (fun _ => rfl) fun b s => leads_bind fun _ _ => leads_bind fun _ _ =>
      leads_some rfl,
    hcalm (fun _ => rfl) (fun _ => rfl) fun b s => leads_bind fun _ _ => leads_bind fun _ _ =>
      leads_some rfl,
    hcalm (fun _ => rfl) (fun _ => rfl) fun b s => leads_bind fun _ _ => leads_bind fun _ _ =>
      leads_bind fun _ _ => leads_some rfl,
    hcalm (fun _ => rfl) (fun _ => rfl) fun b s => leads_bind fun _ _ => leads_bind fun _ _ =>
      leads_bind fun _ _ => leads_some rfl,
    hcalm (fun _ => rfl) (fun _ => rfl) fun b s => leads_only,
    hcalm (fun _ => rfl) (fun _ => rfl) fun b s => leads_bind fun _ _ => leads_only,
    hcalm (fun _ => rfl) (fun _ => rfl) (onSource_only T disk),
    hcalm (fun _ => rfl) (fun _ => rfl) fun b s => leads_only,
    hcalm (fun _ => rfl) (fun _ => rfl) fun b s => leads_only,
    hcalm (fun _ => rfl) (fun _ => rfl) (onEvaluate_only T),
    hcalm (fun _ => rfl) (fun _ => rfl) fun b s => leads_only,
    fun _ h => absurd h List.not_mem_nil⟩
  -- `next` differs from the other steps in the body of its response
  exact fun b s => leads_bind fun _ _ => leads_bind fun _ _ => leads_bind fun _ hsend =>
    leads_some (tells_stopped (t := { s with target := T.stepOver s.target }) rfl hsend rfl rfl)

variable {T disk}

/-- A command without a handler tells nothing, either. -/
theorem announced_of_lookup {command : Str}
    (h : (handlers T disk : List (Str × Handler F S)).lookup command = none) :
    (∀ l, announced command l = []) ∧ ∀ l, launchedAfter command l = l := by
  have hne : ∀ c ∈ (handlers T disk : List (Str × Handler F S)).map Prod.fst, command ≠ c := by
    intro c hc heq
    obtain ⟨p, hp, rfl⟩ := List.mem_map.mp hc
    have hother := List.lookup_eq_none_iff.mp h p hp
    rw [heq, bne_self_eq_false] at hother
    cases hother
  have hfst : (handlers T disk : List (Str × Handler F S)).map Prod.fst =
      [str "initialize", str "launch", str "configurationDone", str "disconnect", str "threads",
       str "stackTrace", str "scopes", str "variables", str "continue", str "next", str "stepIn",
       str "stepOut", str "stepBack", str "pause", str "setBreakpoints",
       str "setFunctionBreakpoints", str "setInstructionBreakpoints",
       str "setExceptionBreakpoints", str "breakpointLocations", str "source", str "readMemory",
       str "disassemble", str "evaluate", str "loadedSources"] := rfl
  rw [hfst] at hne
  have hno : ∀ c : String, str c ∈ [str "initialize", str "launch", str "configurationDone",
      str "disconnect", str "next", str "stepIn", str "stepOut", str "stepBack"] →
      command ≠ str c := by
    intro c hc
    refine hne (str c) ?_
    simp only [List.mem_cons, List.not_mem_nil, or_false] at hc ⊢
    rcases hc with h | h | h | h | h | h | h | h <;> simp [h]
  constructor
  · intro l
    rw [announced, if_neg (hno "initialize" (by simp)), if_neg (hno "configurationDone" (by simp)),
      if_neg]
    rintro (h | h | h | h)
    · exact hno "next" (by simp) h
    · exact hno "stepIn" (by simp) h
    · exact hno "stepOut" (by simp) h
    · exact hno "stepBack" (by simp) h
  · intro l
    rw [launchedAfter, if_neg (hno "launch" (by simp)), if_neg (hno "disconnect" (by simp))]

/-- **Dispatch** tells what the command is to tell. -/
theorem dispatch_tells {b : Request F} {s t : Session S} {result : Str}
    (h : dispatch F T disk b s = some (result, t)) : Tells F T b.command s t := by
  unfold dispatch at h
  cases hlookup : (handlers (F := F) T disk).lookup b.command with
  | none =>
    rw [hlookup] at h
    obtain ⟨-, rfl⟩ := Prod.mk.inj (Option.some.inj h)
    obtain ⟨hcalm, hstays⟩ := announced_of_lookup hlookup
    exact tells_of_onlyTarget hcalm hstays rfl
  | some handler =>
    rw [hlookup] at h
    obtain ⟨l₁, l₂, hsplit, -⟩ := List.lookup_eq_some_iff.mp hlookup
    exact handlers_tell T disk (b.command, handler) (by rw [hsplit]; simp) b s result t h

/-! ## Messages and runs -/

theorem kindOf_responds {b : Request F} {resp : Str} (h : Responds b resp) :
    kindOf F resp = some (.response b.seq b.command) := by
  obtain ⟨j, hj, -, htype, hseq, hcommand⟩ := h
  exact kindOf_response hj htype hseq hcommand

/-- **One message** writes what its request is to write. -/
theorem takeMessage_tells (hlaunch : ∀ args t, (T.launch args t).1 = true) {text : Str}
    {s t : Session S} (h : takeMessage F T disk text s = some t) :
    t.out.map (kindOf F)
        = s.out.map (kindOf F) ++ (kindsFor (Request.parse F text) s.launched).map some ∧
      t.launched = launchedBehind (Request.parse F text) s.launched := by
  obtain ⟨⟨resp, u⟩, hh, h⟩ := Option.bind_eq_some_iff.mp h
  have hwritten : ∀ {b : Request F}, Responds b resp → t = { u with out := u.out ++ [resp] } := by
    intro b hb
    have hne : resp.isEmpty = false := by
      rw [List.isEmpty_eq_false_iff]
      exact hb.ne_nil
    rw [← Option.some.inj h, hne]
    rfl
  cases hb : Request.parse F text with
  | none =>
    obtain ⟨resp', hh', hresponds⟩ := handleMessage_malformed T disk hb s
    obtain ⟨rfl, rfl⟩ := Prod.mk.inj (Option.some.inj (hh'.symm.trans hh))
    rw [hwritten hresponds]
    refine ⟨?_, rfl⟩
    rw [List.map_append, List.map_singleton, kindOf_responds hresponds]
    rfl
  | some b =>
    have hresponds := (handleMessage_request T disk hb s).2 hh
    obtain ⟨result, v, answer, hd, hanswer, -, hinject⟩ := handleMessage_inject hb hh
    have htells := dispatch_tells hd
    -- the number that is written into the response changes nothing that counts here
    obtain ⟨-, text', -, hresult, -⟩ := injectSeq_parse hanswer v
    obtain ⟨-, rfl⟩ := Prod.mk.inj (hresult.symm.trans hinject)
    rw [hwritten hresponds]
    refine ⟨?_, htells.launched hlaunch⟩
    show (v.out ++ [resp]).map (kindOf F) = _
    rw [List.map_append, htells.out, List.map_singleton, kindOf_responds hresponds, kindsFor,
      List.map_append, List.append_assoc]
    rfl

/-- **A run** writes the transcript of its requests. -/
theorem exec_transcript (hlaunch : ∀ args t, (T.launch args t).1 = true) (texts : List Str)
    {s t : Session S} (h : exec (takeMessage F T disk) texts s = some t) :
    t.out.map (kindOf F)
      = s.out.map (kindOf F) ++ (transcript (texts.map (Request.parse F)) s.launched).map some := by
  induction texts generalizing s with
  | nil =>
    obtain rfl : s = t := Option.some.inj h
    exact (List.append_nil _).symm
  | cons text texts ih =>
    obtain ⟨u, hu, hrun⟩ := exec_cons_eq_some.mp h
    obtain ⟨hout, hlaunched⟩ := takeMessage_tells hlaunch hu
    rw [ih hrun, hout, hlaunched, List.map_cons, transcript, List.map_append, List.append_assoc]

variable (F T disk) in
/-- **What the client sees is a function of its requests**: over every target whose launch succeeds,
    as that of the Z80 does, a session writes the transcript of the messages it reads, each response
    in its place and each event ahead of it. -/
theorem run_transcript (hlaunch : ∀ args t, (T.launch args t).1 = true) (input : IStream)
    (target : S) :
    (run F T disk input { target := target }).map (fun t => t.out.map (kindOf F))
      = (run F T disk input { target := target }).map fun _ =>
          (transcript ((readAll input).1.map (Request.parse F)) false).map some := by
  rw [run_eq]
  cases hrun : exec (takeMessage F T disk) (readAll input).1 { target := target } with
  | none => rfl
  | some t => exact congrArg some (exec_transcript hlaunch _ hrun)

end

/-- A client introduces itself, launches a program and asks to start. -/
def opening : List Str :=
  [str "\x7b\"seq\":1,\"command\":\"initialize\"\x7d",
   str "\x7b\"seq\":2,\"command\":\"launch\"\x7d",
   str "\x7b\"seq\":3,\"command\":\"configurationDone\"\x7d"]

/-- The requests in their frames. -/
theorem readAll_opening : (readAll { rest := opening.flatMap frame }).1 = opening := by
  have hread := readAll_render (opening.map fun p => (plain, p)) (by decide +kernel)
  rw [List.flatMap_map, List.map_map] at hread
  simp only [render_plain] at hread
  exact congrArg Prod.fst hread

/-- It is sent three responses, and two events among them. -/
theorem run_transcript_opening :
    (run Empty (default : Target Unit) default { rest := opening.flatMap frame }
        { target := () }).map (fun t => t.out.map (kindOf Empty))
      = some ([.event (str "initialized") none, .response 1 (str "initialize"),
          .response 2 (str "launch"), .event (str "stopped") (some (str "entry")),
          .response 3 (str "configurationDone")].map some) := by
  rw [run_transcript Empty default default (fun _ _ => rfl), run_eq, readAll_opening]
  decide +kernel

end Udap.Dap
