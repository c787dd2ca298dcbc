/-
  THE SESSION — can one bad message end `session::run`?

  `session::handle_message` catches what `request::parse` throws and nothing else: the typed
  constructors, the handlers and the dumps run outside its `try`.

  1. **Code** — `handleMessage` finds the handler and puts the number into its response; `run` reads
     messages until the first empty one and writes the responses.  `none` is an exception that
     leaves the function.

  2. **Property** — `GetsAnswer`: the message gets a response, and one that repeats the number and the
     command of the request, wherever these are an integer and a string.

  3. **When** — `served` is exactly when: the handler has what it needs (`needs`), the number is an
     `int`, and `type`, if there is one, is a string (`getsAnswer_iff`).  `run_answers` is the same
     for runs: all messages are served exactly if `run` gets through and answers each of them.
-/
import Udap.Lib.Run
import Udap.Dap.Framing
import Udap.Dap.Answers
import Udap.Json.Codec

set_option linter.unusedVariables false
set_option linter.unusedSectionVars false

namespace Udap

/-- Lists of named things that correspond one by one: under each name both or neither has one. -/
theorem lookup_rel {K α β : Type} [BEq K] {R : α → β → Prop} {l : List (K × α)} {m : List (K × β)}
    (h : List.Forall₂ (fun x y => x.1 = y.1 ∧ R x.2 y.2) l m) (k : K) :
    Option.Rel R (l.lookup k) (m.lookup k) := by
  induction h with
  | nil => exact .none
  | @cons x y l m hxy _ ih =>
    obtain ⟨k₁, a⟩ := x
    obtain ⟨k₂, b⟩ := y
    obtain ⟨rfl, hR⟩ := hxy
    rw [List.lookup_cons, List.lookup_cons]
    cases k == k₁ with
    | true => exact .some hR
    | false => exact ih

namespace Dap

open Udap.Cxx Udap.Framing Udap.Run

variable {S : Type} (F : Type) [FloatCast F] [JsonText F]

/-! ## The session -/

/-- `request::parse`. -/
def Request.parse (text : Str) : Option (Request F) :=
  (JsonText.parse text).bind Request.ofJson

/-- The number of a response, written into its text; nothing that goes wrong here matters. -/
def injectSeq (result : Str) (s : Session S) : Str × Session S :=
  match JsonText.parse (F := F) result with
  | none => (result, s)
  | some j =>
    match j.value (str "type") [] Json.getStr with
    | none => (result, s)
    | some type =>
      if type = str "response" then
        ((JsonText.dump (j.set (str "seq") (.int s.responseSeq))).getD result,
          { s with responseSeq := s.responseSeq + 1 })
      else ((JsonText.dump j).getD result, s)

/-- What cannot be parsed is answered as this request. -/
def unknownRequest : Request F := { command := str "<unknown>" }

variable (T : Target S) (disk : Disk)

/-- The loop over the handlers: the first one of that command. -/
def dispatch (b : Request F) (s : Session S) : Option (Str × Session S) :=
  match (handlers T disk).lookup b.command with
  | some handler => handler b s
  | none => some ([], s)

/-- `session::handle_message`: the text of the response, or an exception. -/
def handleMessage (text : Str) (s : Session S) : Option (Str × Session S) :=
  match Request.parse F text with
  | none => do
    let result ← replyError (unknownRequest F) (str "Malformed request")
    some (result, s)
  | some b => do
    let (result, s) ← dispatch F T disk b s
    if result.isEmpty then
      let result ← replyError b (str "Unknown command: " ++ b.command)
      some (injectSeq F result s)
    else some (injectSeq F result s)

/-- One turn of the loop of `session::run`. -/
def takeMessage (text : Str) (s : Session S) : Option (Session S) := do
  let (resp, s) ← handleMessage F T disk text s
  some (if resp.isEmpty then s else { s with out := s.out ++ [resp] })

/-- `session::run`. -/
def run (input : IStream) (s : Session S) : Option (Session S) :=
  if h : (readMessage input).1 = [] then some s
  else (takeMessage F T disk (readMessage input).1 s).bind (run (readMessage input).2)
termination_by input.size
decreasing_by exact readMessage_size h

/-! ## What is claimed of a message, and when it holds -/

/-- The response repeats the number and the command of the request. -/
def IsAnswer (text resp : Str) : Prop :=
  ∃ j : Json F, JsonText.parse resp = some j ∧ j.member (str "type") = some (.str (str "response")) ∧
    ∀ (q : Json F) (i : Int) (c : Str), JsonText.parse text = some q →
      q.member (str "seq") = some (.int i) → q.member (str "command") = some (.str c) →
      j.member (str "request_seq") = some (.int i) ∧ j.member (str "command") = some (.str c)

/-- The message gets one response, and it is written. -/
def GetsAnswer (text : Str) (s : Session S) : Prop :=
  ∃ resp s', handleMessage F T disk text s = some (resp, s') ∧ IsAnswer F text resp ∧
    takeMessage F T disk text s = some { s' with out := s'.out ++ [resp] }

variable {F} in
/-- A number and a command that the response can repeat: the number is an `int`, and the type, if
    there is one, is a string, so that the message is not malformed.  The answer to a malformed
    message has the number 0 and the command `<unknown>`. -/
def repeatable (q : Json F) : Bool :=
  match q.member (str "seq"), q.member (str "command") with
  | some (.int i), some (.str c) =>
    decide (InInt i) && (q.fits (str "type") .string || decide (i = 0 ∧ c = str "<unknown>"))
  | _, _ => true

/-- The message is served: its number and command can be repeated, and the handler has what it
    needs. -/
def served (text : Str) (s : Session S) : Bool :=
  (JsonText.parse (F := F) text).all fun q => repeatable q && (Request.ofJson q).all fun b =>
    ((needs T disk).lookup b.command).all fun n => n b s

variable {F}

theorem repeatable_iff {q : Json F} : repeatable q = true ↔
    ∀ i c, q.member (str "seq") = some (.int i) → q.member (str "command") = some (.str c) →
      InInt i ∧ (q.fits (str "type") .string = true ∨ (i = 0 ∧ c = str "<unknown>")) := by
  unfold repeatable
  split
  · rename_i i c hseq hcommand
    rw [hseq, hcommand, Bool.and_eq_true, Bool.or_eq_true, decide_eq_true_eq, decide_eq_true_eq]
    constructor
    · intro h i' c' hi hc
      obtain rfl : i = i' := by simpa using hi
      obtain rfl : c = c' := by simpa using hc
      exact h
    · exact fun h => h i c rfl rfl
  · rename_i hno
    exact iff_of_true rfl fun i c hi hc => absurd hc (hno i c hi)

variable {T : Target S} {disk : Disk}

/-! ## One message -/

section
variable [LawfulJsonText F]

omit [FloatCast F] in
/-- A response is some text. -/
theorem Responds.ne_nil {b : Request F} {text : Str} (h : Responds b text) : text ≠ [] := by
  rintro rfl
  obtain ⟨j, hj, -⟩ := h
  rw [LawfulJsonText.parse_nil] at hj
  cases hj

omit [FloatCast F] in
/-- The number goes into a response next to what is there, and the session counts on. -/
theorem injectSeq_parse {b : Request F} {result : Str} (h : Responds b result) (s : Session S) :
    ∃ (j : Json F) (text : Str), JsonText.parse result = some j ∧
      injectSeq F result s = (text, { s with responseSeq := s.responseSeq + 1 }) ∧
      JsonText.parse text = some (j.set (str "seq") (.int s.responseSeq)) ∧
      j.member (str "type") = some (.str (str "response")) ∧
      j.member (str "request_seq") = some (.int b.seq) ∧
      j.member (str "command") = some (.str b.command) := by
  obtain ⟨j, hj, hobj, htype, hseq, hcommand⟩ := h
  have hvalue : j.value (str "type") [] Json.getStr = some (str "response") := by
    rw [Json.value_of_object hobj, htype]
    rfl
  have hvalid : (j.set (str "seq") (.int s.responseSeq)).Valid :=
    (LawfulJsonText.parse_valid hj).set (by decide) ⟨rfl, rfl⟩
  obtain ⟨text, htext⟩ : ∃ text, JsonText.dump (j.set (str "seq") (.int s.responseSeq))
      = some text := by
    rw [← Option.isSome_iff_exists, LawfulJsonText.dump_isSome, hvalid.texts]
  refine ⟨j, text, hj, ?_, LawfulJsonText.parse_dump hvalid htext, htype, hseq, hcommand⟩
  simp only [injectSeq, hj, hvalue, if_pos, htext, Option.getD_some]

omit [FloatCast F] in
/-- A response with its number is still one. -/
theorem injectSeq_responds {b : Request F} {result : Str} (h : Responds b result)
    (s : Session S) : Responds b (injectSeq F result s).1 := by
  obtain ⟨j, text, -, hresult, htext, htype, hseq, hcommand⟩ := injectSeq_parse h s
  rw [hresult]
  refine ⟨_, htext, rfl, ?_, ?_, ?_⟩ <;> rw [Json.member_set, if_neg (by decide)]
  · exact htype
  · exact hseq
  · exact hcommand

omit [LawfulJsonText F] in
/-- The message is a request: it is dispatched, and what comes back gets its number. -/
theorem handleMessage_of_parse {text : Str} {b : Request F} (h : Request.parse F text = some b)
    (s : Session S) :
    handleMessage F T disk text s = (dispatch F T disk b s).bind fun r =>
      if r.1.isEmpty then
        (replyError b (str "Unknown command: " ++ b.command)).bind fun result =>
          some (injectSeq F result r.2)
      else some (injectSeq F r.1 r.2) := by
  rw [handleMessage, h]
  rfl

theorem Request.parse_wellFormed {text : Str} {b : Request F}
    (h : Request.parse F text = some b) : b.WellFormed := by
  obtain ⟨j, hj, hb⟩ := Option.bind_eq_some_iff.mp h
  exact Request.ofJson_wellFormed (LawfulJsonText.parse_valid hj) hb

theorem unknownRequest_wellFormed : (unknownRequest F).WellFormed :=
  ⟨show InInt 0 by decide, rfl, rfl, rfl, rfl⟩

variable (T disk) in
/-- **Dispatch**: the handler of the command answers if it has what it needs; without a handler
    there is no answer yet. -/
theorem dispatch_spec {b : Request F} (hb : b.WellFormed) (s : Session S) :
    (dispatch F T disk b s).isSome = (((needs T disk).lookup b.command).all fun n => n b s) ∧
      ∀ {result s'}, dispatch F T disk b s = some (result, s') →
        result = [] ∨ Responds b result := by
  have hrel := lookup_rel (handlers_answered (F := F) T disk) b.command
  unfold dispatch
  revert hrel
  generalize (handlers (F := F) T disk).lookup b.command = handler
  generalize (needs (F := F) T disk).lookup b.command = need
  intro hrel
  cases hrel with
  | none => exact ⟨rfl, fun h => Or.inl (Prod.mk.inj (Option.some.inj h)).1.symm⟩
  | some hanswered => exact ⟨hanswered.isSome b s hb, fun h => Or.inr (hanswered.responds hb h)⟩

variable (T disk) in
/-- A message that is malformed gets the answer to the unknown request. -/
theorem handleMessage_malformed {text : Str} (h : Request.parse F text = none) (s : Session S) :
    ∃ resp, handleMessage F T disk text s = some (resp, s) ∧ Responds (unknownRequest F) resp := by
  have hsome : (replyError (unknownRequest F) (str "Malformed request")).isSome = true := by
    rw [replyError_isSome unknownRequest_wellFormed]
    decide
  obtain ⟨resp, hresp⟩ := Option.isSome_iff_exists.mp hsome
  refine ⟨resp, ?_, replyError_responds hresp⟩
  rw [handleMessage, h]
  show (replyError (unknownRequest F) (str "Malformed request")).bind _ = _
  rw [hresp]
  rfl

variable (T disk) in
/-- A message that is a request gets an answer to it exactly if its handler has what it needs. -/
theorem handleMessage_request {text : Str} {b : Request F} (h : Request.parse F text = some b)
    (s : Session S) :
    (handleMessage F T disk text s).isSome
        = (((needs T disk).lookup b.command).all fun n => n b s) ∧
      ∀ {resp s'}, handleMessage F T disk text s = some (resp, s') → Responds b resp := by
  have hb := Request.parse_wellFormed h
  obtain ⟨hsome, hresponds⟩ := dispatch_spec T disk hb s
  rw [← hsome, handleMessage_of_parse h]
  cases hd : dispatch F T disk b s with
  | none => exact ⟨rfl, nofun⟩
  | some r =>
    rw [Option.bind_some]
    by_cases hempty : r.1.isEmpty = true
    · -- no handler has that command
      have hunknown : (replyError b (str "Unknown command: " ++ b.command)).isSome = true := by
        rw [replyError_isSome hb, utf8_append_of_ascii (by simp [str]), hb.command]
      obtain ⟨result, hresult⟩ := Option.isSome_iff_exists.mp hunknown
      rw [if_pos hempty, hresult]
      refine ⟨rfl, fun hh => ?_⟩
      have := injectSeq_responds (replyError_responds hresult) r.2
      rwa [Option.some.inj hh] at this
    · rw [if_neg hempty]
      refine ⟨rfl, fun hh => ?_⟩
      have hr : Responds b r.1 := (hresponds hd).resolve_left (by simpa using hempty)
      have := injectSeq_responds hr r.2
      rwa [Option.some.inj hh] at this

/-- The response to a request: what its handler returned, or else the answer to an unknown command,
    with the number of the session. -/
theorem handleMessage_inject {text : Str} {b : Request F} (h : Request.parse F text = some b)
    {s t : Session S} {resp : Str} (hh : handleMessage F T disk text s = some (resp, t)) :
    ∃ result u answer, dispatch F T disk b s = some (result, u) ∧ Responds b answer ∧
      (result.isEmpty = false → answer = result) ∧ injectSeq F answer u = (resp, t) := by
  obtain ⟨-, hresponds⟩ := dispatch_spec T disk (Request.parse_wellFormed h) s
  rw [handleMessage_of_parse h] at hh
  obtain ⟨⟨result, u⟩, hd, hh⟩ := Option.bind_eq_some_iff.mp hh
  split at hh
  · rename_i hempty
    obtain ⟨answer, hanswer, hh⟩ := Option.bind_eq_some_iff.mp hh
    refine ⟨result, u, answer, hd, replyError_responds hanswer, fun hne => ?_, Option.some.inj hh⟩
    rw [show result.isEmpty = true from hempty] at hne
    cases hne
  · rename_i hne
    have hr : Responds b result := (hresponds hd).resolve_left fun hnil => hne (by simp [hnil])
    exact ⟨result, u, result, hd, hr, fun _ => rfl, Option.some.inj hh⟩

/-- A response to a request that repeats number and command of the message is its answer, and only
    such a one. -/
theorem isAnswer_iff {text resp : Str} {b : Request F} (h : Responds b resp) :
    IsAnswer F text resp ↔ ∀ (q : Json F) (i : Int) (c : Str), JsonText.parse text = some q →
      q.member (str "seq") = some (.int i) → q.member (str "command") = some (.str c) →
      b.seq = i ∧ b.command = c := by
  obtain ⟨j, hj, -, htype, hseq, hcommand⟩ := h
  constructor
  · rintro ⟨j', hj', -, hrepeat⟩ q i c hq hi hc
    obtain rfl : j = j' := Option.some.inj (hj.symm.trans hj')
    obtain ⟨hi', hc'⟩ := hrepeat q i c hq hi hc
    rw [hseq] at hi'
    rw [hcommand] at hc'
    exact ⟨by simpa using hi', by simpa using hc'⟩
  · intro hrepeat
    refine ⟨j, hj, htype, fun q i c hq hi hc => ?_⟩
    obtain ⟨rfl, rfl⟩ := hrepeat q i c hq hi hc
    exact ⟨hseq, hcommand⟩

/-- Getting an answer is getting a response that is one; writing it cannot fail. -/
theorem getsAnswer_of_responds {text : Str} {s : Session S} {b : Request F}
    (h : ∀ {resp s'}, handleMessage F T disk text s = some (resp, s') → Responds b resp) :
    GetsAnswer F T disk text s ↔ ∃ resp s', handleMessage F T disk text s = some (resp, s') ∧
      IsAnswer F text resp := by
  constructor
  · rintro ⟨resp, s', hh, hanswer, -⟩
    exact ⟨resp, s', hh, hanswer⟩
  · rintro ⟨resp, s', hh, hanswer⟩
    refine ⟨resp, s', hh, hanswer, ?_⟩
    have hne : resp.isEmpty = false := by
      rw [List.isEmpty_eq_false_iff]
      exact (h hh).ne_nil
    rw [takeMessage, hh]
    show some (if resp.isEmpty then s' else _) = _
    rw [hne]
    rfl

/-- Which messages with a number and a command are malformed. -/
theorem ofJson_isSome {q : Json F} {i : Int} {c : Str}
    (hseq : q.member (str "seq") = some (.int i)) (hcommand : q.member (str "command") = some (.str c)) :
    (Request.ofJson q).isSome = q.fits (str "type") .string ∧
      ∀ b, Request.ofJson q = some b → b.seq = Json.castInt i ∧ b.command = c := by
  have hobj := Json.isObject_of_member hseq
  have hseqv : q.value (str "seq") 0 Json.getInt = some (Json.castInt i) := by
    rw [Json.value_of_object hobj, hseq]
    rfl
  have hcommandv : q.value (str "command") [] Json.getStr = some c := by
    rw [Json.value_of_object hobj, hcommand]
    rfl
  refine ⟨?_, fun b hb => ?_⟩
  · simp only [Request.ofJson, hseqv, hcommandv, Option.bind_eq_bind, Option.bind_some,
      Option.isSome_bind, any_const, Json.value_getStr_isSome, Json.value_getJson_isSome, hobj,
      Option.isSome_some, Bool.and_true, Bool.true_and]
  · simp only [Request.ofJson, hseqv, hcommandv, Option.bind_eq_bind, Option.bind_some,
      Option.bind_eq_some_iff, Option.some.injEq] at hb
    obtain ⟨_, -, _, -, rfl⟩ := hb
    exact ⟨rfl, rfl⟩

/-- A malformed message gets its answer exactly if number and command are those of the answer. -/
theorem getsAnswer_malformed {text : Str} {q : Json F} (hq : JsonText.parse text = some q)
    (hb : Request.ofJson q = none) (s : Session S) :
    GetsAnswer F T disk text s ↔ repeatable q = true := by
  have hparse : Request.parse F text = none := by rw [Request.parse, hq, Option.bind_some, hb]
  obtain ⟨resp, hresp, hresponds⟩ := handleMessage_malformed T disk hparse s
  have hget : GetsAnswer F T disk text s ↔ IsAnswer F text resp := by
    rw [getsAnswer_of_responds fun {resp' s'} hh => by
      obtain ⟨rfl, -⟩ := Prod.mk.inj (Option.some.inj (hresp.symm.trans hh))
      exact hresponds]
    constructor
    · rintro ⟨resp', s', hh, hanswer⟩
      obtain ⟨rfl, -⟩ := Prod.mk.inj (Option.some.inj (hresp.symm.trans hh))
      exact hanswer
    · exact fun hanswer => ⟨resp, s, hresp, hanswer⟩
  rw [hget, isAnswer_iff hresponds, repeatable_iff]
  have hfits : ∀ {i c}, q.member (str "seq") = some (.int i) →
      q.member (str "command") = some (.str c) → q.fits (str "type") .string ≠ true := by
    intro i c hi hc
    rw [← (ofJson_isSome hi hc).1, hb]
    exact Bool.false_ne_true
  constructor
  · intro h i c hi hc
    obtain ⟨rfl, rfl⟩ := h q i c hq hi hc
    exact ⟨show InInt 0 by decide, Or.inr ⟨rfl, rfl⟩⟩
  · intro h q' i c hq' hi hc
    obtain rfl : q = q' := Option.some.inj (hq.symm.trans hq')
    obtain ⟨-, htype | ⟨rfl, rfl⟩⟩ := h i c hi hc
    · exact absurd htype (hfits hi hc)
    · exact ⟨rfl, rfl⟩

/-- A request gets its answer exactly if its handler has what it needs and the number is an
    `int`. -/
theorem getsAnswer_request {text : Str} {q : Json F} (hq : JsonText.parse text = some q)
    {b : Request F} (hb : Request.ofJson q = some b) (s : Session S) :
    GetsAnswer F T disk text s ↔
      repeatable q = true ∧ (((needs T disk).lookup b.command).all fun n => n b s) = true := by
  have hparse : Request.parse F text = some b := by rw [Request.parse, hq, Option.bind_some, hb]
  obtain ⟨hsome, hresponds⟩ := handleMessage_request T disk hparse s
  have hrepeat : ∀ {resp s'}, handleMessage F T disk text s = some (resp, s') →
      (IsAnswer F text resp ↔ repeatable q = true) := by
    intro resp s' hh
    rw [isAnswer_iff (hresponds hh), repeatable_iff]
    constructor
    · intro h i c hi hc
      obtain ⟨htype, hcast⟩ := ofJson_isSome hi hc
      obtain ⟨hseq, -⟩ := h q i c hq hi hc
      rw [(hcast b hb).1, Json.castInt_eq_self] at hseq
      rw [hb] at htype
      exact ⟨hseq, Or.inl htype.symm⟩
    · intro h q' i c hq' hi hc
      obtain rfl : q = q' := Option.some.inj (hq.symm.trans hq')
      obtain ⟨hseq, hcommand⟩ := (ofJson_isSome hi hc).2 b hb
      rw [hseq, Json.castInt_eq_self.mpr (h i c hi hc).1]
      exact ⟨rfl, hcommand⟩
  rw [getsAnswer_of_responds hresponds, ← hsome, Option.isSome_iff_exists]
  constructor
  · rintro ⟨resp, s', hh, hanswer⟩
    exact ⟨(hrepeat hh).mp hanswer, _, hh⟩
  · rintro ⟨hq', ⟨resp, s'⟩, hh⟩
    exact ⟨resp, s', hh, (hrepeat hh).mpr hq'⟩

/-- **A message gets its answer exactly if it is served.** -/
theorem getsAnswer_iff (text : Str) (s : Session S) :
    GetsAnswer F T disk text s ↔ served F T disk text s = true := by
  unfold served
  cases hq : JsonText.parse (F := F) text with
  | none =>
    have hparse : Request.parse F text = none := by rw [Request.parse, hq]; rfl
    obtain ⟨resp, hresp, hresponds⟩ := handleMessage_malformed T disk hparse s
    refine iff_of_true ?_ rfl
    refine (getsAnswer_of_responds (b := unknownRequest F) fun {resp' s'} hh => ?_).mpr ⟨resp, s, hresp, ?_⟩
    · obtain ⟨rfl, -⟩ := Prod.mk.inj (Option.some.inj (hresp.symm.trans hh))
      exact hresponds
    · refine (isAnswer_iff hresponds).mpr fun q i c hq' => ?_
      rw [hq] at hq'
      cases hq'
  | some q =>
    rw [Option.all_some, Bool.and_eq_true]
    cases hb : Request.ofJson q with
    | none => simpa using getsAnswer_malformed hq hb s
    | some b => exact getsAnswer_request hq hb s

/-! ## Runs -/

omit [LawfulJsonText F] in
/-- `session::run` takes the messages that `read_message` delivers, one after another. -/
theorem run_eq (input : IStream) (s : Session S) :
    run F T disk input s = exec (takeMessage F T disk) (readAll input).1 s := by
  induction input using readAll.induct generalizing s with
  | case1 input h => rw [run, dif_pos h, readAll, dif_pos h, exec_nil]
  | case2 input h ih =>
    rw [run, dif_neg h, readAll, dif_neg h, exec_cons]
    exact Option.bind_congr fun t _ => ih t

/-- **Every message of a run gets its answer, and the run gets through, exactly if all messages are
    served.** -/
theorem run_answers (input : IStream) (s : Session S) :
    ((run F T disk input s).isSome = true ∧
        Along (takeMessage F T disk) (GetsAnswer F T disk) (readAll input).1 s) ↔
      Along (takeMessage F T disk) (fun text u => served F T disk text u = true)
        (readAll input).1 s := by
  rw [← along_congr getsAnswer_iff]
  refine ⟨And.right, fun h => ⟨?_, h⟩⟩
  rw [run_eq]
  refine exec_isSome_of_along (fun text u hu => ?_) h
  obtain ⟨resp, u', -, -, htake⟩ := hu
  rw [htake]
  rfl

end

/-! ## A message that ends the session, and messages that do not -/

/-- A request to step whose thread is given by name. -/
def nextByName : Str :=
  str "\x7b\"seq\":1,\"type\":\"request\",\"command\":\"next\",\"arguments\":\x7b\"threadId\":\"main\"\x7d\x7d"

/-- A request to step whose thread is given by number. -/
def nextByNumber : Str :=
  str "\x7b\"seq\":2,\"type\":\"request\",\"command\":\"next\",\"arguments\":\x7b\"threadId\":1\x7d\x7d"

/-- Two requests in their frames. -/
theorem readAll_two {p q : Str} (hp : p ≠ [] ∧ p.length < 2 ^ 31) (hq : q ≠ [] ∧ q.length < 2 ^ 31) :
    (readAll { rest := frame p ++ frame q }).1 = [p, q] := by
  have hread := readAll_render [(plain, p), (plain, q)] fun f hf => by
    simp only [List.mem_cons, List.not_mem_nil, or_false] at hf
    rcases hf with rfl | rfl
    · exact hp
    · exact hq
  simp only [List.flatMap_cons, List.flatMap_nil, List.append_nil, render_plain] at hread
  rw [hread]
  rfl

/-- The exception leaves `handle_message` and `run`, and the request behind it is never read. -/
theorem nextByName_ends_run :
    ¬ GetsAnswer Empty (default : Target Unit) default nextByName { target := () } ∧
      run Empty (default : Target Unit) default
        { rest := frame nextByName ++ frame nextByNumber } { target := () } = none := by
  have hthrows : (handleMessage Empty (default : Target Unit) default nextByName
      { target := () }).isSome = false := by decide +kernel
  rw [Option.isSome_eq_false_iff, Option.isNone_iff_eq_none] at hthrows
  refine ⟨?_, ?_⟩
  · rintro ⟨resp, s', hh, -⟩
    rw [hthrows] at hh
    cases hh
  · rw [run_eq, readAll_two (by decide +kernel) (by decide +kernel), exec_cons, takeMessage, hthrows]
    rfl

/-- Something that is no JSON, and a step: both get their answers. -/
theorem run_answers_two :
    (run Empty (default : Target Unit) default
        { rest := frame (str "hello") ++ frame nextByNumber } { target := () }).isSome = true ∧
      Along (takeMessage Empty default default) (GetsAnswer Empty (default : Target Unit) default)
        (readAll { rest := frame (str "hello") ++ frame nextByNumber }).1 { target := () } :=
  (run_answers _ _).mpr (by
    rw [readAll_two (by decide +kernel) (by decide +kernel)]
    decide +kernel)

end Dap

end Udap
