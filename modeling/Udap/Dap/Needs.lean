/-
  WHAT A HANDLER NEEDS — which requests does each handler of `target::run` answer?

  Three things throw on the way to a response: typed access to a field of another type, `fs::exists`,
  and the dump of a string that is not UTF-8.  For each handler this module says exactly when none
  of them does, in terms of the request, the target and the disk.

  1. **Needs** — `fooNeeds` is what the handler `onFoo` needs: the kinds of the fields it reads, and
     UTF-8 in the strings of the target that it shows.  `needs` lists them under the names and in
     the order of `handlers`.

  2. **Answers** — `Answered h C`: on every well-formed request the handler `h` delivers a text
     exactly where `C` holds, and that text is a response to the request (`Responds`).
     `answered_of_steps` proves it of a handler from its steps, and `handlers_answered` has it for
     all of them.
-/
import Udap.Json.Typed
import Udap.Dap.Handlers

set_option linter.unusedVariables false

namespace Udap

namespace Dap

open Udap.Cxx

variable {F S : Type}

/-! ## The strings of what a target tells -/

def ScopeInfo.texts (sc : ScopeInfo) : Bool := utf8 sc.name && utf8 sc.hint

def VariableInfo.texts (v : VariableInfo) : Bool :=
  utf8 v.name && utf8 v.value && utf8 v.type && v.memoryReference.all utf8

def BreakpointInfo.texts (showMessage : Bool) (bp : BreakpointInfo) : Bool :=
  (!showMessage || utf8 bp.message) && bp.instructionReference.all utf8

def SourceInfo.texts (info : SourceInfo) : Bool := utf8 info.content && utf8 info.mimeType

def DisasmInfo.texts (i : DisasmInfo) : Bool :=
  utf8 i.address && utf8 i.instructionBytes && utf8 i.instruction && i.symbol.all utf8 &&
    i.sourcePath.all utf8

def EvalInfo.texts (res : EvalInfo) : Bool :=
  if res.success then utf8 res.result && res.memoryReference.all utf8 else utf8 res.errorMessage

def LoadedSourceInfo.texts (info : LoadedSourceInfo) : Bool := utf8 info.name && utf8 info.path

/-- A frame that can be shown: its strings are UTF-8, and `fs::exists` answers for C text. -/
def FrameInfo.shown (disk : Disk) (f : FrameInfo) : Bool :=
  utf8 f.name && utf8 f.address && utf8 f.sourcePath &&
    (!isCFile f.sourcePath || (disk.fileExists f.sourcePath).isSome)

/-! ## What each handler needs -/

section
variable [FloatCast F]

/-- What a handler needs of the request and of the state in which it comes. -/
abbrev Needs (F S : Type) := Request F → Session S → Bool

/-- Nothing. -/
def needsNothing : Needs F S := fun _ _ => true

/-- Arguments that are an object whose fields have these kinds. -/
def needsFields (fields : List (Str × Json.Kind)) : Needs F S := fun b _ =>
  b.arguments.typed fields

def initializeNeeds : Needs F S :=
  needsFields [(str "adapterID", .string), (str "clientID", .string), (str "clientName", .string),
    (str "locale", .string)]

def launchNeeds : Needs F S :=
  needsFields [(str "noDebug", .boolean), (str "program", .string), (str "cdbFile", .string),
    (str "mapFile", .string), (str "sourceRoot", .string)]

/-- A source whose path, or else name, is a string. -/
def sourcePathFits (src : Json F) : Bool :=
  match src.member (str "path") with
  | some p => p.hasKind .string
  | none => src.fits (str "name") .string

def threadNeeds : Needs F S := needsFields [(str "threadId", .number)]

def stepNeeds : Needs F S :=
  needsFields [(str "threadId", .number), (str "granularity", .string)]

/-- An address that can be read. -/
def addressFits (ref : Json F) : Bool :=
  match ref with
  | .str s => (stoul s 0).isSome
  | _ => ref.hasKind .number

def readMemoryNeeds : Needs F S := fun b _ =>
  b.arguments.typed [(str "offset", .number), (str "count", .number)] &&
    (b.arguments.member (str "memoryReference")).all addressFits

variable (T : Target S)

def stackTraceNeeds (disk : Disk) : Needs F S := fun b s =>
  b.arguments.typed [(str "threadId", .number), (str "startFrame", .number),
    (str "levels", .number)] && (T.getStack s.target).all (FrameInfo.shown disk)

def scopesNeeds : Needs F S := fun b s =>
  b.arguments.typed [(str "frameId", .number)] && (T.getScopes s.target).all ScopeInfo.texts

def variablesNeeds : Needs F S := fun b s =>
  b.arguments.typed [(str "variablesReference", .number)] &&
    (VariablesRequest.ofRequest b).all fun r =>
      (variablesOf T r.variablesReference s).all VariableInfo.texts

def setBreakpointsNeeds : Needs F S := fun b s =>
  let src := (b.arguments.member (str "source")).getD (.obj [])
  let breakpoints := (b.arguments.member (str "breakpoints")).getD (.arr [])
  b.arguments.isObject && sourcePathFits src && src.fits (str "sourceReference") .number &&
    breakpoints.elements.all (·.typed [(str "line", .number)]) &&
    (SetBreakpointsRequest.ofRequest b).all fun r =>
      (T.setSourceBreakpoints r.sourcePath r.sourceReference r.lines s.target).1.all
        (BreakpointInfo.texts true)

/-- The names of the function breakpoints of a request. -/
def functionNames (b : Request F) : Option (List Str) := do
  let r ← SetFunctionBreakpointsRequest.ofRequest b
  r.breakpoints.mapM fun bp => bp.value (str "name") [] Json.getStr

def setFunctionBreakpointsNeeds : Needs F S := fun b s =>
  b.arguments.typed [(str "breakpoints", .array)] &&
    ((b.arguments.member (str "breakpoints")).getD (.arr [])).elements.all
      (·.typed [(str "name", .string)]) &&
    (functionNames b).all fun names =>
      (T.setFunctionBreakpoints names s.target).1.all (BreakpointInfo.texts true)

/-- The instruction references of a request. -/
def requestedReferences (b : Request F) : Option (List Str) := do
  let r ← SetInstructionBreakpointsRequest.ofRequest b
  instructionReferences r.breakpoints

def setInstructionBreakpointsNeeds : Needs F S := fun b s =>
  b.arguments.typed [(str "breakpoints", .array)] &&
    ((b.arguments.member (str "breakpoints")).getD (.arr [])).elements.all
      (·.fits (str "instructionReference") .string) &&
    (requestedReferences b).all fun refs =>
      (T.setInstructionBreakpoints refs s.target).1.all (BreakpointInfo.texts false)

def breakpointLocationsNeeds : Needs F S := fun b _ =>
  b.arguments.typed [(str "line", .number), (str "endLine", .number)] &&
    sourcePathFits ((b.arguments.member (str "source")).getD (.obj []))

/-- The source reference of a request is a number, wherever it stands. -/
def sourceReferenceFits (arguments : Json F) : Bool :=
  match arguments.member (str "sourceReference") with
  | some r => r.hasKind .number
  | none => ((arguments.member (str "source")).getD .null).fits (str "sourceReference") .number

/-- The path of the source is read only where no reference is given. -/
def sourceNeeds (disk : Disk) : Needs F S := fun b s =>
  sourceReferenceFits b.arguments &&
    (SourceRequest.ofRequest b).all fun r =>
      (decide (r.sourceReference > 0) ||
        ((b.arguments.member (str "source")).getD .null).fits (str "path") .string) &&
      (requestedPath b r s).all fun path => (sourceOf T disk path s).all SourceInfo.texts

def disassembleNeeds : Needs F S := fun b s =>
  b.arguments.typed [(str "offset", .number), (str "instructionOffset", .number),
    (str "instructionCount", .number)] &&
    (b.arguments.member (str "memoryReference")).all
      (fun ref => ref.getStr.any fun text => (stoul text 0).isSome) &&
    (DisassembleRequest.ofRequest b).all fun r =>
      (T.disassemble r.memoryReference r.offset r.instructionOffset r.instructionCount
        s.target).all DisasmInfo.texts

def evaluateNeeds : Needs F S := fun b s =>
  b.arguments.typed [(str "expression", .string), (str "context", .string),
    (str "frameId", .number)] &&
    (EvaluateRequest.ofRequest b).all fun r => (T.evaluate r.expression s.target).texts

def loadedSourcesNeeds : Needs F S := fun _ s =>
  (T.getLoadedSources s.target).all LoadedSourceInfo.texts

/-- What each handler needs, in the order in which `target::run` registers them. -/
def needs (disk : Disk) : List (Str × Needs F S) :=
  [(str "initialize", initializeNeeds), (str "launch", launchNeeds),
   (str "configurationDone", needsNothing), (str "disconnect", needsNothing),
   (str "threads", needsNothing), (str "stackTrace", stackTraceNeeds T disk),
   (str "scopes", scopesNeeds T), (str "variables", variablesNeeds T),
   (str "continue", threadNeeds), (str "next", threadNeeds), (str "stepIn", stepNeeds),
   (str "stepOut", stepNeeds), (str "stepBack", stepNeeds), (str "pause", needsNothing),
   (str "setBreakpoints", setBreakpointsNeeds T),
   (str "setFunctionBreakpoints", setFunctionBreakpointsNeeds T),
   (str "setInstructionBreakpoints", setInstructionBreakpointsNeeds T),
   (str "setExceptionBreakpoints", needsNothing),
   (str "breakpointLocations", breakpointLocationsNeeds), (str "source", sourceNeeds T disk),
   (str "readMemory", readMemoryNeeds), (str "disassemble", disassembleNeeds T),
   (str "evaluate", evaluateNeeds T), (str "loadedSources", loadedSourcesNeeds T)]

end

/-! ## The requests that the handlers get -/

/-- What `request::parse` delivers: an `int`, UTF-8, and arguments that the library can write. -/
structure Request.WellFormed (b : Request F) : Prop where
  seq : InInt b.seq
  type : utf8 b.type = true
  command : utf8 b.command = true
  arguments : b.arguments.Valid

section
variable [FloatCast F]

theorem Request.ofJson_wellFormed {j : Json F} (hj : j.Valid) {b : Request F}
    (h : Request.ofJson j = some b) : b.WellFormed := by
  simp only [Request.ofJson, Option.bind_eq_bind, Option.bind_eq_some_iff, Option.some.injEq] at h
  obtain ⟨seq, hseq, type, htype, command, hcommand, arguments, harguments, rfl⟩ := h
  have hstr : ∀ {key s : Str}, j.value key [] Json.getStr = some s → utf8 s = true := by
    intro key s hs
    rcases Json.value_cases hs with rfl | ⟨v, hv, hget⟩
    · rfl
    · cases v with
      | str s' =>
        obtain rfl := Option.some.inj hget
        exact (hj.member hv).texts
      | null | bool | int | float | arr | obj => cases hget
  refine ⟨?_, hstr htype, hstr hcommand, ?_⟩
  · rcases Json.value_cases hseq with rfl | ⟨v, -, hget⟩
    · exact show InInt 0 by decide
    · exact Json.getInt_inInt hget
  · rcases Json.value_cases harguments with rfl | ⟨v, hv, hget⟩
    · exact ⟨rfl, rfl⟩
    · obtain rfl := Option.some.inj hget
      exact hj.member hv

variable [JsonText F] [LawfulJsonText F]

/-- **A request that is put together again is the request.** -/
theorem rawRequest_eq {b : Request F} (hb : b.WellFormed) : rawRequest b = some b := by
  have htexts : (Json.object [(str "seq", .int b.seq), (str "type", .str b.type),
      (str "command", .str b.command), (str "arguments", b.arguments)]).texts = true := by
    rw [Json.texts_object rfl]
    simp [hb.type, hb.command, hb.arguments.texts]
  have hsorted : (Json.object [(str "seq", .int b.seq), (str "type", .str b.type),
      (str "command", .str b.command), (str "arguments", b.arguments)]).sorted = true := by
    refine Json.sorted_object fun f hf => ?_
    simp only [List.mem_cons, List.not_mem_nil, or_false] at hf
    rcases hf with rfl | rfl | rfl | rfl
    · rfl
    · rfl
    · rfl
    · exact hb.arguments.sorted
  obtain ⟨text, htext⟩ : ∃ text, JsonText.dump (Json.object [(str "seq", .int b.seq),
      (str "type", .str b.type), (str "command", .str b.command),
      (str "arguments", b.arguments)]) = some text := by
    rw [← Option.isSome_iff_exists, LawfulJsonText.dump_isSome, htexts]
  have hparse : Request.ofJson (Json.object [(str "seq", .int b.seq), (str "type", .str b.type),
      (str "command", .str b.command), (str "arguments", b.arguments)])
        = some { b with seq := Json.castInt b.seq } := rfl
  simp only [rawRequest, htext, Option.bind_eq_bind, Option.bind_some,
    parse_of_dump hsorted htext, hparse, Json.castInt_eq_self.mpr hb.seq]

end

section
variable [JsonText F]

/-! ## Responses -/

/-- The text is that of a response to the request. -/
def Responds (b : Request F) (text : Str) : Prop :=
  ∃ j : Json F, JsonText.parse text = some j ∧ j.isObject = true ∧
    j.member (str "type") = some (.str (str "response")) ∧
    j.member (str "request_seq") = some (.int b.seq) ∧
    j.member (str "command") = some (.str b.command)

omit [JsonText F] in
/-- A response with one more member can be written if the member can. -/
theorem response_set_texts {b : Request F} (hb : b.WellFormed) (ok : Bool) {key : Str}
    (hkey : key = str "body" ∨ key = str "message") (v : Json F) :
    ((response b.seq b.command ok).set key v).texts = v.texts := by
  rw [response, Json.object_set, List.cons_append, List.cons_append, List.cons_append,
    List.cons_append, List.nil_append]
  have hresponse : utf8 (str "response") = true := rfl
  rcases hkey with rfl | rfl
  · rw [Json.texts_object rfl]
    simp [hb.command, hresponse]
  · rw [Json.texts_object rfl]
    simp [hb.command, hresponse]

variable [LawfulJsonText F]

theorem responds_set {b : Request F} {ok : Bool} {key : Str}
    (hkey : key = str "body" ∨ key = str "message") {v : Json F} (hv : v.sorted = true)
    {text : Str} (h : JsonText.dump ((response b.seq b.command ok).set key v) = some text) :
    Responds b text := by
  refine ⟨_, parse_of_dump (Json.sorted_set (response_sorted _ _ _) key hv) h, rfl, ?_⟩
  have hother : ∀ k, k ≠ str "body" → k ≠ str "message" →
      ((response b.seq b.command ok).set key v).member k
        = (response b.seq b.command ok : Json F).member k := by
    intro k hbody hmessage
    rw [Json.member_set, if_neg]
    rintro rfl
    rcases hkey with hk | hk
    · exact hbody hk
    · exact hmessage hk
  refine ⟨?_, ?_, ?_⟩ <;> rw [hother _ (by decide) (by decide)] <;> rfl

theorem reply_isSome {b : Request F} (hb : b.WellFormed) (body : Json F) :
    (reply b body).isSome = body.texts := by
  rw [reply, LawfulJsonText.dump_isSome, response_set_texts hb true (Or.inl rfl)]

theorem reply_responds {b : Request F} {body : Json F} (hs : body.sorted = true) {text : Str}
    (h : reply b body = some text) : Responds b text :=
  responds_set (Or.inl rfl) hs h

theorem replyError_isSome {b : Request F} (hb : b.WellFormed) (message : Str) :
    (replyError b message).isSome = utf8 message := by
  rw [replyError, LawfulJsonText.dump_isSome, response_set_texts hb false (Or.inr rfl),
    Json.texts_str]

theorem replyError_responds {b : Request F} {message text : Str}
    (h : replyError b message = some text) : Responds b text :=
  responds_set (Or.inr rfl) (Json.sorted_str message) h

theorem replyEmpty_isSome {b : Request F} (hb : b.WellFormed) : (replyEmpty b).isSome = true := by
  rw [replyEmpty, LawfulJsonText.dump_isSome, response, Json.texts_object rfl]
  have hresponse : utf8 (str "response") = true := rfl
  simp [hb.command, hresponse]

theorem replyEmpty_responds {b : Request F} {text : Str} (h : replyEmpty b = some text) :
    Responds b text :=
  ⟨_, parse_of_dump (response_sorted _ _ _) h, rfl, rfl, rfl, rfl⟩

end

/-! ## Handlers that answer -/

section
variable [JsonText F]

/-- The handler delivers a text exactly where `C` holds, and then a response to the request. -/
structure Answered (h : Handler F S) (C : Needs F S) : Prop where
  isSome : ∀ b s, b.WellFormed → (h b s).isSome = C b s
  responds : ∀ {b s text s'}, b.WellFormed → h b s = some (text, s') → Responds b text

/-- **The rule for handlers.**  A handler that reads its request, writes the response and goes on to
    a new state needs what reading and writing need. -/
theorem answered_of_steps {α : Type} {h : Handler F S} {C : Needs F S}
    (read : Request F → Session S → Option α) (write : α → Request F → Session S → Option Str)
    (next : α → Session S → Option (Session S))
    (heq : ∀ b s, b.WellFormed → h b s = (read b s).bind fun r => (write r b s).bind fun text =>
      (next r s).bind fun s' => some (text, s'))
    (hwrite : ∀ {r b s text}, read b s = some r → write r b s = some text → Responds b text)
    (hnext : ∀ r s, (next r s).isSome = true)
    (hC : ∀ b s, b.WellFormed → ((read b s).any fun r => (write r b s).isSome) = C b s) :
    Answered h C where
  isSome b s hb := by
    rw [heq b s hb, ← hC b s hb]
    simp only [Option.isSome_bind, hnext, any_const, Option.isSome_some, Bool.and_true]
  responds {b s text s'} hb hh := by
    rw [heq b s hb] at hh
    obtain ⟨r, hr, hh⟩ := Option.bind_eq_some_iff.mp hh
    obtain ⟨text', htext, hh⟩ := Option.bind_eq_some_iff.mp hh
    obtain ⟨s'', -, hh⟩ := Option.bind_eq_some_iff.mp hh
    obtain ⟨rfl, -⟩ := Prod.mk.inj (Option.some.inj hh)
    exact hwrite hr htext

/-- The rule for handlers whose response is a successful one with a body. -/
theorem answered_of_reply [LawfulJsonText F] {α : Type} {h : Handler F S} {C : Needs F S}
    (read : Request F → Session S → Option α) (body : α → Session S → Json F)
    (next : α → Session S → Option (Session S))
    (heq : ∀ b s, b.WellFormed → h b s = (read b s).bind fun r => (reply b (body r s)).bind
      fun text => (next r s).bind fun s' => some (text, s'))
    (hsorted : ∀ {r b s}, read b s = some r → (body r s).sorted = true)
    (hnext : ∀ r s, (next r s).isSome = true)
    (hC : ∀ b s, ((read b s).any fun r => (body r s).texts) = C b s) : Answered h C := by
  refine answered_of_steps read (fun r b s => reply b (body r s)) next heq ?_ hnext ?_
  · intro r b s text hr htext
    exact reply_responds (hsorted hr) htext
  · intro b s hb
    simp only [reply_isSome hb]
    exact hC b s

end

end Dap

end Udap
