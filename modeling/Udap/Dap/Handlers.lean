/-
  THE HANDLERS of `dap::target::run` — one for each command, over any target.

  A handler takes the request and the session's state to the text of the response and the new
  state; `none` is an exception that leaves it.  Each is the lambda registered in `target.cpp`
  behind the typed constructor of its request (`register_typed_handler`), or behind the message
  rebuilt from the request and parsed again (`register_handler`, here `rawRequest`).
-/
import Udap.Lib.Table
import Udap.Cxx.Disk
import Udap.Cxx.Path
import Udap.Json.Text
import Udap.Dap.Target
import Udap.Dap.Request

set_option linter.unusedVariables false

namespace Udap

namespace Dap

open Udap.Cxx

/-! ## The session's state -/

/-- What `target::run` and the dispatcher keep between two messages, the target's own state, and
    the messages written. -/
structure Session (S : Type) where
  target : S
  launched : Bool := false
  pathToRef : Table Str Int := ∅
  refToPath : Table Int Str := ∅
  nextSrcRef : Int := 2
  scopeNames : List Str := []
  eventSeq : Int := 1
  responseSeq : Int := 1
  out : List Str := []

variable {F S : Type} [FloatCast F] [JsonText F]

/-! ## Responses and events -/

/-- `dap::response(seq, command)` with `success(ok)`. -/
def response (seq : Int) (command : Str) (ok : Bool) : Json F :=
  .object [(str "type", .str (str "response")), (str "request_seq", .int seq),
    (str "command", .str command), (str "success", .bool ok)]

/-- A successful response with a body, as text. -/
def reply (b : Request F) (body : Json F) : Option Str :=
  JsonText.dump ((response b.seq b.command true).set (str "body") body)

/-- A successful response without a body. -/
def replyEmpty (b : Request F) : Option Str :=
  JsonText.dump (F := F) (response b.seq b.command true)

/-- A failed response with its message. -/
def replyError (b : Request F) (message : Str) : Option Str :=
  JsonText.dump (F := F)
    ((response b.seq b.command false).set (str "message") (.str message))

omit [FloatCast F] [JsonText F] in
theorem response_sorted (seq : Int) (command : Str) (ok : Bool) :
    (response seq command ok : Json F).sorted = true := by
  refine Json.sorted_object fun f hf => ?_
  simp only [List.mem_cons, List.not_mem_nil, or_false] at hf
  rcases hf with rfl | rfl | rfl | rfl <;> rfl

omit [FloatCast F] in
/-- The text of a successful response reads back. -/
theorem parse_reply [LawfulJsonText F] {b : Request F} {body : Json F} {text : Str}
    (hs : body.sorted = true) (h : reply b body = some text) :
    JsonText.parse text = some ((response b.seq b.command true).set (str "body") body) :=
  parse_of_dump (Json.sorted_set (response_sorted _ _ _) _ hs) h

/-- `session::send_event_direct` of an event with the next event number. -/
def sendEvent (F : Type) [JsonText F] (event : Str) (body : Json F) (s : Session S) :
    Option (Session S) := do
  let text ← JsonText.dump (F := F) (.object [(str "seq", .int s.eventSeq),
    (str "type", .str (str "event")), (str "event", .str event), (str "body", body)])
  some { s with eventSeq := s.eventSeq + 1, out := s.out ++ [text] }

/-- `dap::target::stopped(reason)`. -/
def stopped (F : Type) [JsonText F] (reason : Str) (s : Session S) : Option (Session S) :=
  sendEvent F (str "stopped") (.object [(str "reason", .str reason), (str "threadId", .int 1),
    (str "allThreadsStopped", .bool true)]) s

/-- A handler: the response text and the new state, or an exception. -/
abbrev Handler (F S : Type) := Request F → Session S → Option (Str × Session S)

/-- The request as a handler registered with `register_handler` gets it: the message is put
    together again from its parts and parsed. -/
def rawRequest (b : Request F) : Option (Request F) := do
  let text ← JsonText.dump (.object [(str "seq", .int b.seq), (str "type", .str b.type),
    (str "command", .str b.command), (str "arguments", b.arguments)])
  let j ← JsonText.parse (F := F) text
  Request.ofJson j

/-! ## Lifecycle -/

/-- The capabilities in the response to `initialize`. -/
def capabilities : Json F :=
  .object [(str "supportsConfigurationDoneRequest", .bool true),
    (str "supportsBreakpointLocationsRequest", .bool true),
    (str "supportsInstructionBreakpoints", .bool true),
    (str "supportsLoadedSourcesRequest", .bool true),
    (str "supportsDisassembleRequest", .bool true),
    (str "supportsFunctionBreakpoints", .bool true),
    (str "supportsStepBack", .bool true),
    (str "supportsRestartFrame", .bool false),
    (str "supportsEvaluateForHovers", .bool true),
    (str "supportsSetVariable", .bool false),
    (str "supportsTerminateDebuggee", .bool false),
    (str "supportsMemoryReferences", .bool true),
    (str "supportsReadMemoryRequest", .bool true)]

def onInitialize : Handler F S := fun b s => do
  let _ ← InitializeRequest.ofRequest b
  let s ← sendEvent F (str "initialized") (.obj []) s
  let text ← reply b capabilities
  some (text, s)

/-- The source roots among the arguments of `launch`: the strings in the array under each key. -/
def sourceRootsOf (arguments : Json F) (key : Str) : List Str :=
  match arguments.member key with
  | some (.arr items) => items.filterMap Json.getStr
  | _ => []

/-- The start address among the arguments of `launch`; one that cannot be read is ignored. -/
def startAddressOf (arguments : Json F) : Option UInt16 :=
  (arguments.member (str "startAddress")).bind fun v => (addressOf v).map UInt32.toUInt16

/-- The launch arguments of a request. -/
def launchArgsOf (b : Request F) (r : LaunchRequest) : Option LaunchArgs := do
  let sourceRoot ← b.arguments.value (str "sourceRoot") [] Json.getStr
  some { program := r.program, cdbFile := r.cdbFile, mapFile := r.mapFile,
         sourceRoot := sourceRoot,
         sourceRoots := sourceRootsOf b.arguments (str "sourceRoots") ++
           sourceRootsOf b.arguments (str "includeRoots"),
         startAddress := startAddressOf b.arguments }

section
variable (T : Target S)

def onLaunch : Handler F S := fun b s => do
  let r ← LaunchRequest.ofRequest b
  let args ← launchArgsOf b r
  let (launched, t) := T.launch args s.target
  let text ← reply b .null
  some (text, { s with target := t, launched := launched })

def onConfigurationDone : Handler F S := fun b s => do
  let text ← reply b .null
  -- the event is written before the response
  let s ← if s.launched then stopped F (str "entry") s else some s
  some (text, s)

def onDisconnect : Handler F S := fun b s => do
  let r ← rawRequest b
  let text ← reply r .null
  some (text, { s with target := T.disconnect s.target, launched := false })

/-! ## Threads, stack, scopes and variables -/

def onThreads : Handler F S := fun b s => do
  let text ← reply b (.object [(str "threads",
    .arr [.object [(str "id", .int 1), (str "name", .str (str "main"))]])])
  some (text, s)

/-- The lambda `assign_src_ref`: the reference of a path, a new one at its first use. -/
def assignSrcRef (path : Str) (s : Session S) : Int × Session S :=
  match s.pathToRef.lookup path with
  | some ref => (ref, s)
  | none =>
    (s.nextSrcRef, { s with nextSrcRef := s.nextSrcRef + 1,
                            pathToRef := s.pathToRef.assign path s.nextSrcRef,
                            refToPath := s.refToPath.assign s.nextSrcRef path })

/-- Is the path that of C text? -/
def isCFile (path : Str) : Bool :=
  Path.extension path == str ".c" || Path.extension path == str ".h"

/-- The source of a frame: a C file on disk has no reference, anything else has one.
    `fs::exists` may throw. -/
def frameSource (disk : Disk) (path : Str) (s : Session S) : Option (Json F × Session S) := do
  let onDisk ← if isCFile path then disk.fileExists path else some false
  -- 0 tells the client to read the file itself
  let (ref, s) := if onDisk then (0, s) else assignSrcRef path s
  some (.object [(str "name", .str (Path.filename path)),
    (str "presentationHint", .str (str "normal")), (str "path", .str path),
    (str "sourceReference", .int ref)], s)

/-- The frames of the stack from number `id` on. -/
def frames (disk : Disk) : List FrameInfo → Int → Session S → Option (List (Json F) × Session S)
  | [], _, s => some ([], s)
  | f :: fs, id, s => do
    let frame : Json F := .object [(str "id", .int id), (str "name", .str f.name),
      (str "memoryReference", .str f.address), (str "instructionReference", .str f.address),
      (str "line", .int f.line), (str "column", .int 1)]
    let (frame, s) ←
      if f.sourcePath.isEmpty then some (frame, s)
      else (frameSource disk f.sourcePath s).map fun (src, s) => (frame.set (str "source") src, s)
    let (rest, s) ← frames disk fs (id + 1) s
    some (frame :: rest, s)

def onStackTrace (disk : Disk) : Handler F S := fun b s => do
  let _ ← StackTraceRequest.ofRequest b
  let infos := T.getStack s.target
  let (jframes, s) ← frames disk infos 1 s
  let text ← reply b (.object [(str "stackFrames", .arr jframes),
    (str "totalFrames", .int infos.length)])
  some (text, s)

/-- The scopes, numbered from 1. -/
def scopesBody (infos : List ScopeInfo) : Json F :=
  .object [(str "scopes", .arr (infos.mapIdx fun i sc =>
    .object [(str "name", .str sc.name), (str "variablesReference", .int (i + 1)),
      (str "presentationHint", .str sc.hint), (str "expensive", .bool false)]))]

def onScopes : Handler F S := fun b s => do
  let _ ← ScopesRequest.ofRequest b
  let infos := T.getScopes s.target
  let text ← reply b (scopesBody infos)
  some (text, { s with scopeNames := infos.map ScopeInfo.name })

/-- One variable. -/
def variableJson (v : VariableInfo) : Json F :=
  let jv : Json F := .object [(str "name", .str v.name), (str "value", .str v.value),
    (str "variablesReference", .int 0)]
  let jv := if v.type.isEmpty then jv else jv.set (str "type") (.str v.type)
  match v.memoryReference with
  | none => jv
  | some ref => jv.set (str "memoryReference") (.str ref)

/-- The variables of the scope that a reference stands for, if it stands for one. -/
def variablesOf (variablesReference : Int) (s : Session S) : List VariableInfo :=
  -- an `int`: at its minimum the difference wraps, and then too no scope has the index
  let idx := variablesReference - 1
  if 0 ≤ idx then
    match s.scopeNames[idx.toNat]? with
    | some name => T.getVariables name s.target
    | none => []
  else []

def onVariables : Handler F S := fun b s => do
  let r ← VariablesRequest.ofRequest b
  let infos := variablesOf T r.variablesReference s
  let text ← reply b (.object [(str "variables", .arr (infos.map variableJson))])
  some (text, s)

/-! ## Execution -/

def onContinue : Handler F S := fun b s => do
  let _ ← ContinueRequest.ofRequest b
  let text ← reply b (.object [(str "allThreadsContinued", .bool true)])
  some (text, { s with target := T.resume s.target })

def onNext : Handler F S := fun b s => do
  let _ ← NextRequest.ofRequest b
  let s := { s with target := T.stepOver s.target }
  let text ← reply b (.object [(str "allThreadsContinued", .bool false)])
  let s ← stopped F (str "step") s
  some (text, s)

/-- The handlers of `stepIn`, `stepOut` and `stepBack`, which differ in the method they call. -/
def stepHandler (method : S → S) : Handler F S := fun b s => do
  let _ ← StepRequest.ofRequest b
  let s := { s with target := method s.target }
  let text ← replyEmpty b
  let s ← stopped F (str "step") s
  some (text, s)

def onStepIn : Handler F S := stepHandler T.stepIn

def onStepOut : Handler F S := stepHandler T.stepOut

def onStepBack : Handler F S := stepHandler T.stepBack

def onPause : Handler F S := fun b s => do
  let r ← rawRequest b
  let text ← replyEmpty r
  some (text, { s with target := T.pause s.target })

/-! ## Breakpoints -/

/-- One entry of a `breakpoints` array: `verified`, and whatever of the rest is to be shown. -/
def breakpointJson (showLine showMessage : Bool) (bp : BreakpointInfo) : Json F :=
  let jbp : Json F := .object [(str "verified", .bool bp.verified)]
  let jbp := if showLine then jbp.set (str "line") (.int bp.line) else jbp
  let jbp := if showMessage && !bp.message.isEmpty then jbp.set (str "message") (.str bp.message)
    else jbp
  match bp.instructionReference with
  | none => jbp
  | some ref => jbp.set (str "instructionReference") (.str ref)

/-- The body of a response that lists breakpoints. -/
def breakpointsBody (showLine showMessage : Bool) (bps : List BreakpointInfo) : Json F :=
  .object [(str "breakpoints", .arr (bps.map (breakpointJson showLine showMessage)))]

def onSetBreakpoints : Handler F S := fun b s => do
  let r ← SetBreakpointsRequest.ofRequest b
  let (bps, t) := T.setSourceBreakpoints r.sourcePath r.sourceReference r.lines s.target
  let text ← reply b (breakpointsBody true true bps)
  some (text, { s with target := t })

def onSetFunctionBreakpoints : Handler F S := fun b s => do
  let r ← SetFunctionBreakpointsRequest.ofRequest b
  let names ← r.breakpoints.mapM fun bp => bp.value (str "name") [] Json.getStr
  let (bps, t) := T.setFunctionBreakpoints names s.target
  let text ← reply b (breakpointsBody false true bps)
  some (text, { s with target := t })

/-- The instruction references among the breakpoints of a request; one that has none is passed
    over, one that is not a string throws. -/
def instructionReferences : List (Json F) → Option (List Str)
  | [] => some []
  | bp :: bps =>
    match bp.member (str "instructionReference") with
    | none => instructionReferences bps
    | some ref => do
      let text ← ref.getStr
      let rest ← instructionReferences bps
      some (text :: rest)

def onSetInstructionBreakpoints : Handler F S := fun b s => do
  let r ← SetInstructionBreakpointsRequest.ofRequest b
  let refs ← instructionReferences r.breakpoints
  let (bps, t) := T.setInstructionBreakpoints refs s.target
  let text ← reply b (breakpointsBody false false bps)
  some (text, { s with target := t })

def onSetExceptionBreakpoints : Handler F S := fun b s => do
  let r ← rawRequest b
  let text ← reply r .null
  some (text, s)

def onBreakpointLocations : Handler F S := fun b s => do
  let r ← BreakpointLocationsRequest.ofRequest b
  let path ← sourcePathOf r.source
  let locs := T.getBreakpointLocations path r.line r.endLine s.target
  let text ← reply b (.object [(str "breakpoints",
    .arr (locs.map fun loc => .object [(str "line", .int loc.line)]))])
  some (text, s)

/-! ## Sources, memory and the rest -/

/-- The lambda `read_disk_source`. -/
def readDiskSource (disk : Disk) (path : Str) : Option SourceInfo :=
  (disk.read path).map fun content =>
    let ext := Path.extension path
    { content := content,
      mimeType :=
        if ext = str ".c" ∨ ext = str ".h" then str "text/x-c"
        else if ext = str ".s" ∨ ext = str ".asm" ∨ ext = str ".lst" then str "text/x-asm"
        else str "text/plain" }

/-- The path that a `source` request asks for: by reference, or else by the path it gives. -/
def requestedPath (b : Request F) (r : SourceRequest) (s : Session S) : Option Str :=
  if r.sourceReference > 0 then some ((s.refToPath.lookup r.sourceReference).getD [])
  else
    match (b.arguments.member (str "source")).bind (Json.member (str "path")) with
    | some path => path.getStr
    | none => some []

/-- The content of a source: the target's, else that of the file on disk. -/
def sourceOf (disk : Disk) (path : Str) (s : Session S) : Option SourceInfo :=
  if path.isEmpty then none else (T.getSource path s.target).or (readDiskSource disk path)

def onSource (disk : Disk) : Handler F S := fun b s => do
  let r ← SourceRequest.ofRequest b
  let path ← requestedPath b r s
  let text ←
    match sourceOf T disk path s with
    | some info => reply b (.object [(str "content", .str info.content),
        (str "mimeType", .str info.mimeType)])
    | none => replyError b (str "Unknown source")
  some (text, s)

/-- The digits of base 64. -/
def base64Digits : Str :=
  str "ABCDEFGHIJKLMNOPQRSTUVWXYZabcdefghijklmnopqrstuvwxyz0123456789+/"

/-- Digit number `i mod 64` of base 64. -/
def base64Digit (i : Nat) : UInt8 := base64Digits.getD (i % 64) 0

/-- The encoding loop of the `readMemory` handler, three bytes at a time. -/
def base64 : List UInt8 → Str
  | [] => []
  | [x] =>
    let n := x.toNat * 65536
    [base64Digit (n / 262144), base64Digit (n / 4096), 61, 61]
  | [x, y] =>
    let n := x.toNat * 65536 + y.toNat * 256
    [base64Digit (n / 262144), base64Digit (n / 4096), base64Digit (n / 64), 61]
  | x :: y :: z :: rest =>
    let n := x.toNat * 65536 + y.toNat * 256 + z.toNat
    base64Digit (n / 262144) :: base64Digit (n / 4096) :: base64Digit (n / 64) ::
      base64Digit n :: base64 rest

def onReadMemory : Handler F S := fun b s => do
  let r ← ReadMemoryRequest.ofRequest b
  let start : UInt16 := UInt16.ofNat ((r.memoryReference.toNat + r.offset) % 65536).toNat
  let bytes := T.readMemory start (max 0 r.count) s.target
  let text ← reply b (.object [(str "address", .str (formatHex start 4)),
    (str "data", .str (base64 bytes)), (str "unreadableBytes", .int 0)])
  some (text, s)

/-- One disassembled instruction. -/
def instructionJson (i : DisasmInfo) : Json F :=
  let ji : Json F := .object [(str "address", .str i.address),
    (str "instructionBytes", .str i.instructionBytes), (str "instruction", .str i.instruction)]
  let ji := match i.symbol with
    | some sym => ji.set (str "symbol") (.str sym)
    | none => ji
  let ji := match i.sourcePath with
    | some path => ji.set (str "location") (.object [(str "path", .str path)])
    | none => ji
  match i.sourceLine with
  | some line => ji.set (str "line") (.int line)
  | none => ji

def onDisassemble : Handler F S := fun b s => do
  let r ← DisassembleRequest.ofRequest b
  let instrs := T.disassemble r.memoryReference r.offset r.instructionOffset r.instructionCount
    s.target
  let text ← reply b (.object [(str "instructions", .arr (instrs.map instructionJson))])
  some (text, s)

/-- The body of a successful `evaluate`. -/
def evaluateBody (res : EvalInfo) : Json F :=
  let body : Json F := .object [(str "result", .str res.result),
    (str "variablesReference", .int 0)]
  match res.memoryReference with
  | some ref => body.set (str "memoryReference") (.str ref)
  | none => body

def onEvaluate : Handler F S := fun b s => do
  let r ← EvaluateRequest.ofRequest b
  let res := T.evaluate r.expression s.target
  let text ← if res.success then reply b (evaluateBody res) else replyError b res.errorMessage
  some (text, s)

def onLoadedSources : Handler F S := fun b s => do
  let r ← rawRequest b
  let infos := T.getLoadedSources s.target
  let text ← reply r (.object [(str "sources", .arr (infos.map fun info =>
    .object [(str "name", .str info.name), (str "path", .str info.path)]))])
  some (text, s)

/-- The handlers in the order in which `target::run` registers them. -/
def handlers (disk : Disk) : List (Str × Handler F S) :=
  [(str "initialize", onInitialize), (str "launch", onLaunch T),
   (str "configurationDone", onConfigurationDone), (str "disconnect", onDisconnect T),
   (str "threads", onThreads), (str "stackTrace", onStackTrace T disk), (str "scopes", onScopes T),
   (str "variables", onVariables T), (str "continue", onContinue T), (str "next", onNext T),
   (str "stepIn", onStepIn T), (str "stepOut", onStepOut T), (str "stepBack", onStepBack T),
   (str "pause", onPause T), (str "setBreakpoints", onSetBreakpoints T),
   (str "setFunctionBreakpoints", onSetFunctionBreakpoints T),
   (str "setInstructionBreakpoints", onSetInstructionBreakpoints T),
   (str "setExceptionBreakpoints", onSetExceptionBreakpoints),
   (str "breakpointLocations", onBreakpointLocations T), (str "source", onSource T disk),
   (str "readMemory", onReadMemory T), (str "disassemble", onDisassemble T),
   (str "evaluate", onEvaluate T), (str "loadedSources", onLoadedSources T)]

end

end Dap

end Udap
