/-
  REQUESTS — from the JSON object of a message to the typed request of its handler.

  `Request.ofJson` is `request::parse` behind the JSON parser; each typed request is made from it by
  a constructor that reads its fields from `arguments`.  A constructor fails (`none`) where it
  throws: at a field of the wrong type, at `arguments` that is no object, at a number that
  `std::stoul` cannot read.

  Several constructors read the same fields; `threadId` and `granularity` are read by one
  definition (`threadIdOf`, `granularityOf`) under the name of each.
-/
import Udap.Json.Value

namespace Udap.Dap

open Udap Udap.Cxx

variable {F : Type} [FloatCast F]

/-- `dap::request`. -/
structure Request (F : Type) where
  seq : Int := 0
  type : Str := []
  command : Str := []
  arguments : Json F := .obj []

/-- `request::parse` on the parsed message. -/
def Request.ofJson (j : Json F) : Option (Request F) := do
  let seq ← j.value (str "seq") 0 Json.getInt
  let type ← j.value (str "type") [] Json.getStr
  let command ← j.value (str "command") [] Json.getStr
  let arguments ← j.value (str "arguments") (.obj []) Json.getJson
  some { seq, type, command, arguments }

/-! ## The typed requests -/

structure InitializeRequest where
  adapterId : Str
  clientId : Str
  clientName : Str
  locale : Str

def InitializeRequest.ofRequest (b : Request F) : Option InitializeRequest := do
  let adapterId ← b.arguments.value (str "adapterID") [] Json.getStr
  let clientId ← b.arguments.value (str "clientID") [] Json.getStr
  let clientName ← b.arguments.value (str "clientName") [] Json.getStr
  let locale ← b.arguments.value (str "locale") [] Json.getStr
  some { adapterId, clientId, clientName, locale }

structure LaunchRequest where
  noDebug : Bool
  program : Str
  cdbFile : Str
  mapFile : Str

def LaunchRequest.ofRequest (b : Request F) : Option LaunchRequest := do
  let noDebug ← b.arguments.value (str "noDebug") false Json.getBool
  let program ← b.arguments.value (str "program") [] Json.getStr
  let cdbFile ← b.arguments.value (str "cdbFile") [] Json.getStr
  let mapFile ← b.arguments.value (str "mapFile") [] Json.getStr
  some { noDebug, program, cdbFile, mapFile }

structure SetBreakpointsRequest where
  sourcePath : Str := []
  sourceReference : Int := 0
  lines : List Int := []

/-- The path of a source: its `path`, else its `name`, else nothing. -/
def sourcePathOf (src : Json F) : Option Str :=
  match src.member (str "path") with
  | some p => p.getStr
  | none =>
    match src.member (str "name") with
    | some n => n.getStr
    | none => some []

def SetBreakpointsRequest.ofRequest (b : Request F) : Option SetBreakpointsRequest := do
  let src ← b.arguments.value (str "source") (.obj []) Json.getJson
  let sourcePath ← sourcePathOf src
  let sourceReference ←
    match src.member (str "sourceReference") with
    | some r => r.getInt
    | none => some 0
  -- a breakpoint without a line is one of line 1
  let breakpoints ← b.arguments.value (str "breakpoints") (.arr []) Json.getJson
  let lines ← breakpoints.elements.mapM fun bp => bp.value (str "line") 1 Json.getInt
  some { sourcePath, sourceReference, lines }

structure StackTraceRequest where
  threadId : Int
  startFrame : Int
  levels : Int

def StackTraceRequest.ofRequest (b : Request F) : Option StackTraceRequest := do
  let threadId ← b.arguments.value (str "threadId") 0 Json.getInt
  let startFrame ← b.arguments.value (str "startFrame") 0 Json.getInt
  let levels ← b.arguments.value (str "levels") 0 Json.getInt
  some { threadId, startFrame, levels }

structure ScopesRequest where
  frameId : Int

def ScopesRequest.ofRequest (b : Request F) : Option ScopesRequest := do
  let frameId ← b.arguments.value (str "frameId") 0 Json.getInt
  some { frameId }

structure VariablesRequest where
  variablesReference : Int

def VariablesRequest.ofRequest (b : Request F) : Option VariablesRequest := do
  let variablesReference ← b.arguments.value (str "variablesReference") 0 Json.getInt
  some { variablesReference }

/-- The field `threadId`. -/
def threadIdOf (b : Request F) : Option Int := b.arguments.value (str "threadId") 0 Json.getInt

/-- The field `granularity`. -/
def granularityOf (b : Request F) : Option Str :=
  b.arguments.value (str "granularity") [] Json.getStr

structure ContinueRequest where
  threadId : Int

def ContinueRequest.ofRequest (b : Request F) : Option ContinueRequest := do
  let threadId ← threadIdOf b
  some { threadId }

structure NextRequest where
  threadId : Int

def NextRequest.ofRequest (b : Request F) : Option NextRequest := do
  let threadId ← threadIdOf b
  some { threadId }

/-- The requests `stepIn`, `stepOut` and `stepBack` have the same fields. -/
structure StepRequest where
  threadId : Int
  granularity : Str

def StepRequest.ofRequest (b : Request F) : Option StepRequest := do
  let threadId ← threadIdOf b
  let granularity ← granularityOf b
  some { threadId, granularity }

structure SourceRequest where
  sourceReference : Int

def SourceRequest.ofRequest (b : Request F) : Option SourceRequest := do
  let sourceReference ←
    match b.arguments.member (str "sourceReference") with
    | some r => r.getInt
    | none =>
      match (b.arguments.member (str "source")).bind (Json.member (str "sourceReference")) with
      | some r => r.getInt
      | none => some 0
  some { sourceReference }

structure ReadMemoryRequest where
  memoryReference : UInt16
  offset : Int
  count : Int

/-- An address given as text or as a number. -/
def addressOf (ref : Json F) : Option UInt32 :=
  match ref with
  | .str s => (stoul s 0).map UInt32.ofNat
  | _ => ref.getUInt32

def ReadMemoryRequest.ofRequest (b : Request F) : Option ReadMemoryRequest := do
  let memoryReference ←
    match b.arguments.member (str "memoryReference") with
    | some ref => (addressOf ref).map UInt32.toUInt16
    | none => some 0
  let offset ← b.arguments.value (str "offset") 0 Json.getInt
  let count ← b.arguments.value (str "count") 0 Json.getInt
  some { memoryReference, offset, count }

structure DisassembleRequest where
  memoryReference : Int
  offset : Int
  instructionOffset : Int
  instructionCount : Int

def DisassembleRequest.ofRequest (b : Request F) : Option DisassembleRequest := do
  let memoryReference ←
    match b.arguments.member (str "memoryReference") with
    | some ref => do
      let text ← ref.getStr
      let raw ← stoul text 0
      -- `std::stoul` into an `int`
      some (Json.castInt raw)
    | none => some 0
  let offset ← b.arguments.value (str "offset") 0 Json.getInt
  let instructionOffset ← b.arguments.value (str "instructionOffset") 0 Json.getInt
  let instructionCount ← b.arguments.value (str "instructionCount") 0 Json.getInt
  some { memoryReference, offset, instructionOffset, instructionCount }

structure BreakpointLocationsRequest (F : Type) where
  source : Json F
  line : Int
  endLine : Int

def BreakpointLocationsRequest.ofRequest (b : Request F) :
    Option (BreakpointLocationsRequest F) := do
  let source ← b.arguments.value (str "source") (.obj []) Json.getJson
  let line ← b.arguments.value (str "line") 0 Json.getInt
  let endLine ← b.arguments.value (str "endLine") 0 Json.getInt
  -- without an end only the one line is asked for
  some { source, line, endLine := if endLine = 0 then line else endLine }

structure SetFunctionBreakpointsRequest (F : Type) where
  breakpoints : List (Json F)

def SetFunctionBreakpointsRequest.ofRequest (b : Request F) :
    Option (SetFunctionBreakpointsRequest F) := do
  let breakpoints ← b.arguments.value (str "breakpoints") [] Json.getVector
  some { breakpoints }

structure SetInstructionBreakpointsRequest (F : Type) where
  breakpoints : List (Json F)

def SetInstructionBreakpointsRequest.ofRequest (b : Request F) :
    Option (SetInstructionBreakpointsRequest F) := do
  let breakpoints ← b.arguments.value (str "breakpoints") [] Json.getVector
  some { breakpoints }

structure EvaluateRequest where
  expression : Str
  context : Str
  frameId : Int

def EvaluateRequest.ofRequest (b : Request F) : Option EvaluateRequest := do
  let expression ← b.arguments.value (str "expression") [] Json.getStr
  let context ← b.arguments.value (str "context") [] Json.getStr
  let frameId ← b.arguments.value (str "frameId") 0 Json.getInt
  some { expression, context, frameId }

end Udap.Dap
