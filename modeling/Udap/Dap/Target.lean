/-
  THE TARGET — the interface that `dap::target::run` drives.

  A `Target S` is one implementation of the virtual methods of `dap::target` over a state `S`: each
  method is a total function, since a target here is one whose methods return normally.  A method
  that is `const` in the source only reads the state.  The structures are those of `target.h`.
-/
import Udap.Cxx.Text

namespace Udap.Dap

/-- `dap::launch_args`. -/
structure LaunchArgs where
  program : Str := []
  cdbFile : Str := []
  mapFile : Str := []
  sourceRoot : Str := []
  sourceRoots : List Str := []
  startAddress : Option UInt16 := none
  deriving DecidableEq

/-- `dap::frame_info`. -/
structure FrameInfo where
  name : Str
  address : Str
  sourcePath : Str
  line : Int := 0

/-- `dap::scope_info`. -/
structure ScopeInfo where
  name : Str
  hint : Str

/-- `dap::variable_info`. -/
structure VariableInfo where
  name : Str
  value : Str
  type : Str
  memoryReference : Option Str

/-- `dap::source_info`. -/
structure SourceInfo where
  content : Str
  mimeType : Str := str "text/plain"

/-- `dap::breakpoint_info`. -/
structure BreakpointInfo where
  verified : Bool := false
  line : Int := 0
  message : Str := []
  instructionReference : Option Str := none
  deriving DecidableEq

/-- `dap::disasm_info`. -/
structure DisasmInfo where
  address : Str
  instructionBytes : Str
  instruction : Str
  symbol : Option Str
  sourcePath : Option Str
  sourceLine : Option Int

/-- `dap::eval_info`. -/
structure EvalInfo where
  success : Bool := true
  result : Str
  errorMessage : Str
  memoryReference : Option Str

/-- `dap::bp_location_info`. -/
structure BpLocationInfo where
  line : Int

/-- `dap::loaded_source_info`. -/
structure LoadedSourceInfo where
  name : Str
  path : Str

/-- The virtual methods of `dap::target` over the states `S`. -/
structure Target (S : Type) where
  launch : LaunchArgs → S → Bool × S
  disconnect : S → S
  resume : S → S
  pause : S → S
  stepOver : S → S
  stepIn : S → S
  stepOut : S → S
  stepBack : S → S
  readMemory : UInt16 → Int → S → List UInt8
  getStack : S → List FrameInfo
  getScopes : S → List ScopeInfo
  getVariables : Str → S → List VariableInfo
  setSourceBreakpoints : Str → Int → List Int → S → List BreakpointInfo × S
  setFunctionBreakpoints : List Str → S → List BreakpointInfo × S
  setInstructionBreakpoints : List Str → S → List BreakpointInfo × S
  getSource : Str → S → Option SourceInfo
  disassemble : Int → Int → Int → Int → S → List DisasmInfo
  evaluate : Str → S → EvalInfo
  getBreakpointLocations : Str → Int → Int → S → List BpLocationInfo
  getLoadedSources : S → List LoadedSourceInfo

/-- A target that does nothing and knows nothing. -/
instance {S : Type} : Inhabited (Target S) where
  default :=
    { launch := fun _ s => (true, s), disconnect := id, resume := id, pause := id, stepOver := id,
      stepIn := id, stepOut := id, stepBack := id, readMemory := fun _ _ _ => [],
      getStack := fun _ => [], getScopes := fun _ => [], getVariables := fun _ _ => [],
      setSourceBreakpoints := fun _ _ _ s => ([], s), setFunctionBreakpoints := fun _ s => ([], s),
      setInstructionBreakpoints := fun _ s => ([], s), getSource := fun _ _ => none,
      disassemble := fun _ _ _ _ _ => [],
      evaluate := fun _ _ => { result := [], errorMessage := [], memoryReference := none },
      getBreakpointLocations := fun _ _ _ _ => [], getLoadedSources := fun _ => [] }

end Udap.Dap
