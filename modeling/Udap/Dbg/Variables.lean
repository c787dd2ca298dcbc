/-
  SCOPES AND VARIABLES — what `z80_target` shows of the registers, of C variables and of the MAP
  file: `get_scopes`, `get_variables` and what they call.

  Where a C variable lives is in its CDB record: on the stack next to IX, at an address of the MAP
  file, or in registers.  Its value is one to four bytes, the low one first, shown in hexadecimal,
  and in front of that as a signed number if its type is one and it has two bytes at most.
-/
import Udap.Dap.Target
import Udap.Dbg.StepBack

set_option linter.unusedVariables false

namespace Udap

open Udap.Cxx Udap.Dap Udap.Sdcc

namespace Symbols

variable (s : Symbols)

/-- The function whose recorded addresses have `address` between them; `0xFFFF` stands for none. -/
def functionOver (address : UInt16) (fn : CdbgInfoFunction) : Bool :=
  fn.startAddr != 0xFFFF && decide (fn.startAddr ≤ address) &&
    (fn.endAddr == 0xFFFF || decide (address < fn.endAddr))

/-- One round of the second search in `lookup_function_at`. -/
def closerFunction (address : UInt16) (best : Option (CdbgInfoFunction × UInt16))
    (fn : CdbgInfoFunction) : Option (CdbgInfoFunction × UInt16) :=
  match s.lookupFunctionAddress fn.name with
  | none => best
  | some fnAddr =>
    if fnAddr > address then best
    else
      match best with
      | none => some (fn, fnAddr)
      | some (_, bestStart) => if fnAddr ≥ bestStart then some (fn, fnAddr) else best

/-- `dbg::lookup_function_at`. -/
def lookupFunctionAt (address : UInt16) : Option CdbgInfoFunction :=
  let functions := s.cdbModules.flatMap CdbgInfoModule.functions
  (functions.find? (functionOver address)).or
    ((functions.foldl (s.closerFunction address) none).map Prod.fst)

/-- The symbol of the MAP file that a static or global variable has. -/
def variableSymbol (name : Str) : Option Symbol :=
  s.mapSymbols.find? fun (sym : Symbol) => sym.name == 95 :: name || sym.name == name

end Symbols

namespace Z80ex

variable {C : Type} (Z : Z80ex C) (s : Symbols)

/-- `std::max(1, std::min(sym.size, 4))`. -/
def shownSize (sym : CdbgInfoSymbol) : Nat := (max 1 (min sym.size 4)).toNat

/-- The bytes of a value, the low one first, up to the end of the memory. -/
def readValue (memory : Memory) (addr : UInt16) : Nat → Nat
  | 0 => 0
  | n + 1 =>
    readValue memory addr n +
      (if addr.toNat + n < memorySize then
        (memory (UInt16.ofNat (addr.toNat + n))).toNat * 256 ^ n else 0)

/-- Is `text` somewhere in `s`? -/
def hasText (s text : Str) : Bool := s.tails.any text.isPrefixOf

/-- Is the type that of a signed integer? -/
def isSigned (typeInfo : Str) : Bool := typeInfo.contains 83 && !hasText typeInfo (str "SC")

/-- The lambda `read_mem`. -/
def readMem (memory : Memory) (sym : CdbgInfoSymbol) (addr : UInt16) : Str :=
  -- four bytes are cut to 16 bits here
  let val := UInt16.ofNat (readValue memory addr (shownSize sym))
  if isSigned sym.typeInfo ∧ shownSize sym ≤ 2 then
    let sv : Int := if shownSize sym = 1 then val.toUInt8.toInt8.toInt else val.toInt16.toInt
    Cxx.toString sv ++ str " (" ++ formatHex val (shownSize sym * 2) ++ str ")"
  else formatHex val (shownSize sym * 2)

def highByte (v : UInt16) : UInt16 := (v >>> 8) &&& 0xFF

def lowByte (v : UInt16) : UInt16 := v &&& 0xFF

/-- The registers that SDCC's lists name, low byte first. -/
def regListValue (c : C) (r : Str) : Option UInt16 :=
  if r = str "c,b" then some (Z.getReg c .regBC)
  else if r = str "e,d" then some (Z.getReg c .regDE)
  else if r = str "l,h" then some (Z.getReg c .regHL)
  else if r = str "a" then some (highByte (Z.getReg c .regAF))
  else if r = str "b" then some (highByte (Z.getReg c .regBC))
  else if r = str "c" then some (lowByte (Z.getReg c .regBC))
  else if r = str "d" then some (highByte (Z.getReg c .regDE))
  else if r = str "e" then some (lowByte (Z.getReg c .regDE))
  else if r = str "h" then some (highByte (Z.getReg c .regHL))
  else if r = str "l" then some (lowByte (Z.getReg c .regHL))
  else if r = str "ixl" then some (lowByte (Z.getReg c .regIX))
  else if r = str "ixh" then some (highByte (Z.getReg c .regIX))
  else none

/-- `dbg::c_variable_value`. -/
def cVariableValue (m : Computer C) (sym : CdbgInfoSymbol) : Str :=
  match sym.storage with
  | .stack =>
    -- the frame pointer of SDCC is IX
    readMem m.memory sym (UInt16.ofInt ((Z.getReg m.cpu .regIX).toNat + sym.offset))
  | .internal | .ext | .globalAuto =>
    match s.variableSymbol sym.name with
    | some ms => readMem m.memory sym ms.address.toUInt16
    | none => str "?"
  | .reg =>
    if sym.regList.isEmpty then str "<reg>"
    else
      match Z.regListValue m.cpu sym.regList with
      | some val => formatHex val (shownSize sym * 2)
      | none => str "<" ++ sym.regList ++ str ">"
  | .unknown => str "?"

/-- `z80_target::get_scopes`. -/
def getScopes (m : Computer C) : List ScopeInfo :=
  [{ name := str "Registers", hint := str "registers" }] ++
  (if s.hasCdb then
    (if (s.lookupFunctionAt (Z.getReg m.cpu .regPC)).any fun fn => !fn.localSymbols.isEmpty then
      [{ name := str "Locals", hint := str "locals" }] else []) ++
    [{ name := str "Globals", hint := str "locals" }]
  else []) ++
  (if s.hasMap then
    [{ name := str "MAP Segments", hint := str "locals" },
     { name := str "MAP Symbols", hint := str "locals" }]
  else [])

/-- The lambda `make_reg`. -/
def makeReg (name : Str) (val : UInt16) (width : Nat) (withMem : Bool) : VariableInfo where
  name := name
  value := formatHex val width
  type := []
  memoryReference := if withMem then some (formatHex val 4) else none

/-- A C variable. -/
def cVariable (m : Computer C) (sym : CdbgInfoSymbol) : VariableInfo where
  name := sym.name
  value := Z.cVariableValue s m sym
  type := sym.typeInfo
  memoryReference := none

/-- `z80_target::get_variables`. -/
def getVariables (m : Computer C) (scope : Str) : List VariableInfo :=
  if scope = str "Registers" then
    [makeReg (str "AF") (Z.getReg m.cpu .regAF) 4 false,
     makeReg (str "BC") (Z.getReg m.cpu .regBC) 4 true,
     makeReg (str "DE") (Z.getReg m.cpu .regDE) 4 true,
     makeReg (str "HL") (Z.getReg m.cpu .regHL) 4 true,
     makeReg (str "IX") (Z.getReg m.cpu .regIX) 4 true,
     makeReg (str "IY") (Z.getReg m.cpu .regIY) 4 true,
     makeReg (str "SP") (Z.getReg m.cpu .regSP) 4 true,
     makeReg (str "PC") (Z.getReg m.cpu .regPC) 4 true,
     makeReg (str "R") (Z.getReg m.cpu .regR) 2 false,
     makeReg (str "I") (Z.getReg m.cpu .regI) 2 false,
     makeReg (str "F") (lowByte (Z.getReg m.cpu .regAF)) 2 false]
  else if scope = str "Locals" then
    match s.lookupFunctionAt (Z.getReg m.cpu .regPC) with
    | some fn => fn.localSymbols.map (Z.cVariable s m)
    | none => []
  else if scope = str "Globals" then
    s.cdbModules.flatMap fun (mod : CdbgInfoModule) =>
      (mod.globalSymbols.filter fun sym => !hasText sym.typeInfo (str "DF")).map (Z.cVariable s m)
  else if scope = str "MAP Segments" then
    s.mapSegments.map fun (seg : Segment) =>
      { name := seg.name
        value := str "addr=" ++ formatHex seg.address.toUInt16 4 ++ str ", size=" ++
          formatHex seg.size.toUInt16 4 ++ str ", " ++ seg.attributes
        type := []
        memoryReference := some (formatHex seg.address.toUInt16 4) }
  else if scope = str "MAP Symbols" then
    s.mapSymbols.map fun (sym : Symbol) =>
      { name := sym.name
        value := formatHex sym.address.toUInt16 4
        type := []
        memoryReference := some (formatHex sym.address.toUInt16 4) }
  else []

example : readMem (fun a => if a = 0x8000 then 0xFE else 0xFF)
    { typeInfo := str "\x7b2\x7dSI:S", size := 2 } 0x8000 = str "-2 (0xFFFE)" := by decide +kernel

end Z80ex

end Udap
