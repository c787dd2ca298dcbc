/-
  THE SYMBOL DATA of a program built with SDCC — what the CDB and MAP parsers deliver and the
  debugger stores.

  The types follow `cdbg_info.h`, `symbol.h` and `segment.h` field by field; `std::unordered_map`
  is a `Table`, whose order of entries stands for the order in which the map is walked over.
-/
import Udap.Cxx.Text
import Udap.Lib.Table

namespace Udap.Sdcc

/-- `sdcc::storage_class`. -/
inductive StorageClass where
  | unknown
  | stack
  | reg
  | internal
  | ext
  | globalAuto
  deriving DecidableEq

/-- `sdcc::cdbg_info_symbol`. -/
structure CdbgInfoSymbol where
  name : Str := []
  scope : Str := []
  typeInfo : Str := []
  storage : StorageClass := .unknown
  offset : Int := 0
  size : Int := 1
  regList : Str := []
  deriving DecidableEq

/-- `sdcc::cdbg_info_function`; an address of `0xFFFF` stands for none. -/
structure CdbgInfoFunction where
  name : Str := []
  scope : Str := []
  localSymbols : List CdbgInfoSymbol := []
  startAddr : UInt16 := 0xFFFF
  endAddr : UInt16 := 0xFFFF
  deriving DecidableEq

/-- `sdcc::cdbg_info_type`. -/
structure CdbgInfoType where
  name : Str := []
  scope : Str := []
  typeInfo : Str := []
  deriving DecidableEq

/-- `sdcc::cdbg_info_line`: one line of C source and its address. -/
structure CdbgInfoLine where
  file : Str := []
  line : Int := 0
  address : UInt16 := 0
  scope : Str := []
  deriving DecidableEq

/-- `sdcc::cdbg_info_module`; `asmLines` maps a line of the module's assembly text to its
    address. -/
structure CdbgInfoModule where
  name : Str := []
  file : Str := []
  functions : List CdbgInfoFunction := []
  globalSymbols : List CdbgInfoSymbol := []
  types : List CdbgInfoType := []
  lines : List CdbgInfoLine := []
  asmLines : Table Int UInt16 := ∅
  deriving DecidableEq

/-- `sdcc::symbol`: a name of the MAP file and its 32-bit address. -/
structure Symbol where
  name : Str
  address : UInt32
  area : Str := []
  bank : Int := 0
  deriving DecidableEq

/-- `sdcc::segment`. -/
structure Segment where
  name : Str
  address : UInt32
  size : UInt32
  attributes : Str
  deriving DecidableEq

end Udap.Sdcc
