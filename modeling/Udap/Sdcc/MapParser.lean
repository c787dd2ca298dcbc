/-
  THE MAP PARSER of the debugger: the segments and the symbols of the linker's table.

  Each line is tried against three expressions in a fixed order: a segment, one symbol with its
  area, and the columns between `|`, which are searched for in the whole line.  A number that
  `std::stoul` refuses leaves the line to the next expression.
-/
import Udap.Cxx.Regex
import Udap.Sdcc.Cdb
import Udap.Sdcc.Util

set_option linter.unusedVariables false

namespace Udap.Sdcc

open Udap Udap.Cxx

/-- `sdcc::map_info`. -/
structure MapInfo where
  segments : List Segment := []
  symbols : List Symbol := []

namespace MapParser

open Regex

/-! ## The expressions -/

/-- `[A-Za-z0-9_.\$]` -/
def isSegmentChar (c : UInt8) : Bool := isWord c || c == 46 || c == 36

/-- `(?:0[xX])?[0-9A-Fa-f]{4,8}` -/
def addressRe : Regex :=
  .seq (opt (.seq (.one (· == 48)) (.one fun c => c == 120 || c == 88))) (between isHex 4 8)

def segmentRe : Regex :=
  .seq .atStart <| .seq (.many isSpace) <| .seq (.group 1 (some1 isSegmentChar)) <|
  .seq (some1 isSpace) <| .seq (.group 2 addressRe) <| .seq (some1 isSpace) <|
  .seq (.group 3 addressRe) <| .seq (.many fun c => c != 10 && c != 13) <|
  .seq (.one (· == 40)) <| .seq (.group 4 (.many (· != 41))) <| .seq (.one (· == 41)) <|
  .seq (.many isSpace) .atEnd

def symbolRe : Regex :=
  .seq .atStart <| .seq (.many isSpace) <| .seq (.group 1 addressRe) <| .seq (some1 isSpace) <|
  .seq (.group 2 (some1 fun c => !isSpace c)) <|
  .seq (opt (.seq (some1 isSpace) (.group 3 (some1 fun c => !isSpace c)))) <|
  .seq (.many isSpace) .atEnd

def columnRe : Regex :=
  .seq (.many isSpace) <| .seq (.group 1 addressRe) <| .seq (some1 isSpace) <|
  .group 2 (some1 fun c => !isSpace c && c != 124)

/-! ## Parsing -/

/-- `static_cast<uint32_t>(std::stoul(text, nullptr, 16))` -/
def readAddress (text : Str) : Option UInt32 := (stoul text 16).map UInt32.ofNat

/-- The segment of a line that matches; none where a number cannot be read. -/
def segmentOf (groups : List (Nat × Str)) : Option Segment := do
  let address ← readAddress (groupText groups 2)
  let size ← readAddress (groupText groups 3)
  some { name := groupText groups 1, address := address, size := size,
         attributes := groupText groups 4 }

/-- One match of the column expression: a symbol, or a heading. -/
def columnOf (groups : List (Nat × Str)) : Option Symbol :=
  if groupText groups 1 = str "Value" ∨ groupText groups 2 = str "Global" ∨
      groupText groups 2 = str "------" then none
  else (readAddress (groupText groups 1)).map fun address =>
    { name := groupText groups 2, address := address }

/-- The symbols between the `|` of a line. -/
def columnsOf (line : Str) : List Symbol :=
  if line.contains 124 then (matchesOf columnRe line).1.filterMap fun m => columnOf m.groups else []

/-- What a line that is no segment gives. -/
def symbolsOf (line : Str) : List Symbol :=
  match fullMatch symbolRe (trim line) with
  | none => columnsOf line
  | some m =>
    if groupText m.groups 1 = str "Value" ∨ groupText m.groups 2 = str "Global" then []
    else match readAddress (groupText m.groups 1) with
      | none => columnsOf line
      | some address =>
        [{ name := groupText m.groups 2, address := address, area := groupText m.groups 3 }]

/-- One round of the loop in `parse`. -/
def parseLine (info : MapInfo) (line : Str) : MapInfo :=
  if (trim line).isEmpty then info
  else match (fullMatch segmentRe (trim line)).bind fun m => segmentOf m.groups with
    | some segment => { info with segments := info.segments ++ [segment] }
    | none => { info with symbols := info.symbols ++ symbolsOf line }

/-- The table of a text. -/
def parseText (content : Str) : MapInfo := (getLines content).foldl parseLine {}

/-- `map_parser::parse`. -/
def parse (disk : Disk) (path : Str) : Option MapInfo :=
  (readLines disk path).map fun lines => lines.foldl parseLine {}

end MapParser

end Udap.Sdcc
