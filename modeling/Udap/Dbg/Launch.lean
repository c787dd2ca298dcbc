/-
  LAUNCH — `z80_target::launch`: the CPU is reset, the memory is cleared and filled with the
  program, and the symbols of its CDB and MAP files take the place of those before.

  1. **Code** — the loader of Intel HEX files, the whole state of the target (`Z80Target`), and
     `launch` on it.  What the target gets from elsewhere, the CPU, the decoder, the disk and the
     order of a hash table, is a `Host`; a launch in which a call throws has no result.

  2. **What a launch depends on** — with a program everything but the breakpoint requests and the
     history is set from the arguments and the files (`launch_program`); without one the source
     root and the armed addresses stay as they were, too (`launch_empty`).
-/
import Udap.Dbg.Listing
import Udap.Dbg.StepBack
import Udap.Sdcc.CdbParser
import Udap.Sdcc.MapParser

set_option linter.unusedVariables false

namespace Udap

open Udap.Cxx Udap.Dap Udap.Sdcc

/-! ## Intel HEX -/

namespace Ihx

/-- The lambda `hex2`; none where it throws. -/
def hex2 (line : Str) (pos : Nat) : Option UInt8 :=
  (substr line pos 2).bind fun text => (stoul text 16).map UInt8.ofNat

/-- The lambda `hex4`. -/
def hex4 (line : Str) (pos : Nat) : Option UInt16 := do
  let hi ← hex2 line pos
  let lo ← hex2 line (pos + 2)
  some ((hi.toUInt16 <<< 8) ||| lo.toUInt16)

/-- The variables of the loop in `load_ihx`. -/
structure Load where
  mem : Memory
  upperBase : UInt32 := 0
  lowestDataAddr : UInt32 := 0xFFFFFFFF
  explicitEntry : Option UInt32 := none

/-- A record's byte count, address and type; none if the line is passed over. -/
def header (line : Str) : Option (UInt8 × UInt16 × UInt8) :=
  if line.head? ≠ some 58 ∨ line.length < 11 then none
  else do
    let byteCount ← hex2 line 1
    let address ← hex4 line 3
    let recType ← hex2 line 7
    -- the checksum has its place in the length, but nobody reads it
    if line.length < 11 + byteCount.toNat * 2 then none else some (byteCount, address, recType)

/-- Store the bytes from number `i` on, up to one that cannot be read. -/
def storeBytes (line : Str) (base : UInt32) : Nat → Nat → Memory → Memory
  | 0, _, mem => mem
  | n + 1, i, mem =>
    match hex2 line (9 + i * 2) with
    -- an exception ends the record; what it has stored stays
    | none => mem
    | some byte =>
      let dest := base + UInt32.ofNat i
      storeBytes line base n (i + 1) <|
        -- beyond the 64 KB a byte is dropped
        if dest.toNat < memorySize then
          fun addr => if addr = UInt16.ofNat dest.toNat then byte else mem addr
        else mem

/-- One record that is not the last. -/
def record (line : Str) (byteCount : UInt8) (address : UInt16) (recType : UInt8) (s : Load) : Load :=
  if recType = 0 then
    -- data
    let base := s.upperBase + address.toUInt32
    { s with
      lowestDataAddr := if byteCount > 0 ∧ base < s.lowestDataAddr then base else s.lowestDataAddr
      mem := storeBytes line base byteCount.toNat 0 s.mem }
  else if recType = 2 ∧ byteCount ≥ 2 then
    -- extended segment address: a paragraph
    match hex4 line 9 with
    | some v => { s with upperBase := v.toUInt32 <<< 4 }
    | none => s
  else if recType = 4 ∧ byteCount ≥ 2 then
    -- extended linear address: the upper word
    match hex4 line 9 with
    | some v => { s with upperBase := v.toUInt32 <<< 16 }
    | none => s
  else if recType = 3 ∧ byteCount ≥ 4 then
    -- start segment address: CS and IP
    match hex4 line 9, hex4 line 13 with
    | some cs, some ip => { s with explicitEntry := some ((cs.toUInt32 <<< 4) + ip.toUInt32) }
    | _, _ => s
  else if recType = 5 ∧ byteCount ≥ 4 then
    -- start linear address: EIP
    match hex2 line 9, hex2 line 11, hex2 line 13, hex2 line 15 with
    | some a, some b, some c, some d =>
      { s with explicitEntry := some ((a.toUInt32 <<< 24) ||| (b.toUInt32 <<< 16) |||
                                      (c.toUInt32 <<< 8) ||| d.toUInt32) }
    | _, _, _, _ => s
  else s

/-- The loop in `load_ihx`, up to the record that ends the file. -/
def loadLines : List Str → Load → Load
  | [], s => s
  | line :: lines, s =>
    match header line with
    | none => loadLines lines s
    | some (byteCount, address, recType) =>
      if recType = 1 then s else loadLines lines (record line byteCount address recType s)

/-- `result.entry`. -/
def Load.entry (s : Load) : UInt16 :=
  match s.explicitEntry with
  | some entry => entry.toUInt16
  | none => if s.lowestDataAddr ≠ 0xFFFFFFFF then s.lowestDataAddr.toUInt16 else 0

/-- `load_ihx`. -/
def load (content : Str) (mem : Memory) : Load := loadLines (getLines content) { mem := mem }

example : ((load (str ":03010000C30001380A\n:00000001FF\n") fun _ => 0).mem 0x102,
    (load (str ":03010000C3000138\n:00000001FF\n") fun _ => 0).entry) = (1, 0x100) := by decide +kernel

end Ihx

/-! ## The target -/

/-- What a `z80_target` is connected to. -/
structure Host (C : Type) where
  z80 : Z80ex C
  /-- `z80ex_reset`. -/
  reset : C → C
  decoder : Decoder
  order : CdbParser.HashOrder
  disk : Disk

/-- The state of a `z80_target` while no emulation runs: `dbg`, with the part that breakpoint
    requests change as a `Dbg`. -/
structure Z80Target (C : Type) where
  computer : Computer C
  dbg : Dbg := {}
  listing : FullListing := {}
  fullListingBuilt : Bool := false
  history : List CpuSnapshot := []
  launched : Bool := false

namespace Host

variable {C : Type} (h : Host C)

/-- The program in a memory of zeros, and where it is entered unless the launch says. -/
def loadBinary (program : Str) : Memory × UInt16 :=
  match h.disk.read program with
  | none => (fun _ => 0, 0)
  | some content =>
    if Path.extension program = str ".ihx" ∨ Path.extension program = str ".hex" then
      ((Ihx.load content fun _ => 0).mem, (Ihx.load content fun _ => 0).entry)
    else (fun addr => content[addr.toNat]?.getD 0, 0)

/-- `args.source_root`, or the directory of the program. -/
def sourceRoot (args : LaunchArgs) : Str :=
  if args.sourceRoot.isEmpty then Path.parentPath args.program else args.sourceRoot

/-- The file given, or the one beside the program. -/
def symbolFile (file program ext : Str) : Str :=
  if file.isEmpty then Path.replaceExtension program ext else file

/-- Load the CDB file, if there is one. -/
def loadCdb (path : Str) (s : Symbols) : Option Symbols := do
  let found ← h.disk.fileExists path
  if found then
    match h.disk.read path with
    | none => some s
    | some content => (CdbParser.parseText h.order content).map fun ms => s.setCdbModules h.disk ms
  else some s

/-- Load the MAP file, if there is one. -/
def loadMap (path : Str) (s : Symbols) : Option Symbols := do
  let found ← h.disk.fileExists path
  if found then
    match MapParser.parse h.disk path with
    | none => some s
    | some map => some ((s.setMapSymbols h.disk map.symbols).setMapSegments map.segments)
  else some s

end Host

namespace Z80Target

variable {C : Type} (h : Host C)

def setListing (l : FullListing) (built : Bool) (t : Z80Target C) : Z80Target C :=
  { t with listing := l, fullListingBuilt := built,
           dbg := { t.dbg with fullListingAddrs := l.addrs } }

/-- `dbg::build_full_listing` on the memory and the symbols of the target; the fuel is enough
    (`Decoder.buildFullListing_eq`). -/
def buildFullListing (t : Z80Target C) : Option (Z80Target C) :=
  (h.decoder.buildFullListing t.computer.memory t.dbg.symbols (memorySize + 1)).map fun l =>
    t.setListing l true

/-- What `launch` does first. -/
def cleared (t : Z80Target C) : Z80Target C :=
  -- the roots are cleared after the modules, the source root not at all
  let symbols := t.dbg.symbols.setCdbModules h.disk []
  let symbols := symbols.setSourceRoots []
  let symbols := symbols.setMapSymbols h.disk []
  let symbols := symbols.setMapSegments []
  { t with computer := { cpu := h.reset t.computer.cpu, memory := fun _ => 0 }
           dbg := { t.dbg with symbols := symbols } }.setListing {} false

/-- The branch for a program. -/
def loadProgram (args : LaunchArgs) (t : Z80Target C) : Option (Z80Target C) := do
  let symbols := (t.dbg.symbols.setSourceRoot (Host.sourceRoot args)).setSourceRoots args.sourceRoots
  let symbols ← h.loadCdb (Host.symbolFile args.cdbFile args.program (str ".cdb")) symbols
  let symbols ← h.loadMap (Host.symbolFile args.mapFile args.program (str ".map")) symbols
  -- requests that came before the symbols find their addresses now
  let dbg := { t.dbg with symbols := symbols }.rebuildSourceBreakpointAddresses
  buildFullListing h
    { t with computer := { t.computer with memory := (h.loadBinary args.program).1 }
             dbg := { dbg with virtualLstPath := Dbg.virtualPath (Path.stem args.program) } }

/-- What `launch` does last. -/
def enter (entry : UInt16) (t : Z80Target C) : Z80Target C :=
  { t with
    computer := { t.computer with
      cpu := h.z80.setReg .regSP 0xFFFF (h.z80.setReg .regPC entry t.computer.cpu) }
    launched := true }

/-- `z80_target::launch`; none where a call throws. -/
def launch (args : LaunchArgs) (t : Z80Target C) : Option (Z80Target C) :=
  let t := t.cleared h
  if args.program.isEmpty then
    some ({ t with dbg := { t.dbg with virtualLstPath := Dbg.virtualPath (str "listing") } }.enter h
      (args.startAddress.getD 0))
  else
    (t.loadProgram h args).map
      (enter h (args.startAddress.getD (h.loadBinary args.program).2))

/-! ## What a launch depends on -/

variable {h}

/-- Nothing of the symbols before stays but the source root. -/
theorem cleared_symbols (t : Z80Target C) :
    (t.cleared h).dbg.symbols = { sourceRoot := t.dbg.symbols.sourceRoot } := rfl

/-- The symbols of the program's files. -/
def loadedSymbols (h : Host C) (args : LaunchArgs) : Option Symbols := do
  let symbols ← h.loadCdb (Host.symbolFile args.cdbFile args.program (str ".cdb"))
    { sourceRoot := Host.sourceRoot args, sourceRoots := args.sourceRoots }
  h.loadMap (Host.symbolFile args.mapFile args.program (str ".map")) symbols

/-- The CPU at its entry. -/
def entered (h : Host C) (cpu : C) (entry : UInt16) : C :=
  h.z80.setReg .regSP 0xFFFF (h.z80.setReg .regPC entry (h.reset cpu))

/-- The breakpoint requests of `d`, resolved against other symbols. -/
def rearmed (d : Dbg) (symbols : Symbols) : Dbg :=
  { d with symbols := symbols }.rebuildSourceBreakpointAddresses

/-- **A launch with a program** keeps the breakpoint requests and the history; all else comes from
    the arguments and the files. -/
theorem launch_program {args : LaunchArgs} (hprogram : args.program ≠ []) (t : Z80Target C) :
    t.launch h args = (loadedSymbols h args).bind fun symbols =>
      (h.decoder.buildFullListing (h.loadBinary args.program).1 symbols (memorySize + 1)).map fun l =>
        { computer :=
            { cpu := entered h t.computer.cpu (args.startAddress.getD (h.loadBinary args.program).2)
              memory := (h.loadBinary args.program).1 }
          dbg := { rearmed t.dbg symbols with
            virtualLstPath := Dbg.virtualPath (Path.stem args.program)
            fullListingAddrs := l.addrs }
          listing := l
          fullListingBuilt := true
          history := t.history
          launched := true } := by
  have hne : ¬ args.program.isEmpty = true := by rwa [List.isEmpty_iff]
  rw [launch]
  dsimp only
  rw [if_neg hne, loadProgram, cleared_symbols]
  show Option.map _ ((h.loadCdb _ { sourceRoot := Host.sourceRoot args, sourceRoots := args.sourceRoots }).bind
    fun symbols => (h.loadMap _ symbols).bind _) = _
  rw [loadedSymbols]
  cases h.loadCdb (Host.symbolFile args.cdbFile args.program (str ".cdb"))
      { sourceRoot := Host.sourceRoot args, sourceRoots := args.sourceRoots } with
  | none => rfl
  | some symbols =>
    dsimp only [Option.bind_some, bind]
    cases h.loadMap (Host.symbolFile args.mapFile args.program (str ".map")) symbols with
    | none => rfl
    | some symbols =>
      dsimp only [Option.bind_some]
      rw [buildFullListing, Option.map_map]
      rfl

/-- **A launch without a program** also keeps the source root and the armed addresses. -/
theorem launch_empty {args : LaunchArgs} (hprogram : args.program = []) (t : Z80Target C) :
    t.launch h args = some
      { computer :=
          { cpu := entered h t.computer.cpu (args.startAddress.getD 0), memory := fun _ => 0 }
        dbg := { t.dbg with
          symbols := { sourceRoot := t.dbg.symbols.sourceRoot }
          virtualLstPath := Dbg.virtualPath (str "listing")
          fullListingAddrs := [] }
        listing := {}
        fullListingBuilt := false
        history := t.history
        launched := true } := by
  rw [launch]
  dsimp only
  rw [hprogram, List.isEmpty_nil, if_pos rfl]
  rfl

end Z80Target

end Udap
