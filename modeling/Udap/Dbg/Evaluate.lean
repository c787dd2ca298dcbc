/-
  EVALUATE, AND ADDRESSES AS TEXT — do all views of the target mean the same by a name and by a
  reference?

  `evaluate` knows the registers in letters of either case, their halves, the symbols of the MAP
  file, and addresses in hexadecimal, for which it shows the byte there.

  1. **Code** — `z80_target::evaluate` with its table of registers.

  2. **Names** — a register of the scope of registers and a symbol of that of MAP symbols evaluate to
     the value that is shown for them (`evaluate_shown`).

  3. **References** — every frame, variable, breakpoint and instruction that the target returns
     carries its address as a text.  `HandedOut` is what such a text can be, and
     `references_denote` that every request that takes one back means the same address by it.
-/
import Udap.Json.Codec
import Udap.Dap.Request
import Udap.Dbg.Relaunch

set_option linter.unusedVariables false

namespace Udap

open Udap.Cxx Udap.Dap Udap.Sdcc

/-! ## The program -/

/-- An entry of the table of registers in `evaluate`. -/
structure RegEntry where
  name : Str
  id : Reg
  width : Nat

/-- The table `regs`. -/
def evaluateRegs : List RegEntry :=
  [⟨str "AF", .regAF, 4⟩, ⟨str "BC", .regBC, 4⟩, ⟨str "DE", .regDE, 4⟩,
   ⟨str "HL", .regHL, 4⟩, ⟨str "IX", .regIX, 4⟩, ⟨str "IY", .regIY, 4⟩,
   ⟨str "SP", .regSP, 4⟩, ⟨str "PC", .regPC, 4⟩,
   ⟨str "A", .regAF, 2⟩, ⟨str "F", .regAF, 2⟩,
   ⟨str "B", .regBC, 2⟩, ⟨str "C", .regBC, 2⟩,
   ⟨str "D", .regDE, 2⟩, ⟨str "E", .regDE, 2⟩,
   ⟨str "H", .regHL, 2⟩, ⟨str "L", .regHL, 2⟩,
   ⟨str "R", .regR, 2⟩, ⟨str "I", .regI, 2⟩]

/-- The value that an entry shows of its register. -/
def RegEntry.shown (e : RegEntry) (val : UInt16) : UInt16 :=
  if e.width = 2 ∧ e.name.length = 1 then
    -- A, B, D and H are the high halves
    if e.name.head? = some 65 ∨ e.name.head? = some 66 ∨ e.name.head? = some 68 ∨
        e.name.head? = some 72 then Z80ex.highByte val
    else Z80ex.lowByte val
  else val

/-- The address that an expression denotes, `0x...` or `$...`; none if it is no number. -/
def addressOperand (expr : Str) : Option UInt16 :=
  if expr.length > 2 ∧ expr[0]? = some 48 ∧ (expr[1]? = some 120 ∨ expr[1]? = some 88) then
    (stoul expr 0).map UInt16.ofNat
  else if expr.length > 1 ∧ expr[0]? = some 36 then (stoul (expr.drop 1) 16).map UInt16.ofNat
  else none

namespace Symbols

/-- The MAP symbol that an expression names, with or without the underscore of C. -/
def namedSymbol (s : Symbols) (expr : Str) : Option Symbol :=
  s.mapSymbols.find? fun (sym : Symbol) => sym.name == expr || sym.name == 95 :: expr

end Symbols

namespace Z80ex

variable {C : Type} (Z : Z80ex C) (s : Symbols)

/-- `z80_target::evaluate`. -/
def evaluate (m : Computer C) (expr : Str) : EvalInfo :=
  match evaluateRegs.find? fun e => expr.map capital == e.name with
  | some e =>
    let val := e.shown (Z.getReg m.cpu e.id)
    { result := formatHex val e.width
      errorMessage := []
      memoryReference := if e.width = 4 then some (formatHex val 4) else none }
  | none =>
    match s.namedSymbol expr with
    | some sym =>
      { result := formatHex sym.address.toUInt16 4
        errorMessage := []
        memoryReference := some (formatHex sym.address.toUInt16 4) }
    | none =>
      match addressOperand expr with
      | some val =>
        { result := formatHex (m.memory val).toUInt16 2
          errorMessage := []
          memoryReference := some (formatHex val 4) }
      | none =>
        { success := false
          result := []
          errorMessage := str "Cannot evaluate: " ++ expr
          memoryReference := none }

/-! ## Names -/

variable {Z s}

/-- An expression that is the name of a register. -/
theorem evaluate_register {m : Computer C} {expr name : Str} {e : RegEntry}
    (hexpr : expr.map capital = name)
    (hfind : (evaluateRegs.find? fun x => name == x.name) = some e) :
    Z.evaluate s m expr =
      { result := formatHex (e.shown (Z.getReg m.cpu e.id)) e.width
        errorMessage := []
        memoryReference :=
          if e.width = 4 then some (formatHex (e.shown (Z.getReg m.cpu e.id)) 4) else none } := by
  rw [evaluate, hexpr, hfind]

/-- An expression that is no register and names symbols at one address. -/
theorem evaluate_symbol {m : Computer C} {expr : Str} {addr : UInt16}
    (hreg : ∀ e ∈ evaluateRegs, expr.map capital ≠ e.name)
    (hsome : ∃ sym ∈ s.mapSymbols, sym.name = expr ∨ sym.name = 95 :: expr)
    (haddr : ∀ sym ∈ s.mapSymbols, sym.name = expr ∨ sym.name = 95 :: expr →
      sym.address.toUInt16 = addr) :
    Z.evaluate s m expr =
      { result := formatHex addr 4, errorMessage := [], memoryReference := some (formatHex addr 4) } := by
  have hnone : (evaluateRegs.find? fun e => expr.map capital == e.name) = none := by
    rw [List.find?_eq_none]
    exact fun e he => by simpa using hreg e he
  obtain ⟨sym, hsym⟩ : ∃ sym, s.namedSymbol expr = some sym := by
    obtain ⟨sym, hmem, hname⟩ := hsome
    rw [← Option.isSome_iff_exists, Symbols.namedSymbol, List.find?_isSome]
    exact ⟨sym, hmem, by simpa using hname⟩
  have hfound : sym.address.toUInt16 = addr :=
    haddr sym (List.mem_of_find?_eq_some hsym) (by simpa using List.find?_some hsym)
  rw [evaluate, hnone]
  dsimp only
  rw [hsym]
  dsimp only
  rw [hfound]

/-- An expression by which a variable of a scope is asked for: a register in letters of either case,
    or a symbol with or without its underscore, where neither a register nor a symbol at another
    address has that name. -/
def Names (s : Symbols) (scope : Str) (v : VariableInfo) (expr : Str) : Prop :=
  (scope = str "Registers" ∧ expr.map capital = v.name) ∨
  (scope = str "MAP Symbols" ∧ (v.name = expr ∨ v.name = 95 :: expr) ∧
    (∀ e ∈ evaluateRegs, expr.map capital ≠ e.name) ∧
    ∀ sym ∈ s.mapSymbols, sym.name = expr ∨ sym.name = 95 :: expr →
      formatHex sym.address.toUInt16 4 = v.value)

theorem lowByte_of_lt {v : UInt16} (h : v < 256) : lowByte v = v := by
  apply UInt16.toNat_inj.mp
  rw [UInt16.lt_iff_toNat_lt] at h
  show (v &&& 0xFF).toNat = v.toNat
  rw [UInt16.toNat_and]
  show v.toNat &&& 2 ^ 8 - 1 = v.toNat
  rw [Nat.and_two_pow_sub_one_eq_mod]
  exact Nat.mod_eq_of_lt h

/-- **A name evaluates to what its scope shows**, in the scopes of registers and of MAP symbols: the
    same value, and the same reference wherever the scope gives one. -/
theorem evaluate_shown {m : Computer C}
    (hbyte : Z.getReg m.cpu .regR < 256 ∧ Z.getReg m.cpu .regI < 256) {scope : Str}
    {v : VariableInfo} (hv : v ∈ Z.getVariables s m scope) {expr : Str}
    (hnames : Names s scope v expr) :
    (Z.evaluate s m expr).success = true ∧ (Z.evaluate s m expr).result = v.value ∧
      ∀ ref, v.memoryReference = some ref → (Z.evaluate s m expr).memoryReference = some ref := by
  rcases hnames with ⟨rfl, hexpr⟩ | ⟨rfl, hname, hreg, hvalue⟩
  · -- one register after another
    have hreg : ∀ {name : Str} {e : RegEntry} {val : UInt16} {withMem : Bool},
        v = makeReg name val e.width withMem →
        (evaluateRegs.find? fun x => name == x.name) = some e →
        e.shown (Z.getReg m.cpu e.id) = val → (withMem = true → e.width = 4) →
        (Z.evaluate s m expr).success = true ∧ (Z.evaluate s m expr).result = v.value ∧
          ∀ ref, v.memoryReference = some ref →
            (Z.evaluate s m expr).memoryReference = some ref := by
      rintro name e val withMem rfl hfind hshown hwidth
      rw [evaluate_register hexpr hfind, hshown]
      refine ⟨rfl, rfl, fun ref href => ?_⟩
      cases withMem with
      | false => cases href
      | true =>
        dsimp only
        rw [if_pos (hwidth rfl)]
        exact href
    have hr : (⟨str "R", .regR, 2⟩ : RegEntry).shown (Z.getReg m.cpu .regR) = Z.getReg m.cpu .regR :=
      lowByte_of_lt hbyte.1
    have hi : (⟨str "I", .regI, 2⟩ : RegEntry).shown (Z.getReg m.cpu .regI) = Z.getReg m.cpu .regI :=
      lowByte_of_lt hbyte.2
    rw [getVariables, if_pos rfl] at hv
    simp only [List.mem_cons, List.not_mem_nil, or_false] at hv
    rcases hv with h | h | h | h | h | h | h | h | h | h | h
    · exact hreg (e := ⟨str "AF", .regAF, 4⟩) h rfl rfl (by simp)
    · exact hreg (e := ⟨str "BC", .regBC, 4⟩) h rfl rfl fun _ => rfl
    · exact hreg (e := ⟨str "DE", .regDE, 4⟩) h rfl rfl fun _ => rfl
    · exact hreg (e := ⟨str "HL", .regHL, 4⟩) h rfl rfl fun _ => rfl
    · exact hreg (e := ⟨str "IX", .regIX, 4⟩) h rfl rfl fun _ => rfl
    · exact hreg (e := ⟨str "IY", .regIY, 4⟩) h rfl rfl fun _ => rfl
    · exact hreg (e := ⟨str "SP", .regSP, 4⟩) h rfl rfl fun _ => rfl
    · exact hreg (e := ⟨str "PC", .regPC, 4⟩) h rfl rfl fun _ => rfl
    · exact hreg (e := ⟨str "R", .regR, 2⟩) h rfl hr (by simp)
    · exact hreg (e := ⟨str "I", .regI, 2⟩) h rfl hi (by simp)
    · exact hreg (e := ⟨str "F", .regAF, 2⟩) h rfl rfl (by simp)
  · obtain ⟨sym, hsym, rfl⟩ := List.mem_map.mp hv
    have haddr : ∀ other ∈ s.mapSymbols, other.name = expr ∨ other.name = 95 :: expr →
        other.address.toUInt16 = sym.address.toUInt16 := fun other hother hn =>
      formatHex_injective (hvalue other hother hn)
    rw [evaluate_symbol hreg ⟨sym, hsym, hname⟩ haddr]
    exact ⟨rfl, rfl, fun ref href => href⟩

/-- `HL` is shown with the address it holds, and `hl` evaluates to it. -/
theorem evaluate_shown_hl :
    (Debugger.storeCpu.evaluate {} Debugger.storeProgram (str "hl")).success = true ∧
      (Debugger.storeCpu.evaluate {} Debugger.storeProgram (str "hl")).result = str "0x4000" ∧
      ∀ ref, some (str "0x4000") = some ref →
        (Debugger.storeCpu.evaluate {} Debugger.storeProgram (str "hl")).memoryReference
          = some ref := by
  have hv : makeReg (str "HL") 0x4000 4 true ∈
      Debugger.storeCpu.getVariables {} Debugger.storeProgram (str "Registers") := by
    rw [getVariables, if_pos rfl]
    exact List.mem_of_getElem? (i := 3) rfl
  exact evaluate_shown ⟨by decide, by decide⟩ hv (Or.inl ⟨rfl, by decide⟩)

end Z80ex

/-! ## Addresses as text -/

namespace Z80Target

variable {C : Type} (h : Host C)

/-- The texts that the target in state `t` gives for addresses. -/
inductive HandedOut (t : Z80Target C) : Str → Prop where
  | frame {f : FrameInfo}
      (hf : f ∈ getStack t.dbg.symbols t.dbg.virtualLstPath t.listing (t.pc h)) :
      HandedOut t f.address
  | shown {scope ref : Str} {v : VariableInfo}
      (hv : v ∈ h.z80.getVariables t.dbg.symbols t.computer scope)
      (href : v.memoryReference = some ref) : HandedOut t ref
  | breakpoint {r : Dbg.BpRequest} {bp : BreakpointInfo} {ref : Str}
      (hbp : bp ∈ (t.dbg.reply r).1) (href : bp.instructionReference = some ref) : HandedOut t ref
  | instruction {fuel : Nat} {memoryReference offset instructionOffset instructionCount : Int}
      {infos : List DisasmInfo} {i : DisasmInfo}
      (hinfos : h.decoder.disassemble t.computer.memory t.dbg.symbols fuel memoryReference offset
        instructionOffset instructionCount = .ok infos) (hi : i ∈ infos) : HandedOut t i.address
  | evaluated {expr ref : Str}
      (href : (h.z80.evaluate t.dbg.symbols t.computer expr).memoryReference = some ref) :
      HandedOut t ref

/-- The text that stands for an address. -/
def reference (a : UInt16) : Str := formatHex a 4

variable {h}

theorem mem_instrInfos {d : Decoder} {mem : Memory} {s : Symbols} {i : DisasmInfo} {n : Nat}
    {addr : UInt16} (hi : i ∈ d.instrInfos mem s n addr) : ∃ a, i = d.instrInfo mem s a := by
  induction n generalizing addr with
  | zero => cases hi
  | succ n ih =>
    rw [Decoder.instrInfos, if_pos (Decoder.inMemory addr)] at hi
    rcases List.mem_cons.mp hi with rfl | hi
    · exact ⟨addr, rfl⟩
    · exact ih hi

theorem disassemble_ok {d : Decoder} {mem : Memory} {s : Symbols} {fuel : Nat}
    {memoryReference offset instructionOffset instructionCount : Int} {infos : List DisasmInfo}
    (hinfos : d.disassemble mem s fuel memoryReference offset instructionOffset instructionCount
      = .ok infos) : ∃ addr, infos = d.instrInfos mem s instructionCount.toNat addr := by
  unfold Decoder.disassemble at hinfos
  cases hsum : asInt (memoryReference + offset) with
  | error e =>
    rw [hsum] at hinfos
    cases hinfos
  | ok i =>
    rw [hsum] at hinfos
    dsimp only [bind, Except.bind] at hinfos
    cases hstart : d.viewStart mem fuel (Decoder.baseAddr memoryReference offset)
        instructionOffset with
    | error e =>
      rw [hstart] at hinfos
      cases hinfos
    | ok addr =>
      rw [hstart] at hinfos
      exact ⟨addr, (Except.ok.inj hinfos).symm⟩

/-- Where a breakpoint gives an address, it is the text of one. -/
theorem reply_reference {d : Dbg} {r : Dbg.BpRequest} {bp : BreakpointInfo} {ref : Str}
    (hbp : bp ∈ (d.reply r).1) (href : bp.instructionReference = some ref) :
    ∃ a, ref = reference a := by
  cases r with
  | source path n lines =>
    rw [Dbg.reply, Dbg.setSourceBreakpoints] at hbp
    split at hbp
    · obtain ⟨line, -, rfl⟩ := List.mem_map.mp hbp
      rw [Dbg.listingReply] at href
      split at href
      · rename_i addr _
        exact ⟨addr, (Option.some.inj href).symm⟩
      · cases href
    · -- a line of a source file has none
      dsimp only at hbp
      rw [Dbg.resolveSourceBreakpointsForFile] at hbp
      split at hbp
      · cases hbp
      · obtain ⟨line, -, rfl⟩ := List.mem_map.mp hbp
        rw [Dbg.resolveLine] at href
        split at href
        · cases href
        · split at href <;> cases href
  | function names =>
    obtain ⟨name, -, rfl⟩ := List.mem_map.mp hbp
    rw [Dbg.functionReply] at href
    split at href
    · rename_i addr _
      exact ⟨addr, (Option.some.inj href).symm⟩
    · cases href
  | instruction refs =>
    obtain ⟨addr, -, rfl⟩ := List.mem_map.mp hbp
    exact ⟨addr, (Option.some.inj href).symm⟩

/-- Where a variable gives an address, it is the text of one. -/
theorem variable_reference {Z : Z80ex C} {s : Symbols} {m : Computer C} {scope ref : Str}
    {v : VariableInfo} (hv : v ∈ Z.getVariables s m scope) (href : v.memoryReference = some ref) :
    ∃ a, ref = reference a := by
  have hreg : ∀ {name : Str} {val : UInt16} {width : Nat} {withMem : Bool},
      v = Z80ex.makeReg name val width withMem → ∃ a, ref = reference a := by
    rintro name val width withMem rfl
    cases withMem with
    | false => cases href
    | true => exact ⟨val, (Option.some.inj href).symm⟩
  rw [Z80ex.getVariables] at hv
  split at hv
  · simp only [List.mem_cons, List.not_mem_nil, or_false] at hv
    rcases hv with h | h | h | h | h | h | h | h | h | h | h
    all_goals exact hreg h
  split at hv
  · split at hv
    · obtain ⟨sym, -, rfl⟩ := List.mem_map.mp hv
      cases href
    · cases hv
  split at hv
  · obtain ⟨mod, -, hv⟩ := List.mem_flatMap.mp hv
    obtain ⟨sym, -, rfl⟩ := List.mem_map.mp hv
    cases href
  split at hv
  · obtain ⟨seg, -, rfl⟩ := List.mem_map.mp hv
    exact ⟨seg.address.toUInt16, (Option.some.inj href).symm⟩
  split at hv
  · obtain ⟨sym, -, rfl⟩ := List.mem_map.mp hv
    exact ⟨sym.address.toUInt16, (Option.some.inj href).symm⟩
  · cases hv

theorem evaluate_reference {Z : Z80ex C} {s : Symbols} {m : Computer C} {expr ref : Str}
    (href : (Z.evaluate s m expr).memoryReference = some ref) : ∃ a, ref = reference a := by
  rw [Z80ex.evaluate] at href
  split at href
  · dsimp only at href
    split at href
    · exact ⟨_, (Option.some.inj href).symm⟩
    · cases href
  split at href
  · exact ⟨_, (Option.some.inj href).symm⟩
  split at href
  · exact ⟨_, (Option.some.inj href).symm⟩
  · cases href

/-- **Whatever is handed out** is the text of an address. -/
theorem handedOut_reference {t : Z80Target C} {ref : Str} (hout : HandedOut h t ref) :
    ∃ a, ref = reference a := by
  cases hout with
  | frame hf =>
    rw [getStack] at hf
    split at hf
    all_goals
      rw [List.mem_singleton.mp hf]
      exact ⟨t.pc h, rfl⟩
  | shown hv href => exact variable_reference hv href
  | breakpoint hbp href => exact reply_reference hbp href
  | instruction hinfos hi =>
    obtain ⟨addr, rfl⟩ := disassemble_ok hinfos
    obtain ⟨a, rfl⟩ := mem_instrInfos hi
    exact ⟨a, rfl⟩
  | evaluated href => exact evaluate_reference href

/-! ## What requests read in a reference -/

theorem referenceAddr_reference (a : UInt16) : Dbg.referenceAddr (reference a) = some a := by
  rw [Dbg.referenceAddr, reference, stoul_formatHex, Option.map_some, UInt16.ofNat_toNat]

theorem reference_length (a : UInt16) : (reference a).length = 6 := by
  rw [reference, formatHex_eq, List.length_append, hexPadded_length (by decide) a.toNat_lt]
  rfl

/-- The text of an address is no register. -/
theorem evaluateRegs_reference (a : UInt16) :
    (evaluateRegs.find? fun e => (reference a).map capital == e.name) = none := by
  have hshort : ∀ e ∈ evaluateRegs, e.name.length ≤ 2 := by
    rw [evaluateRegs]
    simp [str]
  rw [List.find?_eq_none]
  intro e he heq
  have hlength := congrArg List.length (beq_iff_eq.mp heq)
  have hle := hshort e he
  rw [List.length_map, reference_length] at hlength
  omega

/-- `evaluate` reads it. -/
theorem addressOperand_reference (a : UInt16) : addressOperand (reference a) = some a := by
  have hprefix : (reference a)[0]? = some 48 ∧ (reference a)[1]? = some 120 := by
    rw [reference, formatHex_eq]
    exact ⟨rfl, rfl⟩
  have hform : (reference a).length > 2 ∧ (reference a)[0]? = some 48 ∧
      ((reference a)[1]? = some 120 ∨ (reference a)[1]? = some 88) :=
    ⟨by rw [reference_length]; decide, hprefix.1, Or.inl hprefix.2⟩
  rw [addressOperand, if_pos hform]
  exact referenceAddr_reference a

/-- Every request that takes the text `ref` means the address `a` by it. -/
structure Denotes (h : Host C) (F : Type) [FloatCast F] (t : Z80Target C) (ref : Str) (a : UInt16) : Prop where
  /-- `readMemory` -/
  read : ∀ (b : Request F) r, b.arguments.member (str "memoryReference") = some (.str ref) →
    ReadMemoryRequest.ofRequest b = some r → r.memoryReference = a
  /-- `disassemble` -/
  disassembled : ∀ (b : Request F) r,
    b.arguments.member (str "memoryReference") = some (.str ref) →
    DisassembleRequest.ofRequest b = some r → r.memoryReference = a.toNat
  /-- `evaluate`, unless a symbol of the MAP file is named by the text -/
  evaluated : t.dbg.symbols.namedSymbol ref = none →
    h.z80.evaluate t.dbg.symbols t.computer ref =
      { result := formatHex (t.computer.memory a).toUInt16 2
        errorMessage := []
        memoryReference := some ref }

/-- The text of an address denotes it, to every request. -/
theorem denotes_reference (F : Type) [FloatCast F] (t : Z80Target C) (a : UInt16) :
    Denotes h F t (reference a) a := by
  have hstoul : stoul (reference a) 0 = some a.toNat := stoul_formatHex a 4
  have hlt := a.toNat_lt
  refine ⟨fun b r hb hr => ?_, fun b r hb hr => ?_, fun hsymbol => ?_⟩
  · rw [ReadMemoryRequest.ofRequest, hb] at hr
    simp only [addressOf, hstoul, Option.map_some, Option.bind_eq_bind, Option.bind_some,
      Option.bind_eq_some_iff, Option.some.injEq] at hr
    obtain ⟨offset, -, count, -, rfl⟩ := hr
    show (UInt32.ofNat a.toNat).toUInt16 = a
    apply UInt16.toNat_inj.mp
    rw [UInt32.toNat_toUInt16, UInt32.toNat_ofNat']
    omega
  · rw [DisassembleRequest.ofRequest, hb] at hr
    simp only [Json.getStr, hstoul, Option.bind_eq_bind, Option.bind_some,
      Option.bind_eq_some_iff, Option.some.injEq] at hr
    obtain ⟨offset, -, instructionOffset, -, instructionCount, -, rfl⟩ := hr
    exact Json.castInt_eq_self.mpr ⟨by omega, by omega⟩
  · rw [Z80ex.evaluate, evaluateRegs_reference]
    dsimp only
    rw [hsymbol]
    dsimp only
    rw [addressOperand_reference]
    rfl

/-- **References go round**: the texts that the target gave for addresses, in whatever states it
    was, all denote addresses in every later state, to every request that takes one; and set as
    instruction breakpoints they are all verified under the same texts. -/
theorem references_denote (F : Type) [FloatCast F] (t : Z80Target C) {refs : List Str}
    (hout : ∀ ref ∈ refs, ∃ u, HandedOut h u ref) :
    ∃ addrs : List UInt16, refs = addrs.map reference ∧
      (∀ a ∈ addrs, Denotes h F t (reference a) a) ∧
      (t.dbg.reply (.instruction refs)).1
        = refs.map (fun ref => { verified := true, instructionReference := some ref }) ∧
      (t.dbg.reply (.instruction refs)).2.instructionBreakpoints = addrs := by
  obtain ⟨addrs, rfl⟩ : ∃ addrs : List UInt16, refs = addrs.map reference := by
    induction refs with
    | nil => exact ⟨[], rfl⟩
    | cons ref refs ih =>
      obtain ⟨⟨u, hu⟩, hrest⟩ := List.forall_mem_cons.mp hout
      obtain ⟨a, rfl⟩ := handedOut_reference hu
      obtain ⟨addrs, rfl⟩ := ih hrest
      exact ⟨a :: addrs, rfl⟩
  have hread : (addrs.map reference).filterMap Dbg.referenceAddr = addrs := by
    rw [List.filterMap_map]
    exact (List.filterMap_congr fun a _ => referenceAddr_reference a).trans List.filterMap_some
  have hreply : (t.dbg.reply (.instruction (addrs.map reference))).1
      = ((addrs.map reference).filterMap Dbg.referenceAddr).map Dbg.instructionReply := rfl
  refine ⟨addrs, rfl, fun a _ => denotes_reference F t a, ?_, hread⟩
  rw [hreply, hread, List.map_map]
  rfl

/-- A target that was just created gives its PC as `0x0000`, and later takes it back. -/
theorem references_denote_pc :
    ∃ addrs : List UInt16, [str "0x0000"] = addrs.map reference ∧
      (∀ a ∈ addrs, Denotes storeHost Empty created (reference a) a) ∧
      (created.dbg.reply (.instruction [str "0x0000"])).1
        = [str "0x0000"].map (fun ref => { verified := true, instructionReference := some ref }) ∧
      (created.dbg.reply (.instruction [str "0x0000"])).2.instructionBreakpoints = addrs := by
  refine references_denote Empty created fun ref href => ⟨created, ?_⟩
  obtain rfl := List.mem_singleton.mp href
  exact HandedOut.frame (h := storeHost) (t := created) List.mem_cons_self

end Z80Target

end Udap
