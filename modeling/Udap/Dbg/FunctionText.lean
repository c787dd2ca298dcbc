/-
  FROM THE MAP FILE TO THE SCREEN — where do function breakpoints stop, and what is a frame called?

  Functions are looked up in the symbols of the MAP file, and where no line is known of an address,
  a frame is called after the symbol below it.

  1. **Table** — the names and 16-bit addresses of the symbols (`Symbols.table`), and those of the
     rows of a MAP file (`tableOf`).  Behind a launch the two are the same (`launch_table`).

  2. **Functions** — a symbol stands for a function under three names (`Calls`); the first of them
     counts (`lookupFunctionAddress_first`, `lookupFunctionAddress_none`).

  3. **Frames** — the nearest symbol below an address, and of several at its address the first
     (`NearestBelow`), names the frame, with the distance behind it (`lookupSymbol_nearest`).

  4. **Result** — `functions_of_map`.
-/
import Udap.Dbg.ListingText
import Udap.Dbg.Relaunch
import Udap.Sdcc.MapFile

set_option linter.unusedVariables false

namespace Udap

open Udap.Cxx Udap.Dap Udap.Sdcc

namespace Symbols

/-! ## Functions -/

/-- The symbols, as the debugger uses them. -/
def table (s : Symbols) : List (Str × UInt16) :=
  s.mapSymbols.map fun sym => (sym.name, sym.address.toUInt16)

/-- A symbol of the name `text` stands for the function `name`: it has the name, with an underscore
    or without, or it is `G$name$...`. -/
def Calls (name text : Str) : Prop :=
  text = name ∨ text = 95 :: name ∨
    36 ∉ name ∧ text.length > 3 ∧ ∃ rest, text = str "G$" ++ name ++ 36 :: rest

/-- The address of the first symbol that stands for the function. -/
def FirstCalled (name : Str) (table : List (Str × UInt16)) (addr : UInt16) : Prop :=
  ∃ front text back, table = front ++ (text, addr) :: back ∧ Calls name text ∧
    ∀ x ∈ front, ¬ Calls name x.1

/-- The test that `lookup_function_address` makes of a symbol. -/
def isCalled (name text : Str) : Bool :=
  text == name || text == 95 :: name ||
    (decide (text.length > 3) && text[0]? == some 71 && text[1]? == some 36 &&
      (find text 36 2).any fun d1 => substr text 2 (d1 - 2) == some name)

theorem isCalled_iff (name text : Str) : isCalled name text = true ↔ Calls name text := by
  have hglobal : (text.length > 3 ∧ text[0]? = some 71 ∧ text[1]? = some 36 ∧
      ∃ d1, find text 36 2 = some d1 ∧ substr text 2 (d1 - 2) = some name) ↔
      36 ∉ name ∧ text.length > 3 ∧ ∃ rest, text = str "G$" ++ name ++ 36 :: rest := by
    constructor
    · rintro ⟨hlength, hfirst, hsecond, d1, hfind, hname⟩
      obtain ⟨hle, hd1⟩ := find_bounds hfind
      have hfree := find_free hfind
      rw [substr_of_le (by omega)] at hname
      rw [Option.some.inj hname] at hfree
      refine ⟨hfree, hlength, text.drop (d1 + 1), ?_⟩
      have htext : text = 71 :: 36 :: text.drop 2 := by
        obtain ⟨h0, h0'⟩ := List.getElem?_eq_some_iff.mp hfirst
        obtain ⟨h1, h1'⟩ := List.getElem?_eq_some_iff.mp hsecond
        rw [← h0', ← h1', ← List.drop_eq_getElem_cons, ← List.drop_eq_getElem_cons, List.drop_zero]
      have hbehind : (text.drop 2).drop (d1 - 2) = 36 :: text.drop (d1 + 1) := by
        obtain ⟨hlt, hc⟩ := List.getElem?_eq_some_iff.mp hd1
        rw [List.drop_drop, Nat.add_sub_cancel' hle, List.drop_eq_getElem_cons hlt, hc]
      calc text = 71 :: 36 :: ((text.drop 2).take (d1 - 2) ++ (text.drop 2).drop (d1 - 2)) := by
            rw [List.take_append_drop, ← htext]
        _ = str "G$" ++ name ++ 36 :: text.drop (d1 + 1) := by
            rw [Option.some.inj hname, hbehind]
            rfl
    · rintro ⟨hfree, hlength, rest, rfl⟩
      have hname : (str "G$" ++ name).drop 2 = name := rfl
      refine ⟨hlength, rfl, rfl, (str "G$" ++ name).length,
        find_append (by rw [List.length_append]; exact Nat.le_add_right 2 _) (by rwa [hname]), ?_⟩
      rw [substr_of_le (by omega)]
      have hdrop : (str "G$" ++ name ++ 36 :: rest).drop 2 = name ++ 36 :: rest := rfl
      have hsize : (str "G$" ++ name).length - 2 = name.length := by
        rw [List.length_append]
        exact Nat.add_sub_cancel_left 2 _
      rw [hdrop, hsize, List.take_left]
  rw [Calls, ← hglobal]
  simp only [isCalled, Bool.or_eq_true, Bool.and_eq_true, beq_iff_eq, decide_eq_true_eq, and_assoc,
    or_assoc, Option.any_eq_true]

theorem lookupFunctionAddress_eq (s : Symbols) (name : Str) :
    s.lookupFunctionAddress name = (s.table.find? fun x => isCalled name x.1).map Prod.snd := by
  rw [lookupFunctionAddress, table, List.find?_map, Option.map_map]
  congr 1
  refine congrArg (fun p => s.mapSymbols.find? p) (funext fun sym => ?_)
  rw [Function.comp_apply, isCalled]
  cases find sym.name 36 2 with
  | none => rfl
  | some d1 => rfl

/-- **The first symbol** that stands for a function has its address. -/
theorem lookupFunctionAddress_first {s : Symbols} {name : Str} {addr : UInt16}
    (h : FirstCalled name s.table addr) : s.lookupFunctionAddress name = some addr := by
  obtain ⟨front, text, back, htable, hcalls, hfront⟩ := h
  have hfind : s.table.find? (fun x => isCalled name x.1) = some (text, addr) := by
    refine List.find?_eq_some_iff_append.mpr ⟨(isCalled_iff _ _).mpr hcalls, front, back, htable, ?_⟩
    intro x hx
    rw [Bool.not_eq_true']
    exact Bool.eq_false_iff.mpr fun hcalled => hfront x hx ((isCalled_iff _ _).mp hcalled)
  rw [lookupFunctionAddress_eq, hfind, Option.map_some]

theorem lookupFunctionAddress_none {s : Symbols} {name : Str}
    (h : ∀ x ∈ s.table, ¬ Calls name x.1) : s.lookupFunctionAddress name = none := by
  have hfind : s.table.find? (fun x => isCalled name x.1) = none := by
    refine List.find?_eq_none.mpr fun x hx hcalled => ?_
    exact h x hx ((isCalled_iff _ _).mp hcalled)
  rw [lookupFunctionAddress_eq, hfind, Option.map_none]

/-! ## Frames -/

/-- `(text, addr)` is the nearest entry below `pc`, and the first of those at its address. -/
structure NearestBelow (pc : UInt16) (table : List (Str × UInt16)) (text : Str) (addr : UInt16) :
    Prop where
  below : addr ≤ pc
  nearest : ∃ front back, table = front ++ (text, addr) :: back ∧
    (∀ x ∈ front, x.2 ≤ pc → x.2 < addr) ∧ ∀ x ∈ back, x.2 ≤ pc → x.2 ≤ addr

/-- The name of a frame at `pc` behind a symbol. -/
def frameName (pc : UInt16) (text : Str) (addr : UInt16) : Str :=
  text ++ if pc > addr then 43 :: decimal (pc.toNat - addr.toNat) else []

theorem closerSymbol_above {pc : UInt16} {sym : Symbol} (h : sym.address.toUInt16 > pc)
    (best : Option Symbol) : closerSymbol pc best sym = best := by
  unfold closerSymbol
  exact if_pos h

theorem closerSymbol_nearer {pc : UInt16} {sym : Symbol} (h : sym.address.toUInt16 ≤ pc)
    {best : Option Symbol} (hbest : ∀ b ∈ best, b.address.toUInt16 < sym.address.toUInt16) :
    closerSymbol pc best sym = some sym := by
  unfold closerSymbol
  rw [if_neg (UInt16.not_lt.mpr h)]
  cases best with
  | none => rfl
  | some b => exact if_pos (hbest b rfl)

/-- What the search has found in front of a nearer symbol. -/
theorem foldl_closer_front {pc addr : UInt16} {front : List Symbol}
    (h : ∀ x ∈ front, x.address.toUInt16 ≤ pc → x.address.toUInt16 < addr) {best : Option Symbol}
    (hbest : ∀ b ∈ best, b.address.toUInt16 < addr) :
    ∀ b ∈ front.foldl (closerSymbol pc) best, b.address.toUInt16 < addr := by
  induction front generalizing best with
  | nil => exact hbest
  | cons x front ih =>
    rw [List.foldl_cons]
    refine ih (fun y hy => h y (List.mem_cons_of_mem _ hy)) ?_
    by_cases habove : x.address.toUInt16 > pc
    · rw [closerSymbol_above habove]
      exact hbest
    · have hx : ∀ b ∈ some x, b.address.toUInt16 < addr := by
        intro b hb
        rw [← Option.some.inj hb]
        exact h x List.mem_cons_self (UInt16.not_lt.mp habove)
      unfold closerSymbol
      rw [if_neg habove]
      split
      · exact hx
      · split
        · exact hx
        · exact hbest

/-- What comes behind the nearest symbol makes no difference. -/
theorem foldl_closer_back {pc : UInt16} {back : List Symbol} {e : Symbol}
    (h : ∀ x ∈ back, x.address.toUInt16 ≤ pc → x.address.toUInt16 ≤ e.address.toUInt16) :
    back.foldl (closerSymbol pc) (some e) = some e := by
  induction back with
  | nil => rfl
  | cons x back ih =>
    have hkept : closerSymbol pc (some e) x = some e := by
      by_cases habove : x.address.toUInt16 > pc
      · exact closerSymbol_above habove _
      · have hle := h x List.mem_cons_self (UInt16.not_lt.mp habove)
        unfold closerSymbol
        rw [if_neg habove]
        exact if_neg (UInt16.not_lt.mpr hle)
    rw [List.foldl_cons, hkept]
    exact ih fun y hy => h y (List.mem_cons_of_mem _ hy)

/-- **The nearest symbol** names the frame. -/
theorem lookupSymbol_nearest {s : Symbols} {pc addr : UInt16} {text : Str}
    (h : NearestBelow pc s.table text addr) : s.lookupSymbol pc = some (frameName pc text addr) := by
  obtain ⟨hbelow, front, back, htable, hfront, hback⟩ := h
  obtain ⟨front', rest, hsplit, rfl, hrest⟩ := List.map_eq_append_iff.mp htable
  obtain ⟨e, back', rfl, he, rfl⟩ := List.map_eq_cons_iff.mp hrest
  obtain ⟨rfl, rfl⟩ := Prod.mk.inj he
  have hempty : ∀ b ∈ (none : Option Symbol), b.address.toUInt16 < e.address.toUInt16 :=
    fun b hb => by cases hb
  have hfound : ∀ b ∈ front'.foldl (closerSymbol pc) none, b.address.toUInt16 < e.address.toUInt16 :=
    foldl_closer_front (fun x hx => hfront _ (List.mem_map_of_mem hx)) hempty
  rw [lookupSymbol, hsplit, List.foldl_append, List.foldl_cons, closerSymbol_nearer hbelow hfound,
    foldl_closer_back fun x hx => hback _ (List.mem_map_of_mem hx)]
  rfl

theorem lookupSymbol_none {s : Symbols} {pc : UInt16} (h : ∀ x ∈ s.table, pc < x.2) :
    s.lookupSymbol pc = none := by
  have hnone : ∀ symbols : List Symbol, (∀ x ∈ symbols, pc < x.address.toUInt16) →
      symbols.foldl (closerSymbol pc) none = none := by
    intro symbols hsymbols
    induction symbols with
    | nil => rfl
    | cons x symbols ih =>
      rw [List.foldl_cons, closerSymbol_above (hsymbols x List.mem_cons_self)]
      exact ih fun y hy => hsymbols y (List.mem_cons_of_mem _ hy)
  rw [lookupSymbol, hnone _ fun x hx => h _ (List.mem_map_of_mem hx), Option.map_none]

end Symbols

namespace Dbg

/-- **Function breakpoints**: the reply to each name, and the addresses that are armed. -/
theorem setFunctionBreakpoints_name {d : Dbg} {names : List Str} {i : Nat} {name : Str}
    (hi : names[i]? = some name) :
    (d.setFunctionBreakpoints names).1[i]? = some (d.functionReply name) ∧
      ∀ addr, d.symbols.lookupFunctionAddress name = some addr →
        (d.setFunctionBreakpoints names).2.isBreakpoint addr = true := by
  constructor
  · show (names.map d.functionReply)[i]? = _
    rw [List.getElem?_map, hi, Option.map_some]
  · intro addr haddr
    refine decide_eq_true ((mem_rebuildAll _ addr).mpr (Or.inr (Or.inr (Or.inl ?_))))
    exact List.mem_filterMap.mpr ⟨name, List.mem_of_getElem? hi, haddr⟩

end Dbg

namespace Z80Target

open Symbols MapParser

variable {C : Type} {h : Host C} {args : LaunchArgs} {lines : List MapLine}

/-- The MAP file that a launch reads. -/
def mapFile (args : LaunchArgs) : Str := Host.symbolFile args.mapFile args.program (str ".map")

/-- What the rows of a MAP file list. -/
def tableOf (lines : List MapLine) : List (Str × UInt16) :=
  (lines.flatMap MapLine.entries).map fun e => (e.name.text, e.address.toUInt16)

/-- The symbols of the program are those of its MAP file. -/
theorem launch_table (hprogram : args.program ≠ [])
    (hfound : h.disk.fileExists (mapFile args) = some true)
    (hread : readLines h.disk (mapFile args) = some (lines.map MapLine.text)) {t u : Z80Target C}
    (hlaunch : t.launch h args = some u) : u.dbg.symbols.table = tableOf lines := by
  rw [launch_program hprogram] at hlaunch
  obtain ⟨s, hs, hlaunch⟩ := Option.bind_eq_some_iff.mp hlaunch
  obtain ⟨l, -, rfl⟩ := Option.map_eq_some_iff.mp hlaunch
  unfold loadedSymbols Host.loadMap at hs
  rw [← mapFile, hfound, MapParser.parse, hread] at hs
  simp only [Option.bind_eq_bind, Option.bind_some, if_true, Option.map_some,
    Option.bind_eq_some_iff] at hs
  obtain ⟨s', -, hs⟩ := hs
  obtain rfl := Option.some.inj hs
  obtain ⟨-, hsymbols⟩ := foldl_lines lines {}
  have htable := congrArg (List.map fun x => (x.1, UInt32.toUInt16 x.2)) hsymbols
  rw [List.map_append, List.map_map, List.map_map, List.map_map] at htable
  exact htable

/-- **From the MAP file to the screen.**  Behind the launch of a program, a function breakpoint is
    verified and armed at the address of the first symbol of the MAP file that stands for the
    function, and it is not if there is none; and a frame of whose address no line is known is called
    after the nearest symbol below, and after its address if there is none. -/
theorem functions_of_map (hprogram : args.program ≠ [])
    (hfound : h.disk.fileExists (mapFile args) = some true)
    (hread : readLines h.disk (mapFile args) = some (lines.map MapLine.text)) {t u : Z80Target C}
    (hlaunch : t.launch h args = some u) (names : List Str) :
    ∃ (infos : List BreakpointInfo) (v : Z80Target C),
      u.answer h (.breakpoints (.function names)) = some (.breakpoints infos, v) ∧
      (∀ (i : Nat) (name : Str), names[i]? = some name →
        (∀ addr, FirstCalled name (tableOf lines) addr →
          infos[i]? = some { verified := true, instructionReference := some (formatHex addr 4) } ∧
            v.dbg.isBreakpoint addr = true) ∧
        ((∀ x ∈ tableOf lines, ¬ Calls name x.1) →
          infos[i]? = some { verified := false, message := str "Function not found: " ++ name })) ∧
      ∀ (c : Computer C) (pc : UInt16), h.z80.getReg c.cpu .regPC = pc →
        (v.dbg.symbols.hasCdb = true → v.dbg.symbols.lookupSourceAny pc = none) →
        ∃ frame, ({ v with computer := c } : Z80Target C).answer h .stack
            = some (.stack [frame], { v with computer := c }) ∧
          frame.address = formatHex pc 4 ∧ frame.sourcePath = v.dbg.virtualLstPath ∧
          (∀ text addr, NearestBelow pc (tableOf lines) text addr →
            frame.name = frameName pc text addr) ∧
          ((∀ x ∈ tableOf lines, pc < x.2) → frame.name = formatHex pc 4) := by
  have htable := launch_table hprogram hfound hread hlaunch
  refine ⟨_, _, rfl, fun i name hi => ?_, fun c pc hpc hnowhere => ?_⟩
  · obtain ⟨hreply, harmed⟩ := Dbg.setFunctionBreakpoints_name (d := u.dbg) hi
    constructor
    · intro addr hfirst
      rw [← htable] at hfirst
      have haddr := lookupFunctionAddress_first hfirst
      refine ⟨?_, harmed addr haddr⟩
      rw [Dbg.functionReply, haddr] at hreply
      exact hreply
    · intro hnone
      rw [← htable] at hnone
      rw [Dbg.functionReply, lookupFunctionAddress_none hnone] at hreply
      exact hreply
  · have hsymbols : (u.dbg.reply (.function names)).2.symbols = u.dbg.symbols := rfl
    have hlocation : (if u.dbg.symbols.hasCdb then u.dbg.symbols.lookupSourceAny pc else none)
        = none := by
      split
      · rename_i hcdb
        exact hnowhere hcdb
      · rfl
    rw [answer, Z80Target.pc, hpc, getStack]
    dsimp only
    rw [hsymbols, hlocation]
    refine ⟨_, rfl, rfl, rfl, fun text addr hnearest => ?_, fun hnone => ?_⟩
    · rw [← htable] at hnearest
      rw [lookupSymbol_nearest hnearest, Option.getD_some]
    · rw [← htable] at hnone
      rw [lookupSymbol_none hnone, Option.getD_none]

/-- A host with a page of a listing beside a program. -/
def listingHost : Host (Reg → UInt16) :=
  { storeHost with
    disk := { pageDisk with fileExists := fun path => some (path == str "/clock.map") } }

theorem listingHost_launches :
    ∃ u, created.launch listingHost { program := str "/clock.ihx" } = some u := by
  have hsome : (loadedSymbols listingHost { program := str "/clock.ihx" }).isSome = true := by
    decide +kernel
  obtain ⟨symbols, hsymbols⟩ := Option.isSome_iff_exists.mp hsome
  obtain ⟨n, hbuilt, -⟩ := Decoder.buildFullListing_eq (s := symbols)
    (Decoder.loadDecoder_lengths (listingHost.loadBinary (str "/clock.ihx")).1)
    (Nat.lt_succ_self memorySize)
  change listingHost.decoder.buildFullListing _ _ _ = _ at hbuilt
  have hprogram : ({ program := str "/clock.ihx" } : LaunchArgs).program ≠ [] := by decide
  have hlaunch : created.launch listingHost { program := str "/clock.ihx" } = _ :=
    launch_program hprogram created
  rw [hsymbols, Option.bind_some, hbuilt, Option.map_some] at hlaunch
  exact ⟨_, hlaunch⟩

/-- A breakpoint on a function of the page, and one on none. -/
theorem functions_of_map_page : ∃ u, created.launch listingHost { program := str "/clock.ihx" } = some u ∧
    ∃ infos v, u.answer listingHost (.breakpoints (.function [str "cputc", str "main"]))
      = some (.breakpoints infos, v) ∧
      infos[0]? = some { verified := true, instructionReference := some (formatHex 0xABCD 4) } ∧
      v.dbg.isBreakpoint 0xABCD = true ∧
      infos[1]? = some { verified := false, message := str "Function not found: main" } := by
  obtain ⟨u, hlaunch⟩ := listingHost_launches
  have hentries : tableOf pageLines
      = [(str "_cputc", 0xABCD), (str "DEAD", 0x100), (str "_cputc", 0xABCD)] := by decide +kernel
  have hread : readLines listingHost.disk (mapFile { program := str "/clock.ihx" })
      = some (pageLines.map MapLine.text) := by
    decide +kernel
  obtain ⟨infos, v, hanswer, hnames, -⟩ := functions_of_map (by decide) (by decide +kernel) hread
    hlaunch [str "cputc", str "main"]
  obtain ⟨hfirst, -⟩ := hnames 0 (str "cputc") rfl
  obtain ⟨-, hmissing⟩ := hnames 1 (str "main") rfl
  rw [hentries] at hfirst hmissing
  have hputc : FirstCalled (str "cputc")
      [(str "_cputc", 0xABCD), (str "DEAD", 0x100), (str "_cputc", 0xABCD)] 0xABCD := by
    refine ⟨[], str "_cputc", _, rfl, Or.inr (Or.inl rfl), fun x hx => ?_⟩
    cases hx
  obtain ⟨hreply, harmed⟩ := hfirst _ hputc
  refine ⟨u, hlaunch, infos, v, hanswer, hreply, harmed, hmissing fun x hx hcalls => ?_⟩
  have hnone : ∀ x ∈ [(str "_cputc", (0xABCD : UInt16)), (str "DEAD", 0x100), (str "_cputc", 0xABCD)],
      isCalled (str "main") x.1 = false := by decide +kernel
  have hcalled := hnone x hx
  rw [(isCalled_iff _ _).mpr hcalls] at hcalled
  cases hcalled

end Z80Target

end Udap
