/-
  THE REPLIES TO BREAKPOINT REQUESTS — does a client that pairs them by index read them right?

  A client sends a list of breakpoints and reads a list of replies; the i-th reply is about the i-th
  breakpoint only if the two lists have the same length and the same order.

  1. **Replies as text** — `repliedBreakpoints` is what a client reads in the text of a response.
     The text of a response reads back as the value it was written from (`parse_reply`).

  2. **Pairing** — `Paired d' entries asked` says that the replies answer what was asked for, one by
     one: `asked` lists the address that each breakpoint resolves to, if any.

  3. **Requests** — the replies of each method of the target, paired or not: function breakpoints
     always are; source breakpoints are unless the request has no path and asks for lines;
     instruction breakpoints are if every reference can be read, because the others are dropped.
     `replies_paired` puts the three together for the handlers.
-/
import Udap.Dbg.Breakpoints
import Udap.Dap.Answers
import Udap.Json.Codec

set_option linter.unusedVariables false

namespace Udap

open Udap.Cxx Udap.Dap

/-! ## Replies as text -/

namespace Dap

variable {F : Type}

/-- The breakpoints that a client reads in the text of a response. -/
def repliedBreakpoints (F : Type) [JsonText F] (text : Str) : Option (List (Json F)) := do
  let j ← JsonText.parse (F := F) text
  let body ← j.member (str "body")
  let breakpoints ← body.member (str "breakpoints")
  breakpoints.getVector

/-- Whatever else an entry shows, it shows `verified`. -/
theorem breakpointJson_verified (showLine showMessage : Bool) (bp : BreakpointInfo) :
    (breakpointJson showLine showMessage bp : Json F).member (str "verified")
      = some (.bool bp.verified) := by
  have hkey : ∀ key : Str, str "verified" ≠ key → ∀ (j v : Json F),
      (j.set key v).member (str "verified") = j.member (str "verified") := by
    intro key hne j v
    rw [Json.member_set, if_neg hne]
  have h0 : (Json.object [(str "verified", .bool bp.verified)] : Json F).member (str "verified")
      = some (.bool bp.verified) := rfl
  unfold breakpointJson
  split <;> split <;> split <;>
    simp only [hkey (str "line") (by decide), hkey (str "message") (by decide),
      hkey (str "instructionReference") (by decide), h0]

/-- A client reads the breakpoints that the response lists. -/
theorem repliedBreakpoints_reply [JsonText F] [LawfulJsonText F] {b : Request F} {showLine showMessage : Bool}
    {bps : List BreakpointInfo} {text : Str}
    (h : reply b (breakpointsBody showLine showMessage bps) = some text) :
    repliedBreakpoints F text = some (bps.map (breakpointJson showLine showMessage)) := by
  have hs : (breakpointsBody showLine showMessage bps : Json F).sorted = true := by
    refine Json.sorted_object fun f hf => ?_
    rw [List.mem_singleton.mp hf]
    refine Json.sortedItems_iff.mpr fun j hj => ?_
    obtain ⟨bp, -, rfl⟩ := List.mem_map.mp hj
    exact breakpointJson_sorted showLine showMessage bp
  rw [repliedBreakpoints, parse_reply hs h, Option.bind_eq_bind, Option.bind_some,
    Json.member_set, if_pos rfl]
  rfl

end Dap

/-! ## Pairing -/

namespace Dbg

/-- The reply says whether the breakpoint resolves, and the address it resolves to is armed. -/
def Answers (d : Dbg) (bp : BreakpointInfo) (asked : Option UInt16) : Prop :=
  bp.verified = asked.isSome ∧ ∀ a, asked = some a → a ∈ d.allBreakpoints

/-- The same of an entry as a client reads it: the i-th entry answers the i-th breakpoint. -/
def Paired {F : Type} (d : Dbg) (entries : List (Json F)) (asked : List (Option UInt16)) : Prop :=
  List.Forall₂ (fun e a => e.member (str "verified") = some (.bool (Option.isSome a)) ∧
    ∀ addr, a = some addr → addr ∈ d.allBreakpoints) entries asked

theorem paired_map {F : Type} {d : Dbg} {showLine showMessage : Bool}
    {bps : List BreakpointInfo} {asked : List (Option UInt16)} :
    d.Paired (bps.map (breakpointJson (F := F) showLine showMessage)) asked ↔
      List.Forall₂ d.Answers bps asked := by
  rw [Paired, List.forall₂_map_left_iff]
  simp only [breakpointJson_verified, Option.some.injEq, Json.bool.injEq]
  exact Iff.rfl

/-! ## The states that breakpoint requests meet -/

/-- The states of the debugger as far as breakpoints go: breakpoint requests come in any order, and
    between them `launch` may set symbols, listing path and listing, or resolve the source
    breakpoints again. -/
inductive Reached : Dbg → Prop where
  | start : Reached {}
  | request {d : Dbg} (hd : Reached d) (r : BpRequest) : Reached (d.handle r)
  | load {d : Dbg} (hd : Reached d) (symbols : Symbols) (virtualLst : Str) (listing : List UInt16) :
      Reached { d with symbols := symbols, virtualLstPath := virtualLst,
                       fullListingAddrs := listing }
  | resolve {d : Dbg} (hd : Reached d) : Reached d.rebuildSourceBreakpointAddresses

/-- No lines are ever stored without a path. -/
theorem Reached.pathless {d : Dbg} (hd : Reached d) : d.sourceBreakpointsByFile.lookup [] = none := by
  induction hd with
  | start => exact AList.lookup_empty []
  | @request d hd r ih =>
    cases r with
    | source path ref lines =>
      by_cases hv : d.isVirtual path = true
      · rw [handle_virtual hv]
        exact ih
      · rw [handle_source hv]
        by_cases hpath : path = []
        · rw [setSourceBreakpointsForFile, if_pos (by simpa using hpath)]
          exact ih
        · show (d.setSourceBreakpointsForFile path lines).sourceBreakpointsByFile.lookup [] = none
          rw [lookup_setForFile d hpath, if_neg (Ne.symm hpath), ih]
    | function names => exact ih
    | instruction refs => exact ih
  | load hd symbols virtualLst listing ih => exact ih
  | resolve hd ih => exact ih

/-! ## Source breakpoints -/

/-- What the lines of a request resolve to. -/
def askedLines (d : Dbg) (path : Str) (lines : List Int) : List (Option UInt16) :=
  lines.map (if d.isVirtual path then d.listingAddr else d.symbols.lookupAddress path)

/-- On the virtual listing every line has its reply. -/
theorem virtual_paired {d : Dbg} {path : Str} (hv : d.isVirtual path = true) (ref : Int)
    (lines : List Int) :
    List.Forall₂ (d.setSourceBreakpoints path ref lines).2.Answers
      (d.setSourceBreakpoints path ref lines).1 (d.askedLines path lines) := by
  rw [setSourceBreakpoints, if_pos hv, askedLines, if_pos hv, List.forall₂_map_left_iff,
    List.forall₂_map_right_iff, List.forall₂_same]
  intro line hline
  constructor
  · rw [listingReply]
    cases d.listingAddr line <;> rfl
  · intro a ha
    refine (mem_rebuildAll _ a).mpr (Or.inr (Or.inr (Or.inr ?_)))
    exact List.mem_toFinset.mpr (List.mem_filterMap.mpr ⟨line, hline, ha⟩)

theorem resolveLine_verified (d : Dbg) (file : Str) (line : Int) :
    (d.resolveLine file line).verified = (d.symbols.lookupAddress file line).isSome := by
  unfold resolveLine
  split
  · rename_i h
    rw [h]
    rfl
  · rename_i h
    rw [h]
    split <;> rfl

/-- The replies for a source file are those for its stored lines. -/
theorem setSourceBreakpoints_file {d : Dbg} {path : Str} (hv : ¬ d.isVirtual path = true)
    (ref : Int) (lines : List Int) :
    d.setSourceBreakpoints path ref lines =
      ((d.setSourceBreakpointsForFile path lines).resolveSourceBreakpointsForFile path,
        (d.setSourceBreakpointsForFile path lines).rebuildSourceBreakpointAddresses) := by
  rw [setSourceBreakpoints, if_neg hv]

/-- In a source file every line has its reply. -/
theorem file_paired {d : Dbg} {path : Str} (hpath : path ≠ []) (hv : ¬ d.isVirtual path = true)
    (ref : Int) (lines : List Int) :
    List.Forall₂ (d.setSourceBreakpoints path ref lines).2.Answers
      (d.setSourceBreakpoints path ref lines).1 (d.askedLines path lines) := by
  have hstored := lookup_setForFile d hpath lines path
  have hsymbols : (d.setSourceBreakpointsForFile path lines).symbols = d.symbols := by
    rw [setForFile_frame]
  rw [if_pos rfl] at hstored
  rw [setSourceBreakpoints_file hv, askedLines, if_neg hv]
  by_cases hempty : lines = []
  · subst hempty
    rw [resolveSourceBreakpointsForFile, hstored]
    exact List.Forall₂.nil
  · rw [Option.filter_some, if_pos (by simpa using hempty)] at hstored
    rw [resolveSourceBreakpointsForFile, hstored]
    show List.Forall₂ _ (lines.map _) _
    rw [List.forall₂_map_left_iff, List.forall₂_map_right_iff, List.forall₂_same]
    intro line hline
    refine ⟨by rw [resolveLine_verified, hsymbols], fun a ha => ?_⟩
    refine (mem_rebuildAll _ a).mpr (Or.inl ((mem_sourceAddresses _ a).mpr ?_))
    exact ⟨path, lines, line, hstored, hline, by rw [hsymbols, ha]⟩

/-- A request without a path gets no replies. -/
theorem pathless_replies {d : Dbg} (hd : d.Reached) (ref : Int) (lines : List Int) :
    (d.setSourceBreakpoints [] ref lines).1 = [] := by
  have hv : ¬ d.isVirtual [] = true := by
    unfold isVirtual
    simp
  have hsame : d.setSourceBreakpointsForFile [] lines = d := by
    rw [setSourceBreakpointsForFile, if_pos List.isEmpty_nil]
  rw [setSourceBreakpoints_file hv, hsame, resolveSourceBreakpointsForFile, hd.pathless]

/-- **Source breakpoints** are paired unless lines are asked for without a path. -/
theorem setSourceBreakpoints_paired {d : Dbg} (hd : d.Reached) (path : Str) (ref : Int)
    (lines : List Int) :
    List.Forall₂ (d.setSourceBreakpoints path ref lines).2.Answers
      (d.setSourceBreakpoints path ref lines).1 (d.askedLines path lines) ↔
      path ≠ [] ∨ lines = [] := by
  by_cases hpath : path = []
  · subst hpath
    rw [pathless_replies hd]
    constructor
    · intro h
      cases lines with
      | nil => exact Or.inr rfl
      | cons line lines => cases h
    · rintro (h | rfl)
      · exact absurd rfl h
      · exact List.Forall₂.nil
  · refine iff_of_true ?_ (Or.inl hpath)
    by_cases hv : d.isVirtual path = true
    · exact virtual_paired hv ref lines
    · exact file_paired hpath hv ref lines

/-! ## Function breakpoints -/

/-- **Function breakpoints** are always paired. -/
theorem setFunctionBreakpoints_paired (d : Dbg) (names : List Str) :
    List.Forall₂ (d.setFunctionBreakpoints names).2.Answers (d.setFunctionBreakpoints names).1
      (names.map d.symbols.lookupFunctionAddress) := by
  rw [setFunctionBreakpoints, List.forall₂_map_left_iff, List.forall₂_map_right_iff,
    List.forall₂_same]
  intro name hname
  constructor
  · rw [functionReply]
    cases d.symbols.lookupFunctionAddress name <;> rfl
  · intro a ha
    refine (mem_rebuildAll _ a).mpr (Or.inr (Or.inr (Or.inl ?_)))
    exact List.mem_filterMap.mpr ⟨name, hname, ha⟩

/-! ## Instruction breakpoints -/

section
variable {F : Type}

/-- The address that an instruction breakpoint of a request stands for: it needs a reference that
    can be read. -/
def askedReference (bp : Json F) : Option UInt16 :=
  ((bp.member (str "instructionReference")).bind Json.getStr).bind referenceAddr

/-- The references that the handler collects resolve to what can be read. -/
theorem filterMap_instructionReferences {bps : List (Json F)} {refs : List Str}
    (h : instructionReferences bps = some refs) :
    refs.filterMap referenceAddr = bps.filterMap askedReference := by
  induction bps generalizing refs with
  | nil =>
    cases h
    rfl
  | cons bp bps ih =>
    rw [instructionReferences] at h
    rw [List.filterMap_cons, askedReference]
    cases href : bp.member (str "instructionReference") with
    | none =>
      rw [href] at h
      exact ih h
    | some ref =>
      rw [href] at h
      simp only [Option.bind_eq_bind, Option.bind_eq_some_iff] at h
      obtain ⟨text, htext, rest, hrest, hrefs⟩ := h
      cases hrefs
      rw [List.filterMap_cons, ih hrest, Option.bind_some, htext, Option.bind_some]

/-- Replies to those that resolve, in their order, pair with all that was asked for only if all
    resolve. -/
theorem forall₂_filterMap {α β : Type} {R : β → Option α → Prop} {f : α → β}
    {asked : List (Option α)} (hR : ∀ a, some a ∈ asked → R (f a) (some a)) :
    List.Forall₂ R ((asked.filterMap id).map f) asked ↔ ∀ a ∈ asked, a.isSome = true := by
  constructor
  · intro h
    have hlength := h.length_eq
    rw [List.length_map] at hlength
    exact List.filterMap_length_eq_length.mp hlength
  · intro h
    induction asked with
    | nil => exact List.Forall₂.nil
    | cons a asked ih =>
      obtain ⟨x, rfl⟩ := Option.isSome_iff_exists.mp (h a List.mem_cons_self)
      rw [List.filterMap_cons_some (show id (some x) = some x from rfl), List.map_cons]
      refine List.Forall₂.cons (hR x List.mem_cons_self) (ih ?_ ?_)
      · exact fun b hb => hR b (List.mem_cons_of_mem _ hb)
      · exact fun b hb => h b (List.mem_cons_of_mem _ hb)

/-- **Instruction breakpoints** are paired exactly if every one has a reference that can be read. -/
theorem setInstructionBreakpoints_paired (d : Dbg) {bps : List (Json F)} {refs : List Str}
    (h : instructionReferences bps = some refs) :
    List.Forall₂ (d.setInstructionBreakpoints refs).2.Answers
      (d.setInstructionBreakpoints refs).1 (bps.map askedReference) ↔
      ∀ bp ∈ bps, (askedReference bp).isSome = true := by
  have hrefs : refs.filterMap referenceAddr = (bps.map askedReference).filterMap id := by
    rw [filterMap_instructionReferences h, List.filterMap_map]
    rfl
  have hreplies : (d.setInstructionBreakpoints refs).1 =
      ((bps.map askedReference).filterMap id).map instructionReply := by
    rw [← hrefs]
    rfl
  rw [hreplies, forall₂_filterMap, List.forall_mem_map]
  intro a ha
  refine ⟨rfl, fun b hb => ?_⟩
  cases hb
  refine (mem_rebuildAll _ a).mpr (Or.inr (Or.inl ?_))
  show a ∈ refs.filterMap referenceAddr
  rw [hrefs]
  exact List.mem_filterMap.mpr ⟨some a, ha, rfl⟩

end

/-! ## The handlers -/

/-- The breakpoint methods of `z80_target`, in any target over this state. -/
def z80Breakpoints (T : Target Dbg) : Target Dbg :=
  { T with setSourceBreakpoints := setSourceBreakpoints,
           setFunctionBreakpoints := setFunctionBreakpoints,
           setInstructionBreakpoints := setInstructionBreakpoints }

section
variable {F : Type} [FloatCast F] [JsonText F] [LawfulJsonText F]

/-- **The replies and what was asked for.**  Whatever a handler answers to its request, the client
    reads a list of entries in it.  These are paired with the breakpoints that were asked for:
    those of `setBreakpoints` exactly if there is a path or no line is asked for, those of
    `setFunctionBreakpoints` always, and those of `setInstructionBreakpoints` exactly if every
    breakpoint has a reference that can be read. -/
theorem replies_paired (T : Target Dbg) (b : Request F) (s : Session Dbg) (hs : s.target.Reached) :
    (∀ text s', onSetBreakpoints (z80Breakpoints T) b s = some (text, s') →
      ∃ r entries, SetBreakpointsRequest.ofRequest b = some r ∧
        repliedBreakpoints F text = some entries ∧
        (s'.target.Paired entries (s.target.askedLines r.sourcePath r.lines) ↔
          r.sourcePath ≠ [] ∨ r.lines = [])) ∧
    (∀ text s', onSetFunctionBreakpoints (z80Breakpoints T) b s = some (text, s') →
      ∃ r names entries, SetFunctionBreakpointsRequest.ofRequest b = some r ∧
        r.breakpoints.mapM (fun bp => bp.value (str "name") [] Json.getStr) = some names ∧
        repliedBreakpoints F text = some entries ∧
        s'.target.Paired entries (names.map s.target.symbols.lookupFunctionAddress)) ∧
    (∀ text s', onSetInstructionBreakpoints (z80Breakpoints T) b s = some (text, s') →
      ∃ r entries, SetInstructionBreakpointsRequest.ofRequest b = some r ∧
        repliedBreakpoints F text = some entries ∧
        (s'.target.Paired entries (r.breakpoints.map askedReference) ↔
          ∀ bp ∈ r.breakpoints, (askedReference bp).isSome = true)) := by
  refine ⟨?_, ?_, ?_⟩
  · intro text s' h
    simp only [onSetBreakpoints, Option.bind_eq_bind, Option.bind_eq_some_iff] at h
    obtain ⟨r, hr, t, ht, hs'⟩ := h
    cases hs'
    refine ⟨r, _, hr, repliedBreakpoints_reply ht, paired_map.trans ?_⟩
    exact setSourceBreakpoints_paired hs r.sourcePath r.sourceReference r.lines
  · intro text s' h
    simp only [onSetFunctionBreakpoints, Option.bind_eq_bind, Option.bind_eq_some_iff] at h
    obtain ⟨r, hr, names, hnames, t, ht, hs'⟩ := h
    cases hs'
    refine ⟨r, names, _, hr, hnames, repliedBreakpoints_reply ht, paired_map.mpr ?_⟩
    exact setFunctionBreakpoints_paired s.target names
  · intro text s' h
    simp only [onSetInstructionBreakpoints, Option.bind_eq_bind, Option.bind_eq_some_iff] at h
    obtain ⟨r, hr, refs, hrefs, t, ht, hs'⟩ := h
    cases hs'
    refine ⟨r, _, hr, repliedBreakpoints_reply ht, paired_map.trans ?_⟩
    exact setInstructionBreakpoints_paired s.target hrefs

/-- An instruction breakpoint without a readable reference, in front of one with a reference. -/
def unreadableFirst : Request Empty :=
  { seq := 7, type := str "request", command := str "setInstructionBreakpoints",
    arguments := .object [(str "breakpoints",
      .arr [.object [(str "instructionReference", .str (str "main"))],
        .object [(str "instructionReference", .str (str "0x0010"))]])] }

/-- The only entry of the reply is about the second breakpoint, and a client reads it as the answer
    to the first. -/
theorem unreadableFirst_unpaired :
    ∃ text s' r entries,
      onSetInstructionBreakpoints (z80Breakpoints default) unreadableFirst { target := {} }
        = some (text, s') ∧
      SetInstructionBreakpointsRequest.ofRequest unreadableFirst = some r ∧
      repliedBreakpoints Empty text = some entries ∧
      ¬ s'.target.Paired entries (r.breakpoints.map askedReference) := by
  have hanswer : (onSetInstructionBreakpoints (z80Breakpoints default) unreadableFirst
      { target := {} }).isSome = true := by decide +kernel
  obtain ⟨⟨text, s'⟩, h⟩ := Option.isSome_iff_exists.mp hanswer
  have hrun := h
  simp only [onSetInstructionBreakpoints, Option.bind_eq_bind, Option.bind_eq_some_iff] at h
  obtain ⟨r, hr, refs, hrefs, t, ht, hs'⟩ := h
  cases hs'
  refine ⟨text, _, r, _, hrun, hr, repliedBreakpoints_reply ht, ?_⟩
  rw [paired_map]
  intro hpaired
  have hall := (setInstructionBreakpoints_paired _ hrefs).mp hpaired
  obtain rfl : ⟨[.object [(str "instructionReference", .str (str "main"))],
      .object [(str "instructionReference", .str (str "0x0010"))]]⟩ = r := Option.some.inj hr
  exact absurd (hall _ List.mem_cons_self) (by decide +kernel)

/-- A request that asks for two lines of a file. -/
def twoLines : Request Empty :=
  { seq := 3, type := str "request", command := str "setBreakpoints",
    arguments := .object [(str "source", .object [(str "path", .str (str "/a/main.c"))]),
      (str "breakpoints", .arr [.object [(str "line", .int 4)], .object [(str "line", .int 9)]])] }

/-- The debugger as it starts has two replies to it, paired with the two lines. -/
theorem replies_paired_twoLines :
    ∃ text s' entries,
      onSetBreakpoints (z80Breakpoints default) twoLines { target := {} } = some (text, s') ∧
      repliedBreakpoints Empty text = some entries ∧
      s'.target.Paired entries (askedLines {} (str "/a/main.c") [4, 9]) := by
  have hanswer : (onSetBreakpoints (z80Breakpoints default) twoLines { target := {} }).isSome
      = true := by decide +kernel
  obtain ⟨⟨text, s'⟩, h⟩ := Option.isSome_iff_exists.mp hanswer
  obtain ⟨r, entries, hr, hentries, hpaired⟩ :=
    (replies_paired default twoLines { target := {} } Reached.start).1 text s' h
  obtain rfl : ⟨str "/a/main.c", 0, [4, 9]⟩ = r := Option.some.inj hr
  exact ⟨text, s', entries, h, hentries, hpaired.mpr (Or.inl (by decide))⟩

end

end Dbg

end Udap
