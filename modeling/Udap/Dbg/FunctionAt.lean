/-
  THE FUNCTION AT AN ADDRESS — whose variables does the debugger show?

  `lookup_function_at` takes the first function with the address between its start and its end, and
  if there is none, the function of the MAP file that starts nearest below.  The end in a CDB file
  is the address of the last instruction, so that it belongs to the function.

  1. **The first search** treats the end as one behind the function, and 0xFFFF as none
     (`functionOver_iff`).

  2. **The second search** goes by the MAP file alone: the nearest start wins, and of functions that
     start there the last (`Best`, `foldl_closerFunction_eq`).

  3. **The result** — functions that do not overlap are found at every address but their end, where
     the second search decides (`lookupFunctionAt_iff`).  An end at 0xFFFF is none, and so is right;
     a start at 0xFFFF is none, and leaves the function to the second search.
-/
import Udap.Dbg.Variables

set_option linter.unusedVariables false

namespace Udap

open Udap.Cxx Udap.Sdcc

/-- `address` is one of the function: its end is the address of its last instruction. -/
def InFunction (fn : CdbgInfoFunction) (address : UInt16) : Prop :=
  fn.startAddr ≤ address ∧ address ≤ fn.endAddr

/-- The first search does not see the function at `address`: its last address, or the only one of
    a function at the end of the memory. -/
def Overlooked (fn : CdbgInfoFunction) (address : UInt16) : Prop :=
  fn.startAddr = 0xFFFF ∨ (address = fn.endAddr ∧ fn.endAddr ≠ 0xFFFF)

namespace Symbols

variable (s : Symbols)

/-- The address of a function in the MAP file, if it is not above `address`. -/
def startBelow (address : UInt16) (fn : CdbgInfoFunction) : Option UInt16 :=
  (s.lookupFunctionAddress fn.name).filter fun a => decide (a ≤ address)

/-- Of all functions, those in front of `fn` and those behind it, `fn` is the last of those that
    start nearest below in the MAP file. -/
def NearestInMap (address : UInt16) (pre : List CdbgInfoFunction) (fn : CdbgInfoFunction)
    (post : List CdbgInfoFunction) : Prop :=
  ∃ a, s.startBelow address fn = some a ∧
    (∀ g ∈ pre, ∀ b, s.startBelow address g = some b → b ≤ a) ∧
    (∀ g ∈ post, ∀ b, s.startBelow address g = some b → b < a)

variable {s}

/-! ## The first search -/

theorem functionOver_iff (fn : CdbgInfoFunction) (address : UInt16) :
    functionOver address fn = true ↔
      fn.startAddr ≠ 0xFFFF ∧ fn.startAddr ≤ address ∧ (fn.endAddr = 0xFFFF ∨ address < fn.endAddr) := by
  simp only [functionOver, Bool.and_eq_true, bne_iff_ne, decide_eq_true_eq, Bool.or_eq_true,
    beq_iff_eq, and_assoc, ne_eq]

/-- It takes no function that does not have the address. -/
theorem inFunction_of_functionOver {fn : CdbgInfoFunction} {address : UInt16}
    (h : functionOver address fn = true) : InFunction fn address := by
  obtain ⟨-, hstart, hend⟩ := (functionOver_iff fn address).mp h
  refine ⟨hstart, ?_⟩
  rcases hend with hend | hend
  · rw [hend]
    exact UInt16.le_iff_toNat_le.mpr (Nat.le_of_lt_succ address.toNat_lt)
  · exact UInt16.le_of_lt hend

/-- It takes a function at all of its addresses, unless it overlooks it. -/
theorem functionOver_eq_false {fn : CdbgInfoFunction} {address : UInt16}
    (h : InFunction fn address) : functionOver address fn = false ↔ Overlooked fn address := by
  rw [← Bool.not_eq_true, functionOver_iff, Overlooked]
  constructor
  · intro hno
    by_contra hseen
    rw [not_or, not_and, not_not] at hseen
    refine hno ⟨hseen.1, h.1, ?_⟩
    by_cases hend : address = fn.endAddr
    · exact Or.inl (hseen.2 hend)
    · exact Or.inr (UInt16.lt_of_le_of_ne h.2 hend)
  · rintro (hstart | ⟨hend, hmore⟩) ⟨hrecorded, -, hover⟩
    · exact hrecorded hstart
    · rcases hover with hnone | hlt
      · exact hmore hnone
      · rw [hend] at hlt
        exact UInt16.lt_irrefl _ hlt

/-! ## The second search -/

theorem closerFunction_none {address : UInt16} {fn : CdbgInfoFunction}
    (h : s.startBelow address fn = none) (best : Option (CdbgInfoFunction × UInt16)) :
    s.closerFunction address best fn = best := by
  unfold closerFunction
  unfold startBelow at h
  cases haddr : s.lookupFunctionAddress fn.name with
  | none => rfl
  | some a =>
    rw [haddr, Option.filter_eq_none_iff] at h
    have habove : a > address := by
      have := h a rfl
      rw [decide_eq_true_eq] at this
      exact UInt16.not_le.mp this
    exact if_pos habove

/-- A start that is not below the best one so far is taken. -/
theorem closerFunction_some {address a : UInt16} {fn : CdbgInfoFunction}
    (h : s.startBelow address fn = some a) (best : Option (CdbgInfoFunction × UInt16)) :
    (∀ p ∈ best, p.2 ≤ a) ∧ s.closerFunction address best fn = some (fn, a) ∨
      (∃ p ∈ best, a < p.2) ∧ s.closerFunction address best fn = best := by
  obtain ⟨haddr, hle⟩ := Option.filter_eq_some_iff.mp h
  have hbelow : ¬ a > address := UInt16.not_lt.mpr (of_decide_eq_true hle)
  unfold closerFunction
  rw [haddr]
  dsimp only
  rw [if_neg hbelow]
  cases best with
  | none => exact Or.inl ⟨nofun, rfl⟩
  | some p =>
    dsimp only
    by_cases hge : a ≥ p.2
    · rw [if_pos hge]
      refine Or.inl ⟨?_, rfl⟩
      rintro q hq
      obtain rfl := Option.some.inj hq
      exact hge
    · rw [if_neg hge]
      exact Or.inr ⟨⟨p, rfl, UInt16.not_le.mp hge⟩, rfl⟩

/-- The search keeps what it has or takes one of the functions. -/
theorem foldl_closerFunction_mem (address : UInt16) (fns : List CdbgInfoFunction)
    (best : Option (CdbgInfoFunction × UInt16)) :
    fns.foldl (s.closerFunction address) best = best ∨
      ∃ p, fns.foldl (s.closerFunction address) best = some p ∧ p.1 ∈ fns := by
  induction fns generalizing best with
  | nil => exact Or.inl rfl
  | cons fn fns ih =>
    rw [List.foldl_cons]
    rcases ih (s.closerFunction address best fn) with hsame | ⟨p, hp, hmem⟩
    · rw [hsame]
      cases hstart : s.startBelow address fn with
      | none => exact Or.inl (closerFunction_none hstart best)
      | some a =>
        rcases closerFunction_some hstart best with ⟨-, htaken⟩ | ⟨-, hkept⟩
        · exact Or.inr ⟨(fn, a), htaken, List.mem_cons_self⟩
        · exact Or.inl hkept
    · exact Or.inr ⟨p, hp, List.mem_cons_of_mem fn hmem⟩

/-- What the search over some functions has found starts below, and no function starts nearer. -/
structure Best (s : Symbols) (address : UInt16) (fns : List CdbgInfoFunction)
    (best : Option (CdbgInfoFunction × UInt16)) : Prop where
  found : ∀ p ∈ best, p.1 ∈ fns ∧ s.startBelow address p.1 = some p.2
  nearest : ∀ g ∈ fns, ∀ b, s.startBelow address g = some b → ∃ p ∈ best, b ≤ p.2

/-- **Step lemma** of the search. -/
theorem Best.step {address : UInt16} {fns : List CdbgInfoFunction}
    {best : Option (CdbgInfoFunction × UInt16)} (h : Best s address fns best)
    (fn : CdbgInfoFunction) : Best s address (fns ++ [fn]) (s.closerFunction address best fn) := by
  have hfound : ∀ p ∈ best, p.1 ∈ fns ++ [fn] ∧ s.startBelow address p.1 = some p.2 := by
    intro p hp
    exact ⟨List.mem_append_left _ (h.found p hp).1, (h.found p hp).2⟩
  cases hstart : s.startBelow address fn with
  | none =>
    rw [closerFunction_none hstart]
    refine ⟨hfound, fun g hg b hb => ?_⟩
    rcases List.mem_append.mp hg with hg | hg
    · exact h.nearest g hg b hb
    · rw [List.mem_singleton.mp hg, hstart] at hb
      cases hb
  | some a =>
    rcases closerFunction_some hstart best with ⟨hbest, htaken⟩ | ⟨⟨q, hq, hlt⟩, hkept⟩
    · rw [htaken]
      refine ⟨fun p hp => ?_, fun g hg b hb => ⟨(fn, a), rfl, ?_⟩⟩
      · obtain rfl := Option.some.inj hp
        exact ⟨List.mem_append_right _ List.mem_cons_self, hstart⟩
      · rcases List.mem_append.mp hg with hg | hg
        · obtain ⟨p, hp, hle⟩ := h.nearest g hg b hb
          exact UInt16.le_trans hle (hbest p hp)
        · rw [List.mem_singleton.mp hg, hstart] at hb
          exact (Option.some.inj hb) ▸ UInt16.le_refl a
    · rw [hkept]
      refine ⟨hfound, fun g hg b hb => ?_⟩
      rcases List.mem_append.mp hg with hg | hg
      · exact h.nearest g hg b hb
      · rw [List.mem_singleton.mp hg, hstart] at hb
        exact ⟨q, hq, (Option.some.inj hb) ▸ UInt16.le_of_lt hlt⟩

/-- **The invariant of the search.** -/
theorem best_foldl (s : Symbols) (address : UInt16) (fns : List CdbgInfoFunction) :
    Best s address fns (fns.foldl (s.closerFunction address) none) := by
  induction fns using List.reverseRecOn with
  | nil => exact ⟨nofun, nofun⟩
  | append_singleton fns fn ih =>
    rw [List.foldl_append]
    exact ih.step fn

/-- A function stays the best if those behind it do not start as near. -/
theorem foldl_closerFunction_kept {address a : UInt16} {fn : CdbgInfoFunction}
    {fns : List CdbgInfoFunction}
    (h : ∀ g ∈ fns, ∀ b, s.startBelow address g = some b → b < a) :
    fns.foldl (s.closerFunction address) (some (fn, a)) = some (fn, a) := by
  induction fns with
  | nil => rfl
  | cons g fns ih =>
    obtain ⟨hg, hfns⟩ := List.forall_mem_cons.mp h
    have hone : s.closerFunction address (some (fn, a)) g = some (fn, a) := by
      cases hstart : s.startBelow address g with
      | none => exact closerFunction_none hstart _
      | some b =>
        rcases closerFunction_some hstart (some (fn, a)) with ⟨hle, -⟩ | ⟨-, hsame⟩
        · exact absurd (hle _ rfl) (UInt16.not_le.mpr (hg b hstart))
        · exact hsame
    rw [List.foldl_cons, hone]
    exact ih hfns

/-- It takes a function that starts as near as the best in front of it. -/
theorem closerFunction_best {address a : UInt16} {fns : List CdbgInfoFunction}
    {fn : CdbgInfoFunction} (hstart : s.startBelow address fn = some a)
    (hfns : ∀ g ∈ fns, ∀ b, s.startBelow address g = some b → b ≤ a) :
    s.closerFunction address (fns.foldl (s.closerFunction address) none) fn = some (fn, a) := by
  rcases closerFunction_some hstart (fns.foldl (s.closerFunction address) none) with
    ⟨-, htaken⟩ | ⟨⟨q, hq, hlt⟩, -⟩
  · exact htaken
  · obtain ⟨hmem, hq⟩ := (best_foldl s address fns).found q hq
    exact absurd hlt (UInt16.not_lt.mpr (hfns q.1 hmem q.2 hq))

/-- No function behind the one that is found starts as near: it would have been taken. -/
theorem foldl_closerFunction_behind {address a : UInt16} {pre post : List CdbgInfoFunction}
    {fn : CdbgInfoFunction} (hpost : fn ∉ post)
    (hfold : (pre ++ fn :: post).foldl (s.closerFunction address) none = some (fn, a))
    {g : CdbgInfoFunction} (hg : g ∈ post) : s.startBelow address g ≠ some a := by
  intro hstart
  obtain ⟨p1, p2, rfl⟩ := List.append_of_mem hg
  have hsplit : pre ++ fn :: (p1 ++ g :: p2) = (pre ++ fn :: p1) ++ g :: p2 := by simp
  have hnearest : ∀ f ∈ pre ++ fn :: p1, ∀ b, s.startBelow address f = some b → b ≤ a := by
    intro f hf b hb
    have hbest := best_foldl s address (pre ++ fn :: (p1 ++ g :: p2))
    rw [hfold, hsplit] at hbest
    obtain ⟨p, hp, hle⟩ := hbest.nearest f (List.mem_append_left _ hf) b hb
    obtain rfl := Option.some.inj hp
    exact hle
  rw [hsplit, List.foldl_append, List.foldl_cons, closerFunction_best hstart hnearest] at hfold
  -- from `g` on the search finds `g` or a function behind it
  have hbehind : fn ∈ g :: p2 := by
    rcases foldl_closerFunction_mem (s := s) address p2 (some (g, a)) with hsame | ⟨p, hp, hmem⟩
    · rw [hsame] at hfold
      rw [(Prod.mk.inj (Option.some.inj hfold)).1]
      exact List.mem_cons_self
    · rw [hp] at hfold
      obtain rfl := Option.some.inj hfold
      exact List.mem_cons_of_mem g hmem
  exact hpost (List.mem_append_right p1 hbehind)

/-- **Which function the second search finds**, among functions of which `fn` is one. -/
theorem foldl_closerFunction_eq {address : UInt16} {pre post : List CdbgInfoFunction}
    {fn : CdbgInfoFunction} (hpost : fn ∉ post) :
    ((pre ++ fn :: post).foldl (s.closerFunction address) none).map Prod.fst = some fn ↔
      s.NearestInMap address pre fn post := by
  constructor
  · intro h
    obtain ⟨⟨f, a⟩, hfold, hfn⟩ := Option.map_eq_some_iff.mp h
    obtain rfl : f = fn := hfn
    have hbest := best_foldl s address (pre ++ f :: post)
    rw [hfold] at hbest
    have hle : ∀ g ∈ pre ++ f :: post, ∀ b, s.startBelow address g = some b → b ≤ a := by
      intro g hg b hb
      obtain ⟨p, hp, hle⟩ := hbest.nearest g hg b hb
      obtain rfl := Option.some.inj hp
      exact hle
    refine ⟨a, (hbest.found _ rfl).2, fun g hg => hle g (List.mem_append_left _ hg), ?_⟩
    intro g hg b hb
    apply UInt16.lt_of_le_of_ne (hle g (List.mem_append_right _ (List.mem_cons_of_mem f hg)) b hb)
    rintro rfl
    exact foldl_closerFunction_behind hpost hfold hg hb
  · rintro ⟨a, hown, hpre, hbehind⟩
    rw [List.foldl_append, List.foldl_cons, closerFunction_best hown hpre,
      foldl_closerFunction_kept hbehind]
    rfl

/-! ## The result -/

/-- **When the function at an address is found.**  No two functions have an address in common.  Then
    a function is found at each of its addresses if and only if, where the first search overlooks
    it, the MAP file makes it the nearest. -/
theorem lookupFunctionAt_iff {pre post : List CdbgInfoFunction} {fn : CdbgInfoFunction}
    (hfunctions : s.cdbModules.flatMap CdbgInfoModule.functions = pre ++ fn :: post)
    (hdisjoint : (pre ++ fn :: post).Pairwise fun g h =>
      ∀ address, ¬ (InFunction g address ∧ InFunction h address))
    {address : UInt16} (haddress : InFunction fn address) :
    s.lookupFunctionAt address = some fn ↔
      (Overlooked fn address → s.NearestInMap address pre fn post) := by
  obtain ⟨-, hrest, hcross⟩ := List.pairwise_append.mp hdisjoint
  obtain ⟨hbehind, -⟩ := List.pairwise_cons.mp hrest
  have hpre : ∀ g ∈ pre, ¬ functionOver address g = true := by
    intro g hg htrue
    exact hcross g hg fn List.mem_cons_self address ⟨inFunction_of_functionOver htrue, haddress⟩
  have hpost : ∀ g ∈ post, ¬ InFunction g address := by
    intro g hg hin
    exact hbehind g hg address ⟨haddress, hin⟩
  have hfnPost : fn ∉ post := fun hmem => hpost fn hmem haddress
  unfold lookupFunctionAt
  rw [hfunctions]
  dsimp only
  cases hover : functionOver address fn with
  | false =>
    have hoverlooked : Overlooked fn address := (functionOver_eq_false haddress).mp hover
    have hnone : (pre ++ fn :: post).find? (functionOver address) = none := by
      refine List.find?_eq_none.mpr fun g hg => ?_
      rcases List.mem_append.mp hg with hg | hg
      · exact hpre g hg
      · rcases List.mem_cons.mp hg with rfl | hg
        · rw [hover]
          exact Bool.false_ne_true
        · exact fun htrue => hpost g hg (inFunction_of_functionOver htrue)
    rw [hnone, Option.none_or, foldl_closerFunction_eq hfnPost]
    exact ⟨fun h _ => h, fun h => h hoverlooked⟩
  | true =>
    have hseen : ¬ Overlooked fn address := by
      intro hoverlooked
      rw [(functionOver_eq_false haddress).mpr hoverlooked] at hover
      cases hover
    have hfound : (pre ++ fn :: post).find? (functionOver address) = some fn := by
      refine List.find?_eq_some_iff_append.mpr ⟨hover, pre, post, rfl, ?_⟩
      intro g hg
      simpa using hpre g hg
    rw [hfound, Option.some_or]
    exact iff_of_true rfl fun h => absurd h hseen

/-- Two functions, one behind the other. -/
def firstFunction : CdbgInfoFunction :=
  { name := str "first", scope := str "global", startAddr := 0x100, endAddr := 0x105 }

def secondFunction : CdbgInfoFunction :=
  { name := str "second", scope := str "global", startAddr := 0x106, endAddr := 0x110 }

/-- Symbols with these functions and an empty MAP file. -/
def twoFunctions : Symbols :=
  { cdbModules := [{ name := str "main", functions := [firstFunction, secondFunction] }] }

theorem disjoint_twoFunctions : [firstFunction, secondFunction].Pairwise fun g h =>
    ∀ address, ¬ (InFunction g address ∧ InFunction h address) := by
  apply List.pairwise_pair.mpr
  rintro address ⟨⟨-, hfirst⟩, ⟨hsecond, -⟩⟩
  have hlt : (0x106 : UInt16) ≤ 0x105 := UInt16.le_trans hsecond hfirst
  exact absurd hlt (by decide)

/-- Inside of a function it is found. -/
theorem lookupFunctionAt_inside : twoFunctions.lookupFunctionAt 0x104 = some firstFunction := by
  have hfunctions : twoFunctions.cdbModules.flatMap CdbgInfoModule.functions
      = [] ++ firstFunction :: [secondFunction] := rfl
  refine (lookupFunctionAt_iff hfunctions disjoint_twoFunctions
    ⟨by decide, by decide⟩).mpr ?_
  rintro (hstart | ⟨hend, -⟩)
  · exact absurd hstart (by decide)
  · exact absurd hend (by decide)

/-- **At its last instruction it is not**: without a MAP file nothing is found there. -/
theorem lookupFunctionAt_end :
    ((twoFunctions.cdbModules.flatMap CdbgInfoModule.functions).Pairwise fun g h =>
        ∀ address, ¬ (InFunction g address ∧ InFunction h address)) ∧
      firstFunction ∈ twoFunctions.cdbModules.flatMap CdbgInfoModule.functions ∧
      InFunction firstFunction 0x105 ∧ twoFunctions.lookupFunctionAt 0x105 = none := by
  refine ⟨disjoint_twoFunctions, List.mem_cons_self, ⟨by decide, by decide⟩, ?_⟩
  decide +kernel

end Symbols

end Udap
