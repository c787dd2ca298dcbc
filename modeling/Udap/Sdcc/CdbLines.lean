/-
  CDB LINES — in which module does a line of C end up?

  A record `L:C$file$number$level$block:address` goes to the module that its file names, wherever in
  the text it stands.  The parser cuts the file at its last dot and looks for a module of that name.

  1. **Line records** — `CdbLine` is what the compiler writes, `entry` the line it stands for, and
     `stemOf` the name of the module it belongs to.

  2. **Names and lines** — a module is opened by its record and by nothing else (`exec_names`), and
     its lines are only added to (`exec_kept`).

  3. **The result** — whether the current module is the right one or another one is searched for, a
     line goes to the module of the name that the parser makes of its file (`storeLine_appended`).
     That is the right name if and only if the file is the name of the module and an extension:
     directories are not dropped (`line_stored_iff`).
-/
import Udap.Cxx.Hex
import Udap.Sdcc.CdbSafety
import Udap.Sdcc.CdbText

set_option linter.unusedVariables false

namespace Udap.Sdcc

open Udap Udap.Cxx

/-! ## Line records -/

/-- The record of a line of C: `C$file$number$level$block:address`. -/
structure CdbLine where
  file : TextWithout 36
  number : Int
  number_int : InInt number
  level : TextWithout 36
  block : TextWithout 36
  block_plain : (58 : UInt8) ∉ block.text
  address : UInt16
  /-- The digits of the address, in letters of either case. -/
  digits : Str
  width : Nat
  digits_eq : digits.map capital = hexPadded width address.toNat

namespace CdbLine

def content (r : CdbLine) : Str :=
  str "C$" ++ (r.file.text ++ 36 :: (Cxx.toString r.number ++ 36 :: (r.level.text ++
    36 :: (r.block.text ++ 58 :: r.digits))))

/-- Its file with slashes. -/
def path (r : CdbLine) : Str := r.file.text.map fun b => if b = 92 then 47 else b

/-- The line it stands for. -/
def entry (r : CdbLine) : CdbgInfoLine where
  file := r.path
  line := r.number
  address := r.address
  scope := str "local"

end CdbLine

/-- A file without its directories and without its last extension. -/
def stemOf (file : Str) : Str :=
  match rfind (Path.filename file) 46 with
  | none => Path.filename file
  | some dot => (Path.filename file).take dot

/-- The file is its stem and an extension.  A file without a dot has to have an empty stem. -/
def NamesModule (file : Str) : Prop :=
  (∃ ext, (46 : UInt8) ∉ ext ∧ file = stemOf file ++ 46 :: ext) ∨
    ((46 : UInt8) ∉ file ∧ stemOf file = [])

namespace CdbParser

/-! ## Lists that are only added to -/

/-- Every element of `a` is in `b`, in its place, changed as `R` says. -/
def Extends {α : Type} (R : α → α → Prop) (a b : List α) : Prop :=
  ∀ (i : Nat) (x : α), a[i]? = some x → ∃ y, b[i]? = some y ∧ R x y

section Extends

variable {α : Type} {R : α → α → Prop}

theorem Extends.trans (hR : ∀ x y z, R x y → R y z → R x z) {a b c : List α}
    (hab : Extends R a b) (hbc : Extends R b c) : Extends R a c := by
  intro i x hx
  obtain ⟨y, hy, hxy⟩ := hab i x hx
  obtain ⟨z, hz, hyz⟩ := hbc i y hy
  exact ⟨z, hz, hR x y z hxy hyz⟩

theorem extends_append (hR : ∀ x, R x x) (a b : List α) : Extends R a (a ++ b) := by
  intro i x hx
  have hlt : i < a.length := (List.getElem?_eq_some_iff.mp hx).1
  exact ⟨x, by rw [List.getElem?_append_left hlt, hx], hR x⟩

theorem extends_refl (hR : ∀ x, R x x) (a : List α) : Extends R a a :=
  fun _ x hx => ⟨x, hx, hR x⟩

theorem extends_modifyLast (hR : ∀ x, R x x) {f : α → α} (hf : ∀ x, R x (f x)) (l : List α) :
    Extends R l (modifyLast f l) := by
  intro i x hx
  rw [getElem?_modifyLast, hx]
  split
  · exact ⟨f x, rfl, hf x⟩
  · exact ⟨x, rfl, hR x⟩

theorem extends_modifyFirst (hR : ∀ x, R x x) (p : α → Bool) {f : α → α} (hf : ∀ x, R x (f x))
    (l : List α) : Extends R l (modifyFirst p f l) := by
  intro i x hx
  rw [getElem?_modifyFirst, hx]
  split
  · exact ⟨f x, rfl, hf x⟩
  · exact ⟨x, rfl, hR x⟩

end Extends

/-! ## Names and lines -/

/-- A module that is still there: of the same name, with its lines in front. -/
def Keeps (mod mod' : CdbgInfoModule) : Prop := mod'.name = mod.name ∧ mod.lines <+: mod'.lines

theorem keeps_refl (mod : CdbgInfoModule) : Keeps mod mod := ⟨rfl, List.prefix_rfl⟩

theorem keeps_trans (a b c : CdbgInfoModule) (hab : Keeps a b) (hbc : Keeps b c) : Keeps a c :=
  ⟨hbc.1.trans hab.1, hab.2.trans hbc.2⟩

theorem keeps_addLine (ln : CdbgInfoLine) (mod : CdbgInfoModule) : Keeps mod (addLine ln mod) :=
  ⟨rfl, List.prefix_append _ _⟩

/-- No line of the text takes a line of C away. -/
theorem Change.kept {line : Str} {a b : List CdbgInfoModule} (h : Change line a b) :
    Extends Keeps a b := by
  cases h with
  | opened name hname h =>
    rw [h]
    exact extends_append keeps_refl a _
  | declared fn hrecord hfn h =>
    rw [h]
    refine extends_modifyLast keeps_refl ?_ a
    exact fun mod => ⟨rfl, List.prefix_rfl⟩
  | described f hf h =>
    rw [h]
    refine extends_modifyLast keeps_refl (fun mod => ⟨(hf mod).name, ?_⟩) a
    rw [(hf mod).lines]
  | line s ln name hname hs h =>
    rw [h, ← hs]
    unfold storeLine
    split
    · exact extends_modifyLast keeps_refl (keeps_addLine ln) s.data
    · exact extends_modifyFirst keeps_refl _ (keeps_addLine ln) s.data
  | marked m hmarker h =>
    rw [h]
    refine extends_modifyFirst keeps_refl _ ?_ a
    exact fun mod => ⟨rfl, List.prefix_rfl⟩
  | same h =>
    rw [h]
    exact extends_refl keeps_refl a

/-- **Lines are only added**, by the records and by the merge. -/
theorem exec_kept {lines : List Str} {s t : CdbParser} (h : Run.exec parseRaw lines s = some t) :
    Extends Keeps s.data t.data := by
  refine Run.exec_inv (I := fun u => Extends Keeps s.data u.data) ?_ lines s t
    (extends_refl keeps_refl s.data) h
  intro line u v hu hv
  exact hu.trans keeps_trans (parseRaw_change hv).kept

theorem merge_kept (order : HashOrder) (s : CdbParser) :
    Extends Keeps s.data (mergeAsmLines order s) := by
  have hfold : ∀ (es : List (Str × Table Int UInt16)) (data : List CdbgInfoModule),
      Extends Keeps s.data data → Extends Keeps s.data (es.foldl (mergeModule order) data) := by
    intro es
    induction es with
    | nil => exact fun data h => h
    | cons e es ih =>
      intro data h
      refine ih _ (h.trans keeps_trans ?_)
      unfold mergeModule
      split
      · refine extends_modifyFirst keeps_refl _ ?_ data
        exact fun mod => ⟨rfl, List.prefix_rfl⟩
      · exact extends_append keeps_refl data _
  exact hfold _ _ (extends_refl keeps_refl s.data)

/-- The name of a module is the content of its record. -/
theorem moduleName?_eq_some {line name : Str} :
    moduleName? line = some name ↔ recordOf line = some (77, name) := by
  unfold moduleName?
  constructor
  · intro h
    split at h
    · rename_i hsome
      rw [hsome, Option.some.inj h]
    · cases h
  · intro h
    rw [h]
    rfl

/-- A line opens the module it declares, and no other. -/
theorem parseRaw_names {line : Str} {s t : CdbParser} (h : parseRaw line s = some t) :
    t.data.map CdbgInfoModule.name
      = s.data.map CdbgInfoModule.name ++ (moduleName? line).toList := by
  cases hname : moduleName? line with
  | some name =>
    rw [parseRaw_eq, moduleName?_eq_some.mp hname] at h
    obtain rfl : parseModule name s = t := Option.some.inj h
    exact List.map_append
  | none =>
    rw [Option.toList_none, List.append_nil]
    cases parseRaw_change h with
    | opened name hopened hdata =>
      rw [hname] at hopened
      cases hopened
    | declared fn hrecord hfn hdata =>
      rw [hdata]
      refine map_modifyLast ?_ s.data
      exact fun mod => rfl
    | described f hf hdata =>
      rw [hdata]
      exact map_modifyLast (fun mod => (hf mod).name) s.data
    | line s' ln name hname' hs hdata =>
      rw [hdata, ← hs]
      unfold storeLine
      split
      · refine map_modifyLast ?_ s'.data
        exact fun mod => rfl
      · refine map_modifyFirst ?_ s'.data
        exact fun mod => rfl
    | marked m hmarker hdata =>
      rw [hdata]
      refine map_modifyFirst ?_ s.data
      exact fun mod => rfl
    | same hdata => rw [hdata]

/-- **The modules are those that the text declares**, in its order. -/
theorem exec_names {lines : List Str} {s t : CdbParser} (h : Run.exec parseRaw lines s = some t) :
    t.data.map CdbgInfoModule.name
      = s.data.map CdbgInfoModule.name ++ lines.filterMap moduleName? := by
  induction lines generalizing s with
  | nil =>
    obtain rfl : s = t := Option.some.inj h
    rw [List.filterMap_nil, List.append_nil]
  | cons line lines ih =>
    obtain ⟨u, hu, hrun⟩ := Run.exec_cons_eq_some.mp h
    rw [ih hrun, parseRaw_names hu, List.append_assoc]
    congr 1
    cases hname : moduleName? line with
    | none => rw [List.filterMap_cons_none hname]; rfl
    | some name => rw [List.filterMap_cons_some hname]; rfl

/-! ## Where a line goes -/

/-- `b` is `a` with one line more, at the end of the lines of the module `name`. -/
def Appended (name : Str) (ln : CdbgInfoLine) (a b : List CdbgInfoModule) : Prop :=
  b.map (fun mod => (mod.name, mod.lines)) =
    a.map fun mod => (mod.name, if mod.name = name then mod.lines ++ [ln] else mod.lines)

/-- Without the module nothing is stored. -/
theorem appended_none {name : Str} (ln : CdbgInfoLine) {a : List CdbgInfoModule}
    (h : name ∉ a.map CdbgInfoModule.name) : Appended name ln a a := by
  refine List.map_congr_left fun mod hmod => ?_
  have hne : mod.name ≠ name := by
    rintro rfl
    exact h (List.mem_map_of_mem hmod)
  rw [if_neg hne]

theorem appended_modifyFirst {name : Str} (ln : CdbgInfoLine) {a : List CdbgInfoModule}
    (hdistinct : (a.map CdbgInfoModule.name).Nodup) :
    Appended name ln a (modifyFirst (fun mod => mod.name == name) (addLine ln) a) := by
  induction a with
  | nil => rfl
  | cons mod a ih =>
    rw [List.map_cons, List.nodup_cons] at hdistinct
    unfold modifyFirst
    by_cases hname : mod.name = name
    · subst hname
      rw [if_pos (beq_self_eq_true mod.name), Appended, List.map_cons, List.map_cons, if_pos rfl]
      exact congrArg (_ :: ·) (appended_none ln hdistinct.1)
    · rw [if_neg (by simpa using hname), Appended, List.map_cons, List.map_cons, if_neg hname]
      exact congrArg (_ :: ·) (ih hdistinct.2)

theorem appended_modifyLast {name : Str} (ln : CdbgInfoLine) {a : List CdbgInfoModule}
    (hdistinct : (a.map CdbgInfoModule.name).Nodup)
    (hlast : a.getLast?.map CdbgInfoModule.name = some name) :
    Appended name ln a (modifyLast (addLine ln) a) := by
  obtain ⟨mod, hmod, rfl⟩ := Option.map_eq_some_iff.mp hlast
  obtain ⟨front, rfl⟩ := List.getLast?_eq_some_iff.mp hmod
  rw [List.map_append, List.nodup_append] at hdistinct
  have hfront : mod.name ∉ front.map CdbgInfoModule.name := by
    intro h
    exact hdistinct.2.2 _ h _ List.mem_cons_self rfl
  rw [modifyLast_concat, Appended, List.map_append, List.map_append]
  have hone : [addLine ln mod].map (fun mod => (mod.name, mod.lines)) =
      [mod].map fun m => (m.name, if m.name = mod.name then m.lines ++ [ln] else m.lines) := by
    rw [List.map_singleton, List.map_singleton, if_pos rfl]
    rfl
  rw [hone]
  exact congrArg (· ++ _) (appended_none ln hfront)

/-- **The current module or a search**: the line goes to the module of that name. -/
theorem storeLine_appended (name : Str) (ln : CdbgInfoLine) {s : CdbParser}
    (hdistinct : (s.data.map CdbgInfoModule.name).Nodup) :
    Appended name ln s.data (s.storeLine ln name).data := by
  unfold storeLine
  split
  · rename_i hlast
    exact appended_modifyLast ln hdistinct hlast
  · exact appended_modifyFirst ln hdistinct

/-- A line goes to one module only. -/
theorem Appended.name_eq {name name' : Str} {ln : CdbgInfoLine} {a b : List CdbgInfoModule}
    (h : Appended name ln a b) (h' : Appended name' ln a b)
    (hname : name ∈ a.map CdbgInfoModule.name) : name = name' := by
  obtain ⟨mod, hmod, rfl⟩ := List.mem_map.mp hname
  have hsame := List.map_inj_left.mp (h.symm.trans h') mod hmod
  rw [if_pos rfl] at hsame
  by_contra hne
  rw [if_neg hne] at hsame
  have hlength := congrArg List.length (Prod.mk.inj hsame).2
  rw [List.length_append, List.length_singleton] at hlength
  omega

/-! ## Reading a line record -/

/-- What the parser makes of the file. -/
def cutAtDot (file : Str) : Str :=
  match rfind file 46 with
  | none => []
  | some dot => file.take dot

theorem moduleNameOf_cutAtDot (file : Str) : moduleNameOf file = some (cutAtDot file) := by
  unfold moduleNameOf cutAtDot
  cases rfind file 46 with
  | none => rfl
  | some dot => exact substr_of_le (Nat.zero_le _) dot

theorem cutAtDot_append (a : Str) {ext : Str} (h : (46 : UInt8) ∉ ext) :
    cutAtDot (a ++ 46 :: ext) = a := by
  rw [cutAtDot, Path.rfind_append_cons a h]
  exact List.take_left

/-- **The name is right** for a file that is the name of its module and an extension. -/
theorem cutAtDot_eq_stemOf (file : Str) : cutAtDot file = stemOf file ↔ NamesModule file := by
  by_cases hdot : (46 : UInt8) ∈ file
  · obtain ⟨ext, front, hrev, hext⟩ := List.eq_append_cons_of_mem (List.mem_reverse.mpr hdot)
    have hfile : file = front.reverse ++ 46 :: ext.reverse := by
      rw [← List.reverse_reverse file, hrev]
      simp
    have hext' : (46 : UInt8) ∉ ext.reverse := fun h => hext (List.mem_reverse.mp h)
    have hcut : cutAtDot file = front.reverse := by
      rw [hfile]
      exact cutAtDot_append _ hext'
    constructor
    · intro hstem
      refine Or.inl ⟨ext.reverse, hext', ?_⟩
      rw [← hstem, hcut]
      exact hfile
    · rintro (⟨ext', hfree, hsplit⟩ | ⟨hno, -⟩)
      · rw [hsplit, cutAtDot_append _ hfree, ← hsplit]
      · exact absurd hdot hno
  · have hnone : cutAtDot file = [] := by
      unfold cutAtDot
      cases hfind : rfind file 46 with
      | none => rfl
      | some dot =>
        obtain ⟨a, t, hsplit, -, -⟩ := Path.rfind_some hfind
        rw [hsplit] at hdot
        simp at hdot
    rw [hnone]
    constructor
    · exact fun hstem => Or.inr ⟨hdot, hstem.symm⟩
    · rintro (⟨ext, -, hsplit⟩ | ⟨-, hempty⟩)
      · rw [hsplit] at hdot
        simp at hdot
      · exact hempty.symm

/-- A line of C and the name of its module, as `parse_line_info` reads them. -/
def readCLine (content : Str) : Option (CdbgInfoLine × Str) :=
  match split content 36 with
  | _ :: file :: number :: level :: rest => do
    let file := file.map fun b => if b = 92 then 47 else b
    let line ← stoi number
    let address ← lineAddress ((level :: rest).getLast (List.cons_ne_nil level rest))
    some ({ file := file, line := line, address := address, scope := str "local" }, cutAtDot file)
  | _ => none

/-- The line of C on a line. -/
def cLine? (line : Str) : Option (CdbgInfoLine × Str) :=
  match recordOf line with
  | some (76, 67 :: rest) => readCLine (67 :: rest)
  | _ => none

example : cLine? (str "L:C$main.c$5$0_0$1") = some (⟨str "main.c", 5, 0, str "local"⟩, str "main") := by
  decide +kernel

theorem parseCLine_eq (content : Str) (s : CdbParser) : parseCLine content s
    = some ((readCLine content).elim s fun x => s.storeLine x.1 x.2) := by
  unfold parseCLine readCLine
  rcases split content 36 with - | ⟨c, - | ⟨file, - | ⟨number, - | ⟨level, rest⟩⟩⟩⟩
  · rfl
  · rfl
  · rfl
  · rfl
  dsimp only [Option.bind_eq_bind]
  cases stoi number with
  | none => rfl
  | some line =>
    obtain ⟨address, haddress⟩ := lineAddress_ends ((level :: rest).getLast (List.cons_ne_nil _ _))
    dsimp only [Option.bind_some]
    rw [haddress, moduleNameOf_cutAtDot]
    rfl

/-- What the parser does with it. -/
theorem parseRaw_cLine {line : Str} {ln : CdbgInfoLine} {name : Str}
    (h : cLine? line = some (ln, name)) (s : CdbParser) : parseRaw line s = some (s.storeLine ln name) := by
  unfold cLine? at h
  split at h
  · rename_i rest hrecord
    rw [parseRaw_eq, hrecord]
    show parseCLine (67 :: rest) s = _
    rw [parseCLine_eq, h]
    rfl
  · cases h

/-- **The content of a line record.** -/
theorem parseCLine_content (r : CdbLine) (s : CdbParser) :
    parseCLine r.content s = some (s.storeLine r.entry (cutAtDot r.path)) := by
  have hnumber : (36 : UInt8) ∉ Cxx.toString r.number := not_mem_toString _ (by decide) (by decide)
  -- no part of the record has a `$`, so it splits where it was put together
  have hdigits : (36 : UInt8) ∉ r.digits := by
    intro h
    have hdigit := isHexDigit_of_printed r.digits_eq 36 h
    exact absurd hdigit (by decide)
  have hlast : (36 : UInt8) ∉ r.block.text ++ 58 :: r.digits := by
    simp only [List.mem_append, List.mem_cons, not_or]
    exact ⟨r.block.free, by decide, hdigits⟩
  have hparts : split r.content 36 = [str "C", r.file.text, Cxx.toString r.number, r.level.text,
      r.block.text ++ 58 :: r.digits] := by
    have hfirst : split (str "C" ++ 36 :: (r.file.text ++ 36 :: (Cxx.toString r.number ++
        36 :: (r.level.text ++ 36 :: (r.block.text ++ 58 :: r.digits))))) 36 = _ :=
      split_cons (by decide) _
    rw [split_cons r.file.free, split_cons hnumber, split_cons r.level.free,
      split_single hlast] at hfirst
    exact hfirst
  have haddress : lineAddress (r.block.text ++ 58 :: r.digits) = some r.address := by
    rw [lineAddress, find_first r.block_plain]
    dsimp only
    rw [addressBehind, substrFrom_of_le (by simp), drop_separator]
    have hread : stoul r.digits 16 = some r.address.toNat :=
      stoul_printed r.digits_eq (by have := r.address.toNat_lt; omega)
    dsimp only [Option.bind_eq_bind, Option.bind_some]
    rw [hread]
    show some (UInt16.ofNat r.address.toNat) = _
    rw [UInt16.ofNat_toNat]
  unfold parseCLine
  rw [hparts]
  dsimp only
  rw [stoi_toString r.number_int]
  dsimp only [List.getLast_cons_cons, List.getLast_singleton]
  rw [haddress, moduleNameOf_cutAtDot]
  rfl

/-- **A line record** stores its line. -/
theorem parseRaw_line_record (r : CdbLine) {line : Str} (h : trim line = str "L:" ++ r.content)
    (s : CdbParser) : parseRaw line s = some (s.storeLine r.entry (cutAtDot r.path)) := by
  have hraw : parseRaw line s = parseCLine r.content s := by
    unfold parseRaw
    rw [h]
    rfl
  rw [hraw, parseCLine_content]

/-! ## The result -/

/-- **When a line is stored where it belongs**: the parser returns, the record adds its line to the
    lines of the module that its file names, to no other lines, and the line stays there.  This is
    so if and only if the file is the name of the module and an extension; the first condition is
    that the parser returns at all (`parse_ends_iff`). -/
theorem line_stored_iff (order : HashOrder) (r : CdbLine) {content : Str} {pre post : List Str}
    {line : Str} (hlines : getLines content = pre ++ line :: post)
    (hrecord : trim line = str "L:" ++ r.content)
    (hdistinct : ((getLines content).filterMap moduleName?).Nodup)
    (hdeclared : stemOf r.path ∈ pre.filterMap moduleName?) :
    (∃ s t modules, Run.exec parseRaw pre {} = some s ∧ parseRaw line s = some t ∧
        parseText order content = some modules ∧
        Appended (stemOf r.path) r.entry s.data t.data ∧ Extends Keeps t.data modules) ↔
      (∀ pre line post, getLines content = pre ++ line :: post → EmptyRecord line →
        ∀ earlier ∈ pre, ¬ ModuleRecord earlier) ∧ NamesModule r.path := by
  have hnames : ∀ {s}, Run.exec parseRaw pre {} = some s →
      s.data.map CdbgInfoModule.name = pre.filterMap moduleName? := by
    intro s hs
    rw [exec_names hs]
    rfl
  have hpre : (pre.filterMap moduleName?).Nodup := by
    rw [hlines, List.filterMap_append, List.nodup_append] at hdistinct
    exact hdistinct.1
  have hstored : ∀ {s}, Run.exec parseRaw pre {} = some s →
      Appended (cutAtDot r.path) r.entry s.data (s.storeLine r.entry (cutAtDot r.path)).data := by
    intro s hs
    apply storeLine_appended _ _
    rw [hnames hs]
    exact hpre
  rw [← cutAtDot_eq_stemOf, ← parse_ends_iff order]
  constructor
  · rintro ⟨s, t, modules, hs, ht, hmodules, happended, -⟩
    refine ⟨⟨modules, hmodules⟩, ?_⟩
    rw [parseRaw_line_record r hrecord] at ht
    obtain rfl := Option.some.inj ht
    -- the line went to the module of the cut name; if that is right, the names are the same
    refine (happended.name_eq (hstored hs) ?_).symm
    rw [hnames hs]
    exact hdeclared
  · rintro ⟨⟨modules, hmodules⟩, hname⟩
    obtain ⟨u, hu, rfl⟩ := Option.map_eq_some_iff.mp hmodules
    rw [hlines] at hu
    obtain ⟨s, hs, hrest⟩ := Run.exec_append_eq_some.mp hu
    obtain ⟨t, ht, hpost⟩ := Run.exec_cons_eq_some.mp hrest
    refine ⟨s, t, _, hs, ht, hmodules, ?_, ?_⟩
    · rw [parseRaw_line_record r hrecord] at ht
      obtain rfl := Option.some.inj ht
      rw [← hname]
      exact hstored hs
    · exact (exec_kept hpost).trans keeps_trans (merge_kept order u)

/-- Line 5 of a file, at the address 0x100. -/
def lineOf (file : TextWithout 36) : CdbLine where
  file := file
  number := 5
  number_int := ⟨by decide, by decide⟩
  level := ⟨str "0_0", by decide⟩
  block := ⟨str "1", by decide⟩
  block_plain := by decide
  address := 0x100
  digits := str "100"
  width := 0
  digits_eq := by decide

def sourceFile : TextWithout 36 := ⟨str "src/main.c", by decide⟩

def plainFile : TextWithout 36 := ⟨str "main.c", by decide⟩

/-- A record in the block of another module. -/
theorem line_of_other_block_stored : ∃ s t modules,
    Run.exec parseRaw [str "M:main", str "M:util"] {} = some s ∧
      parseRaw (str "L:C$main.c$5$0_0$1:100") s = some t ∧
      parseText ⟨id, id, List.Perm.refl, List.Perm.refl⟩
        (str "M:main\nM:util\nL:C$main.c$5$0_0$1:100\n") = some modules ∧
      Appended (str "main") (lineOf plainFile).entry s.data t.data ∧
      Extends Keeps t.data modules := by
  have hlines : getLines (str "M:main\nM:util\nL:C$main.c$5$0_0$1:100\n")
      = [str "M:main", str "M:util"] ++ str "L:C$main.c$5$0_0$1:100" :: [] := by decide +kernel
  refine (line_stored_iff ⟨id, id, List.Perm.refl, List.Perm.refl⟩ (lineOf plainFile) hlines
    (by decide +kernel) (by decide +kernel) (by decide +kernel)).mpr ⟨?_, ?_⟩
  · refine (parse_ends_iff ⟨id, id, List.Perm.refl, List.Perm.refl⟩ _).mp ?_
    exact Option.isSome_iff_exists.mp (by decide +kernel)
  · exact Or.inl ⟨str "c", by decide, by decide +kernel⟩

/-- **A file in a directory**: the record of `src/main.c` leaves no line in the module `main`. -/
theorem line_of_directory_lost :
    getLines (str "M:main\nL:C$src/main.c$5$0_0$1:100\n")
        = [str "M:main"] ++ str "L:C$src/main.c$5$0_0$1:100" :: [] ∧
      trim (str "L:C$src/main.c$5$0_0$1:100") = str "L:" ++ (lineOf sourceFile).content ∧
      stemOf (lineOf sourceFile).path = str "main" ∧
      ((parseText ⟨id, id, List.Perm.refl, List.Perm.refl⟩
          (str "M:main\nL:C$src/main.c$5$0_0$1:100\n")).map fun modules =>
        modules.map fun mod => (mod.name, mod.lines)) = some [(str "main", [])] ∧
      ¬ ∃ s t, Run.exec parseRaw [str "M:main"] {} = some s ∧
        parseRaw (str "L:C$src/main.c$5$0_0$1:100") s = some t ∧
        Appended (stemOf (lineOf sourceFile).path) (lineOf sourceFile).entry s.data t.data := by
  refine ⟨by decide +kernel, by decide +kernel, by decide +kernel, by decide +kernel, ?_⟩
  rintro ⟨s, t, hs, ht, happended⟩
  have hbefore : (Run.exec parseRaw [str "M:main"] {}).map (fun s => s.data.map fun mod =>
      (mod.name, if mod.name = stemOf (lineOf sourceFile).path then
        mod.lines ++ [(lineOf sourceFile).entry] else mod.lines))
      = some [(str "main", [(lineOf sourceFile).entry])] := by decide +kernel
  have hbehind : ((Run.exec parseRaw [str "M:main"] {}).bind fun s =>
      (parseRaw (str "L:C$src/main.c$5$0_0$1:100") s).map fun t =>
        t.data.map fun mod => (mod.name, mod.lines)) = some [(str "main", [])] := by decide +kernel
  rw [hs, Option.map_some] at hbefore
  rw [hs, Option.bind_some, ht, Option.map_some] at hbehind
  rw [Appended, Option.some.inj hbefore, Option.some.inj hbehind] at happended
  exact absurd happended (by decide +kernel)

end CdbParser

end Udap.Sdcc
