/-
  SCOPES AND THEIR VARIABLES — which scope does a `variablesReference` stand for?

  `scopes` numbers the scopes of the target from 1 and keeps their names; `variables` gets such a
  number and asks the target for the variables of the scope by its name.  The names are kept by the
  session, the numbers by the client.

  1. **System** — `move` is a message that is handled, an event that is sent, or a change of the
     target by another thread, in any order.

  2. **Property** — `Shown`: a `variables` request is answered with the variables of the scope that has
     this number in the last response to `scopes` that was written, and with none if there is no
     such scope.

  3. **The invariant** — the names that the session keeps are those of the last response written
     (`KeptScopes`): only `scopes` changes them, and it always writes what it keeps.
-/
import Udap.Dap.Traffic
import Udap.Dap.Transcript

set_option linter.unusedVariables false
set_option linter.unusedSectionVars false

namespace Udap.Dap

open Udap.Cxx Udap.Run

variable {S : Type} (F : Type) [FloatCast F] [JsonText F]

/-! ## The system -/

/-- What can happen to a session. -/
inductive Move (S : Type) where
  | message (disk : Disk) (text : Str)
  | targetEvent (e : TargetEvent)
  | emulationEnds (hitBreakpoint : Bool) (seq : Int)
  | elsewhere (target : S)

variable (T : Target S)

def move (a : Move S) (s : Session S) : Option (Session S) :=
  match a with
  | .message disk text => takeMessage F T disk text s
  | .targetEvent e => sendEvent F e.name (e.body F) s
  | .emulationEnds hitBreakpoint seq =>
    (emulationStopped F hitBreakpoint seq).map fun text => { s with out := s.out ++ [text] }
  | .elsewhere target => some { s with target := target }

/-! ## What is claimed -/

variable {F} in
/-- The name of a scope in a response, with its number. -/
def scopeGives (sc : Json F) : Option (Str × Int) := do
  let name ← textMember (str "name") sc
  match sc.member (str "variablesReference") with
  | some (.int ref) => some (name, ref)
  | _ => none

/-- The scopes in a message, if it is a response to `scopes`. -/
def scopesIn (m : Str) : Option (List (Str × Int)) := do
  let j ← JsonText.parse (F := F) m
  let command ← textMember (str "command") j
  if command = str "scopes" then
    let body ← j.member (str "body")
    let scopes ← body.member (str "scopes")
    some (scopes.elements.filterMap scopeGives)
  else none

/-- The scopes that the client was last sent. -/
def lastScopes (out : List Str) : List (Str × Int) :=
  ((out.filterMap (scopesIn F)).getLast?).getD []

/-- The variables of the scope that the client was sent under a number. -/
def variablesUnder (ref : Int) (s : Session S) : List VariableInfo :=
  match (lastScopes F s.out).find? fun g => g.2 == ref with
  | some g => T.getVariables g.1 s.target
  | none => []

/-- A `variables` request is answered for the scope that the client means. -/
def Shown (a : Move S) (s : Session S) : Prop :=
  ∀ disk text (b : Request F) r, a = .message disk text → Request.parse F text = some b →
    b.command = str "variables" → VariablesRequest.ofRequest b = some r →
    dispatch F T disk b s
      = (reply b (.object [(str "variables",
          .arr ((variablesUnder F T r.variablesReference s).map variableJson))])).map fun answer =>
            (answer, s)

/-! ## The invariant -/

omit [FloatCast F] [JsonText F] in
/-- Numbering a list and keeping of each entry what is numbered. -/
theorem filterMap_mapIdx {α β γ δ : Type} {f : Nat → α → β} {g : β → Option γ} {h : Nat → δ → γ}
    {n : α → δ} (hg : ∀ i a, g (f i a) = some (h i (n a))) (l : List α) :
    (l.mapIdx f).filterMap g = (l.map n).mapIdx h := by
  induction l generalizing f h with
  | nil => rfl
  | cons a l ih =>
    rw [List.mapIdx_cons, List.map_cons, List.mapIdx_cons, List.filterMap_cons_some (hg 0 a),
      ih fun i a => hg (i + 1) a]

/-- The names with the numbers that `scopes` gives them. -/
def numbered (names : List Str) : List (Str × Int) := names.mapIdx fun i name => (name, (i : Int) + 1)

/-- The session keeps the scopes that the client was last sent. -/
def KeptScopes (s : Session S) : Prop := lastScopes F s.out = numbered s.scopeNames

/-- The scope with a number. -/
theorem find_numbered (names : List Str) (ref : Int) :
    (numbered names).find? (fun g => g.2 == ref) =
      if 1 ≤ ref then (names[(ref - 1).toNat]?).map fun name => (name, ref) else none := by
  have hfind : ∀ (names : List Str) (k : Nat),
      (names.mapIdx fun i name => (name, ((i + k : Nat) : Int) + 1)).find? (fun g => g.2 == ref) =
        if (k : Int) + 1 ≤ ref then (names[(ref - 1 - k).toNat]?).map fun name => (name, ref)
        else none := by
    intro names
    induction names with
    | nil =>
      intro k
      split <;> rfl
    | cons name names ih =>
      intro k
      rw [List.mapIdx_cons, List.find?_cons, Nat.zero_add]
      by_cases hhere : (k : Int) + 1 = ref
      · rw [show ((k : Int) + 1 == ref) = true from beq_iff_eq.mpr hhere, if_pos (by omega),
          show (ref - 1 - (k : Int)).toNat = 0 by omega, hhere]
        rfl
      · rw [show ((k : Int) + 1 == ref) = false from beq_eq_false_iff_ne.mpr hhere]
        have hrest := ih (k + 1)
        rw [show (fun i name => ((name : Str), ((i + (k + 1) : Nat) : Int) + 1))
            = fun i name => (name, ((i + 1 + k : Nat) : Int) + 1) by
          funext i name
          rw [Nat.add_right_comm, Nat.add_assoc]] at hrest
        show List.find? _ (names.mapIdx fun i name => (name, ((i + 1 + k : Nat) : Int) + 1)) = _
        rw [hrest]
        by_cases hlater : (k : Int) + 1 ≤ ref
        · rw [if_pos (by omega), if_pos hlater,
            show (ref - 1 - (k : Int)).toNat = (ref - 1 - ((k + 1 : Nat) : Int)).toNat + 1 by omega]
          rfl
        · rw [if_neg (by omega), if_neg hlater]
  have hzero := hfind names 0
  rw [show ((0 : Nat) : Int) + 1 = 1 from rfl, show ref - 1 - ((0 : Nat) : Int) = ref - 1 by omega]
    at hzero
  exact hzero

/-- **What the session keeps is what the client means.** -/
theorem variablesOf_kept {s : Session S} (hs : KeptScopes F s) (ref : Int) :
    variablesOf T ref s = variablesUnder F T ref s := by
  rw [variablesOf, variablesUnder, hs, find_numbered]
  by_cases hpos : 1 ≤ ref
  · rw [if_pos hpos, if_pos (by omega)]
    cases s.scopeNames[(ref - 1).toNat]? with
    | none => rfl
    | some name => rfl
  · rw [if_neg hpos, if_neg (by omega)]

variable {F} in
/-- A message that is no response to `scopes` leaves the last one where it is. -/
theorem lastScopes_other {out : List Str} {m : Str} (h : scopesIn F m = none) :
    lastScopes F (out ++ [m]) = lastScopes F out := by
  rw [lastScopes, List.filterMap_append, List.filterMap_cons_none h, List.filterMap_nil,
    List.append_nil]
  rfl

variable {F} in
theorem lastScopes_scopes {out : List Str} {m : Str} {gs : List (Str × Int)}
    (h : scopesIn F m = some gs) : lastScopes F (out ++ [m]) = gs := by
  rw [lastScopes, List.filterMap_append, List.filterMap_cons_some h, List.filterMap_nil,
    List.getLast?_concat, Option.getD_some]

section
variable [LawfulJsonText F]

variable {F}

/-- An event is none. -/
theorem scopesIn_event {name m : Str} {seq : Int} {body : Json F} (hsorted : body.sorted = true)
    (h : JsonText.dump (F := F) (.object [(str "seq", .int seq), (str "type", .str (str "event")),
      (str "event", .str name), (str "body", body)]) = some m) : scopesIn F m = none := by
  have hparse := parse_of_dump (Json.sorted_object fun f hf => by
    simp only [List.mem_cons, List.not_mem_nil, or_false] at hf
    rcases hf with rfl | rfl | rfl | rfl
    · rfl
    · rfl
    · rfl
    · exact hsorted) h
  rw [scopesIn, hparse]
  rfl

/-- A response to another command is none. -/
theorem scopesIn_responds {b : Request F} {resp : Str} (h : Responds b resp)
    (hne : b.command ≠ str "scopes") : scopesIn F resp = none := by
  obtain ⟨j, hj, -, -, -, hcommand⟩ := h
  have hname : textMember (str "command") j = some b.command := by
    rw [textMember, hcommand]
    rfl
  simp only [scopesIn, hj, hname, hne, Option.bind_eq_bind, Option.bind_some, if_false]

omit [FloatCast F] [JsonText F] [LawfulJsonText F] in
/-- What the scopes in a response give. -/
theorem scopesBody_gives (infos : List ScopeInfo) :
    ∃ scopes, (scopesBody infos : Json F).member (str "scopes") = some scopes ∧
      scopes.elements.filterMap scopeGives = numbered (infos.map ScopeInfo.name) := by
  refine ⟨_, rfl, ?_⟩
  rw [numbered]
  exact filterMap_mapIdx (g := scopeGives) (h := fun i name => (name, (i : Int) + 1))
    (n := ScopeInfo.name) (fun i sc => rfl) infos

/-- **The response to `scopes`** has the names that the session keeps from then on. -/
theorem onScopes_gives {b : Request F} (hb : b.WellFormed) (hcommand : b.command = str "scopes")
    {s u t : Session S} {result resp : Str} (h : onScopes T b s = some (result, u))
    (hinject : injectSeq F result u = (resp, t)) :
    scopesIn F resp = some (numbered u.scopeNames) := by
  have hresponds := (onScopes_answered (F := F) T).responds hb h
  obtain ⟨_, -, h⟩ := Option.bind_eq_some_iff.mp h
  obtain ⟨text, hreply, heq⟩ := Option.bind_eq_some_iff.mp h
  obtain ⟨rfl, rfl⟩ := Prod.mk.inj (Option.some.inj heq)
  obtain ⟨j, text', hj, hresult, hresp, -, -, hname⟩ :=
    injectSeq_parse hresponds { s with scopeNames := (T.getScopes s.target).map ScopeInfo.name }
  obtain rfl := Option.some.inj (hj.symm.trans (parse_reply (scopesBody_sorted _) hreply))
  obtain ⟨rfl, -⟩ := Prod.mk.inj (hresult.symm.trans hinject)
  obtain ⟨scopes, hscopes, hnumbered⟩ := scopesBody_gives (F := F) (T.getScopes s.target)
  have hcommand' : textMember (str "command")
      (((response b.seq b.command true).set (str "body") (scopesBody (T.getScopes s.target))).set
        (str "seq") (.int s.responseSeq) : Json F) = some (str "scopes") := by
    rw [textMember, Json.member_set, if_neg (by decide), hname, hcommand]
    rfl
  have hbody : (((response b.seq b.command true).set (str "body")
      (scopesBody (T.getScopes s.target))).set (str "seq") (.int s.responseSeq) : Json F).member
        (str "body") = some (scopesBody (T.getScopes s.target)) := by
    rw [Json.member_set, if_neg (by decide), Json.member_set, if_pos rfl]
  simp only [scopesIn, hresp, hcommand', hbody, hscopes, hnumbered, Option.bind_eq_bind,
    Option.bind_some, if_true]

/-! ## Moves and runs -/

variable {T : Target S}

/-- An event that is sent leaves the last response where it is. -/
theorem sendEvent_lastScopes {name : Str} {body : Json F} (hsorted : body.sorted = true)
    {s t : Session S} (h : sendEvent F name body s = some t) :
    lastScopes F t.out = lastScopes F s.out ∧ t.scopeNames = s.scopeNames := by
  obtain ⟨text, htext, h⟩ := Option.bind_eq_some_iff.mp h
  obtain rfl := Option.some.inj h
  exact ⟨lastScopes_other (scopesIn_event hsorted htext), rfl⟩

/-- So does every handler: what it writes is an event. -/
theorem dispatch_lastScopes {disk : Disk} {b : Request F} {s t : Session S} {result : Str}
    (h : dispatch F T disk b s = some (result, t)) : lastScopes F t.out = lastScopes F s.out := by
  cases (dispatch_effect h).1 with
  | quiet hquiet => rw [hquiet.out]
  | event hquiet name body hsorted hsend => rw [(sendEvent_lastScopes hsorted hsend).1, hquiet.out]
  | assigns hassigns => rw [hassigns.frame.1]

/-- **A message** keeps it so. -/
theorem takeMessage_kept {disk : Disk} {text : Str} {s t : Session S} (hs : KeptScopes F s)
    (h : takeMessage F T disk text s = some t) : KeptScopes F t := by
  obtain ⟨⟨resp, u⟩, hh, h⟩ := Option.bind_eq_some_iff.mp h
  have hwritten : ∀ {b : Request F}, Responds b resp → t = { u with out := u.out ++ [resp] } := by
    intro b hb
    have hne : resp.isEmpty = false := by
      rw [List.isEmpty_eq_false_iff]
      exact hb.ne_nil
    rw [← Option.some.inj h, hne]
    rfl
  cases hb : Request.parse F text with
  | none =>
    obtain ⟨resp', hh', hresponds⟩ := handleMessage_malformed T disk hb s
    obtain ⟨rfl, rfl⟩ := Prod.mk.inj (Option.some.inj (hh'.symm.trans hh))
    have hunknown : str "<unknown>" ≠ str "scopes" := by decide
    rw [hwritten hresponds, KeptScopes, lastScopes_other (scopesIn_responds hresponds hunknown)]
    exact hs
  | some b =>
    have hresponds := (handleMessage_request T disk hb s).2 hh
    obtain ⟨result, v, answer, hd, hanswer, hresult, hinject⟩ := handleMessage_inject hb hh
    obtain ⟨-, text', -, hinjected, -⟩ := injectSeq_parse hanswer v
    obtain ⟨-, rfl⟩ := Prod.mk.inj (hinjected.symm.trans hinject)
    rw [hwritten hresponds]
    by_cases hcommand : b.command = str "scopes"
    · -- the response that is written has the names that are kept
      have hscopes : onScopes T b s = some (result, v) := by
        rw [← hd, dispatch, hcommand]
        rfl
      have hne : result.isEmpty = false := by
        rw [List.isEmpty_eq_false_iff]
        exact ((onScopes_answered T).responds (Request.parse_wellFormed hb) hscopes).ne_nil
      rw [hresult hne] at hinject
      have hgives : scopesIn F resp = some (numbered v.scopeNames) :=
        onScopes_gives T (Request.parse_wellFormed hb) hcommand hscopes hinject
      exact lastScopes_scopes hgives
    · -- what is written is another response, and the names stay
      show lastScopes F (v.out ++ [resp]) = numbered v.scopeNames
      rw [lastScopes_other (scopesIn_responds hresponds hcommand), dispatch_lastScopes hd,
        (dispatch_tells hd).scopeNames hcommand]
      exact hs

/-- **A step** of the system keeps it so. -/
theorem move_kept (a : Move S) (s t : Session S) (hs : KeptScopes F s)
    (h : move F T a s = some t) : KeptScopes F t := by
  cases a with
  | message disk text => exact takeMessage_kept hs h
  | targetEvent e =>
    obtain ⟨hout, hnames⟩ := sendEvent_lastScopes e.body_sorted h
    rw [KeptScopes, hout, hnames]
    exact hs
  | emulationEnds hitBreakpoint seq =>
    obtain ⟨text, htext, rfl⟩ := Option.map_eq_some_iff.mp h
    have hother : scopesIn F text = none :=
      scopesIn_event (Json.sorted_object (by simp)) htext
    rw [KeptScopes, lastScopes_other hother]
    exact hs
  | elsewhere target =>
    obtain rfl := Option.some.inj h
    exact hs

variable (F T) in
/-- **A number of a scope stands for the scope it was sent with**, in every run of the system:
    whatever comes between the response to `scopes` and the request for its variables, the
    variables are those of the scope with this number in the last response to `scopes`, as the
    target has them now. -/
theorem scopes_resolve (target : S) (moves : List (Move S)) :
    Along (move F T) (Shown F T) moves { target := target } := by
  refine along_of_inv (I := KeptScopes F) move_kept ?_ moves rfl
  rintro a s hs disk text b r - - hcommand hr
  have hdispatch : dispatch F T disk b s = onVariables T b s := by
    rw [dispatch, hcommand]
    rfl
  rw [hdispatch, onVariables, hr, ← variablesOf_kept F T hs]
  exact Option.map_eq_bind.symm

end

/-- A target with two scopes. -/
def twoScopes : Target Unit :=
  { (default : Target Unit) with
    getScopes := fun _ => [⟨str "Registers", str "registers"⟩, ⟨str "Flags", str "registers"⟩]
    getVariables := fun scope _ => [⟨scope, str "0", [], none⟩] }

/-- The client asks for the scopes, the program ends, and the client asks for the second scope. -/
def askFlags : List (Move Unit) :=
  [.message default (str "\x7b\"seq\":1,\"command\":\"scopes\"\x7d"), .targetEvent .terminated,
    .message default
      (str "\x7b\"seq\":2,\"command\":\"variables\",\"arguments\":\x7b\"variablesReference\":2\x7d\x7d")]

/-- Every step goes through, and the number 2 stands for the flags. -/
theorem scopes_resolve_flags :
    (exec (move Empty twoScopes) askFlags { target := () }).map (fun s => lastScopes Empty s.out)
        = some [(str "Registers", 1), (str "Flags", 2)] ∧
      Along (move Empty twoScopes) (Shown Empty twoScopes) askFlags { target := () } :=
  ⟨by decide +kernel, scopes_resolve Empty twoScopes () askFlags⟩

end Udap.Dap
