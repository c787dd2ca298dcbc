/-
  SOURCE REFERENCES — is the number that a source was given good for every later request?

  `stackTrace` gives a number to each source that the client cannot open itself, from two tables and
  a counter that the handlers of a session share.  The client may then name the source by that
  number alone.

  1. **System** — `turn` handles one message and notes which references its response gives
     (`givenBy`); between two messages another thread may have changed the target.

  2. **Property** — `Resolved`: the references given are one to one with their paths; a `source` request
     with a reference is answered with the content of its path; and a `setBreakpoints` request that
     carries nothing but a reference reaches the target with its path.

  3. **When** — the first two hold in every run: the tables stay inverse to each other, and what was
     given stays in them (`Tracked.Kept`).  The handler of `setBreakpoints` never looks into the
     tables, so the third fails at each such request, and `resolvable` excludes them
     (`references_resolve`).
-/
import Udap.Dap.Effects

set_option linter.unusedVariables false
set_option linter.unusedSectionVars false

namespace Udap

/-- The integer that a value is. -/
def Json.exactInt {F : Type} : Json F → Option Int
  | .int i => some i
  | _ => none

namespace Dap

open Udap.Cxx Udap.Run

variable {S : Type} (F : Type) [FloatCast F] [JsonText F]

/-! ## The system -/

variable {F} in
/-- The path of a frame's source and its reference, if it has a positive one. -/
def frameGives (frame : Json F) : Option (Str × Int) := do
  let src ← frame.member (str "source")
  let path ← (src.member (str "path")).bind Json.getStr
  let ref ← (src.member (str "sourceReference")).bind Json.exactInt
  if 0 < ref then some (path, ref) else none

/-- The references that a response gives: those in the frames of a `stackTrace` response. -/
def givenBy (resp : Str) : List (Str × Int) :=
  match JsonText.parse (F := F) resp with
  | none => []
  | some j =>
    if (j.member (str "command")).bind Json.getStr = some (str "stackTrace") then
      match (j.member (str "body")).bind (Json.member (str "stackFrames")) with
      | some frames => frames.elements.filterMap frameGives
      | none => []
    else []

/-- A session, and the references it has given so far. -/
structure Tracked (S : Type) where
  session : Session S
  given : List (Str × Int) := []

/-- A message comes in, with the disk as it is then; or another thread changes the target. -/
inductive Turn (S : Type) where
  | message (disk : Disk) (text : Str)
  | elsewhere (target : S)

variable (T : Target S)

def turn (a : Turn S) (w : Tracked S) : Option (Tracked S) :=
  match a with
  | .message disk text =>
    (handleMessage F T disk text w.session).map fun r =>
      { session := if r.1.isEmpty then r.2 else { r.2 with out := r.2.out ++ [r.1] }
        given := w.given ++ givenBy F r.1 }
  | .elsewhere target => some { w with session := { w.session with target := target } }

/-- A message is one turn of `session::run`. -/
theorem turn_message (disk : Disk) (text : Str) (w : Tracked S) :
    (turn F T (.message disk text) w).map Tracked.session
      = takeMessage F T disk text w.session := by
  rw [turn, takeMessage, Option.map_map]
  cases handleMessage F T disk text w.session with
  | none => rfl
  | some r => rfl

/-! ## What is claimed -/

variable {F}

/-- The answer to a `source` request that asks for a path. -/
def contentReply (disk : Disk) (b : Request F) (path : Str) (s : Session S) : Option Str :=
  match sourceOf T disk path s with
  | some info => reply b (.object [(str "content", .str info.content),
      (str "mimeType", .str info.mimeType)])
  | none => replyError b (str "Unknown source")

/-- The arguments with which a request reaches `target::set_source_breakpoints`. -/
def breakpointCall (b : Request F) : Option (Str × Int × List Int) :=
  (SetBreakpointsRequest.ofRequest b).map fun r => (r.sourcePath, r.sourceReference, r.lines)

/-- So they are: this is the handler. -/
theorem onSetBreakpoints_call (b : Request F) (s : Session S) :
    onSetBreakpoints T b s = (breakpointCall b).bind fun c =>
      (reply b (breakpointsBody true true (T.setSourceBreakpoints c.1 c.2.1 c.2.2 s.target).1)).bind
        fun text => some (text, { s with
          target := (T.setSourceBreakpoints c.1 c.2.1 c.2.2 s.target).2 }) := by
  rw [breakpointCall, onSetBreakpoints]
  cases SetBreakpointsRequest.ofRequest b with
  | none => rfl
  | some r => rfl

/-- The source of the request carries neither a path nor a name. -/
def onlyReference (b : Request F) : Bool :=
  (b.arguments.member (str "source")).all fun src =>
    !src.contains (str "path") && !src.contains (str "name")

variable (F) in
/-- Every reference given is good for this message. -/
structure Resolved (a : Turn S) (w : Tracked S) : Prop where
  oneToOne : ∀ w', turn F T a w = some w' →
    ∀ g ∈ w'.given, ∀ k ∈ w'.given, (g.1 = k.1 ↔ g.2 = k.2)
  content : ∀ disk text (b : Request F) r, a = .message disk text →
    Request.parse F text = some b → b.command = str "source" →
    SourceRequest.ofRequest b = some r → ∀ path, (path, r.sourceReference) ∈ w.given →
    dispatch F T disk b w.session
      = (contentReply T disk b path w.session).map fun answer => (answer, w.session)
  breakpoints : ∀ disk text (b : Request F) c, a = .message disk text →
    Request.parse F text = some b → b.command = str "setBreakpoints" →
    breakpointCall b = some c → onlyReference b = true →
    ∀ path, (path, c.2.1) ∈ w.given → c.1 = path

variable (F) in
/-- The message is not a `setBreakpoints` request that carries nothing but a reference given. -/
def resolvable (a : Turn S) (w : Tracked S) : Bool :=
  match a with
  | .message _ text => (Request.parse F text).all fun b =>
      !(b.command == str "setBreakpoints" && onlyReference b &&
        (breakpointCall b).any fun c => w.given.any fun g => g.2 == c.2.1)
  | .elsewhere _ => true

/-! ## The tables -/

/-- The two tables of a session number its paths. -/
def Session.Numbers (s : Session S) : Prop := s.pathToRef.Numbers s.refToPath s.nextSrcRef

/-- A reference that was assigned is still there. -/
def Session.Keeps (s t : Session S) : Prop :=
  ∀ p r, s.pathToRef.lookup p = some r → t.pathToRef.lookup p = some r

/-- `assign_src_ref` returns the reference that the path has from then on. -/
theorem assignSrcRef_spec {s : Session S} (hs : s.Numbers) (path : Str) :
    (assignSrcRef path s).2.Numbers ∧ s.Keeps (assignSrcRef path s).2 ∧
      (assignSrcRef path s).2.pathToRef.lookup path = some (assignSrcRef path s).1 := by
  unfold assignSrcRef
  split
  · rename_i ref hlookup
    exact ⟨hs, fun p r h => h, hlookup⟩
  · rename_i hnew
    refine ⟨Table.Numbers.assign hs hnew, fun p r h => ?_, ?_⟩
    · show (s.pathToRef.assign path s.nextSrcRef).lookup p = some r
      have hne : p ≠ path := by
        rintro rfl
        rw [hnew] at h
        cases h
      rw [Table.lookup_assign, if_neg hne, Option.none_or]
      exact h
    · show (s.pathToRef.assign path s.nextSrcRef).lookup path = some s.nextSrcRef
      rw [Table.lookup_assign, if_pos rfl, Option.some_or]

theorem Assigns.spec {s t : Session S} (h : Assigns s t) (hs : s.Numbers) :
    t.Numbers ∧ s.Keeps t := by
  induction h with
  | refl => exact ⟨hs, fun p r h => h⟩
  | assign _ path ih =>
    obtain ⟨hnumbers, hkeeps⟩ := ih
    obtain ⟨hnext, hmore, -⟩ := assignSrcRef_spec hnumbers path
    exact ⟨hnext, fun p r h => hmore p r (hkeeps p r h)⟩

/-- Whatever a handler does, the tables stay inverse and keep what they have. -/
theorem Effect.spec {s t : Session S} (h : Effect F s t) (hs : s.Numbers) :
    t.Numbers ∧ s.Keeps t := by
  have hquiet : ∀ {u : Session S}, Quiet s u → u.Numbers ∧ s.Keeps u := by
    intro u hu
    rw [Session.Numbers, Session.Keeps, hu.pathToRef, hu.refToPath, hu.nextSrcRef]
    exact ⟨hs, fun p r h => h⟩
  cases h with
  | quiet hq => exact hquiet hq
  | assigns ha => exact ha.spec hs
  | event hq name body hsorted hsend =>
    obtain ⟨text, -, heq⟩ := Option.bind_eq_some_iff.mp hsend
    obtain rfl := Option.some.inj heq
    have htables := hquiet hq
    exact ⟨htables.1, htables.2⟩

/-! ## What a response gives -/

/-- A reference given: its path is not empty, and the table has it. -/
def Session.Gave (s : Session S) (g : Str × Int) : Prop :=
  g.1 ≠ [] ∧ 0 < g.2 ∧ s.pathToRef.lookup g.1 = some g.2

theorem Session.Gave.keep {s t : Session S} (h : s.Keeps t) {g : Str × Int} (hg : s.Gave g) :
    t.Gave g := ⟨hg.1, hg.2.1, h _ _ hg.2.2⟩

theorem frameGives_source (frame : Json F) (path : Str) (ref : Int) :
    frameGives (frame.set (str "source") (sourceJson path ref))
      = if 0 < ref then some (path, ref) else none := by
  rw [frameGives, Json.member_set, if_pos rfl]
  rfl

/-- What a frame gives is in the table that the frame leaves behind. -/
theorem frameJson_gave {disk : Disk} {f : FrameInfo} {id : Int} {s : Session S} (hs : s.Numbers)
    {r : Json F × Session S} (h : frameJson disk f id s = some r) {g : Str × Int}
    (hg : frameGives r.1 = some g) : r.2.Gave g := by
  unfold frameJson at h
  dsimp only at h
  split at h
  · -- a frame without a path has no source
    obtain rfl := Option.some.inj h
    cases hg
  · rename_i hne
    obtain ⟨⟨src, t⟩, hsrc, rfl⟩ := Option.map_eq_some_iff.mp h
    have hpath : f.sourcePath ≠ [] := by
      intro hnil
      rw [hnil] at hne
      exact hne rfl
    rcases frameSource_cases disk hsrc with ⟨rfl, rfl⟩ | ⟨rfl, rfl⟩
    · rw [frameGives_source] at hg
      cases hg
    · obtain ⟨-, -, hlookup⟩ := assignSrcRef_spec hs f.sourcePath
      rw [frameGives_source] at hg
      split at hg
      · rename_i hpos
        obtain rfl := Option.some.inj hg
        exact ⟨hpath, hpos, hlookup⟩
      · cases hg

/-- **The frames**: what they give is in the table in the end, since nothing leaves it. -/
theorem frames_gave {disk : Disk} : ∀ (fs : List FrameInfo) (id : Int) {s : Session S},
    s.Numbers → ∀ {r : List (Json F) × Session S}, frames disk fs id s = some r →
      ∀ g ∈ r.1.filterMap frameGives, r.2.Gave g := by
  intro fs
  induction fs with
  | nil =>
    intro id s hs r h g hg
    obtain rfl := Option.some.inj h
    exact absurd hg List.not_mem_nil
  | cons f fs ih =>
    intro id s hs r h g hg
    rw [frames_cons] at h
    obtain ⟨frame, hframe, h⟩ := Option.bind_eq_some_iff.mp h
    obtain ⟨rest, hrest, h⟩ := Option.bind_eq_some_iff.mp h
    obtain rfl := Option.some.inj h
    obtain ⟨hnumbers, -⟩ := (frameJson_assigns disk hframe).spec hs
    obtain ⟨-, hkeeps⟩ := (frames_assigns disk _ _ _ hrest).spec hnumbers
    obtain ⟨j, hj, hjg⟩ := List.mem_filterMap.mp hg
    rcases List.mem_cons.mp hj with rfl | hj
    · exact (frameJson_gave hs hframe hjg).keep hkeeps
    · exact ih (id + 1) hnumbers hrest g (List.mem_filterMap.mpr ⟨j, hj, hjg⟩)

section
variable [LawfulJsonText F]

/-- A response to another command gives nothing. -/
theorem givenBy_of_responds {b : Request F} {resp : Str} (h : Responds b resp)
    (hcommand : b.command ≠ str "stackTrace") : givenBy F resp = [] := by
  obtain ⟨j, hj, -, -, -, hname⟩ := h
  rw [givenBy, hj]
  dsimp only
  rw [hname, if_neg]
  exact fun heq => hcommand (Option.some.inj heq)

theorem givenBy_of_parse {resp : Str} {j body stack : Json F}
    (hj : JsonText.parse resp = some j)
    (hcommand : j.member (str "command") = some (.str (str "stackTrace")))
    (hbody : j.member (str "body") = some body)
    (hstack : body.member (str "stackFrames") = some stack) :
    givenBy F resp = stack.elements.filterMap frameGives := by
  rw [givenBy, hj]
  dsimp only
  rw [hcommand, Option.bind_some, if_pos (by rfl), hbody, Option.bind_some, hstack]

/-- The body of a response to `stackTrace`. -/
def stackTraceBody (jframes : List (Json F)) (total : Nat) : Json F :=
  .object [(str "stackFrames", .arr jframes), (str "totalFrames", .int total)]

/-- A response to `stackTrace` gives what its frames give. -/
theorem onStackTrace_gives {disk : Disk} {b : Request F} (hb : b.WellFormed)
    (hcommand : b.command = str "stackTrace") {s u t : Session S} {result resp : Str}
    (h : onStackTrace T disk b s = some (result, u))
    (hinject : injectSeq F result u = (resp, t)) :
    ∃ jframes : List (Json F), frames disk (T.getStack s.target) 1 s = some (jframes, u) ∧
      givenBy F resp = jframes.filterMap frameGives := by
  have hresponds := (onStackTrace_answered (F := F) T disk).responds hb h
  obtain ⟨_, -, h⟩ := Option.bind_eq_some_iff.mp h
  obtain ⟨⟨jframes, u'⟩, hframes, h⟩ := Option.bind_eq_some_iff.mp h
  obtain ⟨text, hreply, heq⟩ := Option.bind_eq_some_iff.mp h
  obtain ⟨rfl, rfl⟩ := Prod.mk.inj (Option.some.inj heq)
  have hsorted : ∀ j ∈ jframes, j.sorted = true := (frames_spec disk _ _ s).2 _ hframes
  have hbody : (stackTraceBody jframes (T.getStack s.target).length).sorted = true := by
    apply Json.sorted_object
    simp [Json.sorted, Json.sortedItems_iff.mpr hsorted]
  have hstack : (stackTraceBody jframes (T.getStack s.target).length).member (str "stackFrames")
      = some (.arr jframes) := rfl
  obtain ⟨j, text', hj, hresult, hresp, -, -, hname⟩ := injectSeq_parse hresponds u'
  obtain rfl := Option.some.inj (hj.symm.trans (parse_reply hbody hreply))
  obtain ⟨rfl, -⟩ := Prod.mk.inj (hresult.symm.trans hinject)
  refine ⟨jframes, hframes, givenBy_of_parse hresp ?_ ?_ hstack⟩
  · rw [Json.member_set, if_neg (by decide), hname, hcommand]
  · rw [Json.member_set, if_neg (by decide), Json.member_set, if_pos rfl]

/-- **One message**: the tables stay inverse, keep what they have, and have what is given. -/
theorem handleMessage_gave {disk : Disk} {text : Str} {s t : Session S} (hs : s.Numbers)
    {resp : Str} (h : handleMessage F T disk text s = some (resp, t)) :
    t.Numbers ∧ s.Keeps t ∧ ∀ g ∈ givenBy F resp, t.Gave g := by
  cases hb : Request.parse F text with
  | none =>
    obtain ⟨resp', hresp', hresponds⟩ := handleMessage_malformed T disk hb s
    obtain ⟨rfl, rfl⟩ := Prod.mk.inj (Option.some.inj (hresp'.symm.trans h))
    refine ⟨hs, fun p r hr => hr, fun g hg => ?_⟩
    have hunknown : str "<unknown>" ≠ str "stackTrace" := by decide
    rw [givenBy_of_responds hresponds hunknown] at hg
    exact absurd hg List.not_mem_nil
  | some b =>
    have hwf := Request.parse_wellFormed hb
    have hanswer := (handleMessage_request T disk hb s).2 h
    obtain ⟨result, u, answer, hd, hresponds, hsame, hinject⟩ := handleMessage_inject hb h
    obtain ⟨hnumbers, hkeeps⟩ := (dispatch_effect hd).1.spec hs
    -- writing the number leaves the tables alone
    obtain ⟨-, resp', -, hresult, -⟩ := injectSeq_parse hresponds u
    obtain ⟨-, rfl⟩ := Prod.mk.inj (hresult.symm.trans hinject)
    refine ⟨hnumbers, hkeeps, fun g hg => ?_⟩
    by_cases hcommand : b.command = str "stackTrace"
    · have hstack : onStackTrace T disk b s = some (result, u) := by
        rw [← hd, dispatch, hcommand]
        rfl
      have hne : result.isEmpty = false := by
        rw [List.isEmpty_eq_false_iff]
        exact ((onStackTrace_answered (F := F) T disk).responds hwf hstack).ne_nil
      rw [hsame hne] at hinject
      obtain ⟨jframes, hframes, hgives⟩ := onStackTrace_gives T hwf hcommand hstack hinject
      rw [hgives] at hg
      exact frames_gave _ 1 hs hframes g hg
    · rw [givenBy_of_responds hanswer hcommand] at hg
      exact absurd hg List.not_mem_nil

/-! ## Runs -/

/-- The invariant: the tables are inverse, and whatever was given is in them. -/
structure Tracked.Kept (w : Tracked S) : Prop where
  numbers : w.session.Numbers
  gave : ∀ g ∈ w.given, w.session.Gave g

omit [LawfulJsonText F] in
theorem start_kept (target : S) : Tracked.Kept { session := { target } } where
  numbers := Table.numbers_empty 2
  gave g hg := absurd hg List.not_mem_nil

variable {T}

/-- **The step lemma.** -/
theorem turn_kept (a : Turn S) (w w' : Tracked S) (hw : w.Kept) (h : turn F T a w = some w') :
    w'.Kept := by
  cases a with
  | message disk text =>
    obtain ⟨⟨resp, t⟩, hh, rfl⟩ := Option.map_eq_some_iff.mp h
    obtain ⟨hnumbers, hkeeps, hgave⟩ := handleMessage_gave T hw.numbers hh
    have hkept : Tracked.Kept { session := t, given := w.given ++ givenBy F resp } := by
      refine ⟨hnumbers, fun g hg => ?_⟩
      rcases List.mem_append.mp hg with hg | hg
      · exact (hw.gave g hg).keep hkeeps
      · exact hgave g hg
    -- the response that is written changes neither table
    dsimp only
    split
    · exact hkept
    · exact ⟨hkept.numbers, hkept.gave⟩
  | elsewhere target =>
    obtain rfl := Option.some.inj h
    exact ⟨hw.numbers, hw.gave⟩

/-- In such a state two references given are the same exactly if their paths are. -/
theorem Tracked.Kept.oneToOne {w : Tracked S} (hw : w.Kept) {g k : Str × Int} (hg : g ∈ w.given)
    (hk : k ∈ w.given) : g.1 = k.1 ↔ g.2 = k.2 :=
  Table.Numbers.eq_iff hw.numbers (hw.gave g hg).2.2 (hw.gave k hk).2.2

/-- A `source` request with a reference given asks for its path. -/
theorem Tracked.Kept.requestedPath {w : Tracked S} (hw : w.Kept) {b : Request F}
    {r : SourceRequest} {path : Str} (hg : (path, r.sourceReference) ∈ w.given) :
    requestedPath b r w.session = some path := by
  obtain ⟨-, hpos, hlookup⟩ := hw.gave _ hg
  have hback := (hw.numbers.inverse path r.sourceReference).mp hlookup
  have hread : r.sourceReference > 0 := hpos
  rw [Dap.requestedPath, if_pos hread, hback, Option.getD_some]

/-- It is answered with the content of that path. -/
theorem source_content {w : Tracked S} (hw : w.Kept) {disk : Disk} {b : Request F}
    (hcommand : b.command = str "source") {r : SourceRequest}
    (hr : SourceRequest.ofRequest b = some r) {path : Str}
    (hg : (path, r.sourceReference) ∈ w.given) :
    dispatch F T disk b w.session
      = (contentReply T disk b path w.session).map fun answer => (answer, w.session) := by
  have hdispatch : dispatch F T disk b w.session = onSource T disk b w.session := by
    rw [dispatch, hcommand]
    rfl
  rw [hdispatch, onSource, hr, contentReply]
  show (Dap.requestedPath b r w.session).bind _ = _
  rw [hw.requestedPath hg, Option.bind_some]
  cases sourceOf T disk path w.session with
  | none => exact (Option.map_eq_bind).symm
  | some info => exact (Option.map_eq_bind).symm

omit [LawfulJsonText F] in
/-- A `setBreakpoints` request that carries nothing but a reference reaches the target with an empty
    path. -/
theorem breakpointCall_path {b : Request F} {c : Str × Int × List Int}
    (h : breakpointCall b = some c) (honly : onlyReference b = true) : c.1 = [] := by
  have hpathOf : ∀ src : Json F, src.member (str "path") = none → src.member (str "name") = none →
      sourcePathOf src = some [] := by
    intro src hpath hname
    rw [sourcePathOf, hpath, hname]
  obtain ⟨r, hr, rfl⟩ := Option.map_eq_some_iff.mp h
  obtain ⟨src, hsrc, hr⟩ := Option.bind_eq_some_iff.mp hr
  obtain ⟨path, hpath, hr⟩ := Option.bind_eq_some_iff.mp hr
  have hempty : sourcePathOf src = some [] := by
    rcases Json.value_cases hsrc with rfl | ⟨v, hv, hget⟩
    · exact hpathOf _ rfl rfl
    · obtain rfl := Option.some.inj hget
      rw [onlyReference, hv, Option.all_some, Bool.and_eq_true, Bool.not_eq_true', Json.contains,
        Bool.not_eq_true', Json.contains, Option.isSome_eq_false_iff, Option.isNone_iff_eq_none,
        Option.isSome_eq_false_iff, Option.isNone_iff_eq_none] at honly
      exact hpathOf v honly.1 honly.2
  obtain rfl : path = [] := Option.some.inj (hpath.symm.trans hempty)
  dsimp only at hr
  split at hr <;>
  · obtain ⟨ref, -, hr⟩ := Option.bind_eq_some_iff.mp hr
    obtain ⟨bps, -, hr⟩ := Option.bind_eq_some_iff.mp hr
    obtain ⟨lines, -, hr⟩ := Option.bind_eq_some_iff.mp hr
    rw [← Option.some.inj hr]

omit [LawfulJsonText F] in
/-- A message that is not resolvable: a request that carries nothing but a reference given. -/
theorem resolvable_eq_false {disk : Disk} {text : Str} {w : Tracked S} :
    resolvable F (.message disk text) w = false ↔ ∃ (b : Request F) (c : Str × Int × List Int),
      Request.parse F text = some b ∧ b.command = str "setBreakpoints" ∧
        onlyReference b = true ∧ breakpointCall b = some c ∧ ∃ path, (path, c.2.1) ∈ w.given := by
  have hgiven : ∀ ref : Int, (w.given.any fun g => g.2 == ref) = true ↔
      ∃ path, (path, ref) ∈ w.given := by
    intro ref
    rw [List.any_eq_true]
    constructor
    · rintro ⟨⟨path, ref'⟩, hmem, heq⟩
      obtain rfl : ref' = ref := eq_of_beq heq
      exact ⟨path, hmem⟩
    · rintro ⟨path, hmem⟩
      exact ⟨_, hmem, beq_self_eq_true ref⟩
  cases hb : Request.parse F text with
  | none => simp [resolvable, hb]
  | some b =>
    cases hc : breakpointCall b with
    | none => simp [resolvable, hb, hc]
    | some c => simp [resolvable, hb, hc, hgiven, and_assoc, -Prod.exists]

/-- **When a message finds every reference good**: exactly if it is resolvable. -/
theorem resolved_iff (a : Turn S) (w : Tracked S) (hw : w.Kept) :
    Resolved F T a w ↔ resolvable F a w = true := by
  constructor
  · intro h
    by_contra hbad
    cases a with
    | elsewhere target => exact hbad rfl
    | message disk text =>
      obtain ⟨b, c, hb, hcommand, honly, hc, path, hg⟩ :=
        resolvable_eq_false.mp (Bool.eq_false_iff.mpr hbad)
      -- the path that was given is not empty, the one that arrives is
      have harrives : c.1 = path := h.breakpoints disk text b c rfl hb hcommand hc honly path hg
      rw [breakpointCall_path hc honly] at harrives
      exact (hw.gave _ hg).1 harrives.symm
  · intro h
    refine ⟨fun w' hturn g hg k hk => (turn_kept a w w' hw hturn).oneToOne hg hk, ?_, ?_⟩
    · rintro disk text b r rfl hb hcommand hr path hg
      exact source_content hw hcommand hr hg
    · rintro disk text b c rfl hb hcommand hc honly path hg
      rw [resolvable_eq_false.mpr ⟨b, c, hb, hcommand, honly, hc, path, hg⟩] at h
      cases h

variable (F T) in
/-- **References over a whole session**: in every run each of them is good for every later message
    exactly if no `setBreakpoints` request carries nothing but one of them. -/
theorem references_resolve (target : S) (as : List (Turn S)) :
    Along (turn F T) (Resolved F T) as { session := { target } } ↔
      Along (turn F T) (fun a w => resolvable F a w = true) as { session := { target } } :=
  along_congr_inv turn_kept resolved_iff (start_kept target)

end

/-! ## A session with a source that is not on disk -/

/-- A target that stands in an assembly file, knows its text and takes breakpoints nowhere else. -/
def romTarget : Target Unit :=
  { (default : Target Unit) with
    getStack := fun _ =>
      [{ name := str "reset", address := str "0x0000", sourcePath := str "/rom.s", line := 1 }]
    getSource := fun path _ =>
      if path = str "/rom.s" then some { content := str "reset: di" } else none
    setSourceBreakpoints := fun path _ lines s =>
      (lines.map fun line => { verified := path == str "/rom.s", line := line }, s) }

/-- A request with these arguments. -/
def requestWith (command arguments : String) : Str :=
  str "\x7b\"command\":\"" ++ str command ++ str "\",\"arguments\":\x7b" ++ str arguments ++
    str "\x7d\x7d"

/-- The client asks where the program is, and is told of a source by path and reference. -/
def asksWhere : Turn Unit := .message default (requestWith "stackTrace" "")

/-- It asks for the text of source 2. -/
def asksText : Turn Unit := .message default (requestWith "source" "\"sourceReference\":2")

/-- A request for a breakpoint on line 1 of a source. -/
def breakRequest (source : String) : Str :=
  requestWith "setBreakpoints"
    ("\"source\":\x7b" ++ source ++ "\x7d,\"breakpoints\":[\x7b\"line\":1\x7d]")

def byPath : Str := breakRequest "\"path\":\"/rom.s\",\"sourceReference\":2"

def byReference : Str := breakRequest "\"sourceReference\":2"

/-- The source is shown by its reference and takes a breakpoint by its path. -/
theorem references_resolve_shown :
    (∃ w, exec (turn Empty romTarget) [asksWhere, asksText, .message default byPath]
        { session := { target := () } } = some w ∧ w.given = [(str "/rom.s", 2)]) ∧
    Along (turn Empty romTarget) (Resolved Empty romTarget)
      [asksWhere, asksText, .message default byPath] { session := { target := () } } := by
  have hrun : (exec (turn Empty romTarget) [asksWhere, asksText, .message default byPath]
      { session := { target := () } }).map Tracked.given = some [(str "/rom.s", 2)] := by
    decide +kernel
  have hok : Along (turn Empty romTarget) (fun a w => resolvable Empty a w = true)
      [asksWhere, asksText, .message default byPath] { session := { target := () } } := by
    decide +kernel
  exact ⟨Option.map_eq_some_iff.mp hrun, (references_resolve Empty romTarget () _).mpr hok⟩

/-- A breakpoint by the reference alone reaches the target with no path, and is refused where the
    one by path is taken. -/
theorem reference_not_resolved :
    (¬ Along (turn Empty romTarget) (Resolved Empty romTarget)
      [asksWhere, .message default byReference] { session := { target := () } }) ∧
    ∃ w, turn Empty romTarget asksWhere { session := { target := () } } = some w ∧
      (handleMessage Empty romTarget default byReference w.session).map Prod.fst
        ≠ (handleMessage Empty romTarget default byPath w.session).map Prod.fst := by
  have hgiven : (turn Empty romTarget asksWhere { session := { target := () } }).map Tracked.given
      = some [(str "/rom.s", 2)] := by
    decide +kernel
  have hcall : ((Request.parse Empty byReference).bind fun b =>
      if b.command = str "setBreakpoints" ∧ onlyReference b = true then breakpointCall b else none)
        = some ([], 2, [1]) := by
    decide +kernel
  have hdiffer : ((turn Empty romTarget asksWhere { session := { target := () } }).map fun w =>
      decide ((handleMessage Empty romTarget default byReference w.session).map Prod.fst
        ≠ (handleMessage Empty romTarget default byPath w.session).map Prod.fst)) = some true := by
    decide +kernel
  obtain ⟨w, hw, hmem⟩ := Option.map_eq_some_iff.mp hgiven
  obtain ⟨b, hb, hc⟩ := Option.bind_eq_some_iff.mp hcall
  rw [hw, Option.map_some] at hdiffer
  refine ⟨fun h => ?_, w, hw, of_decide_eq_true (Option.some.inj hdiffer)⟩
  have hresolved : Resolved Empty romTarget (.message default byReference) w := (h.2 w hw).1
  split at hc
  · rename_i hcond
    have harrives := hresolved.breakpoints default byReference b _ rfl hb hcond.1 hc hcond.2
      (str "/rom.s") (by rw [hmem]; exact List.mem_cons_self)
    exact absurd harrives (by decide)
  · cases hc

end Dap

end Udap
