/-
  EVERY HANDLER ANSWERS what it needs, and nothing else.

  First the typed constructors: each succeeds exactly where the fields it reads have their kinds
  (`ofRequest_isSome`).  Then the bodies: each can be written exactly where the strings of the
  target in it are UTF-8.  Then the handlers, one by one and in their order, by the rule
  `answered_of_steps`; `handlers_answered` collects them.
-/
import Udap.Dap.Needs

set_option linter.unusedVariables false
set_option linter.unusedSectionVars false

namespace Udap

namespace Dap

open Udap.Cxx

variable {F S : Type}

/-! ## The typed constructors -/

section
variable [FloatCast F]

/-- A field of one kind after another: the object is the same. -/
theorem typed_and (j : Json F) (a b : List (Str × Json.Kind)) :
    (j.typed a && j.typed b) = j.typed (a ++ b) := by
  unfold Json.typed
  rw [List.all_append]
  cases j.isObject <;> rfl

/-! ### Fields that are read -/

theorem text_isSome (b : Request F) (key : Str) :
    (b.arguments.value key [] Json.getStr).isSome = b.arguments.typed [(key, .string)] := by
  rw [Json.value_getStr_isSome, Json.typed, List.all_cons, List.all_nil, Bool.and_true]

theorem flag_isSome (b : Request F) (key : Str) :
    (b.arguments.value key false Json.getBool).isSome = b.arguments.typed [(key, .boolean)] := by
  rw [Json.value_getBool_isSome, Json.typed, List.all_cons, List.all_nil, Bool.and_true]

theorem number_isSome (b : Request F) (key : Str) :
    (b.arguments.value key 0 Json.getInt).isSome = b.arguments.typed [(key, .number)] := by
  rw [Json.value_getInt_isSome, Json.typed, List.all_cons, List.all_nil, Bool.and_true]

/-! ### Requests -/

theorem InitializeRequest.ofRequest_isSome (b : Request F) :
    (InitializeRequest.ofRequest b).isSome = b.arguments.typed [(str "adapterID", .string),
      (str "clientID", .string), (str "clientName", .string), (str "locale", .string)] := by
  simp only [ofRequest, Option.bind_eq_bind, Option.isSome_bind, any_const, text_isSome,
    Option.isSome_some, Bool.and_true, typed_and, List.cons_append, List.nil_append]

theorem LaunchRequest.ofRequest_isSome (b : Request F) :
    (LaunchRequest.ofRequest b).isSome = b.arguments.typed [(str "noDebug", .boolean),
      (str "program", .string), (str "cdbFile", .string), (str "mapFile", .string)] := by
  simp only [ofRequest, Option.bind_eq_bind, Option.isSome_bind, any_const, text_isSome,
    flag_isSome, Option.isSome_some, Bool.and_true, typed_and, List.cons_append, List.nil_append]

theorem StackTraceRequest.ofRequest_isSome (b : Request F) :
    (StackTraceRequest.ofRequest b).isSome = b.arguments.typed [(str "threadId", .number),
      (str "startFrame", .number), (str "levels", .number)] := by
  simp only [ofRequest, Option.bind_eq_bind, Option.isSome_bind, any_const, number_isSome,
    Option.isSome_some, Bool.and_true, typed_and, List.cons_append, List.nil_append]

theorem ScopesRequest.ofRequest_isSome (b : Request F) :
    (ScopesRequest.ofRequest b).isSome = b.arguments.typed [(str "frameId", .number)] := by
  simp only [ofRequest, Option.bind_eq_bind, Option.isSome_bind, any_const, number_isSome,
    Option.isSome_some, Bool.and_true]

theorem VariablesRequest.ofRequest_isSome (b : Request F) :
    (VariablesRequest.ofRequest b).isSome
      = b.arguments.typed [(str "variablesReference", .number)] := by
  simp only [ofRequest, Option.bind_eq_bind, Option.isSome_bind, any_const, number_isSome,
    Option.isSome_some, Bool.and_true]

theorem ContinueRequest.ofRequest_isSome (b : Request F) :
    (ContinueRequest.ofRequest b).isSome = b.arguments.typed [(str "threadId", .number)] := by
  simp only [ofRequest, threadIdOf, Option.bind_eq_bind, Option.isSome_bind, any_const,
    number_isSome, Option.isSome_some, Bool.and_true]

theorem NextRequest.ofRequest_isSome (b : Request F) :
    (NextRequest.ofRequest b).isSome = b.arguments.typed [(str "threadId", .number)] := by
  simp only [ofRequest, threadIdOf, Option.bind_eq_bind, Option.isSome_bind, any_const,
    number_isSome, Option.isSome_some, Bool.and_true]

theorem StepRequest.ofRequest_isSome (b : Request F) :
    (StepRequest.ofRequest b).isSome
      = b.arguments.typed [(str "threadId", .number), (str "granularity", .string)] := by
  simp only [ofRequest, threadIdOf, granularityOf, Option.bind_eq_bind, Option.isSome_bind,
    any_const, number_isSome, text_isSome, Option.isSome_some, Bool.and_true, typed_and,
    List.cons_append, List.nil_append]

theorem EvaluateRequest.ofRequest_isSome (b : Request F) :
    (EvaluateRequest.ofRequest b).isSome = b.arguments.typed [(str "expression", .string),
      (str "context", .string), (str "frameId", .number)] := by
  simp only [ofRequest, Option.bind_eq_bind, Option.isSome_bind, any_const, number_isSome,
    text_isSome, Option.isSome_some, Bool.and_true, typed_and, List.cons_append, List.nil_append]

theorem sourcePathOf_isSome (src : Json F) : (sourcePathOf src).isSome = sourcePathFits src := by
  unfold sourcePathOf sourcePathFits Json.fits
  cases src.member (str "path") with
  | some p => exact Json.getStr_isSome p
  | none =>
    dsimp only
    cases src.member (str "name") with
    | some n => exact Json.getStr_isSome n
    | none => rfl

theorem addressOf_isSome (ref : Json F) : (addressOf ref).isSome = addressFits ref := by
  cases ref with
  | str s => exact Option.isSome_map
  | null | bool | int | float | arr | obj => rfl

theorem ReadMemoryRequest.ofRequest_isSome (b : Request F) :
    (ReadMemoryRequest.ofRequest b).isSome
      = (b.arguments.typed [(str "offset", .number), (str "count", .number)] &&
        (b.arguments.member (str "memoryReference")).all addressFits) := by
  unfold ofRequest
  cases b.arguments.member (str "memoryReference") with
  | none =>
    simp only [Option.bind_eq_bind, Option.isSome_bind, any_const, Json.value_getInt_isSome,
      Option.isSome_some, Json.typed, List.all_cons, List.all_nil, Option.all_none]
    cases b.arguments.isObject <;> simp
  | some ref =>
    simp only [Option.bind_eq_bind, Option.isSome_bind, any_const, Json.value_getInt_isSome,
      Option.isSome_some, Option.isSome_map, addressOf_isSome, Json.typed, List.all_cons,
      List.all_nil, Option.all_some]
    cases b.arguments.isObject <;> simp [Bool.and_comm]

theorem DisassembleRequest.ofRequest_isSome (b : Request F) :
    (DisassembleRequest.ofRequest b).isSome
      = (b.arguments.typed [(str "offset", .number), (str "instructionOffset", .number),
          (str "instructionCount", .number)] &&
        (b.arguments.member (str "memoryReference")).all fun ref =>
          ref.getStr.any fun text => (stoul text 0).isSome) := by
  unfold ofRequest
  cases b.arguments.member (str "memoryReference") with
  | none =>
    simp only [Option.bind_eq_bind, Option.isSome_bind, any_const, Json.value_getInt_isSome,
      Option.isSome_some, Json.typed, List.all_cons, List.all_nil, Option.all_none]
    cases b.arguments.isObject <;> simp
  | some ref =>
    simp only [Option.bind_eq_bind, Option.isSome_bind, any_const, Json.value_getInt_isSome,
      Option.isSome_some, Json.typed, List.all_cons, List.all_nil, Option.all_some]
    cases ref.getStr with
    | none => simp
    | some text => cases b.arguments.isObject <;> simp [Bool.and_comm]

/-- A field that is any value at all. -/
theorem value_getJson {j : Json F} (h : j.isObject = true) (key : Str) (dflt : Json F) :
    j.value key dflt Json.getJson = some ((j.member key).getD dflt) := by
  rw [Json.value_of_object h]
  cases j.member key <;> rfl

theorem BreakpointLocationsRequest.ofRequest_isSome (b : Request F) :
    (BreakpointLocationsRequest.ofRequest b).isSome
      = b.arguments.typed [(str "line", .number), (str "endLine", .number)] := by
  simp only [ofRequest, Option.bind_eq_bind, Option.isSome_bind, any_const,
    Json.value_getInt_isSome, Json.value_getJson_isSome, Option.isSome_some, Json.typed,
    List.all_cons, List.all_nil]
  cases b.arguments.isObject <;> simp

theorem SetBreakpointsRequest.ofRequest_isSome (b : Request F) :
    (SetBreakpointsRequest.ofRequest b).isSome
      = (b.arguments.isObject &&
        sourcePathFits ((b.arguments.member (str "source")).getD (.obj [])) &&
        ((b.arguments.member (str "source")).getD (.obj [])).fits (str "sourceReference") .number &&
        ((b.arguments.member (str "breakpoints")).getD (.arr [])).elements.all
          (·.typed [(str "line", .number)])) := by
  by_cases hobj : b.arguments.isObject = true
  · have hline : ∀ bp : Json F, (bp.value (str "line") 1 Json.getInt).isSome
        = bp.typed [(str "line", .number)] := by
      intro bp
      rw [Json.value_getInt_isSome, Json.typed, List.all_cons, List.all_nil, Bool.and_true]
    simp only [ofRequest, value_getJson hobj, Option.bind_eq_bind, Option.bind_some, hobj,
      Bool.true_and]
    generalize (b.arguments.member (str "source")).getD (.obj []) = src
    rw [Option.isSome_bind, ← sourcePathOf_isSome]
    unfold Json.fits
    cases src.member (str "sourceReference") with
    | none => simp [Option.isSome_bind, mapM_isSome, hline]
    | some r => simp [Option.isSome_bind, mapM_isSome, hline, Bool.and_assoc]
  · have hnone : b.arguments.value (str "source") (.obj []) Json.getJson = none := by
      rw [← Option.not_isSome_iff_eq_none, Json.value_getJson_isSome]
      exact hobj
    rw [ofRequest, hnone, Bool.eq_false_iff.mpr hobj]
    rfl

theorem SourceRequest.ofRequest_isSome (b : Request F) :
    (SourceRequest.ofRequest b).isSome = sourceReferenceFits b.arguments := by
  unfold ofRequest sourceReferenceFits
  cases b.arguments.member (str "sourceReference") with
  | some r => simp [Option.isSome_bind]
  | none =>
    cases b.arguments.member (str "source") with
    | none => rfl
    | some src =>
      simp only [Option.bind_some, Option.getD_some, Json.fits]
      cases src.member (str "sourceReference") with
      | none => rfl
      | some r => simp [Option.isSome_bind]

/-- Reading the `breakpoints` of a request and then each of them by `get`. -/
theorem breakpoints_isSome {α : Type} (b : Request F) {each : List (Json F) → Option α}
    {fit : Json F → Bool} (h : ∀ bps, (each bps).isSome = bps.all fit) :
    ((b.arguments.value (str "breakpoints") [] Json.getVector).bind each).isSome
      = (b.arguments.typed [(str "breakpoints", .array)] &&
        ((b.arguments.member (str "breakpoints")).getD (.arr [])).elements.all fit) := by
  by_cases hobj : b.arguments.isObject = true
  · rw [Json.value_of_object hobj, Json.typed, hobj, List.all_cons, List.all_nil, Json.fits]
    cases b.arguments.member (str "breakpoints") with
    | none =>
      show (each []).isSome = _
      rw [h]
      rfl
    | some v =>
      show ((v.getVector).bind each).isSome = _
      cases v with
      | arr items =>
        show (each items).isSome = _
        rw [h]
        simp [Json.hasKind, Json.getVector, Json.elements]
      | null | bool | int | float | str | obj => rfl
  · have hnone : b.arguments.value (str "breakpoints") [] Json.getVector = none := by
      rw [← Option.not_isSome_iff_eq_none, Json.value_getVector_isSome, Bool.eq_false_iff.mpr hobj]
      simp
    rw [hnone, Json.typed, Bool.eq_false_iff.mpr hobj]
    rfl

theorem functionNames_isSome (b : Request F) :
    (functionNames b).isSome
      = (b.arguments.typed [(str "breakpoints", .array)] &&
        ((b.arguments.member (str "breakpoints")).getD (.arr [])).elements.all
          (·.typed [(str "name", .string)])) := by
  have hname : ∀ bps : List (Json F),
      (bps.mapM fun bp : Json F => bp.value (str "name") [] Json.getStr).isSome
        = bps.all (·.typed [(str "name", .string)]) := by
    intro bps
    rw [mapM_isSome]
    simp only [Json.value_getStr_isSome, Json.typed, List.all_cons, List.all_nil, Bool.and_true]
  rw [← breakpoints_isSome b hname]
  simp only [functionNames, SetFunctionBreakpointsRequest.ofRequest, Option.bind_eq_bind,
    Option.bind_assoc, Option.bind_some]

theorem instructionReferences_isSome (bps : List (Json F)) :
    (instructionReferences bps).isSome
      = bps.all (·.fits (str "instructionReference") .string) := by
  induction bps with
  | nil => rfl
  | cons bp bps ih =>
    rw [instructionReferences, List.all_cons, Json.fits]
    cases bp.member (str "instructionReference") with
    | none =>
      show (instructionReferences bps).isSome = _
      rw [ih, Option.all_none, Bool.true_and]
    | some ref => simp [Option.isSome_bind, ih]

theorem requestedReferences_isSome (b : Request F) :
    (requestedReferences b).isSome
      = (b.arguments.typed [(str "breakpoints", .array)] &&
        ((b.arguments.member (str "breakpoints")).getD (.arr [])).elements.all
          (·.fits (str "instructionReference") .string)) := by
  rw [← breakpoints_isSome b instructionReferences_isSome]
  simp only [requestedReferences, SetInstructionBreakpointsRequest.ofRequest, Option.bind_eq_bind,
    Option.bind_assoc, Option.bind_some]

theorem launchArgs_isSome (b : Request F) :
    ((LaunchRequest.ofRequest b).bind fun r => launchArgsOf b r).isSome
      = b.arguments.typed [(str "noDebug", .boolean), (str "program", .string),
          (str "cdbFile", .string), (str "mapFile", .string), (str "sourceRoot", .string)] := by
  simp only [launchArgsOf, Option.bind_eq_bind, Option.isSome_bind, any_const,
    Json.value_getStr_isSome, Option.isSome_some, LaunchRequest.ofRequest_isSome, Json.typed,
    List.all_cons, List.all_nil]
  cases b.arguments.isObject <;> simp [Bool.and_assoc]

theorem requestedPath_isSome (b : Request F) (r : SourceRequest) (s : Session S) :
    (requestedPath b r s).isSome = (decide (r.sourceReference > 0) ||
      ((b.arguments.member (str "source")).getD .null).fits (str "path") .string) := by
  unfold requestedPath
  by_cases hpos : r.sourceReference > 0
  · rw [if_pos hpos, decide_eq_true hpos]
    rfl
  · rw [if_neg hpos, decide_eq_false hpos, Bool.false_or]
    cases b.arguments.member (str "source") with
    | none => rfl
    | some src =>
      dsimp only [Option.bind_some, Option.getD_some, Json.fits]
      cases src.member (str "path") with
      | none => rfl
      | some path => exact Json.getStr_isSome path

end

/-! ## The bodies -/

/-- A body that lists something. -/
theorem list_texts {α : Type} {key : Str} (hk : utf8 key = true) (l : List α) (f : α → Json F) :
    (Json.object [(key, .arr (l.map f))]).texts = l.all fun x => (f x).texts := by
  have hgood : Json.goodKeys ([(key, Json.arr (l.map f))].map Prod.fst) = true := by
    simp [Json.goodKeys, hk]
  rw [Json.texts_object hgood, List.all_cons, List.all_nil, Bool.and_true, Json.texts_arr,
    List.all_map]
  rfl

theorem list_sorted {α : Type} (key : Str) (l : List α) {f : α → Json F}
    (hf : ∀ x, (f x).sorted = true) : (Json.object [(key, .arr (l.map f))]).sorted = true := by
  refine Json.sorted_object fun g hg => ?_
  rw [List.mem_singleton.mp hg]
  refine Json.sortedItems_iff.mpr fun j hj => ?_
  obtain ⟨x, -, rfl⟩ := List.mem_map.mp hj
  exact hf x

theorem capabilities_texts : (capabilities : Json F).texts = true := by
  rw [capabilities, Json.texts_object rfl]
  simp

theorem capabilities_sorted : (capabilities : Json F).sorted = true :=
  Json.sorted_object (by simp)

theorem scopesBody_texts (infos : List ScopeInfo) :
    (scopesBody infos : Json F).texts = infos.all ScopeInfo.texts := by
  have hscope : ∀ (i : Nat) (sc : ScopeInfo), (Json.object [(str "name", .str sc.name),
      (str "variablesReference", .int (i + 1)), (str "presentationHint", .str sc.hint),
      (str "expensive", .bool false)] : Json F).texts = sc.texts := by
    intro i sc
    rw [Json.texts_object rfl, ScopeInfo.texts]
    simp
  rw [scopesBody, Json.texts_object rfl, Bool.eq_iff_iff]
  simp only [List.all_cons, List.all_nil, Bool.and_true, Json.texts_arr, List.all_eq_true,
    List.mem_mapIdx, forall_exists_index]
  constructor
  · intro h sc hsc
    obtain ⟨i, hi, rfl⟩ := List.getElem_of_mem hsc
    have := h _ i hi rfl
    rwa [hscope] at this
  · rintro h j i hi rfl
    rw [hscope]
    exact h _ (List.getElem_mem hi)

theorem scopesBody_sorted (infos : List ScopeInfo) :
    (scopesBody infos : Json F).sorted = true := by
  refine Json.sorted_object fun g hg => ?_
  rw [List.mem_singleton.mp hg]
  refine Json.sortedItems_iff.mpr fun j hj => ?_
  obtain ⟨i, hi, rfl⟩ := List.mem_mapIdx.mp hj
  exact Json.sorted_object (by simp)

theorem variableJson_texts (v : VariableInfo) : (variableJson v : Json F).texts = v.texts := by
  have hnil : utf8 [] = true := rfl
  unfold variableJson VariableInfo.texts
  cases v.memoryReference <;> cases v.type <;>
    simp only [List.isEmpty_nil, List.isEmpty_cons, Bool.false_eq_true, if_false, if_true,
      Json.object_set, List.cons_append, List.nil_append] <;>
    rw [Json.texts_object rfl] <;> simp [hnil, Bool.and_assoc]

theorem variableJson_sorted (v : VariableInfo) : (variableJson v : Json F).sorted = true := by
  unfold variableJson
  cases v.memoryReference <;> cases v.type <;> rfl

theorem breakpointJson_texts (showLine showMessage : Bool) (bp : BreakpointInfo) :
    (breakpointJson showLine showMessage bp : Json F).texts = bp.texts showMessage := by
  have hnil : utf8 [] = true := rfl
  unfold breakpointJson BreakpointInfo.texts
  cases bp.instructionReference <;> cases showLine <;> cases showMessage <;> cases bp.message <;>
    simp only [Bool.false_and, Bool.true_and, Bool.false_eq_true, Bool.not_true, Bool.not_false,
      if_false, if_true, List.isEmpty_cons, List.isEmpty_nil, Json.object_set, List.cons_append,
      List.nil_append] <;>
    rw [Json.texts_object rfl] <;> simp [hnil]

theorem breakpointJson_sorted (showLine showMessage : Bool) (bp : BreakpointInfo) :
    (breakpointJson showLine showMessage bp : Json F).sorted = true := by
  unfold breakpointJson
  split <;> split <;> split <;> rfl

theorem instructionJson_texts (i : DisasmInfo) :
    (instructionJson i : Json F).texts = i.texts := by
  have hpath : ∀ path : Str,
      (Json.object [(str "path", .str path)] : Json F).texts = utf8 path := by
    intro path
    rw [Json.texts_object rfl]
    simp
  unfold instructionJson DisasmInfo.texts
  cases i.symbol <;> cases i.sourcePath <;> cases i.sourceLine <;>
    simp only [Json.object_set, List.cons_append, List.nil_append] <;>
    rw [Json.texts_object rfl] <;> simp [hpath, Bool.and_assoc]

theorem instructionJson_sorted (i : DisasmInfo) :
    (instructionJson i : Json F).sorted = true := by
  unfold instructionJson
  cases i.symbol <;> cases i.sourcePath <;> cases i.sourceLine <;> rfl

theorem evaluateBody_texts {res : EvalInfo} (h : res.success = true) :
    (evaluateBody res : Json F).texts = res.texts := by
  unfold evaluateBody EvalInfo.texts
  rw [if_pos h]
  cases res.memoryReference <;>
    simp only [Json.object_set, List.cons_append, List.nil_append] <;>
    rw [Json.texts_object rfl] <;> simp

theorem evaluateBody_sorted (res : EvalInfo) : (evaluateBody res : Json F).sorted = true := by
  unfold evaluateBody
  cases res.memoryReference <;> rfl

/-! ### The frames of the stack -/

theorem utf8_filename {p : Str} (h : utf8 p = true) : utf8 (Path.filename p) = true := by
  rcases Path.cut_of_filename p with hp | ⟨dir, hp⟩
  · rwa [← hp]
  · rw [hp] at h
    exact utf8From_after (by decide) (Or.inl rfl) h

theorem frameSource_isSome (disk : Disk) (path : Str) (s : Session S) :
    (frameSource disk path s : Option (Json F × Session S)).isSome
      = (!isCFile path || (disk.fileExists path).isSome) := by
  unfold frameSource
  cases isCFile path with
  | false => rfl
  | true => cases disk.fileExists path <;> rfl

theorem frameSource_valid {disk : Disk} {path : Str} {s s' : Session S} {src : Json F}
    (h : frameSource disk path s = some (src, s')) :
    src.texts = utf8 path ∧ src.sorted = true := by
  have hsrc : ∃ ref : Int, src = .object [(str "name", .str (Path.filename path)),
      (str "presentationHint", .str (str "normal")), (str "path", .str path),
      (str "sourceReference", .int ref)] := by
    unfold frameSource at h
    split at h
    · obtain ⟨onDisk, -, h⟩ := Option.bind_eq_some_iff.mp h
      exact ⟨_, (Prod.mk.inj (Option.some.inj h)).1.symm⟩
    · exact ⟨_, (Prod.mk.inj (Option.some.inj h)).1.symm⟩
  obtain ⟨ref, rfl⟩ := hsrc
  have hnormal : utf8 (str "normal") = true := rfl
  refine ⟨?_, Json.sorted_object (by simp)⟩
  rw [Json.texts_object rfl]
  cases hpath : utf8 path with
  | false => simp [hpath]
  | true => simp [hpath, hnormal, utf8_filename hpath]

/-- One frame with its source, if it has one. -/
def frameJson (disk : Disk) (f : FrameInfo) (id : Int) (s : Session S) :
    Option (Json F × Session S) :=
  let frame : Json F := .object [(str "id", .int id), (str "name", .str f.name),
    (str "memoryReference", .str f.address), (str "instructionReference", .str f.address),
    (str "line", .int f.line), (str "column", .int 1)]
  if f.sourcePath.isEmpty then some (frame, s)
  else (frameSource disk f.sourcePath s).map fun src => (frame.set (str "source") src.1, src.2)

theorem frames_cons (disk : Disk) (f : FrameInfo) (fs : List FrameInfo) (id : Int)
    (s : Session S) :
    (frames disk (f :: fs) id s : Option (List (Json F) × Session S))
      = (frameJson disk f id s).bind fun r =>
          (frames disk fs (id + 1) r.2).bind fun rest => some (r.1 :: rest.1, rest.2) := by
  rw [frames, frameJson]
  split <;> rfl

/-- A frame is put together unless `fs::exists` throws, and can be written where its strings are
    UTF-8. -/
theorem frameJson_spec (disk : Disk) (f : FrameInfo) (id : Int) (s : Session S) :
    (frameJson disk f id s : Option (Json F × Session S)).any (fun r => r.1.texts)
        = f.shown disk ∧
      ∀ r, (frameJson disk f id s : Option (Json F × Session S)) = some r →
        r.1.sorted = true := by
  have hsource := frameSource_isSome (F := F) disk f.sourcePath s
  unfold frameJson FrameInfo.shown
  cases hempty : f.sourcePath.isEmpty with
  | true =>
    obtain hpath : f.sourcePath = [] := List.isEmpty_iff.mp hempty
    have hnil : utf8 [] = true := rfl
    have hC : isCFile [] = false := by decide
    refine ⟨?_, ?_⟩
    · show Json.texts _ = _
      rw [Json.texts_object rfl, hpath, hC]
      simp [hnil]
    · intro r hr
      obtain rfl := Option.some.inj hr
      exact Json.sorted_object (by simp)
  | false =>
    cases hsrc : (frameSource disk f.sourcePath s : Option (Json F × Session S)) with
    | none =>
      rw [hsrc] at hsource
      refine ⟨?_, nofun⟩
      rw [← hsource]
      simp
    | some src =>
      rw [hsrc] at hsource
      obtain ⟨htexts, hsorted⟩ := frameSource_valid hsrc
      refine ⟨?_, ?_⟩
      · rw [← hsource]
        show (Json.set (Json.object _) (str "source") src.1).texts = _
        rw [Json.object_set]
        simp only [List.cons_append, List.nil_append]
        rw [Json.texts_object rfl]
        simp [htexts, Bool.and_assoc]
      · intro r hr
        obtain rfl := Option.some.inj hr
        exact Json.sorted_set (Json.sorted_object (by simp)) _ hsorted

/-- **The frames**: they are all put together unless `fs::exists` throws for one of them, and can be
    written where their strings are UTF-8. -/
theorem frames_spec (disk : Disk) (fs : List FrameInfo) (id : Int) (s : Session S) :
    (frames disk fs id s : Option (List (Json F) × Session S)).any (fun r => r.1.all Json.texts)
        = fs.all (FrameInfo.shown disk) ∧
      ∀ r, (frames disk fs id s : Option (List (Json F) × Session S)) = some r →
        ∀ j ∈ r.1, j.sorted = true := by
  induction fs generalizing id s with
  | nil =>
    refine ⟨rfl, fun r hr => ?_⟩
    obtain rfl := Option.some.inj hr
    exact nofun
  | cons f fs ih =>
    obtain ⟨htexts, hsorted⟩ := frameJson_spec (F := F) disk f id s
    rw [frames_cons, List.all_cons, ← htexts]
    cases hf : (frameJson disk f id s : Option (Json F × Session S)) with
    | none => exact ⟨rfl, nofun⟩
    | some r =>
      obtain ⟨ihtexts, ihsorted⟩ := ih (id + 1) r.2
      rw [← ihtexts, Option.bind_some]
      cases hrest : (frames disk fs (id + 1) r.2 : Option (List (Json F) × Session S)) with
      | none => exact ⟨(Bool.and_false _).symm, nofun⟩
      | some rest =>
        refine ⟨rfl, fun r' hr' => ?_⟩
        obtain rfl := Option.some.inj hr'
        intro j hj
        rcases List.mem_cons.mp hj with rfl | hj
        · exact hsorted r hf
        · exact ihsorted rest hrest j hj

/-! ## The handlers -/

/-- An event with an ASCII name and a body that can be written is sent. -/
theorem sendEvent_isSome [JsonText F] [LawfulJsonText F] {event : Str} (he : utf8 event = true)
    {body : Json F} (hb : body.texts = true) (s : Session S) :
    (sendEvent F event body s).isSome = true := by
  have hevent : utf8 (str "event") = true := rfl
  have htexts : (Json.object [(str "seq", .int s.eventSeq), (str "type", .str (str "event")),
      (str "event", .str event), (str "body", body)] : Json F).texts = true := by
    rw [Json.texts_object rfl]
    simp [hevent, he, hb]
  rw [← LawfulJsonText.dump_isSome] at htexts
  simp only [sendEvent, Option.bind_eq_bind, Option.isSome_bind, any_const, htexts,
    Option.isSome_some, Bool.and_true]

theorem stopped_isSome [JsonText F] [LawfulJsonText F] {reason : Str} (h : utf8 reason = true)
    (s : Session S) : (stopped F reason s).isSome = true := by
  refine sendEvent_isSome (by decide) ?_ s
  rw [Json.texts_object rfl]
  simp [h]

section
variable [FloatCast F] [JsonText F] [LawfulJsonText F]

theorem onInitialize_answered : Answered (onInitialize : Handler F S) initializeNeeds := by
  refine answered_of_reply
    (fun b s => (InitializeRequest.ofRequest b).bind fun _ =>
      sendEvent F (str "initialized") (.obj []) s)
    (fun _ _ => capabilities) (fun s' _ => some s') ?_ (fun _ => capabilities_sorted)
    (fun _ _ => rfl) ?_
  · intro b s _
    rw [Option.bind_assoc]
    rfl
  · intro b s
    have hevent : (sendEvent F (str "initialized") (.obj []) s).isSome = true :=
      sendEvent_isSome (by decide) rfl s
    simp only [capabilities_texts, any_const, Option.isSome_bind, hevent, Bool.and_true,
      InitializeRequest.ofRequest_isSome]
    rfl

variable (T : Target S) (disk : Disk)

theorem onLaunch_answered : Answered (onLaunch T : Handler F S) launchNeeds := by
  refine answered_of_reply
    (fun b _ => (LaunchRequest.ofRequest b).bind fun r => launchArgsOf b r) (fun _ _ => .null)
    (fun args s => some { s with target := (T.launch args s.target).2,
                                 launched := (T.launch args s.target).1 }) ?_
    (fun _ => Json.sorted_null) (fun _ _ => rfl) ?_
  · intro b s _
    rw [Option.bind_assoc]
    rfl
  · intro b s
    rw [Json.texts_null, any_const, launchArgs_isSome, Bool.and_true]
    rfl

theorem onConfigurationDone_answered :
    Answered (onConfigurationDone : Handler F S) needsNothing := by
  refine answered_of_reply (fun b _ => some b) (fun _ _ => .null)
    (fun _ s => if s.launched then stopped F (str "entry") s else some s) ?_
    (fun _ => Json.sorted_null) ?_ (fun _ _ => rfl)
  · intro b s _
    rw [onConfigurationDone]
    split <;> rfl
  · intro _ s
    split
    · exact stopped_isSome (by decide) s
    · rfl

theorem onDisconnect_answered : Answered (onDisconnect T : Handler F S) needsNothing := by
  refine answered_of_reply (fun b _ => some b) (fun _ _ => .null)
    (fun _ s => some { s with target := T.disconnect s.target, launched := false }) ?_
    (fun _ => Json.sorted_null) (fun _ _ => rfl) (fun _ _ => rfl)
  intro b s hb
  rw [onDisconnect, rawRequest_eq hb]
  rfl

theorem onThreads_answered : Answered (onThreads : Handler F S) needsNothing := by
  refine answered_of_reply (fun b _ => some b)
    (fun _ _ => .object [(str "threads",
      .arr [.object [(str "id", .int 1), (str "name", .str (str "main"))]])])
    (fun _ s => some s) (fun _ _ _ => rfl) (fun _ => rfl) (fun _ _ => rfl) (fun _ _ => rfl)

theorem onStackTrace_answered :
    Answered (onStackTrace T disk : Handler F S) (stackTraceNeeds T disk) := by
  refine answered_of_reply
    (fun b s => (StackTraceRequest.ofRequest b).bind fun _ =>
      frames disk (T.getStack s.target) 1 s)
    (fun r s => .object [(str "stackFrames", .arr r.1),
      (str "totalFrames", .int (T.getStack s.target).length)])
    (fun r _ => some r.2) ?_ ?_ (fun _ _ => rfl) ?_
  · intro b s _
    rw [Option.bind_assoc]
    rfl
  · intro r b s hr
    obtain ⟨_, -, hr⟩ := Option.bind_eq_some_iff.mp hr
    have hframes := (frames_spec disk (T.getStack s.target) 1 s).2 r hr
    apply Json.sorted_object
    simp [Json.sorted, Json.sortedItems_iff.mpr hframes]
  · intro b s
    have htexts : ∀ r : List (Json F) × Session S, (Json.object [(str "stackFrames", .arr r.1),
        (str "totalFrames", .int (T.getStack s.target).length)]).texts = r.1.all Json.texts := by
      intro r
      rw [Json.texts_object rfl]
      simp
    simp only [htexts, Option.any_bind, Function.comp_def, any_const,
      StackTraceRequest.ofRequest_isSome]
    rw [(frames_spec disk (T.getStack s.target) 1 s).1]
    rfl

theorem onScopes_answered : Answered (onScopes T : Handler F S) (scopesNeeds T) := by
  refine answered_of_reply (fun b _ => ScopesRequest.ofRequest b)
    (fun _ s => scopesBody (T.getScopes s.target))
    (fun _ s => some { s with scopeNames := (T.getScopes s.target).map ScopeInfo.name })
    (fun _ _ _ => rfl) (fun _ => scopesBody_sorted _) (fun _ _ => rfl) ?_
  intro b s
  rw [scopesBody_texts, any_const, ScopesRequest.ofRequest_isSome]
  rfl

theorem onVariables_answered : Answered (onVariables T : Handler F S) (variablesNeeds T) := by
  refine answered_of_reply (fun b _ => VariablesRequest.ofRequest b)
    (fun r s => .object [(str "variables",
      .arr ((variablesOf T r.variablesReference s).map variableJson))])
    (fun _ s => some s) (fun _ _ _ => rfl) (fun _ => list_sorted _ _ variableJson_sorted)
    (fun _ _ => rfl) ?_
  intro b s
  have hkey : utf8 (str "variables") = true := rfl
  simp only [list_texts hkey, variableJson_texts]
  rw [any_eq_all, VariablesRequest.ofRequest_isSome]
  rfl

theorem onContinue_answered : Answered (onContinue T : Handler F S) threadNeeds := by
  refine answered_of_reply (fun b _ => ContinueRequest.ofRequest b)
    (fun _ _ => .object [(str "allThreadsContinued", .bool true)])
    (fun _ s => some { s with target := T.resume s.target }) (fun _ _ _ => rfl) (fun _ => rfl)
    (fun _ _ => rfl) ?_
  intro b s
  rw [any_const, ContinueRequest.ofRequest_isSome]
  exact Bool.and_true _

theorem onNext_answered : Answered (onNext T : Handler F S) threadNeeds := by
  refine answered_of_reply (fun b _ => NextRequest.ofRequest b)
    (fun _ _ => .object [(str "allThreadsContinued", .bool false)])
    (fun _ s => stopped F (str "step") { s with target := T.stepOver s.target })
    (fun _ _ _ => rfl) (fun _ => rfl) (fun _ s => stopped_isSome (by decide) _) ?_
  intro b s
  rw [any_const, NextRequest.ofRequest_isSome]
  exact Bool.and_true _

theorem stepHandler_answered (method : S → S) :
    Answered (stepHandler method : Handler F S) stepNeeds := by
  refine answered_of_steps (fun b _ => StepRequest.ofRequest b) (fun _ b _ => replyEmpty b)
    (fun _ s => stopped F (str "step") { s with target := method s.target })
    (fun _ _ _ => rfl) (fun _ h => replyEmpty_responds h) (fun _ s => stopped_isSome (by decide) _) ?_
  intro b s hb
  rw [any_const, replyEmpty_isSome hb, StepRequest.ofRequest_isSome]
  exact Bool.and_true _

theorem onPause_answered : Answered (onPause T : Handler F S) needsNothing := by
  refine answered_of_steps (fun b _ => some b) (fun _ b _ => replyEmpty b)
    (fun _ s => some { s with target := T.pause s.target }) ?_ (fun _ h => replyEmpty_responds h)
    (fun _ _ => rfl) (fun b _ hb => replyEmpty_isSome hb)
  intro b s hb
  rw [onPause, rawRequest_eq hb]
  rfl

theorem breakpointsBody_texts (showLine showMessage : Bool) (bps : List BreakpointInfo) :
    (breakpointsBody showLine showMessage bps : Json F).texts
      = bps.all (BreakpointInfo.texts showMessage) := by
  have hkey : utf8 (str "breakpoints") = true := rfl
  rw [breakpointsBody, list_texts hkey]
  simp only [breakpointJson_texts]

theorem breakpointsBody_sorted (showLine showMessage : Bool) (bps : List BreakpointInfo) :
    (breakpointsBody showLine showMessage bps : Json F).sorted = true :=
  list_sorted _ _ (breakpointJson_sorted showLine showMessage)

theorem onSetBreakpoints_answered :
    Answered (onSetBreakpoints T : Handler F S) (setBreakpointsNeeds T) := by
  refine answered_of_reply (fun b _ => SetBreakpointsRequest.ofRequest b)
    (fun r s => breakpointsBody true true
      (T.setSourceBreakpoints r.sourcePath r.sourceReference r.lines s.target).1)
    (fun r s => some { s with
      target := (T.setSourceBreakpoints r.sourcePath r.sourceReference r.lines s.target).2 })
    (fun _ _ _ => rfl) (fun _ => breakpointsBody_sorted _ _ _) (fun _ _ => rfl) ?_
  intro b s
  simp only [breakpointsBody_texts]
  rw [any_eq_all, SetBreakpointsRequest.ofRequest_isSome]
  rfl

theorem onSetFunctionBreakpoints_answered :
    Answered (onSetFunctionBreakpoints T : Handler F S) (setFunctionBreakpointsNeeds T) := by
  refine answered_of_reply (fun b _ => functionNames b)
    (fun names s => breakpointsBody false true (T.setFunctionBreakpoints names s.target).1)
    (fun names s => some { s with target := (T.setFunctionBreakpoints names s.target).2 })
    ?_ (fun _ => breakpointsBody_sorted _ _ _) (fun _ _ => rfl) ?_
  · intro b s _
    rw [functionNames, Option.bind_eq_bind, Option.bind_assoc]
    rfl
  · intro b s
    simp only [breakpointsBody_texts]
    rw [any_eq_all, functionNames_isSome]
    rfl

theorem onSetInstructionBreakpoints_answered :
    Answered (onSetInstructionBreakpoints T : Handler F S) (setInstructionBreakpointsNeeds T) := by
  refine answered_of_reply (fun b _ => requestedReferences b)
    (fun refs s => breakpointsBody false false (T.setInstructionBreakpoints refs s.target).1)
    (fun refs s => some { s with target := (T.setInstructionBreakpoints refs s.target).2 })
    ?_ (fun _ => breakpointsBody_sorted _ _ _) (fun _ _ => rfl) ?_
  · intro b s _
    rw [requestedReferences, Option.bind_eq_bind, Option.bind_assoc]
    rfl
  · intro b s
    simp only [breakpointsBody_texts]
    rw [any_eq_all, requestedReferences_isSome]
    rfl

theorem onSetExceptionBreakpoints_answered :
    Answered (onSetExceptionBreakpoints : Handler F S) needsNothing := by
  refine answered_of_reply (fun b _ => some b) (fun _ _ => .null) (fun _ s => some s) ?_
    (fun _ => Json.sorted_null) (fun _ _ => rfl) (fun _ _ => rfl)
  intro b s hb
  rw [onSetExceptionBreakpoints, rawRequest_eq hb]
  rfl

/-- The source that a `breakpointLocations` request is about. -/
theorem breakpointLocations_source {b : Request F} {r : BreakpointLocationsRequest F}
    (h : BreakpointLocationsRequest.ofRequest b = some r) :
    r.source = (b.arguments.member (str "source")).getD (.obj []) := by
  have hobj : b.arguments.isObject = true := by
    have := BreakpointLocationsRequest.ofRequest_isSome b
    rw [h, Json.typed] at this
    exact (Bool.and_eq_true_iff.mp this.symm).1
  simp only [BreakpointLocationsRequest.ofRequest, value_getJson hobj, Option.bind_eq_bind,
    Option.bind_some, Option.bind_eq_some_iff, Option.some.injEq] at h
  obtain ⟨line, -, endLine, -, rfl⟩ := h
  rfl

theorem onBreakpointLocations_answered :
    Answered (onBreakpointLocations T : Handler F S) breakpointLocationsNeeds := by
  refine answered_of_reply
    (fun b _ => (BreakpointLocationsRequest.ofRequest b).bind fun r =>
      (sourcePathOf r.source).map fun path => (r, path))
    (fun r s => .object [(str "breakpoints",
      .arr ((T.getBreakpointLocations r.2 r.1.line r.1.endLine s.target).map
        fun loc => .object [(str "line", .int loc.line)]))])
    (fun _ s => some s) ?_ (fun _ => list_sorted _ _ fun _ => rfl) (fun _ _ => rfl) ?_
  · intro b s _
    rw [onBreakpointLocations, Option.bind_eq_bind, Option.bind_assoc]
    refine Option.bind_congr fun r _ => ?_
    cases sourcePathOf r.source <;> rfl
  · intro b s
    have hkey : utf8 (str "breakpoints") = true := rfl
    have hbody : ∀ locs : List BpLocationInfo, (Json.object [(str "breakpoints",
        .arr (locs.map fun loc => .object [(str "line", .int loc.line)]))] : Json F).texts
          = true := by
      intro locs
      rw [list_texts hkey]
      exact List.all_eq_true.mpr fun _ _ => rfl
    simp only [hbody, any_const, Bool.and_true, Option.isSome_bind, Option.isSome_map,
      sourcePathOf_isSome]
    rw [breakpointLocationsNeeds, ← BreakpointLocationsRequest.ofRequest_isSome]
    cases hr : BreakpointLocationsRequest.ofRequest b with
    | none => rfl
    | some r =>
      rw [Option.any_some, breakpointLocations_source hr]
      rfl

/-! ### Sources, memory and the rest -/

theorem onSource_answered : Answered (onSource T disk : Handler F S) (sourceNeeds T disk) := by
  refine answered_of_steps
    (fun b s => (SourceRequest.ofRequest b).bind fun r => requestedPath b r s)
    (fun path b s => (sourceOf T disk path s).elim (replyError b (str "Unknown source"))
      fun info => reply b (.object [(str "content", .str info.content),
        (str "mimeType", .str info.mimeType)]))
    (fun _ s => some s) ?_ ?_ (fun _ _ => rfl) ?_
  · intro b s _
    rw [onSource, Option.bind_eq_bind, Option.bind_assoc]
    refine Option.bind_congr fun r _ => Option.bind_congr fun path _ => ?_
    cases sourceOf T disk path s <;> rfl
  · intro path b s text _ htext
    cases hinfo : sourceOf T disk path s with
    | none =>
      rw [hinfo] at htext
      exact replyError_responds htext
    | some info =>
      rw [hinfo] at htext
      exact reply_responds (Json.sorted_object (by simp)) htext
  · intro b s hb
    have hwrite : ∀ path : Str,
        ((sourceOf T disk path s).elim (replyError b (str "Unknown source")) fun info =>
          reply b (.object [(str "content", .str info.content),
            (str "mimeType", .str info.mimeType)])).isSome
          = (sourceOf T disk path s).all SourceInfo.texts := by
      intro path
      cases sourceOf T disk path s with
      | none => exact replyError_isSome hb _
      | some info =>
        show (reply b _).isSome = info.texts
        rw [reply_isSome hb, Json.texts_object rfl, SourceInfo.texts]
        simp
    simp only [hwrite]
    rw [Option.any_bind, any_eq_all, SourceRequest.ofRequest_isSome, sourceNeeds]
    simp only [Function.comp_def, any_eq_all, requestedPath_isSome]

theorem base64Digit_ascii (i : Nat) : base64Digit i < 0x80 := by
  have hall : ∀ i < 64, base64Digits.getD i 0 < 0x80 := by decide +kernel
  exact hall (i % 64) (Nat.mod_lt i (by omega))

theorem base64_ascii (bytes : List UInt8) : ∀ c ∈ base64 bytes, c < 0x80 := by
  have hpad : (61 : UInt8) < 0x80 := by decide
  induction bytes using base64.induct with
  | case1 => exact nofun
  | case2 x => simp [base64, base64Digit_ascii, hpad]
  | case3 x y => simp [base64, base64Digit_ascii, hpad]
  | case4 x y z rest ih =>
    simp only [base64, List.forall_mem_cons]
    exact ⟨base64Digit_ascii _, base64Digit_ascii _, base64Digit_ascii _, base64Digit_ascii _, ih⟩

/-- The digits of a number in base 16. -/
theorem mem_toDigits {n : Nat} {c : Char} (h : c ∈ Nat.toDigits 16 n) :
    ∃ d < 16, c = d.digitChar := by
  induction n using Nat.strong_induction_on with
  | _ n ih =>
    by_cases hn : n < 16
    · rw [Nat.toDigits_of_lt_base hn, List.mem_singleton] at h
      exact ⟨n, hn, h⟩
    · rw [Nat.toDigits_of_base_le (by omega) (by omega), List.mem_append,
        List.mem_singleton] at h
      rcases h with h | h
      · exact ih (n / 16) (by omega) h
      · exact ⟨n % 16, Nat.mod_lt n (by omega), h⟩

theorem formatHex_ascii (value : UInt16) (width : Nat) :
    ∀ c ∈ formatHex value width, c < 0x80 := by
  have hdigit : ∀ d < 16, d.digitChar.toUpper.toNat.toUInt8 < 0x80 := by decide
  intro c hc
  simp only [formatHex, List.mem_append] at hc
  rcases hc with (hc | hc) | hc
  · have h0x : ∀ x ∈ str "0x", x < 0x80 := by
      show ∀ x ∈ [48, 120], x < 0x80
      simp
    exact h0x c hc
  · rw [List.eq_of_mem_replicate hc]
    decide
  · obtain ⟨x, hx, rfl⟩ := List.mem_map.mp hc
    obtain ⟨d, hd, rfl⟩ := mem_toDigits hx
    exact hdigit d hd

theorem onReadMemory_answered : Answered (onReadMemory T : Handler F S) readMemoryNeeds := by
  refine answered_of_reply (fun b _ => ReadMemoryRequest.ofRequest b)
    (fun r s =>
      let start : UInt16 := UInt16.ofNat ((r.memoryReference.toNat + r.offset) % 65536).toNat
      .object [(str "address", .str (formatHex start 4)),
        (str "data", .str (base64 (T.readMemory start (max 0 r.count) s.target))),
        (str "unreadableBytes", .int 0)])
    (fun _ s => some s) (fun _ _ _ => rfl) (fun _ => Json.sorted_object (by simp)) (fun _ _ => rfl)
    ?_
  intro b s
  have hbody : ∀ (start : UInt16) (bytes : List UInt8), (Json.object [
      (str "address", .str (formatHex start 4)), (str "data", .str (base64 bytes)),
      (str "unreadableBytes", .int 0)] : Json F).texts = true := by
    intro start bytes
    rw [Json.texts_object rfl]
    simp [utf8_of_ascii (formatHex_ascii start 4), utf8_of_ascii (base64_ascii bytes)]
  simp only [hbody, any_const, Bool.and_true, ReadMemoryRequest.ofRequest_isSome]
  rfl

theorem onDisassemble_answered :
    Answered (onDisassemble T : Handler F S) (disassembleNeeds T) := by
  refine answered_of_reply (fun b _ => DisassembleRequest.ofRequest b)
    (fun r s => .object [(str "instructions", .arr ((T.disassemble r.memoryReference r.offset
      r.instructionOffset r.instructionCount s.target).map instructionJson))])
    (fun _ s => some s) (fun _ _ _ => rfl) (fun _ => list_sorted _ _ instructionJson_sorted)
    (fun _ _ => rfl) ?_
  intro b s
  have hkey : utf8 (str "instructions") = true := rfl
  simp only [list_texts hkey, instructionJson_texts]
  rw [any_eq_all, DisassembleRequest.ofRequest_isSome]
  rfl

theorem onEvaluate_answered : Answered (onEvaluate T : Handler F S) (evaluateNeeds T) := by
  refine answered_of_steps (fun b _ => EvaluateRequest.ofRequest b)
    (fun r b s =>
      if (T.evaluate r.expression s.target).success
      then reply b (evaluateBody (T.evaluate r.expression s.target))
      else replyError b (T.evaluate r.expression s.target).errorMessage)
    (fun _ s => some s) ?_ ?_ (fun _ _ => rfl) ?_
  · intro b s _
    refine Option.bind_congr fun r _ => ?_
    dsimp only
    split <;> rfl
  · intro r b s text _ htext
    split at htext
    · exact reply_responds (evaluateBody_sorted _) htext
    · exact replyError_responds htext
  · intro b s hb
    have hwrite : ∀ res : EvalInfo,
        (if res.success then reply b (evaluateBody res) else replyError b res.errorMessage).isSome
          = res.texts := by
      intro res
      by_cases hsuccess : res.success = true
      · rw [if_pos hsuccess, reply_isSome hb, evaluateBody_texts hsuccess]
      · rw [if_neg hsuccess, replyError_isSome hb, EvalInfo.texts, if_neg hsuccess]
    simp only [hwrite]
    rw [any_eq_all, EvaluateRequest.ofRequest_isSome]
    rfl

theorem onLoadedSources_answered :
    Answered (onLoadedSources T : Handler F S) (loadedSourcesNeeds T) := by
  have hinfo : ∀ info : LoadedSourceInfo, (Json.object [(str "name", .str info.name),
      (str "path", .str info.path)] : Json F).texts = info.texts := by
    intro info
    rw [Json.texts_object rfl, LoadedSourceInfo.texts]
    simp
  refine answered_of_reply (fun b _ => some b)
    (fun _ s => .object [(str "sources", .arr ((T.getLoadedSources s.target).map fun info =>
      .object [(str "name", .str info.name), (str "path", .str info.path)]))])
    (fun _ s => some s) ?_ (fun _ => list_sorted _ _ fun _ => Json.sorted_object (by simp))
    (fun _ _ => rfl) ?_
  · intro b s hb
    rw [onLoadedSources, rawRequest_eq hb]
    rfl
  · intro b s
    have hkey : utf8 (str "sources") = true := rfl
    rw [Option.any_some, list_texts hkey]
    simp only [hinfo]
    rfl

/-- **Every handler answers what it needs.** -/
theorem handlers_answered :
    List.Forall₂ (fun (h : Str × Handler F S) (n : Str × Needs F S) =>
      h.1 = n.1 ∧ Answered h.2 n.2) (handlers T disk) (needs T disk) := by
  unfold handlers needs
  refine .cons ⟨rfl, onInitialize_answered⟩ (.cons ⟨rfl, onLaunch_answered T⟩
    (.cons ⟨rfl, onConfigurationDone_answered⟩ (.cons ⟨rfl, onDisconnect_answered T⟩
    (.cons ⟨rfl, onThreads_answered⟩ (.cons ⟨rfl, onStackTrace_answered T disk⟩
    (.cons ⟨rfl, onScopes_answered T⟩ (.cons ⟨rfl, onVariables_answered T⟩
    (.cons ⟨rfl, onContinue_answered T⟩ (.cons ⟨rfl, onNext_answered T⟩
    (.cons ⟨rfl, stepHandler_answered T.stepIn⟩ (.cons ⟨rfl, stepHandler_answered T.stepOut⟩
    (.cons ⟨rfl, stepHandler_answered T.stepBack⟩ (.cons ⟨rfl, onPause_answered T⟩
    (.cons ⟨rfl, onSetBreakpoints_answered T⟩ (.cons ⟨rfl, onSetFunctionBreakpoints_answered T⟩
    (.cons ⟨rfl, onSetInstructionBreakpoints_answered T⟩
    (.cons ⟨rfl, onSetExceptionBreakpoints_answered⟩
    (.cons ⟨rfl, onBreakpointLocations_answered T⟩ (.cons ⟨rfl, onSource_answered T disk⟩
    (.cons ⟨rfl, onReadMemory_answered T⟩ (.cons ⟨rfl, onDisassemble_answered T⟩
    (.cons ⟨rfl, onEvaluate_answered T⟩ (.cons ⟨rfl, onLoadedSources_answered T⟩
    .nil)))))))))))))))))))))))

end

end Dap

end Udap
