/-
  WHAT A MESSAGE CHANGES — the session's own state, handler by handler.

  Beside the target's state a session keeps the counters of its messages, the messages written and
  the source references.  Most handlers leave all of that alone (`Quiet`); six send one event, and
  `stackTrace` assigns references.  `Effect` says which, and every handler is shown to have the
  effect of its command by one rule for binds, so that what follows for whole sessions needs three
  cases and not one a handler.
-/
import Udap.Dap.Session

set_option linter.unusedVariables false
set_option linter.unusedSectionVars false

namespace Udap.Dap

open Udap.Cxx

variable {F S : Type}

/-- Neither the counters, nor the messages, nor the references have changed. -/
structure Quiet (s t : Session S) : Prop where
  pathToRef : t.pathToRef = s.pathToRef
  refToPath : t.refToPath = s.refToPath
  nextSrcRef : t.nextSrcRef = s.nextSrcRef
  eventSeq : t.eventSeq = s.eventSeq
  responseSeq : t.responseSeq = s.responseSeq
  out : t.out = s.out

theorem Quiet.refl (s : Session S) : Quiet s s := ⟨rfl, rfl, rfl, rfl, rfl, rfl⟩

theorem Quiet.trans {s t u : Session S} (h : Quiet s t) (k : Quiet t u) : Quiet s u where
  pathToRef := k.pathToRef.trans h.pathToRef
  refToPath := k.refToPath.trans h.refToPath
  nextSrcRef := k.nextSrcRef.trans h.nextSrcRef
  eventSeq := k.eventSeq.trans h.eventSeq
  responseSeq := k.responseSeq.trans h.responseSeq
  out := k.out.trans h.out

/-- References have been assigned to some paths, one after another. -/
inductive Assigns (s : Session S) : Session S → Prop where
  | refl : Assigns s s
  | assign {t : Session S} (h : Assigns s t) (path : Str) : Assigns s (assignSrcRef path t).2

theorem Assigns.trans {s t u : Session S} (h : Assigns s t) (k : Assigns t u) : Assigns s u := by
  induction k with
  | refl => exact h
  | assign _ path ih => exact ih.assign path

/-- What a handler does to the session it finds. -/
inductive Effect (F : Type) [JsonText F] (s : Session S) : Session S → Prop where
  | quiet {t : Session S} (h : Quiet s t) : Effect F s t
  | event {t u : Session S} (h : Quiet s t) (name : Str) (body : Json F)
      (hsorted : body.sorted = true) (hsend : sendEvent F name body t = some u) : Effect F s u
  | assigns {t : Session S} (h : Assigns s t) : Effect F s t

/-! ## The rules -/

/-- Whatever the value delivers is in the relation to `s`. -/
def Leads (E : Session S → Prop) (r : Option (Str × Session S)) : Prop :=
  ∀ text t, r = some (text, t) → E t

variable {E : Session S → Prop} {s : Session S}

theorem leads_some {text : Str} {t : Session S} (h : E t) : Leads E (some (text, t)) := by
  rintro text' t' heq
  obtain ⟨-, rfl⟩ := Prod.mk.inj (Option.some.inj heq)
  exact h

theorem leads_none : Leads E none := fun _ _ h => absurd h.symm (Option.some_ne_none _)

/-- **The rule for binds.** -/
theorem leads_bind {α : Type} {x : Option α} {f : α → Option (Str × Session S)}
    (h : ∀ a, x = some a → Leads E (f a)) : Leads E (x.bind f) := by
  cases x with
  | none => exact leads_none
  | some a => exact h a rfl

theorem Leads.imp {E' : Session S → Prop} (himp : ∀ t, E t → E' t) {r : Option (Str × Session S)}
    (h : Leads E r) : Leads E' r := fun text t heq => himp t (h text t heq)

/-- A handler that only computes a text from the session it finds. -/
theorem leads_text {α : Type} {x : Option α} {f : α → Option Str} :
    Leads (Quiet s) (x.bind fun a => (f a).bind fun text => some (text, s)) :=
  leads_bind fun _ _ => leads_bind fun _ _ => leads_some (Quiet.refl s)

/-! ## The handlers that only look or call the target -/

section
variable [FloatCast F] [JsonText F] (T : Target S) (disk : Disk) (b : Request F) (s : Session S)

theorem onLaunch_quiet : Leads (Quiet s) (onLaunch T b s) :=
  leads_bind fun _ _ => leads_bind fun _ _ => leads_bind fun _ _ =>
    leads_some ⟨rfl, rfl, rfl, rfl, rfl, rfl⟩

theorem onDisconnect_quiet : Leads (Quiet s) (onDisconnect T b s) :=
  leads_bind fun _ _ => leads_bind fun _ _ => leads_some ⟨rfl, rfl, rfl, rfl, rfl, rfl⟩

theorem onThreads_quiet : Leads (Quiet s) (onThreads b s) :=
  leads_bind fun _ _ => leads_some (Quiet.refl s)

theorem onScopes_quiet : Leads (Quiet s) (onScopes T b s) :=
  leads_bind fun _ _ => leads_bind fun _ _ => leads_some ⟨rfl, rfl, rfl, rfl, rfl, rfl⟩

theorem onVariables_quiet : Leads (Quiet s) (onVariables T b s) := leads_text

theorem onContinue_quiet : Leads (Quiet s) (onContinue T b s) :=
  leads_bind fun _ _ => leads_bind fun _ _ => leads_some ⟨rfl, rfl, rfl, rfl, rfl, rfl⟩

theorem onPause_quiet : Leads (Quiet s) (onPause T b s) :=
  leads_bind fun _ _ => leads_bind fun _ _ => leads_some ⟨rfl, rfl, rfl, rfl, rfl, rfl⟩

theorem onSetBreakpoints_quiet : Leads (Quiet s) (onSetBreakpoints T b s) :=
  leads_bind fun _ _ => leads_bind fun _ _ => leads_some ⟨rfl, rfl, rfl, rfl, rfl, rfl⟩

theorem onSetFunctionBreakpoints_quiet : Leads (Quiet s) (onSetFunctionBreakpoints T b s) :=
  leads_bind fun _ _ => leads_bind fun _ _ => leads_bind fun _ _ =>
    leads_some ⟨rfl, rfl, rfl, rfl, rfl, rfl⟩

theorem onSetInstructionBreakpoints_quiet :
    Leads (Quiet s) (onSetInstructionBreakpoints T b s) :=
  leads_bind fun _ _ => leads_bind fun _ _ => leads_bind fun _ _ =>
    leads_some ⟨rfl, rfl, rfl, rfl, rfl, rfl⟩

theorem onSetExceptionBreakpoints_quiet : Leads (Quiet s) (onSetExceptionBreakpoints b s) :=
  leads_text

theorem onBreakpointLocations_quiet : Leads (Quiet s) (onBreakpointLocations T b s) :=
  leads_bind fun _ _ => leads_text

theorem onSource_quiet : Leads (Quiet s) (onSource T disk b s) := by
  unfold onSource
  refine leads_bind fun r _ => leads_bind fun path _ => ?_
  split
  · exact leads_bind fun _ _ => leads_some (Quiet.refl s)
  · exact leads_bind fun _ _ => leads_some (Quiet.refl s)

theorem onReadMemory_quiet : Leads (Quiet s) (onReadMemory T b s) := leads_text

theorem onDisassemble_quiet : Leads (Quiet s) (onDisassemble T b s) := leads_text

theorem onEvaluate_quiet : Leads (Quiet s) (onEvaluate T b s) := by
  unfold onEvaluate
  refine leads_bind fun r _ => ?_
  dsimp only
  split
  · exact leads_bind fun _ _ => leads_some (Quiet.refl s)
  · exact leads_bind fun _ _ => leads_some (Quiet.refl s)

theorem onLoadedSources_quiet : Leads (Quiet s) (onLoadedSources T b s) := leads_text

/-! ## The handlers that send an event -/

theorem stopped_effect {reason : Str} {t u : Session S} (h : Quiet s t)
    (hsend : stopped F reason t = some u) : Effect F s u :=
  .event h _ _ (Json.sorted_object (by simp)) hsend

theorem onInitialize_effect : Leads (Effect F s) (onInitialize b s) :=
  leads_bind fun _ _ => leads_bind fun _ hsend => leads_bind fun _ _ =>
    leads_some (.event (Quiet.refl s) _ _ rfl hsend)

/-- Without a program launched, `configurationDone` sends nothing. -/
theorem onConfigurationDone_quiet (hlaunched : s.launched = false) :
    Leads (Quiet s) (onConfigurationDone b s) := by
  unfold onConfigurationDone
  refine leads_bind fun _ _ => ?_
  rw [hlaunched]
  exact leads_some (Quiet.refl s)

theorem onConfigurationDone_effect : Leads (Effect F s) (onConfigurationDone b s) := by
  unfold onConfigurationDone
  refine leads_bind fun _ _ => ?_
  split
  · exact leads_bind fun _ hsend => leads_some (stopped_effect s (Quiet.refl s) hsend)
  · exact leads_some (.quiet (Quiet.refl s))

theorem onNext_effect : Leads (Effect F s) (onNext T b s) :=
  leads_bind fun _ _ => leads_bind fun _ _ => leads_bind fun _ hsend =>
    leads_some (stopped_effect s (t := { s with target := T.stepOver s.target })
      ⟨rfl, rfl, rfl, rfl, rfl, rfl⟩ hsend)

theorem stepHandler_effect (method : S → S) : Leads (Effect F s) (stepHandler method b s) :=
  leads_bind fun _ _ => leads_bind fun _ _ => leads_bind fun _ hsend =>
    leads_some (stopped_effect s (t := { s with target := method s.target })
      ⟨rfl, rfl, rfl, rfl, rfl, rfl⟩ hsend)

/-! ## The handler that assigns references -/

/-- The source of a frame as it is written. -/
def sourceJson (path : Str) (ref : Int) : Json F :=
  .object [(str "name", .str (Path.filename path)),
    (str "presentationHint", .str (str "normal")), (str "path", .str path),
    (str "sourceReference", .int ref)]

/-- A source has the reference 0, or the one that is assigned to its path. -/
theorem frameSource_cases {path : Str} {s t : Session S} {src : Json F}
    (h : frameSource disk path s = some (src, t)) :
    (src = sourceJson path 0 ∧ t = s) ∨
      (src = sourceJson path (assignSrcRef path s).1 ∧ t = (assignSrcRef path s).2) := by
  have hread : ∀ onDisk : Bool,
      (some ((sourceJson path (if onDisk then (0, s) else assignSrcRef path s).1 : Json F),
          (if onDisk then (0, s) else assignSrcRef path s).2) = some (src, t)) →
      (src = sourceJson path 0 ∧ t = s) ∨
        (src = sourceJson path (assignSrcRef path s).1 ∧ t = (assignSrcRef path s).2) := by
    intro onDisk heq
    obtain ⟨rfl, rfl⟩ := Prod.mk.inj (Option.some.inj heq)
    cases onDisk with
    | true => exact Or.inl ⟨rfl, rfl⟩
    | false => exact Or.inr ⟨rfl, rfl⟩
  unfold frameSource at h
  split at h
  · obtain ⟨onDisk, -, h⟩ := Option.bind_eq_some_iff.mp h
    exact hread onDisk h
  · exact hread false h

theorem frameJson_assigns {f : FrameInfo} {id : Int} {s : Session S} {r : Json F × Session S}
    (h : frameJson disk f id s = some r) : Assigns s r.2 := by
  unfold frameJson at h
  dsimp only at h
  split at h
  · obtain rfl := Option.some.inj h
    exact .refl
  · obtain ⟨⟨src, t⟩, hsrc, rfl⟩ := Option.map_eq_some_iff.mp h
    rcases frameSource_cases disk hsrc with ⟨-, rfl⟩ | ⟨-, rfl⟩
    · exact .refl
    · exact .assign .refl f.sourcePath

theorem frames_assigns : ∀ (fs : List FrameInfo) (id : Int) (s : Session S)
    {r : List (Json F) × Session S}, frames disk fs id s = some r → Assigns s r.2 := by
  intro fs
  induction fs with
  | nil =>
    intro id s r h
    obtain rfl := Option.some.inj h
    exact .refl
  | cons f fs ih =>
    intro id s r h
    rw [frames_cons] at h
    obtain ⟨frame, hframe, h⟩ := Option.bind_eq_some_iff.mp h
    obtain ⟨rest, hrest, h⟩ := Option.bind_eq_some_iff.mp h
    obtain rfl := Option.some.inj h
    have hmore : Assigns frame.2 rest.2 := ih (id + 1) frame.2 hrest
    exact (frameJson_assigns disk hframe).trans hmore

theorem onStackTrace_assigns : Leads (Assigns s) (onStackTrace T disk b s) :=
  leads_bind fun _ _ => leads_bind fun _ hframes => leads_bind fun _ _ =>
    leads_some (frames_assigns disk _ _ _ hframes)

/-! ## All handlers -/

/-- The commands whose handlers send an event; `configurationDone` only behind a launch. -/
def sendsEvent (command : Str) (s : Session S) : Bool :=
  command == str "initialize" || (command == str "configurationDone" && s.launched) ||
    command == str "next" || command == str "stepIn" || command == str "stepOut" ||
    command == str "stepBack"

end

variable [FloatCast F] [JsonText F]

/-- The effect of a command: an event only where `sendsEvent` says so, references only by
    `stackTrace`. -/
structure HasEffect (command : Str) (h : Handler F S) : Prop where
  effect : ∀ b s, Leads (Effect F s) (h b s)
  noEvent : ∀ b s, sendsEvent command s = false → Leads (fun t => Quiet s t ∨ Assigns s t) (h b s)

theorem hasEffect_of_quiet {command : Str} {h : Handler F S} (hq : ∀ b s, Leads (Quiet s) (h b s)) :
    HasEffect command h where
  effect b s := (hq b s).imp fun _ => .quiet
  noEvent b s _ := (hq b s).imp fun _ => Or.inl

theorem hasEffect_of_sends {command : Str} {h : Handler F S}
    (hsends : ∀ s : Session S, sendsEvent command s = true)
    (he : ∀ b s, Leads (Effect F s) (h b s)) : HasEffect command h where
  effect := he
  noEvent b s hno := by
    rw [hsends s] at hno
    exact absurd hno.symm Bool.false_ne_true

/-- **Every handler has the effect of its command.** -/
theorem handlers_effect (T : Target S) (disk : Disk) :
    ∀ p ∈ (handlers T disk : List (Str × Handler F S)), HasEffect p.1 p.2 := by
  simp only [handlers, List.forall_mem_cons]
  refine ⟨hasEffect_of_sends (fun _ => rfl) onInitialize_effect,
    hasEffect_of_quiet (onLaunch_quiet T), ⟨onConfigurationDone_effect, fun b s hno => ?_⟩,
    hasEffect_of_quiet (onDisconnect_quiet T), hasEffect_of_quiet onThreads_quiet,
    ⟨fun b s => (onStackTrace_assigns T disk b s).imp fun _ => .assigns,
      fun b s _ => (onStackTrace_assigns T disk b s).imp fun _ => Or.inr⟩,
    hasEffect_of_quiet (onScopes_quiet T), hasEffect_of_quiet (onVariables_quiet T),
    hasEffect_of_quiet (onContinue_quiet T), hasEffect_of_sends (fun _ => rfl) (onNext_effect T),
    hasEffect_of_sends (fun _ => rfl) fun b s => stepHandler_effect b s T.stepIn,
    hasEffect_of_sends (fun _ => rfl) fun b s => stepHandler_effect b s T.stepOut,
    hasEffect_of_sends (fun _ => rfl) fun b s => stepHandler_effect b s T.stepBack,
    hasEffect_of_quiet (onPause_quiet T), hasEffect_of_quiet (onSetBreakpoints_quiet T),
    hasEffect_of_quiet (onSetFunctionBreakpoints_quiet T),
    hasEffect_of_quiet (onSetInstructionBreakpoints_quiet T),
    hasEffect_of_quiet onSetExceptionBreakpoints_quiet,
    hasEffect_of_quiet (onBreakpointLocations_quiet T), hasEffect_of_quiet (onSource_quiet T disk),
    hasEffect_of_quiet (onReadMemory_quiet T), hasEffect_of_quiet (onDisassemble_quiet T),
    hasEffect_of_quiet (onEvaluate_quiet T), hasEffect_of_quiet (onLoadedSources_quiet T),
    fun _ h => absurd h List.not_mem_nil⟩
  have hlaunched : s.launched = false := by simpa [sendsEvent, str] using hno
  exact (onConfigurationDone_quiet b s hlaunched).imp fun _ => Or.inl

/-- What dispatch finds for a command is its handler. -/
theorem hasEffect_of_lookup {T : Target S} {disk : Disk} {command : Str} {h : Handler F S}
    (hlookup : (handlers T disk).lookup command = some h) : HasEffect command h := by
  obtain ⟨l₁, l₂, hsplit, -⟩ := List.lookup_eq_some_iff.mp hlookup
  exact handlers_effect T disk (command, h) (by rw [hsplit]; simp)

/-- **Dispatch** has the effect of the command, and sends an event only where the command may. -/
theorem dispatch_effect {T : Target S} {disk : Disk} {b : Request F} {s t : Session S}
    {result : Str} (h : dispatch F T disk b s = some (result, t)) :
    Effect F s t ∧ (sendsEvent b.command s = false → Quiet s t ∨ Assigns s t) := by
  unfold dispatch at h
  cases hlookup : (handlers (F := F) T disk).lookup b.command with
  | none =>
    rw [hlookup] at h
    obtain ⟨-, rfl⟩ := Prod.mk.inj (Option.some.inj h)
    exact ⟨.quiet (Quiet.refl s), fun _ => Or.inl (Quiet.refl s)⟩
  | some handler =>
    rw [hlookup] at h
    have heffect := hasEffect_of_lookup hlookup
    exact ⟨heffect.effect b s result t h, fun hno => heffect.noEvent b s hno result t h⟩

end Udap.Dap
