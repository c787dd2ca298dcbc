/-
  TYPED FIELDS — when typed access succeeds, and when a value put together from fields can be
  written.

  1. **Reading** — a field `fits` a kind where the object has no such member or a member of that
     kind.  An access with a default succeeds exactly on an object whose field fits
     (`value_getStr_isSome` and its siblings); a constructor that reads several fields succeeds
     exactly where the object is `typed` by them.

  2. **Writing** — an object built from fields with good keys is UTF-8 exactly if its members are
     (`texts_object`).

  Nothing here mentions a program.
-/
import Udap.Json.Text

namespace Udap

/-! ## Steps that succeed or fail whatever they deliver -/

/-- Two steps of which the second succeeds or fails whatever the first one delivers. -/
@[simp] theorem any_const {α : Type} (o : Option α) (c : Bool) :
    (o.any fun _ => c) = (o.isSome && c) := by
  cases o <;> rfl

theorem any_eq_all {α : Type} (o : Option α) (p : α → Bool) :
    o.any p = (o.isSome && o.all p) := by
  cases o <;> rfl

/-- A list is mapped if each of its items is. -/
theorem mapM_isSome {α β : Type} (f : α → Option β) (l : List α) :
    (l.mapM f).isSome = l.all fun a => (f a).isSome := by
  induction l with
  | nil => rfl
  | cons a l ih =>
    rw [List.mapM_cons, List.all_cons, ← ih]
    cases f a with
    | none => rfl
    | some x => cases l.mapM f <;> rfl

namespace Json

variable {F : Type}

/-! ## Reading -/

/-- The kinds of value that typed access tells apart. -/
inductive Kind where
  | string
  | boolean
  | number
  | array

/-- Is the value of this kind?  Truth values count as numbers. -/
def hasKind (j : Json F) : Kind → Bool
  | .string => j.getStr.isSome
  | .boolean => j.getBool.isSome
  | .array => j.getVector.isSome
  | .number =>
    match j with
    | .int _ | .float _ | .bool _ => true
    | _ => false

def isObject : Json F → Bool
  | .obj _ => true
  | _ => false

/-- The field under `key` is missing or of kind `k`. -/
def fits (j : Json F) (key : Str) (k : Kind) : Bool := (j.member key).all (hasKind · k)

/-- An object whose fields have these kinds, where they are there. -/
def typed (j : Json F) (fields : List (Str × Kind)) : Bool :=
  j.isObject && fields.all fun f => j.fits f.1 f.2

@[simp] theorem getInt_isSome [FloatCast F] (j : Json F) : j.getInt.isSome = j.hasKind .number := by
  cases j <;> rfl

@[simp] theorem getUInt32_isSome [FloatCast F] (j : Json F) :
    j.getUInt32.isSome = j.hasKind .number := by
  cases j <;> rfl

@[simp] theorem getStr_isSome (j : Json F) : j.getStr.isSome = j.hasKind .string := by rw [hasKind]

@[simp] theorem getBool_isSome (j : Json F) : j.getBool.isSome = j.hasKind .boolean := by
  rw [hasKind]

@[simp] theorem getVector_isSome (j : Json F) : j.getVector.isSome = j.hasKind .array := by
  rw [hasKind]

/-- A value that is not an object has no members. -/
theorem member_of_not_object {j : Json F} (h : j.isObject = false) (key : Str) :
    j.member key = none := by
  cases j with
  | obj fs => cases h
  | null | bool | int | float | str | arr => rfl

theorem isObject_of_member {j : Json F} {key : Str} {v : Json F} (h : j.member key = some v) :
    j.isObject = true := by
  by_contra hj
  rw [member_of_not_object (Bool.eq_false_iff.mpr hj)] at h
  cases h

/-- An access with a default delivers the default, or what the access makes of the member. -/
theorem value_of_object {α : Type} {j : Json F} (h : j.isObject = true) (key : Str) (dflt : α)
    (get : Json F → Option α) :
    j.value key dflt get = (j.member key).elim (some dflt) get := by
  cases j with
  | obj fs =>
    dsimp only [value, member, fields]
    cases fs.lookup key <;> rfl
  | null | bool | int | float | str | arr => cases h

theorem value_isSome {α : Type} (j : Json F) (key : Str) (dflt : α) (get : Json F → Option α) :
    (j.value key dflt get).isSome = (j.isObject && (j.member key).all fun v => (get v).isSome) := by
  by_cases h : j.isObject = true
  · rw [value_of_object h, h, Bool.true_and]
    cases j.member key <;> rfl
  · have hj : j.value key dflt get = none := by
      cases j with
      | obj fs => exact absurd rfl h
      | null | bool | int | float | str | arr => rfl
    rw [hj, Bool.eq_false_iff.mpr h]
    rfl

@[simp] theorem value_getStr_isSome (j : Json F) (key dflt : Str) :
    (j.value key dflt getStr).isSome = (j.isObject && j.fits key .string) := by
  simp [value_isSome, fits]

@[simp] theorem value_getBool_isSome (j : Json F) (key : Str) (dflt : Bool) :
    (j.value key dflt getBool).isSome = (j.isObject && j.fits key .boolean) := by
  simp [value_isSome, fits]

@[simp] theorem value_getInt_isSome [FloatCast F] (j : Json F) (key : Str) (dflt : Int) :
    (j.value key dflt getInt).isSome = (j.isObject && j.fits key .number) := by
  simp [value_isSome, fits]

@[simp] theorem value_getVector_isSome (j : Json F) (key : Str) (dflt : List (Json F)) :
    (j.value key dflt getVector).isSome = (j.isObject && j.fits key .array) := by
  simp [value_isSome, fits]

@[simp] theorem value_getJson_isSome (j : Json F) (key : Str) (dflt : Json F) :
    (j.value key dflt getJson).isSome = j.isObject := by
  rw [value_isSome]
  cases j.member key <;> simp [getJson]

/-- A member of a valid value is valid. -/
theorem Valid.member {j v : Json F} (hj : j.Valid) {key : Str} (h : j.member key = some v) :
    v.Valid := by
  obtain ⟨pre, post, hfs, -⟩ := List.lookup_eq_some_iff.mp h
  have hmem : (key, v) ∈ j.fields := by
    rw [hfs]
    exact List.mem_append_right pre List.mem_cons_self
  exact ⟨(texts_fields hj.texts _ hmem).2, (sorted_fields hj.sorted).2 _ hmem⟩

/-- What an access with a default delivers comes from the default or from a member. -/
theorem value_cases {α : Type} {j : Json F} {key : Str} {dflt a : α} {get : Json F → Option α}
    (h : j.value key dflt get = some a) :
    a = dflt ∨ ∃ v, j.member key = some v ∧ get v = some a := by
  have hj : j.isObject = true := by
    have := value_isSome j key dflt get
    rw [h, Option.isSome_some] at this
    exact (Bool.and_eq_true_iff.mp this.symm).1
  rw [value_of_object hj] at h
  cases hv : j.member key with
  | none =>
    rw [hv] at h
    exact Or.inl (Option.some.inj h).symm
  | some v =>
    rw [hv] at h
    exact Or.inr ⟨v, rfl, h⟩

/-! ## Writing -/

/-- Keys that are UTF-8 and all different. -/
def goodKeys : List Str → Bool
  | [] => true
  | k :: ks => utf8 k && ks.all (fun k' => decide (k' ≠ k)) && goodKeys ks

theorem textsFields_insertField {key : Str} {v : Json F} {fs : List (Str × Json F)}
    (h : ∀ f ∈ fs, f.1 ≠ key) :
    textsFields (set.insertField key v fs) = (utf8 key && v.texts && textsFields fs) := by
  induction fs with
  | nil => simp [set.insertField, textsFields]
  | cons f fs ih =>
    obtain ⟨k, w⟩ := f
    have hne : k ≠ key := h (k, w) List.mem_cons_self
    unfold set.insertField
    rw [if_neg hne]
    split
    · rw [textsFields]
    · rw [textsFields, textsFields, ih fun f hf => h f (List.mem_cons_of_mem _ hf)]
      simp only [Bool.and_left_comm]

/-- Members added under new keys, one after another. -/
theorem texts_foldl_set (gs : List (Str × Json F)) (fs : List (Str × Json F))
    (hk : goodKeys (gs.map Prod.fst) = true) (hnew : ∀ g ∈ gs, ∀ f ∈ fs, f.1 ≠ g.1) :
    (gs.foldl (fun (j : Json F) kv => j.set kv.1 kv.2) (.obj fs)).texts
      = (textsFields fs && gs.all fun g => g.2.texts) := by
  induction gs generalizing fs with
  | nil =>
    rw [List.foldl_nil, List.all_nil, Bool.and_true, texts]
  | cons g gs ih =>
    simp only [List.map_cons, goodKeys, Bool.and_eq_true, List.all_eq_true, List.mem_map,
      decide_eq_true_eq, forall_exists_index, and_imp] at hk
    obtain ⟨⟨hutf8, hother⟩, hrest⟩ := hk
    have hg : ∀ f ∈ fs, f.1 ≠ g.1 := hnew g List.mem_cons_self
    have hins : ∀ x ∈ gs, ∀ f ∈ set.insertField g.1 g.2 fs, f.1 ≠ x.1 := by
      intro x hx f hf
      rcases mem_insertField hf with rfl | hf
      · exact (hother x.1 x hx rfl).symm
      · exact hnew x (List.mem_cons_of_mem _ hx) f hf
    rw [List.foldl_cons]
    show (gs.foldl _ (Json.obj (set.insertField g.1 g.2 fs))).texts = _
    rw [ih _ hrest hins, textsFields_insertField hg, hutf8, Bool.true_and, List.all_cons]
    simp only [Bool.and_left_comm, Bool.and_assoc]

/-- **An object can be written exactly if its members can.** -/
theorem texts_object {fs : List (Str × Json F)} (hk : goodKeys (fs.map Prod.fst) = true) :
    (Json.object fs).texts = fs.all fun f => f.2.texts := by
  have := texts_foldl_set fs [] hk fun _ _ f hf => absurd hf List.not_mem_nil
  rwa [textsFields, Bool.true_and] at this

@[simp] theorem texts_null : (Json.null : Json F).texts = true := by rw [texts]

@[simp] theorem texts_bool (b : Bool) : (Json.bool b : Json F).texts = true := by rw [texts]

@[simp] theorem texts_int (i : Int) : (Json.int i : Json F).texts = true := by rw [texts]

@[simp] theorem texts_str (s : Str) : (Json.str s : Json F).texts = utf8 s := by rw [texts]

@[simp] theorem texts_arr (items : List (Json F)) :
    (Json.arr items).texts = items.all texts := by
  rw [Bool.eq_iff_iff, texts, textsItems_iff, List.all_eq_true]

/-- Setting a member of an object put together from fields adds a field. -/
theorem object_set (fs : List (Str × Json F)) (key : Str) (v : Json F) :
    (Json.object fs).set key v = Json.object (fs ++ [(key, v)]) := by
  rw [Json.object, Json.object, List.foldl_append]
  rfl

end Json

end Udap
