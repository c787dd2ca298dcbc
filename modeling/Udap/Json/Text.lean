/-
  JSON TEXT — what is assumed of a JSON library that reads and writes values as text.

  `JsonText` has the two operations, `parse` and `dump`, each failing (`none`) where the library
  throws.  `LawfulJsonText` states the documented behaviour that programs rely on:

  * a value that was parsed has only UTF-8 strings, and objects whose keys are sorted and distinct
    (`Json.Valid`);
  * the empty text is no value;
  * `dump` fails exactly at a string that is not UTF-8 (`Json.texts`);
  * what `dump` writes of such a value, `parse` reads back.

  Integers have no bound here; those of the library are bounded by their C++ type.
-/
import Udap.Json.Value

namespace Udap

/-! ## UTF-8 -/

/-- Inside a character: `owed` more bytes, the next one between `lo` and `hi`. -/
def utf8From (owed : Nat) (lo hi : UInt8) : Str → Bool
  | [] => owed == 0
  | c :: s =>
    if owed = 0 then
      if c < 0x80 then utf8From 0 0x80 0xBF s
      else if 0xC2 ≤ c ∧ c ≤ 0xDF then utf8From 1 0x80 0xBF s
      else if c = 0xE0 then utf8From 2 0xA0 0xBF s
      else if 0xE1 ≤ c ∧ c ≤ 0xEC then utf8From 2 0x80 0xBF s
      else if c = 0xED then utf8From 2 0x80 0x9F s
      else if 0xEE ≤ c ∧ c ≤ 0xEF then utf8From 2 0x80 0xBF s
      else if c = 0xF0 then utf8From 3 0x90 0xBF s
      else if 0xF1 ≤ c ∧ c ≤ 0xF3 then utf8From 3 0x80 0xBF s
      else if c = 0xF4 then utf8From 3 0x80 0x8F s
      else false
    else decide (lo ≤ c ∧ c ≤ hi) && utf8From (owed - 1) 0x80 0xBF s

/-- Is the text valid UTF-8? -/
def utf8 (s : Str) : Bool := utf8From 0 0x80 0xBF s

/-- ASCII in front changes nothing. -/
theorem utf8_append_of_ascii {a : Str} (h : ∀ c ∈ a, c < 0x80) (b : Str) :
    utf8 (a ++ b) = utf8 b := by
  induction a with
  | nil => rfl
  | cons c a ih =>
    show utf8From 0 0x80 0xBF (c :: (a ++ b)) = _
    rw [utf8From, if_pos rfl, if_pos (h c List.mem_cons_self)]
    exact ih fun x hx => h x (List.mem_cons_of_mem c hx)

theorem utf8_of_ascii {a : Str} (h : ∀ c ∈ a, c < 0x80) : utf8 a = true := by
  have := utf8_append_of_ascii h []
  rwa [List.append_nil] at this

/-- What follows an ASCII character is UTF-8 if the whole text is: no character that is still owed
    bytes goes on with ASCII. -/
theorem utf8From_after {a b : Str} {c : UInt8} (hc : c < 0x80) {owed : Nat} {lo hi : UInt8}
    (hlo : owed = 0 ∨ 0x80 ≤ lo) (h : utf8From owed lo hi (a ++ c :: b) = true) :
    utf8 b = true := by
  induction a generalizing owed lo hi with
  | nil =>
    rw [List.nil_append, utf8From] at h
    by_cases howed : owed = 0
    · rwa [if_pos howed, if_pos hc] at h
    · rw [if_neg howed, Bool.and_eq_true, decide_eq_true_eq] at h
      have hle : (0x80 : UInt8) ≤ c := UInt8.le_trans (hlo.resolve_left howed) h.1.1
      exact absurd hc (UInt8.not_lt.mpr hle)
  | cons x a ih =>
    rw [List.cons_append, utf8From] at h
    split at h
    · repeat' split at h
      all_goals first
        | exact ih (Or.inl rfl) h
        | exact ih (Or.inr (by decide)) h
        | cases h
    · exact ih (Or.inr (by decide)) (Bool.and_eq_true_iff.mp h).2

/-! ## The strings of a value -/

namespace Json

variable {F : Type}

mutual

/-- Are all strings and keys of the value UTF-8? -/
def texts : Json F → Bool
  | .str s => utf8 s
  | .arr items => textsItems items
  | .obj fs => textsFields fs
  | .null | .bool _ | .int _ | .float _ => true

def textsItems : List (Json F) → Bool
  | [] => true
  | j :: js => texts j && textsItems js

def textsFields : List (Str × Json F) → Bool
  | [] => true
  | (k, v) :: fs => utf8 k && texts v && textsFields fs

end

/-- The keys are sorted, and so no two are equal. -/
def sortedKeys : List (Str × Json F) → Bool
  | [] => true
  | (k, _) :: fs => fs.all (fun f => decide (k < f.1)) && sortedKeys fs

mutual

/-- Are the keys of every object sorted? -/
def sorted : Json F → Bool
  | .arr items => sortedItems items
  | .obj fs => sortedKeys fs && sortedFields fs
  | .null | .bool _ | .int _ | .float _ | .str _ => true

def sortedItems : List (Json F) → Bool
  | [] => true
  | j :: js => sorted j && sortedItems js

def sortedFields : List (Str × Json F) → Bool
  | [] => true
  | (_, v) :: fs => sorted v && sortedFields fs

end

/-- A value that the library can write and read back. -/
structure Valid (j : Json F) : Prop where
  texts : j.texts = true
  sorted : j.sorted = true

/-! ## Building values keeps them valid -/

@[simp] theorem sorted_null : (Json.null : Json F).sorted = true := by rw [sorted]

@[simp] theorem sorted_bool (b : Bool) : (Json.bool b : Json F).sorted = true := by rw [sorted]

@[simp] theorem sorted_int (i : Int) : (Json.int i : Json F).sorted = true := by rw [sorted]

@[simp] theorem sorted_str (s : Str) : (Json.str s : Json F).sorted = true := by rw [sorted]

theorem valid_null : (Json.null : Json F).Valid := ⟨rfl, rfl⟩

theorem valid_bool (b : Bool) : (Json.bool b : Json F).Valid := ⟨rfl, rfl⟩

theorem valid_int (i : Int) : (Json.int i : Json F).Valid := ⟨rfl, rfl⟩

theorem valid_str {s : Str} : (Json.str s : Json F).Valid ↔ utf8 s = true :=
  ⟨fun h => h.texts, fun h => ⟨h, rfl⟩⟩

theorem textsItems_iff {items : List (Json F)} :
    textsItems items = true ↔ ∀ j ∈ items, j.texts = true := by
  induction items with
  | nil => simp [textsItems]
  | cons j js ih => simp [textsItems, ih]

theorem sortedItems_iff {items : List (Json F)} :
    sortedItems items = true ↔ ∀ j ∈ items, j.sorted = true := by
  induction items with
  | nil => simp [sortedItems]
  | cons j js ih => simp [sortedItems, ih]

theorem valid_arr {items : List (Json F)} :
    (Json.arr items).Valid ↔ ∀ j ∈ items, j.Valid := by
  constructor
  · intro h j hj
    exact ⟨textsItems_iff.mp h.texts j hj, sortedItems_iff.mp h.sorted j hj⟩
  · intro h
    exact ⟨textsItems_iff.mpr fun j hj => (h j hj).texts,
      sortedItems_iff.mpr fun j hj => (h j hj).sorted⟩

theorem textsFields_iff {fs : List (Str × Json F)} :
    textsFields fs = true ↔ ∀ f ∈ fs, utf8 f.1 = true ∧ f.2.texts = true := by
  induction fs with
  | nil => simp [textsFields]
  | cons f fs ih =>
    obtain ⟨k, v⟩ := f
    simp [textsFields, ih]

theorem sortedFields_iff {fs : List (Str × Json F)} :
    sortedFields fs = true ↔ ∀ f ∈ fs, f.2.sorted = true := by
  induction fs with
  | nil => simp [sortedFields]
  | cons f fs ih =>
    obtain ⟨k, v⟩ := f
    simp [sortedFields, ih]

theorem sorted_obj {fs : List (Str × Json F)} :
    (Json.obj fs).sorted = true ↔ sortedKeys fs = true ∧ ∀ f ∈ fs, f.2.sorted = true := by
  rw [sorted, Bool.and_eq_true, sortedFields_iff]

/-- A valid object: sorted keys, UTF-8 keys, valid members. -/
theorem valid_obj {fs : List (Str × Json F)} :
    (Json.obj fs).Valid ↔ sortedKeys fs = true ∧ ∀ f ∈ fs, utf8 f.1 = true ∧ f.2.Valid := by
  constructor
  · intro h
    obtain ⟨hk, hs⟩ := sorted_obj.mp h.sorted
    have ht := textsFields_iff.mp h.texts
    exact ⟨hk, fun f hf => ⟨(ht f hf).1, (ht f hf).2, hs f hf⟩⟩
  · rintro ⟨hk, h⟩
    exact ⟨textsFields_iff.mpr fun f hf => ⟨(h f hf).1, (h f hf).2.texts⟩,
      sorted_obj.mpr ⟨hk, fun f hf => (h f hf).2.sorted⟩⟩

/-- The fields after an insertion: the new one, or one of the old ones. -/
theorem mem_insertField {key : Str} {v : Json F} {fs : List (Str × Json F)} {f : Str × Json F}
    (h : f ∈ set.insertField key v fs) : f = (key, v) ∨ f ∈ fs := by
  induction fs with
  | nil => exact Or.inl (List.mem_singleton.mp h)
  | cons g fs ih =>
    obtain ⟨k, w⟩ := g
    unfold set.insertField at h
    split at h
    · exact (List.mem_cons.mp h).imp_right (List.mem_cons_of_mem _)
    · split at h
      · exact List.mem_cons.mp h
      · rcases List.mem_cons.mp h with rfl | h
        · exact Or.inr List.mem_cons_self
        · exact (ih h).imp_right (List.mem_cons_of_mem _)

theorem sortedKeys_cons {k : Str} {v : Json F} {fs : List (Str × Json F)} :
    sortedKeys ((k, v) :: fs) = true ↔ (∀ f ∈ fs, k < f.1) ∧ sortedKeys fs = true := by
  simp [sortedKeys]

theorem sortedKeys_insertField (key : Str) (v : Json F) {fs : List (Str × Json F)}
    (h : sortedKeys fs = true) : sortedKeys (set.insertField key v fs) = true := by
  induction fs with
  | nil => rfl
  | cons g fs ih =>
    obtain ⟨k, w⟩ := g
    obtain ⟨hk, hs⟩ := sortedKeys_cons.mp h
    unfold set.insertField
    split
    · rename_i heq
      exact sortedKeys_cons.mpr ⟨fun f hf => heq ▸ hk f hf, hs⟩
    · split
      · rename_i hlt
        refine sortedKeys_cons.mpr ⟨fun f hf => ?_, h⟩
        rcases List.mem_cons.mp hf with rfl | hf
        · exact hlt
        · exact List.lt_trans hlt (hk f hf)
      · rename_i hne hnlt
        refine sortedKeys_cons.mpr ⟨fun f hf => ?_, ih hs⟩
        rcases mem_insertField hf with rfl | hf
        · exact List.not_le.mp fun hle => hne (List.le_antisymm hle (List.not_lt.mp hnlt)).symm
        · exact hk f hf

/-- The fields of a sorted value. -/
theorem sorted_fields {j : Json F} (hj : j.sorted = true) :
    sortedKeys j.fields = true ∧ ∀ f ∈ j.fields, f.2.sorted = true := by
  cases j with
  | obj fs => exact sorted_obj.mp hj
  | null | bool | int | float | str | arr => exact ⟨rfl, nofun⟩

theorem texts_fields {j : Json F} (hj : j.texts = true) :
    ∀ f ∈ j.fields, utf8 f.1 = true ∧ f.2.texts = true := by
  cases j with
  | obj fs => exact textsFields_iff.mp hj
  | null | bool | int | float | str | arr => exact nofun

theorem sorted_set {j : Json F} (hj : j.sorted = true) (key : Str) {v : Json F}
    (hv : v.sorted = true) : (j.set key v).sorted = true := by
  obtain ⟨hk, hs⟩ := sorted_fields hj
  refine sorted_obj.mpr ⟨sortedKeys_insertField key v hk, fun f hf => ?_⟩
  rcases mem_insertField hf with rfl | hf
  · exact hv
  · exact hs f hf

theorem texts_set {j : Json F} (hj : j.texts = true) {key : Str} (hk : utf8 key = true)
    {v : Json F} (hv : v.texts = true) : (j.set key v).texts = true := by
  refine textsFields_iff.mpr fun f hf => ?_
  rcases mem_insertField hf with rfl | hf
  · exact ⟨hk, hv⟩
  · exact texts_fields hj f hf

/-- Setting a member keeps a value valid. -/
theorem Valid.set {j : Json F} (hj : j.Valid) {key : Str} (hk : utf8 key = true) {v : Json F}
    (hv : v.Valid) : (j.set key v).Valid :=
  ⟨texts_set hj.texts hk hv.texts, sorted_set hj.sorted key hv.sorted⟩

/-- What holds of the empty object and is kept by every member that is set holds of the object. -/
theorem object_induction {P : Json F → Prop} {fs : List (Str × Json F)} (h0 : P (.obj []))
    (hset : ∀ j, P j → ∀ f ∈ fs, P (j.set f.1 f.2)) : P (Json.object fs) := by
  have hfold : ∀ (gs : List (Str × Json F)) (j : Json F), P j → (∀ g ∈ gs, g ∈ fs) →
      P (gs.foldl (fun j kv => j.set kv.1 kv.2) j) := by
    intro gs
    induction gs with
    | nil => exact fun j hj _ => hj
    | cons g gs ih =>
      intro j hj hgs
      exact ih _ (hset j hj g (hgs g List.mem_cons_self))
        fun x hx => hgs x (List.mem_cons_of_mem g hx)
  exact hfold fs _ h0 fun _ hg => hg

theorem sorted_object {fs : List (Str × Json F)} (h : ∀ f ∈ fs, f.2.sorted = true) :
    (Json.object fs).sorted = true :=
  object_induction (P := fun j => j.sorted = true) rfl
    fun _ hj f hf => sorted_set hj f.1 (h f hf)

/-- An object built from valid members. -/
theorem valid_object {fs : List (Str × Json F)} (h : ∀ f ∈ fs, utf8 f.1 = true ∧ f.2.Valid) :
    (Json.object fs).Valid :=
  object_induction (valid_obj.mpr ⟨rfl, nofun⟩) fun _ hj f hf => hj.set (h f hf).1 (h f hf).2

end Json

/-! ## The library -/

/-- `json::parse` and `json::dump`. -/
class JsonText (F : Type) where
  parse : Str → Option (Json F)
  dump : Json F → Option Str

/-- The documented behaviour of `parse` and `dump`. -/
class LawfulJsonText (F : Type) [JsonText F] : Prop where
  parse_nil : JsonText.parse (F := F) [] = none
  parse_valid : ∀ {t : Str} {j : Json F}, JsonText.parse t = some j → j.Valid
  dump_isSome : ∀ j : Json F, (JsonText.dump j).isSome = j.texts
  parse_dump : ∀ {j : Json F} {t : Str}, j.Valid → JsonText.dump j = some t →
    JsonText.parse t = some j

/-- A value with sorted keys that could be written reads back. -/
theorem parse_of_dump {F : Type} [JsonText F] [LawfulJsonText F] {j : Json F} {t : Str}
    (hs : j.sorted = true) (h : JsonText.dump j = some t) : JsonText.parse t = some j := by
  have ht : j.texts = true := by rw [← LawfulJsonText.dump_isSome, h, Option.isSome_some]
  exact LawfulJsonText.parse_dump ⟨ht, hs⟩ h

end Udap
