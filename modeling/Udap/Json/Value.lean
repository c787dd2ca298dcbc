/-
  JSON VALUES and the typed access to them, after `nlohmann::json`.

  `Json F` is the value type; `F` is the type of floating-point numbers, of which only the casts to
  the integer types are used (`FloatCast`).  An integer is one constructor, whether the library
  stores it signed or unsigned: no operation here tells the two apart.

  Access fails (`none`) where the library throws `type_error`:

  * `getStr`, `getBool`        — exactly that type (302);
  * `getInt`, `getUInt32`      — any number and also `bool`, cast as `static_cast` does (302);
  * `getVector`                — an array (302);
  * `value key dflt get`       — an object (306); the default where the key is missing, otherwise
                                 what `get` makes of the member;
  * `contains`, `member`       — never throw: a value that is not an object has no member.

  Nothing here mentions a program.
-/
import Udap.Cxx.Text

namespace Udap

/-- A JSON value; the fields of an object are in the order in which they are written. -/
inductive Json (F : Type) where
  | null
  | bool (b : Bool)
  | int (i : Int)
  | float (x : F)
  | str (s : Str)
  | arr (items : List (Json F))
  | obj (fields : List (Str × Json F))

/-- `static_cast` of a floating-point number to `int` and to `uint32_t`. -/
class FloatCast (F : Type) where
  toInt : F → Int
  toUInt32 : F → UInt32
  toInt_inInt : ∀ x, Cxx.InInt (toInt x)

namespace Json

variable {F : Type}

/-- `static_cast<int>` of an integer of up to 64 bits. -/
def castInt (i : Int) : Int := (i + 2147483648) % 4294967296 - 2147483648

/-- An `int` is cast to itself. -/
theorem castInt_eq_self {i : Int} : castInt i = i ↔ Cxx.InInt i := by
  unfold castInt Cxx.InInt
  omega

theorem castInt_inInt (i : Int) : Cxx.InInt (castInt i) := by
  unfold castInt Cxx.InInt
  omega

/-- `static_cast<uint32_t>` of an integer of up to 64 bits. -/
def castUInt32 (i : Int) : UInt32 := UInt32.ofNat (i % 4294967296).toNat

/-! ## Typed access -/

/-- `get<std::string>()`. -/
def getStr : Json F → Option Str
  | .str s => some s
  | _ => none

/-- `get<bool>()`. -/
def getBool : Json F → Option Bool
  | .bool b => some b
  | _ => none

/-- `get<int>()`. -/
def getInt [FloatCast F] : Json F → Option Int
  | .int i => some (castInt i)
  | .float x => some (FloatCast.toInt x)
  | .bool b => some (if b then 1 else 0)
  | _ => none

theorem getInt_inInt [FloatCast F] {j : Json F} {i : Int} (h : j.getInt = some i) :
    Cxx.InInt i := by
  cases j with
  | int i' =>
    obtain rfl := Option.some.inj h
    exact castInt_inInt i'
  | float x =>
    obtain rfl := Option.some.inj h
    exact FloatCast.toInt_inInt x
  | bool b =>
    obtain rfl := Option.some.inj h
    cases b <;> decide
  | null | str _ | arr _ | obj _ => cases h

/-- `get<uint32_t>()`. -/
def getUInt32 [FloatCast F] : Json F → Option UInt32
  | .int i => some (castUInt32 i)
  | .float x => some (FloatCast.toUInt32 x)
  | .bool b => some (if b then 1 else 0)
  | _ => none

/-- `get<std::vector<json>>()`. -/
def getVector : Json F → Option (List (Json F))
  | .arr items => some items
  | _ => none

/-- `get<json>()`. -/
def getJson (j : Json F) : Option (Json F) := some j

/-- The fields of an object; of anything else, none. -/
def fields : Json F → List (Str × Json F)
  | .obj fs => fs
  | _ => []

/-- The member of an object under `key`. -/
def member (key : Str) (j : Json F) : Option (Json F) := j.fields.lookup key

/-- `contains(key)`. -/
def contains (key : Str) (j : Json F) : Bool := (j.member key).isSome

/-- `value(key, dflt)`. -/
def value {α : Type} (key : Str) (dflt : α) (get : Json F → Option α) (j : Json F) : Option α :=
  match j with
  | .obj fs =>
    match fs.lookup key with
    | none => some dflt
    | some v => get v
  | _ => none

/-- What a range-based `for` over the value visits: the items of an array, the members of an
    object, nothing for null, and any other value itself. -/
def elements : Json F → List (Json F)
  | .arr items => items
  | .obj fs => fs.map Prod.snd
  | .null => []
  | j => [j]

/-- `j[key] = v` on an object (which null turns into): the fields stay sorted by key. -/
def set (j : Json F) (key : Str) (v : Json F) : Json F :=
  .obj (insertField key v j.fields)
where
  insertField (key : Str) (v : Json F) : List (Str × Json F) → List (Str × Json F)
    | [] => [(key, v)]
    | (k, w) :: fs =>
      if k = key then (key, v) :: fs
      else if key < k then (key, v) :: (k, w) :: fs
      else (k, w) :: insertField key v fs

/-- `json{{key, value}, ...}`. -/
def object (fs : List (Str × Json F)) : Json F :=
  fs.foldl (fun j kv => j.set kv.1 kv.2) (.obj [])

/-! ## What an access finds after a change -/

theorem lookup_insertField (key : Str) (v : Json F) (fs : List (Str × Json F)) (k : Str) :
    (set.insertField key v fs).lookup k = if k = key then some v else fs.lookup k := by
  induction fs with
  | nil =>
    rw [set.insertField, List.lookup_cons, List.lookup_nil]
    by_cases h : k = key
    · simp [h]
    · simp [h, beq_eq_false_iff_ne.mpr h]
  | cons f fs ih =>
    obtain ⟨k', w⟩ := f
    unfold set.insertField
    by_cases hk : k' = key
    · subst hk
      by_cases h : k = k'
      · simp [h]
      · simp [h, List.lookup_cons, beq_eq_false_iff_ne.mpr h]
    · rw [if_neg hk]
      split
      · by_cases h : k = key
        · simp [h]
        · simp [h, List.lookup_cons, beq_eq_false_iff_ne.mpr h]
      · rw [List.lookup_cons, List.lookup_cons, ih]
        by_cases h : k = k'
        · subst h
          simp [hk]
        · simp [beq_eq_false_iff_ne.mpr h]

/-- The member that was set is there; the others are as before. -/
theorem member_set (j : Json F) (key : Str) (v : Json F) (k : Str) :
    (j.set key v).member k = if k = key then some v else j.member k :=
  lookup_insertField key v j.fields k

end Json

end Udap
