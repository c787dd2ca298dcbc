/-
  HASH TABLES that are filled by two rules, and what a lookup finds afterwards.

  A `Table K V` is a list of entries with distinct keys (Mathlib's `AList` at a constant family);
  the order of its entries is the order in which a program that walks over the table meets them.

  * `emplace` — insert unless the key is there: after any number of them the FIRST record of a key
                counts, and only where the table had none (`lookup_emplaceAll`);
  * `assign`  — insert or overwrite: the LAST record of a key counts (`lookup_assignAll`);
  * `toList`  — the entries in the order of the walk; what a lookup finds among them does not depend
                on that order (`lookup_perm`);
  * `Numbers` — two tables that number keys stay inverse when the next key gets its number.

  So a table that a program builds record by record is described by the list of the records alone.
  Nothing here mentions a program.
-/
import Mathlib.Data.List.AList

namespace Udap

/-- A finite map given by its entries; no key has two. -/
abbrev Table (K V : Type) := AList fun _ : K => V

namespace Table

variable {K V : Type} [DecidableEq K]

/-- Insert an entry unless its key is there already. -/
def emplace (k : K) (v : V) (t : Table K V) : Table K V :=
  if k ∈ t then t else t.insert k v

/-- What was there stays; what was not is now the new entry. -/
theorem lookup_emplace (k : K) (v : V) (t : Table K V) (a : K) :
    (t.emplace k v).lookup a = (t.lookup a).or (if a = k then some v else none) := by
  unfold emplace
  by_cases hk : k ∈ t
  · rw [if_pos hk]
    by_cases ha : a = k
    · subst ha
      obtain ⟨w, hw⟩ := Option.isSome_iff_exists.mp (AList.lookup_isSome.mpr hk)
      rw [hw, Option.some_or]
    · rw [if_neg ha, Option.or_none]
  · rw [if_neg hk]
    by_cases ha : a = k
    · subst ha
      rw [AList.lookup_insert, AList.lookup_eq_none.mpr hk, if_pos rfl, Option.none_or]
    · rw [AList.lookup_insert_ne ha, if_neg ha, Option.or_none]

/-- `emplace` every record of a list, in order. -/
def emplaceAll (records : List (K × V)) (t : Table K V) : Table K V :=
  records.foldl (fun t r => t.emplace r.1 r.2) t

@[simp] theorem emplaceAll_nil (t : Table K V) : t.emplaceAll [] = t := rfl

theorem emplaceAll_append (rs qs : List (K × V)) (t : Table K V) :
    t.emplaceAll (rs ++ qs) = (t.emplaceAll rs).emplaceAll qs := List.foldl_append

theorem lookup_singleton [BEq K] [LawfulBEq K] (k : K) (v : V) (a : K) :
    List.lookup a [(k, v)] = if a = k then some v else none := by
  rw [List.lookup_cons, List.lookup_nil]
  by_cases h : a = k
  · simp [h]
  · simp [h, beq_eq_false_iff_ne.mpr h]

/-- **First come, first kept.** -/
theorem lookup_emplaceAll [BEq K] [LawfulBEq K] (records : List (K × V)) (t : Table K V) (a : K) :
    (t.emplaceAll records).lookup a = (t.lookup a).or (records.lookup a) := by
  induction records generalizing t with
  | nil => rw [emplaceAll_nil, List.lookup_nil, Option.or_none]
  | cons r rs ih =>
    have hsplit : List.lookup a (r :: rs) = (List.lookup a [r]).or (List.lookup a rs) := by
      rw [← List.lookup_append, List.singleton_append]
    calc ((t.emplace r.1 r.2).emplaceAll rs).lookup a
        = ((t.emplace r.1 r.2).lookup a).or (rs.lookup a) := ih _
      _ = ((t.lookup a).or (List.lookup a [r])).or (rs.lookup a) := by
          rw [lookup_emplace, lookup_singleton]
      _ = (t.lookup a).or ((r :: rs).lookup a) := by rw [Option.or_assoc, hsplit]

/-- Insert an entry, or overwrite the one there. -/
def assign (k : K) (v : V) (t : Table K V) : Table K V := AList.insert k v t

/-- The new entry hides what was there under its key. -/
theorem lookup_assign (k : K) (v : V) (t : Table K V) (a : K) :
    (t.assign k v).lookup a = (if a = k then some v else none).or (t.lookup a) := by
  unfold assign
  by_cases h : a = k
  · subst h
    rw [AList.lookup_insert, if_pos rfl, Option.some_or]
  · rw [AList.lookup_insert_ne h, if_neg h, Option.none_or]

/-- `assign` every record of a list, in order. -/
def assignAll (records : List (K × V)) (t : Table K V) : Table K V :=
  records.foldl (fun t r => t.assign r.1 r.2) t

theorem assignAll_append (rs qs : List (K × V)) (t : Table K V) :
    t.assignAll (rs ++ qs) = (t.assignAll rs).assignAll qs := List.foldl_append

/-- **Last come, last kept.** -/
theorem lookup_assignAll [BEq K] [LawfulBEq K] (records : List (K × V)) (t : Table K V) (a : K) :
    (t.assignAll records).lookup a = (records.reverse.lookup a).or (t.lookup a) := by
  induction records generalizing t with
  | nil => rfl
  | cons r rs ih =>
    calc ((t.assign r.1 r.2).assignAll rs).lookup a
        = (rs.reverse.lookup a).or ((t.assign r.1 r.2).lookup a) := ih _
      _ = (rs.reverse.lookup a).or ((List.lookup a [r]).or (t.lookup a)) := by
          rw [lookup_assign, lookup_singleton]
      _ = ((r :: rs).reverse.lookup a).or (t.lookup a) := by
          rw [List.reverse_cons, List.lookup_append, Option.or_assoc]

/-- An entry found is an entry of the table. -/
theorem mem_entries_of_lookup {t : Table K V} {k : K} {v : V} (h : t.lookup k = some v) :
    (⟨k, v⟩ : Sigma fun _ : K => V) ∈ t.entries := AList.mem_lookup_iff.mp h

/-- The entries as pairs, in the order of the walk. -/
def toList (t : Table K V) : List (K × V) := t.entries.map fun e => (e.1, e.2)

theorem mem_toList {t : Table K V} {k : K} {v : V} : (k, v) ∈ t.toList ↔ t.lookup k = some v := by
  rw [toList, List.mem_map]
  constructor
  · rintro ⟨⟨k', v'⟩, he, heq⟩
    obtain ⟨rfl, rfl⟩ := Prod.mk.inj heq
    exact AList.mem_lookup_iff.mpr he
  · exact fun h => ⟨⟨k, v⟩, mem_entries_of_lookup h, rfl⟩

/-! ## Walking over a table -/

/-- Among entries with distinct keys a lookup finds exactly the entries. -/
theorem lookup_iff_mem [BEq K] [LawfulBEq K] {l : List (K × V)} (hn : (l.map Prod.fst).Nodup)
    {k : K} {v : V} : l.lookup k = some v ↔ (k, v) ∈ l := by
  induction l with
  | nil => simp
  | cons e l ih =>
    obtain ⟨hnew, hrest⟩ := List.nodup_cons.mp (by rwa [List.map_cons] at hn)
    rw [List.lookup_cons, List.mem_cons]
    by_cases hk : k = e.1
    · subst hk
      have hout : (e.1, v) ∉ l := fun hmem => hnew (List.mem_map.mpr ⟨_, hmem, rfl⟩)
      rw [beq_self_eq_true, or_iff_left hout, Prod.ext_iff, Option.some_inj]
      exact ⟨fun h => ⟨rfl, h.symm⟩, fun h => h.2.symm⟩
    · rw [beq_eq_false_iff_ne.mpr hk, or_iff_right fun heq => hk (congrArg Prod.fst heq)]
      exact ih hrest

/-- **Every order finds the same.** -/
theorem lookup_perm [BEq K] [LawfulBEq K] {l l' : List (K × V)} (hp : l.Perm l')
    (hn : (l.map Prod.fst).Nodup) (k : K) : l.lookup k = l'.lookup k := by
  have hn' : (l'.map Prod.fst).Nodup := (hp.map Prod.fst).nodup_iff.mp hn
  apply Option.ext
  intro v
  rw [lookup_iff_mem hn, lookup_iff_mem hn', hp.mem_iff]

omit [DecidableEq K] in
theorem toList_nodup (t : Table K V) : (t.toList.map Prod.fst).Nodup := by
  rw [toList, List.map_map]
  exact t.nodupKeys

theorem lookup_toList [BEq K] [LawfulBEq K] (t : Table K V) (k : K) :
    t.toList.lookup k = t.lookup k := by
  apply Option.ext
  intro v
  rw [lookup_iff_mem t.toList_nodup, mem_toList]

/-! ## Tables one behind another -/

/-- **A table between two others**: what the outer two find stays unless the one between them finds
    something else where the first finds nothing.  What comes last makes no difference. -/
theorem or_between_iff {first second between last : Option V} :
    (∀ v, first.or second = some v → (first.or between).or (second.or last) = some v) ↔
      ∀ v w, first = none → second = some v → between = some w → w = v := by
  cases first with
  | some x =>
    refine iff_of_true ?_ ?_
    · intro v hv
      exact hv
    · intro v w hnone
      cases hnone
  | none =>
    simp only [Option.none_or]
    cases between with
    | none =>
      refine iff_of_true ?_ ?_
      · intro v hv
        rw [hv]
        rfl
      · intro v w _ _ hw
        cases hw
    | some x =>
      constructor
      · intro h v w _ hv hw
        rw [← Option.some.inj hw]
        exact Option.some.inj (h v hv)
      · intro h v hv
        exact congrArg some (h v x trivial hv rfl)

/-! ## Numbering keys -/

/-- Two tables number keys: each is the inverse of the other, and `next` is not used yet. -/
structure Numbers (number : Table K Int) (keyOf : Table Int K) (next : Int) : Prop where
  inverse : ∀ k i, number.lookup k = some i ↔ keyOf.lookup i = some k
  below : ∀ k i, number.lookup k = some i → i < next

theorem numbers_empty (next : Int) : Numbers (∅ : Table K Int) ∅ next where
  inverse k i := by rw [AList.lookup_empty, AList.lookup_empty]; simp
  below k i h := by rw [AList.lookup_empty] at h; cases h

variable {number : Table K Int} {keyOf : Table Int K} {next : Int}

/-- A number has one key, and a key has one number. -/
theorem Numbers.eq_iff (h : Numbers number keyOf next) {k k' : K} {i i' : Int}
    (hk : number.lookup k = some i) (hk' : number.lookup k' = some i') : k = k' ↔ i = i' := by
  constructor
  · rintro rfl
    exact Option.some.inj (hk.symm.trans hk')
  · rintro rfl
    have hkey := (h.inverse k i).mp hk
    have hkey' := (h.inverse k' i).mp hk'
    exact Option.some.inj (hkey.symm.trans hkey')

/-- A key without a number gets the next one. -/
theorem Numbers.assign (h : Numbers number keyOf next) {k : K} (hnew : number.lookup k = none) :
    Numbers (number.assign k next) (keyOf.assign next k) (next + 1) where
  inverse := by
    intro k' i
    rw [lookup_assign, lookup_assign]
    by_cases hk : k' = k
    · subst hk
      rw [if_pos rfl, Option.some_or]
      by_cases hi : i = next
      · rw [if_pos hi, Option.some_or, hi]
        exact iff_of_true rfl rfl
      · rw [if_neg hi, Option.none_or, ← h.inverse, hnew]
        exact iff_of_false (fun heq => hi (Option.some.inj heq).symm) (Option.some_ne_none i).symm
    · rw [if_neg hk, Option.none_or]
      by_cases hi : i = next
      · subst hi
        rw [if_pos rfl, Option.some_or]
        refine iff_of_false (fun heq => ?_) fun heq => hk (Option.some.inj heq).symm
        have hlt := h.below k' i heq
        omega
      · rw [if_neg hi, Option.none_or]
        exact h.inverse k' i
  below := by
    intro k' i hlookup
    rw [lookup_assign] at hlookup
    by_cases hk : k' = k
    · rw [if_pos hk, Option.some_or] at hlookup
      have heq := Option.some.inj hlookup
      omega
    · rw [if_neg hk, Option.none_or] at hlookup
      have hlt := h.below k' i hlookup
      omega

end Table

end Udap
