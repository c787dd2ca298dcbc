/-
  PATHS — what `std::filesystem::path` says about the text of a POSIX path.

  A path is its text.  Its `filename` is what follows the last `/`; the filename splits at its last
  dot into `stem` and `extension`, except that `.`, `..` and a name whose only dot comes first have
  no extension.  None of these operations looks at the disk, and none of them throws.
-/
import Udap.Cxx.Text

namespace Udap.Path

/-- `path::filename()`: the text after the last `/`. -/
def filename (p : Str) : Str := (p.reverse.takeWhile (· != 47)).reverse

/-- The filename cut into stem and extension (the extension with its dot). -/
def splitName (name : Str) : Str × Str :=
  if name = str "." ∨ name = str ".." then (name, [])
  else
    match Cxx.rfind name 46 with
    | none | some 0 => (name, [])
    | some dot => (name.take dot, name.drop dot)

/-- `path::stem()`. -/
def stem (p : Str) : Str := (splitName (filename p)).1

/-- `path::extension()`. -/
def extension (p : Str) : Str := (splitName (filename p)).2

/-- `path::is_absolute()`. -/
def isAbsolute (p : Str) : Bool := p.head? == some 47

/-- `a / b`. -/
def join (a b : Str) : Str :=
  if isAbsolute b then b
  else if a.isEmpty || a.getLast? == some 47 then a ++ b
  else a ++ 47 :: b

/-- `path::parent_path()`: the text before the filename, without the slashes that end it unless
    nothing else is left.  A path of slashes alone is its own parent. -/
def parentPath (p : Str) : Str :=
  if p.all (· == 47) then p
  else
    let dir := p.take (p.length - (filename p).length)
    let trimmed := (dir.reverse.dropWhile (· == 47)).reverse
    if trimmed.isEmpty && isAbsolute p then [47] else trimmed

/-- `path::replace_extension(ext)` for an extension that starts with its dot. -/
def replaceExtension (p ext : Str) : Str :=
  p.take (p.length - (extension p).length) ++ ext

theorem splitName_append (name : Str) : (splitName name).1 ++ (splitName name).2 = name := by
  unfold splitName
  split
  · exact List.append_nil name
  · split
    · exact List.append_nil name
    · exact List.append_nil name
    · exact List.take_append_drop _ _

/-- Stem and extension make up the filename. -/
theorem stem_append_extension (p : Str) : stem p ++ extension p = filename p :=
  splitName_append (filename p)

/-- A filename has no slash in it. -/
theorem slash_not_mem_filename (p : Str) : (47 : UInt8) ∉ filename p := by
  intro h
  have := List.mem_takeWhile_imp (List.mem_reverse.mp h)
  simp at this

/-- A text without a slash is its own filename. -/
theorem filename_of_no_slash {p : Str} (h : (47 : UInt8) ∉ p) : filename p = p := by
  have : p.reverse.takeWhile (· != 47) = p.reverse :=
    List.takeWhile_eq_self_iff.mpr fun c hc => by
      simp only [bne_iff_ne]
      rintro rfl
      exact h (List.mem_reverse.mp hc)
  rw [filename, this, List.reverse_reverse]

/-- What has no slash belongs to the filename. -/
theorem filename_append (a : Str) {t : Str} (h : (47 : UInt8) ∉ t) :
    filename (a ++ t) = filename a ++ t := by
  have hall : ∀ c ∈ t.reverse, (c != 47) = true := fun c hc => by
    rw [bne_iff_ne]
    rintro rfl
    exact h (List.mem_reverse.mp hc)
  rw [filename, List.reverse_append, List.takeWhile_append_of_pos hall, List.reverse_append,
    List.reverse_reverse]
  rfl

/-! ## The extension is what follows the last dot -/

theorem rfind_append_cons {c : UInt8} (a : Str) {t : Str} (h : c ∉ t) :
    Cxx.rfind (a ++ c :: t) c = some a.length := by
  have hidx : (t.reverse ++ c :: a.reverse).findIdx? (· == c) = some t.length := by
    have hnone : t.reverse.findIdx? (· == c) = none := by
      refine List.findIdx?_eq_none_iff.mpr fun x hx => ?_
      apply beq_eq_false_iff_ne.mpr
      rintro rfl
      exact h (List.mem_reverse.mp hx)
    rw [List.findIdx?_append, hnone, List.findIdx?_cons, beq_self_eq_true, if_pos rfl,
      Option.none_or, Option.map_some, List.length_reverse, Nat.zero_add]
  have hrev : (a ++ c :: t).reverse = t.reverse ++ c :: a.reverse := by simp
  rw [Cxx.rfind, hrev, hidx, Option.map_some, List.length_append, List.length_cons]
  congr 1
  omega

theorem rfind_some {s : Str} {c : UInt8} {i : Nat} (h : Cxx.rfind s c = some i) :
    ∃ a t, s = a ++ c :: t ∧ c ∉ t ∧ i = a.length := by
  have hmem : c ∈ s := by
    by_contra hmem
    have hnone : s.reverse.findIdx? (· == c) = none := by
      refine List.findIdx?_eq_none_iff.mpr fun x hx => ?_
      apply beq_eq_false_iff_ne.mpr
      rintro rfl
      exact hmem (List.mem_reverse.mp hx)
    rw [Cxx.rfind, hnone] at h
    cases h
  obtain ⟨t, a, hrev, ht⟩ := List.eq_append_cons_of_mem (List.mem_reverse.mpr hmem)
  have hs : s = a.reverse ++ c :: t.reverse := by
    rw [← List.reverse_reverse s, hrev]
    simp
  have ht' : c ∉ t.reverse := fun h => ht (List.mem_reverse.mp h)
  refine ⟨a.reverse, t.reverse, hs, ht', ?_⟩
  rw [hs, rfind_append_cons _ ht'] at h
  exact (Option.some.inj h).symm

/-- A path is what comes before its filename, and its filename. -/
theorem exists_dir (p : Str) : ∃ dir, p = dir ++ filename p := by
  refine ⟨(p.reverse.dropWhile (· != 47)).reverse, ?_⟩
  rw [filename, ← List.reverse_append, List.takeWhile_append_dropWhile, List.reverse_reverse]

/-- A path is its filename, or is cut at its last slash. -/
theorem cut_of_filename (p : Str) : p = filename p ∨ ∃ dir, p = dir ++ 47 :: filename p := by
  by_cases h : (47 : UInt8) ∈ p
  · obtain ⟨t, a, hrev, ht⟩ := List.eq_append_cons_of_mem (List.mem_reverse.mpr h)
    have hp : p = a.reverse ++ 47 :: t.reverse := by
      rw [← List.reverse_reverse p, hrev]
      simp
    have hname : filename p = t.reverse := by
      rw [hp, List.append_cons, filename_append _ fun hm => ht (List.mem_reverse.mp hm)]
      simp [filename]
    exact Or.inr ⟨a.reverse, by rw [hname]; exact hp⟩
  · exact Or.inl (filename_of_no_slash h).symm

/-- A path with an extension is cut at its last dot. -/
theorem cut_of_extension {p : Str} (h : extension p ≠ []) :
    ∃ a t, p = a ++ 46 :: t ∧ (46 : UInt8) ∉ t ∧ extension p = 46 :: t := by
  obtain ⟨dir, hdir⟩ := exists_dir p
  unfold extension splitName at h ⊢
  split at h
  · exact absurd rfl h
  · rename_i hname
    rw [if_neg hname]
    split at h
    · exact absurd rfl h
    · exact absurd rfl h
    · rename_i dot hzero hdot
      obtain ⟨a, t, hcut, ht, rfl⟩ := rfind_some hdot
      refine ⟨dir ++ a, t, ?_, ht, ?_⟩
      · rw [List.append_assoc, ← hcut]
        exact hdir
      · show (filename p).drop a.length = 46 :: t
        rw [hcut, List.drop_left]

example : filename (str "/src/crt0.s") = str "crt0.s" := by decide
example : (stem (str "a/sieve.c"), extension (str "a/sieve.c")) = (str "sieve", str ".c") := by
  decide
example : stem (str ".profile") = str ".profile" := by decide
example : parentPath (str "build/app.bin") = str "build" := by decide
example : parentPath (str "//") = str "//" ∧ parentPath (str "//app.bin") = str "/" := by decide
example : replaceExtension (str "build/app.bin") (str ".cdb") = str "build/app.cdb" := by decide

end Udap.Path
