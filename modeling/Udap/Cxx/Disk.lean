/-
  THE DISK — what `std::filesystem` and `std::ifstream` may answer.

  Nothing is assumed of the answers: a theorem over every `Disk` holds for every file system, in
  whatever state it is.
-/
import Udap.Cxx.Text

namespace Udap

/-- The answers of the file system; `none` where the call throws or the file cannot be opened. -/
structure Disk where
  /-- `fs::exists(path)`. -/
  fileExists : Str → Option Bool
  /-- `fs::canonical(path).string()`. -/
  canonical : Str → Option Str
  /-- The entries that `fs::directory_iterator(path)` delivers before it ends or throws, each with
      its `is_directory()`. -/
  directory : Str → List (Str × Option Bool)
  /-- The content of a file that `std::ifstream` can open. -/
  read : Str → Option Str

/-- A disk with no files. -/
instance : Inhabited Disk where
  default := { fileExists := fun _ => some false, canonical := fun _ => none,
               directory := fun _ => [], read := fun _ => none }

end Udap
