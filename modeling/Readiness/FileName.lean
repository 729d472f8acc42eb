import Readiness.Text.Quoted

/-!
# File names

`normal` drops empty parts and single dots; `extended?` appends to the last part.
-/

namespace Readiness.FileName

/-- The parts of a name that are neither empty nor a single dot. -/
def parts (name : String) : List String :=
  (name.splitOn "/").filter fun p => p != "" && p != "."

def root (name : String) : String :=
  let slashes := (name.toList.takeWhile (· == '/')).length
  if slashes = 0 then "" else if slashes = 2 then "//" else "/"

def normal (name : String) : String :=
  let joined := root name ++ String.intercalate "/" (parts name)
  if joined.isEmpty then "." else joined

def extended? (name ending : String) : Option String :=
  if (parts name).isEmpty then none else some (normal name ++ ending)

/-- The complaint about a name without a last part. -/
def emptyMessage (name : String) : String :=
  "PosixPath(" ++ Text.quoted (normal name) ++ ") has an empty name"

end Readiness.FileName
