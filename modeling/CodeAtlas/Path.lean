import CodeAtlas.Text.Blank

namespace CodeAtlas.Path

/-- The names along a path; empty names and dots say nothing. -/
def names (path : String) : List String :=
  ((splitBy (· == '/') path.toList).map String.ofList).filter fun name => name ≠ "" ∧ name ≠ "."

def isAbsolute (path : String) : Bool := path.startsWith "/"

/-- The shortest way to write a path without looking at any file. -/
def normal (path : String) : String :=
  let joined := "/".intercalate (names path)
  if isAbsolute path then "/" ++ joined else if joined.isEmpty then "." else joined

/-- A path that is not absolute lies below the root, where there is one. -/
def below (root : Option String) (path : String) : String :=
  match root with
  | some r => if isAbsolute path then path else r ++ "/" ++ path
  | none => path

end CodeAtlas.Path
