import CodeAtlas.Ask
import CodeAtlas.Path

namespace CodeAtlas

/-- Files by their paths, each a list of names. -/
structure FileTree where
  entries : List (List String × FileContent)
  deriving Inhabited

namespace FileTree

/-- What stands at a place: a file, or a directory on the way to one. -/
def at? (t : FileTree) (place : List String) : FileContent :=
  match t.entries.find? (·.1 == place) with
  | some (_, content) => content
  | none => if place.isEmpty || t.entries.any fun e => place.isPrefixOf e.1 then .directory else .missing

/-- Follows names from a place, which is kept from its last name to its first. A name is looked up
only in a directory. -/
def follow (t : FileTree) : List String → List String → FileContent
  | place, [] => t.at? place.reverse
  | place, name :: rest =>
    match t.at? place.reverse with
    | .directory => if name = ".." then t.follow place.tail rest else t.follow (name :: place) rest
    | _ => .missing

/-- The longest name that a file may have, in bytes. -/
def longestName : Nat := 255

/-- What stands at a path. -/
def read (t : FileTree) (path : String) : Except Fault FileContent :=
  if (Path.names path).any fun name => longestName < name.utf8ByteSize then
    .error (.foreign .os (some "File name too long"))
  else .ok (t.follow [] (Path.names path))

end FileTree

end CodeAtlas
