import CodeAtlas.Entity
import CodeAtlas.Text.Blank

namespace CodeAtlas

/-- The word that starts a line of the given kind. -/
def Kind.tag : Kind → String
  | .classes => "CLASS:"
  | .methods => "METHOD:"

/-- What follows a word at the start of a line, without the blanks around it; nothing when nothing
follows. -/
def taggedName? (tag line : String) : Option String :=
  if tag.toList.isPrefixOf line.toList then
    let name := strip (String.ofList (line.toList.drop tag.length))
    if name.isEmpty then none else some name
  else none

/-- The entity that a line names, if it names one. -/
def answerItem? (line : String) : Option (Kind × String) :=
  let body := strip line
  if Kind.classes.tag.toList.isPrefixOf body.toList then (taggedName? Kind.classes.tag body).map (.classes, ·)
  else (taggedName? Kind.methods.tag body).map (.methods, ·)

/-- The entities that the lines of an answer name, in order; every other line is passed over. -/
def answerItems (text : String) : List (Kind × String) :=
  (pieces text).filterMap answerItem?

def namesOf (kind : Kind) (items : List (Kind × String)) : List String :=
  (items.filter (·.1 == kind)).map (·.2)

def Selection.ofNames (classes methods : List String) : Selection :=
  { Selection.empty with classes := .list (classes.map .str), methods := .list (methods.map .str) }

/-- Reads an answer: lines of the two kinds become names, and no answer names nothing. -/
def Selection.ofAnswer (answer : Value) : Except Fault Selection :=
  match answer with
  | .null => .ok .empty
  | v => do
    let items := answerItems (← v.text "strip")
    return Selection.ofNames (namesOf .classes items) (namesOf .methods items)

end CodeAtlas
