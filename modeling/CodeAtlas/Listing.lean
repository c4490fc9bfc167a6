import CodeAtlas.Entity
import CodeAtlas.Settings.Sections

namespace CodeAtlas

def noDescription : Value := .str "No description"

/-- A class on one line: its name, its full name, what it does. -/
def ClassEntity.line (c : ClassEntity) : String :=
  "- " ++ c.name.display ++ " (" ++ c.packageName.display ++ "." ++ c.name.display ++ "): " ++
    (c.description.orElse noDescription).display

/-- A method on one line: its name, its signature, what it does. -/
def MethodEntity.line (m : MethodEntity) : String :=
  "- " ++ m.name.display ++ " (" ++ m.signature.display ++ "): " ++ (m.description.orElse noDescription).display

/-- The lines of the first entities, up to the bound, or the given text when there are none. -/
def listing {ε : Type} (line : ε → String) (none : String) (bound : Value) (entities : List ε) :
    Except Fault String :=
  if entities.isEmpty then .ok none
  else (cutTo bound entities).map fun shown => "\n".intercalate (shown.map line)

def listClasses (s : FunnelSettings) : List ClassEntity → Except Fault String :=
  listing ClassEntity.line "No classes available." s.maxListedClasses

def listMethods (s : FunnelSettings) : List MethodEntity → Except Fault String :=
  listing MethodEntity.line "No methods available." s.maxListedMethods

/-- A piece of a template: text as it stands, or the place of a named value. -/
inductive Piece where
  | text (s : String)
  | slot (name : String)
  deriving DecidableEq, Inhabited, Repr

/-- The template with its places left open, each name in braces. -/
def templateText (pieces : List Piece) : String :=
  String.join (pieces.map fun
    | .text s => s
    | .slot name => "\x7b" ++ name ++ "\x7d")

/-- The template with its places filled. -/
def fillTemplate (value : String → String) (pieces : List Piece) : String :=
  String.join (pieces.map fun
    | .text s => s
    | .slot name => value name)

/-- The question put to the language model for a query. -/
def selectionTemplate : List Piece := [
  .text "You are analyzing a codebase to find the entities relevant to a user question.\n\nQuery: ", .slot "query",
  .text "\n\nAvailable Classes:\n", .slot "classes",
  .text "\n\nAvailable Methods:\n", .slot "methods",
  .text "\n\nTask: identify the classes and methods most relevant to the query.\n",
  .text "Return ONLY entity names, one per line, in exactly this format:\nCLASS: ClassName\nMETHOD: methodName\n\n",
  .text "Prefer:\n1. Direct name matches and semantic similarity\n",
  .text "2. Methods implementing the behaviour the query describes\n",
  .text "3. Classes holding the related business logic\n",
  .text "4. Entities whose descriptions match the query intent\n\nList the top ", .slot "max_results",
  .text " entities, most relevant first.\n"]

def selectionPrompt (s : FunnelSettings) (query : Value) (classes methods : String) : String :=
  fillTemplate (fun name =>
    if name = "query" then query.display
    else if name = "classes" then classes
    else if name = "methods" then methods
    else s.maxResults.display) selectionTemplate

end CodeAtlas
