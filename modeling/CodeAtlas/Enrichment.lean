import CodeAtlas.Completion
import CodeAtlas.Digest.NameId
import CodeAtlas.Graph.Client
import CodeAtlas.Json.Read
import CodeAtlas.Listing
import CodeAtlas.Path

namespace CodeAtlas

/-- The field of a record, or the given one where it is missing or empty. -/
def PendingMethod.ofRecord (record : Value) : Except Fault PendingMethod := do
  let signature ← record.given "signature" (.str ("unknown_" ++ (← record.get "id").display))
  return {
    id := ← record.given "id" (.str ("unknown_" ++ signature.display))
    name := ← record.given "name" (.str "unknown")
    signature
    className := ← record.given "class_name" (.str "Unknown")
    filePath := ← record.given "file_path" (.str "")
    returnType := ← record.given "return_type" (.str "void")
    startLine := ← (← record.given "start_line" (.int 0)).toInt
    endLine := ← (← record.given "end_line" (.int 0)).toInt }

/-- Drops a word at the front of a list, if it is there. -/
def dropFront (word cs : List Char) : List Char :=
  if word.isPrefixOf cs then cs.drop word.length else cs

def dropBack (word cs : List Char) : List Char :=
  (dropFront word.reverse cs.reverse).reverse

def fence : List Char := "\x60\x60\x60".toList

def openingFence : List Char := fence ++ "json".toList

/-- A text without the fence around it, if there is one, and without the blanks around the rest. -/
def stripFences (text : String) : String :=
  let body := trimBy isBlank text.toList
  let opened := if openingFence.isPrefixOf body then body.drop openingFence.length else dropFront fence body
  String.ofList (trimBy isBlank (dropBack fence opened))

/-- What a method gets whose description could not be had. -/
def PendingMethod.placeholder (m : PendingMethod) : String :=
  "Method " ++ m.name.display ++ " in " ++ m.className.display ++ " - analysis pending due to processing error."

def sourceUnavailable : String := "// Source code not available"

def enrichmentSystem : String :=
  "You document source code. Answer only with a JSON object of the form " ++
    "\x7b\"content\": \"<description>\"\x7d."

def enrichmentTemplate : List Piece := [
  .text "Describe what the following method does, in two or three sentences.\n",
  .text "Mention its inputs, its effect or result, and the business concept it serves.\n\nClass: ",
  .slot "class_name", .text "\nMethod: ", .slot "method_name", .text "\n\nCode:\n", .slot "code", .text "\n"]

def enrichmentPrompt (m : PendingMethod) (code : String) : String :=
  fillTemplate (fun name =>
    if name = "class_name" then m.className.display
    else if name = "method_name" then m.name.display
    else code) enrichmentTemplate

/-- The lines from `first` to `last`, counted from one, both included; all further lines where `last`
is not positive. -/
def sourceLines (first last : Int) (lines : List (List Char)) : List (List Char) :=
  let start := (first - 1).toNat
  let stop := if 0 < last then min lines.length last.toNat else lines.length
  (lines.take stop).drop start

/-- The code of a method out of the bytes of its file. -/
def codeOf (m : PendingMethod) (content : List Nat) : String :=
  let lines := linesOf (unifyNewlines (decodeUtf8 content))
  "\n".intercalate ((sourceLines m.startLine m.endLine lines).map String.ofList)

/-- The code of a method. A file that is missing is no fault, one that cannot be read is. -/
def readCode (e : Enricher) (m : PendingMethod) : Routine String := do
  if !m.filePath.truthy then return sourceUnavailable
  match m.filePath with
  | .str path =>
    match ← Routine.query (.contentAt (Path.below e.sourceRoot path)) with
    | .missing => return sourceUnavailable
    | .directory => Routine.fail (.foreign .os (some "Is a directory"))
    | .bytes content => return codeOf m content
  | v => Routine.fail (.mismatch (.notPath v.kind))

/-- The description in an answer: the content of the object that it holds. -/
def readDescription (answer : Value) : Except Fault String := do
  let text ← answer.text "strip"
  match readData (stripFences text) with
  | none => .error (.invalid .notData)
  | some payload =>
    let content := payload.field "content"
    let shown := strip content.display
    if content.truthy && !shown.isEmpty then return shown else .error (.invalid .noContent)

/-- The description that the language model gives; nothing when it gives none that can be used. -/
def describe (e : Enricher) (m : PendingMethod) (code : String) : Routine (Option String) :=
  Routine.rescue (do
    let answer ← e.completion.complete (enrichmentPrompt m code) (some enrichmentSystem)
    return some (← readDescription answer)) fun _ => return none

/-- How many descriptions the first record says were created. -/
def createdCount : List Value → Except Fault Value
  | [] => .ok (.int 0)
  | record :: _ => record.getD "created" (.int 0)

/-- Writes a description beside its method. -/
def writeDescription (e : Enricher) (m : PendingMethod) (content : String) : Routine Unit := do
  let drawn : Nat ← Routine.query .drawId
  let id := "desc_" ++ m.id.display ++ "_" ++ String.ofList (hexText 8 drawn)
  let records ← GraphClient.send e.graph .createDescription (.record [("method_id", m.id),
    ("description_id", .str id), ("content", .str content), ("source_file", m.filePath)])
  let created ← Routine.ofExcept (createdCount records)
  if created.truthy then return else Routine.fail (.failure (.methodMissing m.id))

/-- Describes one method. An ordinary fault on the way makes it a failed one. -/
def enrichOne (e : Enricher) (m : PendingMethod) : Routine Outcome :=
  Routine.rescue (do
    let code ← readCode e m
    match ← describe e m code with
    | some content =>
      writeDescription e m content
      return .enriched
    | none =>
      writeDescription e m m.placeholder
      return .placeholder) fun _ => return .failed

/-- Describes one method while holding a permit. -/
def enrichWithPermit (e : Enricher) (m : PendingMethod) : Routine Outcome := do
  Routine.request .takePermit
  Routine.ensuring (enrichOne e m) (Routine.request .givePermit)

/-- How many methods were found and what became of them. -/
structure EnrichmentCounts where
  found : Nat
  enriched : Nat
  placeholders : Nat
  failed : Nat
  duration : Float
  deriving Inhabited

def EnrichmentCounts.fields (c : EnrichmentCounts) : List (String × Value) := [
  ("found", .int c.found), ("enriched", .int c.enriched), ("placeholders", .int c.placeholders),
  ("failed", .int c.failed), ("duration_seconds", .float c.duration)]

def EnrichmentCounts.summary (c : EnrichmentCounts) : String :=
  "Enrichment: " ++ toString c.enriched ++ "/" ++ toString c.found ++ " described (" ++
    toString c.placeholders ++ " placeholders, " ++ toString c.failed ++ " failed) in " ++
    fixedFloat 1 c.duration ++ "s"

def Yield.outcome? : Yield → Option Outcome
  | .outcome o => some o
  | _ => none

def EnrichmentCounts.ofOutcomes (found : Nat) (outcomes : List Outcome) (duration : Float) : EnrichmentCounts where
  found
  enriched := outcomes.countP fun o => o != .failed
  placeholders := outcomes.count .placeholder
  failed := outcomes.count .failed
  duration

/-- Describes every method that has no description, several at a time. -/
def enrichMethods (e : Enricher) : Routine EnrichmentCounts := do
  let start ← Routine.now
  let records ← GraphClient.run e.graph .undescribedMethods
  let methods ← Routine.ofExcept (records.mapM PendingMethod.ofRecord)
  if methods.isEmpty then return ⟨0, 0, 0, 0, 0.0⟩
  let left ← Routine.request (.gather e.permits (methods.map (.describe e)))
  let stop ← Routine.now
  return .ofOutcomes methods.length (List.filterMap Yield.outcome? left) (stop - start)

/-- The permits for a number of workers, which has to be at least one. A number that is not whole is
never used up. -/
def Permits.ofValue (v : Value) : Except Fault Permits := do
  atLeastOne "max_concurrent" v
  match v.magnitude? with
  | some (.finite q) => return if q.den = 1 then .limited q.num.toNat else .unlimited
  | _ => return .unlimited

/-- The root of source paths, which has to be a path where it is given. -/
def sourceRootOf (v : Value) : Except Fault (Option String) :=
  if !v.truthy then .ok none
  else match v with
    | .str s => .ok (some s)
    | v => .error (.mismatch (.notPath v.kind))

end CodeAtlas
