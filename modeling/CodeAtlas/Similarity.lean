import CodeAtlas.Ranking
import CodeAtlas.Routine

namespace CodeAtlas

/-- A match from a point and what is stored beside it. -/
def Match.ofPoint (kind : Kind) (p : ScoredPoint) : Except Fault Match := do
  let payload := p.payload.orElse (.dict [])
  let name ← payload.getD "name" (.str "")
  let score ← p.score.toFloat
  return {
    name
    score := .float score
    kind
    fullName := ← payload.get "full_name"
    packageName := ← payload.get "package_name"
    signature := ← payload.get "signature"
    className := ← payload.get "class_name" }

/-- The matches of the points whose score reaches the threshold. -/
def matchesAbove (threshold : Value) (kind : Kind) : List ScoredPoint → Except Fault (List Match)
  | [] => .ok []
  | p :: rest => do
    if ← Value.compare .atLeast p.score threshold then
      let m ← Match.ofPoint kind p
      return m :: (← matchesAbove threshold kind rest)
    else matchesAbove threshold kind rest

/-- Searches the collection of a kind. Every search opens its own client and closes it. The best
matches come first, at most `limit` of them. -/
def searchServer (settings : VectorSettings) (addressed : Bool) (vector limit threshold : Value) (kind : Kind) :
    Routine (List Match) := do
  let address (v : Value) : Value := if addressed then v else .null
  Routine.query (.openVectors (address settings.host) (address settings.port))
  let points ← Routine.ensuring
    (Routine.query (.searchPoints (settings.collectionFor kind) vector limit threshold))
    (Routine.query .closeVectors)
  let found ← matchesAbove threshold kind points
  cutTo limit (← rank found)

def SearchSource.find (source : SearchSource) (vector limit threshold : Value) (kind : Kind) :
    Routine (List Match) :=
  match source with
  | .server settings addressed => searchServer settings addressed vector limit threshold kind
  | .outside => Routine.query (.search vector limit threshold kind)

end CodeAtlas
