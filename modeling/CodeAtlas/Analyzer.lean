import CodeAtlas.Answer
import CodeAtlas.Listing
import CodeAtlas.Ranking
import CodeAtlas.Routine

namespace CodeAtlas

/-- Where the analyzer has its population, its vectors, its matches and its answers from. -/
structure Sources where
  classes : Routine (List ClassEntity)
  methods : Routine (List MethodEntity)
  embed : Value → Routine Value
  search : SearchSource
  complete : String → Routine Value

/-- The part of the population that is close to a query. -/
structure Prefiltered where
  classes : List ClassEntity
  methods : List MethodEntity
  givenClasses : Nat
  givenMethods : Nat
  reduction : Float
  unmatched : Nat
  fallback : Bool
  deriving Inhabited

def Yield.hits? : Yield → Option (List Match)
  | .hits found => some found
  | _ => none

/-- The matches of classes and of methods, searched for beside each other. -/
def searchBoth (s : FunnelSettings) (sources : Sources) (vector : Value) : Routine (List Match × List Match) := do
  let search (kind : Kind) : Job := .search sources.search vector s.searchLimit s.threshold kind
  let left : List Yield ← Routine.request (.gather .unlimited [search .classes, search .methods])
  match left.filterMap Yield.hits? with
  | [classes, methods] => return (classes, methods)
  | _ => return ([], [])

/-- The entities that the matches name. When they are more than the cap allows, only the best matches
of both kinds together are looked up. -/
def selectEntities (s : FunnelSettings) (classes : List ClassEntity) (methods : List MethodEntity)
    (classMatches methodMatches : List Match) : Except Fault Prefiltered := do
  let (foundClasses, missingClasses) ← resolve (fun c => .ok c.name) classMatches classes
  let (foundMethods, missingMethods) ← resolve (fun m => .ok m.name) methodMatches methods
  let count := foundClasses.length + foundMethods.length
  let (foundClasses, missingClasses, foundMethods, missingMethods) ←
    if ← Value.compare .above (.int count) s.maxEntities then do
      let top ← rankAndCap (classMatches ++ methodMatches) s.maxEntities
      let (topClasses, topMethods) := partitionByKind top
      let (cs, missingCs) ← resolve (fun c => .ok c.name) topClasses classes
      let (ms, missingMs) ← resolve (fun m => .ok m.name) topMethods methods
      pure (cs, missingCs, ms, missingMs)
    else pure (foundClasses, missingClasses, foundMethods, missingMethods)
  return {
    classes := foundClasses
    methods := foundMethods
    givenClasses := classes.length
    givenMethods := methods.length
    reduction := CodeAtlas.reduction (classes.length + methods.length) (foundClasses.length + foundMethods.length)
    unmatched := missingClasses + missingMethods
    fallback := false }

/-- The whole population. -/
def Prefiltered.everything (classes : List ClassEntity) (methods : List MethodEntity) : Prefiltered where
  classes
  methods
  givenClasses := classes.length
  givenMethods := methods.length
  reduction := 0.0
  unmatched := 0
  fallback := true

/-- Narrows the population to what is close to the query. After any ordinary fault the whole
population stays. -/
def prefilter (s : FunnelSettings) (sources : Sources) (query : Value) (classes : List ClassEntity)
    (methods : List MethodEntity) : Routine Prefiltered :=
  Routine.rescue (do
    let vector ← sources.embed query
    let (classMatches, methodMatches) ← searchBoth s sources vector
    selectEntities s classes methods classMatches methodMatches) fun _ =>
      return .everything classes methods

/-- Asks the language model which entities a query is about. -/
def selectByModel (s : FunnelSettings) (sources : Sources) (query : Value) (classes : List ClassEntity)
    (methods : List MethodEntity) : Routine Selection := do
  let classText ← listClasses s classes
  let methodText ← listMethods s methods
  let answer ← sources.complete (selectionPrompt s query classText methodText)
  Selection.ofAnswer answer

/-- Whether there is nothing to ask. -/
def isBlankQuery (query : Value) : Except Fault Bool := do
  if query.truthy then return (strip (← query.text "strip")).isEmpty else return true

/-- The entities that a query is about; none after any ordinary fault. -/
def analyzeEntities (s : FunnelSettings) (sources : Sources) (query : Value) : Routine Selection :=
  Routine.rescue (do
    if ← isBlankQuery query then return .empty
    let classes ← sources.classes
    let methods ← sources.methods
    if s.prefiltering.truthy then
      let p ← prefilter s sources query classes methods
      selectByModel s sources query p.classes p.methods
    else selectByModel s sources query classes methods) fun _ => return .empty

end CodeAtlas
