import CodeAtlas.FileTree
import CodeAtlas.World

namespace CodeAtlas

/-- A prepared answer: after so many seconds a value, or a fault. -/
structure Cue (α : Type) where
  delay : Float
  outcome : Except Fault α
  deriving Inhabited

namespace Cue

variable {α : Type}

def now (a : α) : Cue α := ⟨0, .ok a⟩

def fail (fault : Fault) : Cue α := ⟨0, .error fault⟩

/-- Takes the next of several prepared answers; the last one stays for good. -/
def next (other : Cue α) : List (Cue α) → Cue α × List (Cue α)
  | [] => (other, [])
  | [c] => (c, [c])
  | c :: rest => (c, rest)

/-- Takes the next of several prepared answers, each of which serves once. -/
def once (other : Cue α) : List (Cue α) → Cue α × List (Cue α)
  | [] => (other, [])
  | c :: rest => (c, rest)

end Cue

/-- Surroundings that answer as it was prepared, and a record of what was asked and when. -/
structure Script where
  graphOpening : List (Cue Unit)
  /-- The answers to each statement, under its text. -/
  tables : List (Value × List (Cue Table))
  vectorOpening : List (Cue Unit)
  pointSearch : List (Cue Unit)
  collectionListing : List (Cue Unit)
  collectionCreation : List (Cue Unit)
  upserting : List (Cue Unit)
  collections : List Value
  points : List (Value × List ScoredPoint)
  accelerated : Bool
  dimension : Value
  /-- How many vectors are missing at the end of a batch. -/
  dropped : Nat
  modelLoading : List (Cue Unit)
  encoding : List (Cue Unit)
  analysis : List (Cue HttpReply)
  completion : List (Cue HttpReply)
  tree : FileTree
  drawn : Nat
  workers : List (Cue Unit)
  /-- How long the idle program waits until it is interrupted. -/
  patience : Float
  embedding : List (Cue Value)
  classHits : List (Cue (List Match))
  methodHits : List (Cue (List Match))
  texts : List (Cue Value)
  snapshots : List (Cue (Option Snapshot))
  building : List (Cue Unit)
  enriching : List (Cue Unit)
  vectorizing : List (Cue Unit)
  journal : List (Float × Ask)
  deriving Inhabited

namespace Script

/-- The vector of a text: how many characters it has, and the sum of their codes modulo 101. -/
def vectorOf (text : String) : Value :=
  let sum := text.toList.foldl (fun total c => total + c.toNat) 0
  .list [.float (Float.ofNat text.length), .float (Float.ofNat (sum % 101))]

/-- The answers that are prepared for a statement. -/
def tablesFor (s : Script) (statement : Statement) : List (Cue Table) :=
  ((s.tables.find? (·.1.same statement.text)).map (·.2)).getD []

def emptyTable : Table := ⟨.list [], []⟩

/-- Puts what is left of the answers to a statement in their place. -/
def putTables (s : Script) (statement : Statement) (rest : List (Cue Table)) : Script :=
  { s with tables := s.tables.map fun entry => if entry.1.same statement.text then (entry.1, rest) else entry }

def pointsIn (s : Script) (collection : Value) : List ScoredPoint :=
  ((s.points.find? (·.1.same collection)).map (·.2)).getD []

/-- A reaction that gives a value whenever the cue is good. -/
def react {q : Ask} {α : Type} (cue : Cue α) (value : α → q.Reply) (s : Script) : Reaction Script q :=
  ⟨s, cue.delay, cue.outcome.map value⟩

def unscripted : Fault := .foreign .runtime (some "no scripted response")

/-- Answers a question out of the script. -/
def answer (q : Ask) (s : Script) : Reaction Script q :=
  match q with
  | .openGraph .. =>
    let (cue, rest) := Cue.next (.now ()) s.graphOpening
    react cue id { s with graphOpening := rest }
  | .query statement _ =>
    let (cue, rest) := Cue.next (.now emptyTable) (s.tablesFor statement)
    react cue id (s.putTables statement rest)
  | .openVectors .. =>
    let (cue, rest) := Cue.next (.now ()) s.vectorOpening
    react cue id { s with vectorOpening := rest }
  | .searchPoints collection .. =>
    let (cue, rest) := Cue.next (.now ()) s.pointSearch
    react cue (fun _ => s.pointsIn collection) { s with pointSearch := rest }
  | .listCollections =>
    let (cue, rest) := Cue.next (.now ()) s.collectionListing
    react cue (fun _ => s.collections) { s with collectionListing := rest }
  | .createCollection collection _ =>
    let (cue, rest) := Cue.next (.now ()) s.collectionCreation
    let s := { s with collectionCreation := rest }
    react cue id (match cue.outcome with
      | .ok _ => { s with collections := s.collections ++ [collection] }
      | .error _ => s)
  | .upsert .. =>
    let (cue, rest) := Cue.next (.now ()) s.upserting
    react cue id { s with upserting := rest }
  | .hasAccelerator => react (.now s.accelerated) id s
  | .loadModel .. =>
    let (cue, rest) := Cue.next (.now ()) s.modelLoading
    react cue id { s with modelLoading := rest }
  | .dimension => react (.now s.dimension) id s
  | .encode text _ =>
    let (cue, rest) := Cue.next (.now ()) s.encoding
    react cue (fun _ => vectorOf text) { s with encoding := rest }
  | .encodeBatch texts .. =>
    let (cue, rest) := Cue.next (.now ()) s.encoding
    react cue (fun _ => (texts.take (texts.length - s.dropped)).map vectorOf) { s with encoding := rest }
  | .requestAnalysis .. =>
    let (cue, rest) := Cue.once (.fail unscripted) s.analysis
    react cue id { s with analysis := rest }
  | .requestCompletion .. =>
    let (cue, rest) := Cue.once (.fail unscripted) s.completion
    react cue id { s with completion := rest }
  | .contentAt path => ⟨s, 0, s.tree.read path⟩
  | .drawId => react (.now (s.drawn + 1)) id { s with drawn := s.drawn + 1 }
  | .newWorker _ =>
    let (cue, rest) := Cue.next (.now ()) s.workers
    react cue id { s with workers := rest }
  | .interruption => ⟨s, s.patience, .error .interrupted⟩
  | .embed _ =>
    let (cue, rest) := Cue.next (.now .null) s.embedding
    react cue id { s with embedding := rest }
  | .search _ _ _ .classes =>
    let (cue, rest) := Cue.next (.now []) s.classHits
    react cue id { s with classHits := rest }
  | .search _ _ _ .methods =>
    let (cue, rest) := Cue.next (.now []) s.methodHits
    react cue id { s with methodHits := rest }
  | .complete .. =>
    let (cue, rest) := Cue.next (.now (.str "")) s.texts
    react cue id { s with texts := rest }
  | .fetchSnapshot _ =>
    let (cue, rest) := Cue.next (.now none) s.snapshots
    react cue id { s with snapshots := rest }
  | .perform .build =>
    let (cue, rest) := Cue.next (.now ()) s.building
    react cue id { s with building := rest }
  | .perform .enrich =>
    let (cue, rest) := Cue.next (.now ()) s.enriching
    react cue id { s with enriching := rest }
  | .perform .vectorize =>
    let (cue, rest) := Cue.next (.now ()) s.vectorizing
    react cue id { s with vectorizing := rest }
  | .perform .fetch => react (.now ()) id s
  | .selectGraph _ => react (.now ()) id s
  | .closeVectors => react (.now ()) id s
  | .openSession _ => react (.now ()) id s
  | .closeSession => react (.now ()) id s

/-- The surroundings that a script describes. Every question is entered into the journal. -/
def world : World Script where
  answer q time s := answer q { s with journal := s.journal ++ [(time, q)] }

end Script

end CodeAtlas
