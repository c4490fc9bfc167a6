import CodeAtlas.Graph.Statement
import CodeAtlas.Job

namespace CodeAtlas

/-- What a web service answers. Reading its body as data may fail. -/
structure HttpReply where
  status : Value
  text : Value
  body : Except Fault Value
  deriving Inhabited

/-- A point of a collection of vectors. -/
structure Point where
  id : String
  vector : Value
  payload : Value
  deriving Inhabited

/-- A point that a search found. -/
structure ScoredPoint where
  score : Value
  payload : Value
  deriving Inhabited

/-- What stands at a place of the file system. -/
inductive FileContent where
  | missing
  | directory
  | bytes (content : List Nat)
  deriving Inhabited

/-- Everything that the program asks of what surrounds it. -/
inductive Ask where
  | openGraph (host port password : Value)
  | selectGraph (name : Value)
  | query (statement : Statement) (parameters : Value)
  | openVectors (host port : Value)
  | closeVectors
  | searchPoints (collection vector limit threshold : Value)
  | listCollections
  | createCollection (collection size : Value)
  | upsert (collection : Value) (points : List Point)
  | hasAccelerator
  | loadModel (name device : Value)
  | dimension
  | encode (text : String) (normalize : Bool)
  | encodeBatch (texts : List String) (batchSize : Int) (normalize : Bool) (progress : Value)
  | openSession (timeout : Value)
  | closeSession
  | requestAnalysis (verb url : String) (body : Value)
  | requestCompletion (url : String) (body headers : Value)
  | contentAt (path : String)
  | drawId
  | newWorker (name : String)
  | interruption
  | embed (text : Value)
  | search (vector limit threshold : Value) (kind : Kind)
  | complete (prompt : String) (system : Option String)
  | fetchSnapshot (endpoint : Value)
  | perform (stage : Stage)
  deriving Inhabited

/-- The type of the answer to each question. -/
def Ask.Reply : Ask → Type
  | .query .. => Table
  | .searchPoints .. => List ScoredPoint
  | .listCollections => List Value
  | .hasAccelerator => Bool
  | .dimension => Value
  | .encode .. => Value
  | .encodeBatch .. => List Value
  | .requestAnalysis .. => HttpReply
  | .requestCompletion .. => HttpReply
  | .contentAt _ => FileContent
  | .drawId => Nat
  | .embed _ => Value
  | .search .. => List Match
  | .complete .. => Value
  | .fetchSnapshot _ => Option Snapshot
  | _ => Unit

/-- What the program asks of the loop that runs its jobs. -/
inductive Control where
  /-- The time on the clock, in seconds. -/
  | now
  /-- Whether there is a loop that can take up further jobs. -/
  | hasLoop
  /-- Lets others work until so many seconds have passed, at least for one turn. -/
  | pause (seconds : Float)
  /-- Starts a job; it begins when it is its turn. -/
  | spawn (job : Job)
  /-- Gives a job to a worker of its own, which waits until it is joined. -/
  | dispatch (job : Job)
  /-- Whether a job has ended. -/
  | ended (job : Nat)
  /-- Waits until a job has ended; the fault of the job is raised here. -/
  | join (job : Nat)
  /-- Waits until a job has ended, without passing on a cancellation to it. -/
  | shield (job : Nat)
  /-- Lets the worker of a job run, and waits until it has ended. -/
  | joinWorker (job : Nat)
  /-- Asks a job to stop where it waits. -/
  | cancel (job : Nat)
  /-- Runs jobs beside each other and collects what they leave behind, in order. -/
  | gather (permits : Permits) (jobs : List Job)
  /-- Waits for one of the permits of the jobs that run beside each other. -/
  | takePermit
  /-- Hands the permit back. -/
  | givePermit
  deriving Inhabited

/-- The type of the answer to each of these. -/
def Control.Reply : Control → Type
  | .now => Float
  | .hasLoop => Bool
  | .spawn _ => Nat
  | .dispatch _ => Nat
  | .ended _ => Bool
  | .gather .. => List Yield
  | _ => Unit

end CodeAtlas
