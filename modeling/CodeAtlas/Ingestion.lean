import CodeAtlas.Enrichment
import CodeAtlas.Graph.Build
import CodeAtlas.Polling
import CodeAtlas.Similarity
import CodeAtlas.Vectorize

namespace CodeAtlas

/-- Seconds on the clock as a moment; fractions of a microsecond go to the nearest one. -/
def momentAt (seconds : Float) : Stamp :=
  match Binary.ofFloat seconds with
  | .finite false m q =>
    let r := (⟨m * 1000000, 1⟩ : Quotient).scale 2 q
    .ofMicros (roundDiv r.num r.den)
  | _ => .ofMicros 0

def momentText (seconds : Float) : String := (momentAt seconds).text "T"

namespace StageSource

def fetch (s : StageSource) (endpoint : Value) : Routine (Option Snapshot) :=
  match s with
  | .pipeline p => CodeAtlas.fetchSnapshot p.polling endpoint
  | .outside => Routine.query (.fetchSnapshot endpoint)

def build (s : StageSource) (snapshot : Snapshot) : Routine Unit :=
  match s with
  | .pipeline p => do let _ ← buildGraph p.graph p.graphBatch snapshot
  | .outside => Routine.query (.perform .build)

def enrich (s : StageSource) : Routine Unit :=
  match s with
  | .pipeline p => do let _ ← enrichMethods p.enricher
  | .outside => Routine.query (.perform .enrich)

def vectorize (s : StageSource) : Routine Unit :=
  match s with
  | .pipeline p => do let _ ← CodeAtlas.vectorize p.graph p.index p.embedding
  | .outside => Routine.query (.perform .vectorize)

end StageSource

namespace RunState

/-- A run begins: it has the lock, and nothing has gone wrong yet. -/
def start (id : String) (now : Float) (s : RunState) : RunState :=
  { s with startedAt := some now, lastId := some id, lastError := none }

def enter (stage : Stage) (s : RunState) : RunState := { s with stage := some stage }

/-- All stages are done. -/
def complete (start now : Float) (s : RunState) : RunState :=
  { s with finishedAt := some now, duration := some (now - start) }

def stageText (s : RunState) : String := (s.stage.map Stage.name).getD "None"

/-- The error of a run names the stage that it happened in. -/
def fail (fault : Fault) (s : RunState) : RunState :=
  { s with lastError := some (s.stageText ++ ": " ++ fault.message) }

def acquire (s : RunState) : RunState := { s with locked := true }

/-- Frees the lock, whoever holds it. -/
def release (s : RunState) : RunState := { s with stage := none, locked := false }

end RunState

/-- What is told about the ingestion. -/
structure Status where
  running : Bool
  stage : Option Stage
  finishedAt : Option Float
  duration : Option Float
  lastError : Option String
  scheduled : Value
  endpoint : Value
  time : Float
  deriving Inhabited

def Status.fields (s : Status) : List (String × Value) := [
  ("is_running", .bool s.running), ("current_stage", .ofText? (s.stage.map Stage.name)),
  ("last_run_time", .str ((s.finishedAt.map momentText).getD "Never")),
  ("last_duration_seconds", .ofOption (s.duration.map .float)), ("last_error", .ofText? s.lastError),
  ("scheduling_enabled", s.scheduled), ("ast_endpoint", s.endpoint), ("timestamp", .str (momentText s.time))]

/-- The answer to a trigger. -/
structure TriggerResponse where
  success : Bool
  message : String
  id : Option String
  time : Float
  status : Option Status
  deriving Inhabited

def TriggerResponse.fields (r : TriggerResponse) : List (String × Value) :=
  [("success", .bool r.success), ("message", .str r.message), ("timestamp", .str (momentText r.time))] ++
    (r.id.map fun id => ("execution_id", Value.str id)).toList ++
    (r.status.map fun s => ("status", Value.record s.fields)).toList

namespace Coordinator

def onRun (n : Nat) (f : RunState → RunState) : Routine Unit :=
  Routine.change (Memory.onCoordinator n fun c => { c with run := f c.run })

/-- What is told about the ingestion at a time. -/
def statusAt (c : Coordinator) (time : Float) : Status where
  running := c.run.locked
  stage := c.run.stage
  finishedAt := c.run.finishedAt
  duration := c.run.duration
  lastError := c.run.lastError
  scheduled := c.scheduled
  endpoint := c.endpoint
  time

def status (n : Nat) : Routine Status := do
  let c ← Routine.view (·.coordinator n)
  return c.statusAt (← Routine.now)

/-- Takes the lock if it is free, and tells whether it was. -/
def tryAcquire (n : Nat) : Routine Bool := do
  let c ← Routine.view (·.coordinator n)
  if c.run.locked then return false
  onRun n RunState.acquire
  return true

def release (n : Nat) : Routine Unit := onRun n RunState.release

/-- The stages one after the other. A snapshot with nothing in it ends the run early. -/
def stagesInOrder (n : Nat) (source : StageSource) (endpoint : Value) (start : Float) : Routine Unit := do
  onRun n (RunState.enter .fetch)
  match ← source.fetch endpoint with
  | none => return
  | some snapshot =>
    if snapshot.isEmpty then return
    onRun n (RunState.enter .build)
    source.build snapshot
    onRun n (RunState.enter .enrich)
    source.enrich
    onRun n (RunState.enter .vectorize)
    source.vectorize
    let stop ← Routine.now
    onRun n (RunState.complete start stop)

/-- A run, from the moment at which it has the lock. An ordinary fault is kept as its error; the lock
is free in any case when it ends. -/
def runStages (n : Nat) (id : String) : Routine Unit := do
  let start ← Routine.now
  onRun n (RunState.start id start)
  let c ← Routine.view (·.coordinator n)
  Routine.ensuring
    (Routine.rescue (stagesInOrder n c.stages c.endpoint start) fun fault => onRun n (RunState.fail fault))
    (release n)

def drawRunId : Routine String := do
  let drawn : Nat ← Routine.query .drawId
  return drawnId drawn

/-- Runs all stages here, unless a run is under way. -/
def runPipeline (n : Nat) : Routine Unit := do
  if ← tryAcquire n then runStages n (← drawRunId)

/-- Gives a run to the loop, or to a worker of its own where there is no loop. -/
def startRun (n : Nat) (id : String) : Routine Unit := do
  let hasLoop : Bool ← Routine.request .hasLoop
  if hasLoop then
    let task : Nat ← Routine.request (.spawn (.ingest n id))
    Routine.change (Memory.onCoordinator n fun c => { c with task := some task })
  else
    Routine.query (.newWorker ("ingestion-" ++ String.ofList (id.toList.take 8)))
    let worker : Nat ← Routine.request (.dispatch (.ingest n id))
    Routine.change (Memory.onCoordinator n fun c => { c with worker := some worker })

def refusal (n : Nat) (message : String) : Routine TriggerResponse := do
  let status ← status n
  return { success := false, message, id := none, time := status.time, status := some status }

/-- Starts a run beside the caller, unless one is under way. The lock is taken before the run begins,
and freed here only if the run cannot be started. -/
def trigger (n : Nat) : Routine TriggerResponse := do
  if ← tryAcquire n then
    let id ← drawRunId
    match ← Routine.attempt (startRun n id) with
    | .ok _ =>
      let time ← Routine.now
      return { success := true, message := "Ingestion pipeline started successfully", id := some id, time,
               status := none }
    | .error fault =>
      if fault.ordinary then
        release n
        refusal n ("Failed to start ingestion pipeline: " ++ fault.message)
      else Routine.fail fault
  else refusal n "Ingestion pipeline is already running"

/-- Waits in the given way for a job that has not ended. -/
def unlessEnded (job : Option Nat) (await : Nat → Control) : Routine Unit :=
  match job with
  | none => return
  | some job => do
    let ended : Bool ← Routine.request (.ended job)
    if !ended then let _ ← Routine.request (await job)

/-- Waits for the run that was triggered last. -/
def wait (n : Nat) : Routine Unit := do
  let c ← Routine.view (·.coordinator n)
  unlessEnded c.task .shield
  let c ← Routine.view (·.coordinator n)
  unlessEnded c.worker .joinWorker

/-- Starts the job that runs the stages again and again, unless it is at work. -/
def startScheduler (n : Nat) : Routine Bool := do
  let c ← Routine.view (·.coordinator n)
  if !c.scheduled.truthy then return false
  let atWork : Bool ← match c.scheduler with
    | none => pure false
    | some task => do
      let ended : Bool ← Routine.request (.ended task)
      pure !ended
  if !atWork then
    let hasLoop : Bool ← Routine.request .hasLoop
    if !hasLoop then Routine.fail (.failure .noLoop)
    let task : Nat ← Routine.request (.spawn (.schedule n))
    Routine.change (Memory.onCoordinator n fun c => { c with scheduler := some task })
    let _ ← c.interval.fixed 0
  return true

/-- Stops that job and waits until it has ended. -/
def stopScheduler (n : Nat) : Routine Unit := do
  let c ← Routine.view (·.coordinator n)
  Routine.change (Memory.onCoordinator n fun c => { c with scheduler := none })
  match c.scheduler with
  | none => return
  | some task =>
    Routine.request (.cancel task)
    (Routine.request (.join task)).andThen fun
      | .error .cancelled => return
      | result => .done result

/-- One round of the schedule: a pause, then a run. -/
def scheduleRound (n : Nat) : Routine Unit := do
  let c ← Routine.view (·.coordinator n)
  Routine.pauseFor c.interval
  runPipeline n

end Coordinator

/-- What a job does. -/
def Job.routine : Job → Routine Yield
  | .ingest n id => do
    Coordinator.runStages n id
    return .nothing
  | .schedule n => do
    Coordinator.scheduleRound n
    return .nothing
  | .describe e m => return .outcome (← enrichWithPermit e m)
  | .search source vector limit threshold kind => return .hits (← source.find vector limit threshold kind)

end CodeAtlas
