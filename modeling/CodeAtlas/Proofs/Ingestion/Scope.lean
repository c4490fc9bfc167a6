import CodeAtlas.Proofs.Ingestion.Orderly
import CodeAtlas.Proofs.Turns.Frame

namespace CodeAtlas

/-- The facade is connected: it has coordinator `n` and registry `r`, which reads from client `g` of a graph. -/
structure Memory.Linked (n r g : Nat) (m : Memory) : Prop where
  present : n < m.coordinators.length
  outside : (m.coordinator n).stages = .outside
  connected : m.facade.connected = true
  coordinator : m.facade.coordinator = some n
  registry : m.facade.registry = some r
  graph : (m.registry r).graph = some g
  client : (m.graph g).connected = true

theorem Memory.Linked.onCoordinator {n r g : Nat} {m : Memory} (linked : m.Linked n r g) {f : Coordinator → Coordinator}
    (stages : ∀ c, (f c).stages = c.stages) : (m.onCoordinator n f).Linked n r g where
  present := by simpa [Memory.onCoordinator] using linked.present
  outside := by rw [Memory.coordinator_onCoordinator f linked.present, stages, linked.outside]
  connected := linked.connected
  coordinator := linked.coordinator
  registry := linked.registry
  graph := linked.graph
  client := linked.client

theorem Memory.Linked.onRegistry {m : Memory} (linked : m.Linked n r g) {f : Registry → Registry}
    (graph : ∀ x, (f x).graph = x.graph) : (m.onRegistry r f).Linked n r g where
  present := linked.present
  outside := linked.outside
  connected := linked.connected
  coordinator := linked.coordinator
  registry := linked.registry
  graph := by rw [Memory.registry_onRegistry f linked.graph, graph, linked.graph]
  client := linked.client

/-- What a coordinator asks: for its stages, and what is answered on the spot. -/
def Ask.OfRun (question : Ask) : Prop := question.stage?.isSome = true ∨ question.prompt = true

namespace Coordinator

open Routine

variable {n r g : Nat} {α : Type}

def bounds (n r g : Nat) : Bounds where
  keeps := Memory.Linked n r g
  writes m m' := m'.registries = m.registries
  asks := Ask.OfRun

/-- A part of the program that leaves the links of a facade and the registries alone, and asks nothing but
what a coordinator does. -/
abbrev Scoped (n r g : Nat) (p : Routine α) : Prop := p.Within (bounds n r g)

theorem change_scoped {f : Coordinator → Coordinator} (stages : ∀ c, (f c).stages = c.stages) :
    Scoped n r g (change (Memory.onCoordinator n f)) :=
  Within.change (fun _ linked => linked.onCoordinator stages) fun _ _ => rfl

theorem onRun_scoped (f : RunState → RunState) : Scoped n r g (onRun n f) := change_scoped fun _ => rfl

theorem stage_scoped {question : Ask} (isStage : question.stage?.isSome = true) : Scoped n r g (query question) :=
  Within.query (.inl isStage)

theorem prompt_scoped {question : Ask} (prompt : question.prompt = true) : Scoped n r g (query question) :=
  Within.query (.inr prompt)

theorem tryAcquire_scoped : Scoped n r g (tryAcquire n) := by
  refine (Within.view _).bind fun c => ?_
  split
  · exact Within.done _
  · exact (onRun_scoped _).bind fun _ => Within.done _

theorem drawRunId_scoped : Scoped n r g drawRunId := (prompt_scoped rfl).bind fun _ => Within.done _

theorem stagesInOrder_scoped (endpoint : Value) (start : Float) : Scoped n r g (stagesInOrder n .outside endpoint start) := by
  refine (onRun_scoped _).bind fun _ => (stage_scoped rfl).bind fun fetched => ?_
  cases fetched with
  | none => exact Within.done _
  | some snapshot =>
    dsimp only
    split
    · exact Within.done _
    · refine (onRun_scoped _).bind fun _ => (stage_scoped rfl).bind fun _ => ?_
      refine (onRun_scoped _).bind fun _ => (stage_scoped rfl).bind fun _ => ?_
      refine (onRun_scoped _).bind fun _ => (stage_scoped rfl).bind fun _ => ?_
      exact (Within.request _).bind fun _ => onRun_scoped _

theorem runStages_scoped (id : String) : Scoped n r g (runStages n id) := by
  refine (Within.request _).bind fun start => (onRun_scoped _).bind fun _ => Within.look fun m linked => ?_
  change Scoped n r g (Routine.ensuring (Routine.rescue (stagesInOrder n (m.coordinator n).stages _ _) _) _)
  rw [linked.outside]
  refine Within.andThen ((stagesInOrder_scoped _ _).rescue fun _ => onRun_scoped _) fun result => ?_
  exact (onRun_scoped _).bind fun _ => Within.done _

theorem runPipeline_scoped : Scoped n r g (runPipeline n) := by
  refine tryAcquire_scoped.bind fun taken => ?_
  split
  · exact drawRunId_scoped.bind runStages_scoped
  · exact Within.done _

theorem startRun_scoped (id : String) : Scoped n r g (startRun n id) := by
  refine (Within.request _).bind fun hasLoop => ?_
  split
  · exact (Within.request _).bind fun _ => change_scoped fun _ => rfl
  · refine (prompt_scoped rfl).bind fun _ => (Within.request _).bind fun _ => change_scoped fun _ => rfl

theorem status_scoped : Scoped n r g (status n) := (Within.view _).bind fun _ => (Within.request _).bind fun _ => Within.done _

theorem refusal_scoped (message : String) : Scoped n r g (refusal n message) := status_scoped.bind fun _ => Within.done _

theorem trigger_scoped : Scoped n r g (trigger n) := by
  refine tryAcquire_scoped.bind fun taken => ?_
  split
  · refine drawRunId_scoped.bind fun id => ?_
    refine Within.bind (Within.andThen (startRun_scoped id) fun _ => Within.done _) fun attempted => ?_
    cases attempted with
    | ok => exact (Within.request _).bind fun _ => Within.done _
    | error fault =>
      dsimp only
      split
      · exact (onRun_scoped _).bind fun _ => refusal_scoped _
      · exact Within.done _
  · exact refusal_scoped _

theorem unlessEnded_scoped (job : Option Nat) (await : Nat → Control) : Scoped n r g (unlessEnded job await) := by
  cases job with
  | none => exact Within.done _
  | some job =>
    refine (Within.request _).bind fun ended => ?_
    split
    · exact (Within.request _).bind fun _ => Within.done _
    · exact Within.done _

theorem wait_scoped : Scoped n r g (wait n) := by
  refine (Within.view _).bind fun c => (unlessEnded_scoped c.task _).bind fun _ => ?_
  exact (Within.view _).bind fun c => unlessEnded_scoped c.worker _

theorem beginSchedule_scoped (interval : Value) : Scoped n r g (do
    let task : Nat ← request (.spawn (.schedule n))
    change (Memory.onCoordinator n fun c => { c with scheduler := some task })
    let _ ← interval.fixed 0
    return true : Routine Bool) := by
  refine (Within.request _).bind fun _ => Within.bind (change_scoped fun _ => rfl) fun _ => ?_
  exact (Within.done _).bind fun _ => Within.done _

theorem startScheduler_scoped : Scoped n r g (startScheduler n) := by
  have begins (interval : Value) : Scoped n r g (do
      let hasLoop : Bool ← request .hasLoop
      if !hasLoop then Routine.fail (.failure .noLoop)
      let task : Nat ← request (.spawn (.schedule n))
      change (Memory.onCoordinator n fun c => { c with scheduler := some task })
      let _ ← interval.fixed 0
      return true : Routine Bool) := by
    refine (Within.request _).bind fun hasLoop => ?_
    cases hasLoop with
    | true => exact beginSchedule_scoped interval
    | false => exact Within.done _
  refine (Within.view _).bind fun c => ?_
  dsimp only
  split
  · exact Within.done _
  · split
    · exact begins c.interval
    · refine (Within.request _).bind fun ended => ?_
      cases ended with
      | true => exact begins c.interval
      | false => exact Within.done _

theorem stopScheduler_scoped : Scoped n r g (stopScheduler n) := by
  refine (Within.view _).bind fun c => Within.bind (change_scoped fun _ => rfl) fun _ => ?_
  split
  · exact Within.done _
  · refine (Within.request _).bind fun _ => (Within.request _).andThen fun result => ?_
    split <;> exact Within.done _

theorem scheduleRound_scoped : Scoped n r g (scheduleRound n) := by
  have pauses (seconds : Value) : Scoped n r g (pauseFor seconds) :=
    (Within.done _).bind fun _ => (Within.done _).bind fun _ => Within.request _
  exact (Within.view _).bind fun c => (pauses c.interval).bind fun _ => runPipeline_scoped

theorem Caller.scoped {program : Routine Yield} (caller : Caller n program) : Scoped n r g program := by
  induction caller with
  | done => exact Within.done _
  | trigger _ ih => exact trigger_scoped.andThen ih
  | runPipeline _ ih => exact runPipeline_scoped.andThen ih
  | startScheduler _ ih => exact startScheduler_scoped.andThen ih
  | stopScheduler _ ih => exact stopScheduler_scoped.andThen ih
  | status _ ih => exact status_scoped.andThen ih
  | wait _ ih => exact wait_scoped.andThen ih
  | pause _ ih => exact (Within.request _).andThen ih

end Coordinator

/-- What a task carries out, unless it is an ingestion, leaves the links and the population alone. -/
theorem Origin.Known.scoped {n r g : Nat} {k : Who} {origin : Origin} (known : origin.Known n k)
    (calls : ∀ program, origin = .caller program → Coordinator.Caller n program) :
    Coordinator.Scoped n r g origin.routine := by
  cases known with
  | caller => exact (calls _ rfl).scoped
  | ingest => exact (Coordinator.runStages_scoped _).bind fun _ => Routine.Within.done _
  | schedule => exact Coordinator.scheduleRound_scoped.bind fun _ => Routine.Within.done _

end CodeAtlas
