import CodeAtlas.Routine
import CodeAtlas.World

namespace CodeAtlas

/-- Who takes turns: the one who runs the loop, or one of the jobs. -/
inductive Party where
  | main
  | job (n : Nat)
  deriving DecidableEq, Inhabited, Repr

/-- What somebody waits for. -/
inductive Hold where
  | turn
  | timer
  | permit
  | granted
  | members (group : Nat)
  | job (n : Nat)
  deriving DecidableEq, Inhabited, Repr

/-- What a wait ends with; only a wait for several jobs ends with more than nothing. -/
abbrev Waited := Except Fault (List Yield)

/-- How far a job is. -/
inductive Phase where
  | fresh
  | waiting (hold : Hold) (resume : Waited → Routine Yield)
  | over (result : Except Fault Yield)
  deriving Inhabited

def Phase.hold (h : Hold) : Phase → Phase
  | .waiting _ resume => .waiting h resume
  | phase => phase

/-- How somebody waits for a job: directly, with one more turn in between, or without regard to the
fault that it may end with. -/
inductive Watch where
  | direct
  | shielded
  | regardless
  deriving DecidableEq, Inhabited, Repr

/-- What a watcher learns of the end of a job. -/
def Watch.news (w : Watch) (result : Except Fault Yield) : Waited :=
  match w with
  | .regardless => .ok []
  | _ => result.map fun _ => []

/-- A job on the agenda. -/
structure Entrant where
  job : Job
  group : Option Nat
  phase : Phase
  /-- Whether it is to stop at its next turn. -/
  stopped : Bool
  watchers : List (Party × Watch)
  deriving Inhabited

/-- Jobs that run beside each other and share permits. -/
structure Group where
  owner : Party
  members : List Nat
  free : Permits
  /-- Who waits for a permit, in order, and whether one was granted that is not yet taken up. -/
  queue : List (Nat × Bool)
  reported : Nat
  settled : Bool
  deriving Inhabited

/-- A turn that is due. -/
inductive Turn where
  | resume (who : Party) (waited : Waited)
  | relay (who : Party) (waited : Waited)
  | report (job : Nat)
  deriving Inhabited

/-- Everything that is under way, on top of the memory and of what surrounds the program. -/
structure Agenda (ω : Type) where
  memory : Memory
  world : ω
  clock : Float
  /-- Whether further jobs can be taken up. -/
  hasLoop : Bool
  ready : List Turn
  timers : List (Float × Party)
  jobs : List Entrant
  groups : List Group

namespace Agenda

variable {ω : Type}

/-- Nothing is under way yet. -/
def start (memory : Memory) (world : ω) (hasLoop : Bool) : Agenda ω where
  memory
  world
  clock := 0
  hasLoop
  ready := []
  timers := []
  jobs := []
  groups := []

def entrant (a : Agenda ω) (n : Nat) : Entrant := part a.jobs n

def group (a : Agenda ω) (n : Nat) : Group := part a.groups n

def onEntrant (n : Nat) (f : Entrant → Entrant) (a : Agenda ω) : Agenda ω :=
  { a with jobs := a.jobs.modify n f }

def onGroup (n : Nat) (f : Group → Group) (a : Agenda ω) : Agenda ω :=
  { a with groups := a.groups.modify n f }

def push (t : Turn) (a : Agenda ω) : Agenda ω := { a with ready := a.ready ++ [t] }

/-- Whether a job has ended. -/
def ended (a : Agenda ω) (n : Nat) : Bool :=
  match (a.entrant n).phase with
  | .over _ => true
  | _ => false

/-- What a job has left behind; nothing as long as it is under way. -/
def result? (a : Agenda ω) (n : Nat) : Option (Except Fault Yield) :=
  match (a.entrant n).phase with
  | .over result => some result
  | _ => none

def setHold (n : Nat) (h : Hold) : Agenda ω → Agenda ω :=
  onEntrant n fun e => { e with phase := e.phase.hold h }

/-- Ends the wait of somebody, who goes on when it is their turn. -/
def wake (who : Party) (waited : Waited) (a : Agenda ω) : Agenda ω :=
  match who with
  | .main => a.push (.resume .main waited)
  | .job n => (a.setHold n .turn).push (.resume (.job n) waited)

def setTimer (who : Party) (seconds : Float) (a : Agenda ω) : Agenda ω :=
  { a with timers := a.timers ++ [(a.clock + seconds, who)] }

def dropTimer (who : Party) (a : Agenda ω) : Agenda ω :=
  { a with timers := a.timers.filter (·.2 != who) }

/-- The timer that is due first, of several the one that was set first, and the others. -/
def firstTimer : List (Float × Party) → Option ((Float × Party) × List (Float × Party))
  | [] => none
  | t :: rest =>
    match firstTimer rest with
    | none => some (t, [])
    | some (s, others) => if s.1 < t.1 then some (s, t :: others) else some (t, rest)

/-- Adds a job; it is not given a turn here. -/
def add (job : Job) (group : Option Nat) (a : Agenda ω) : Agenda ω :=
  { a with jobs := a.jobs ++ [{ job, group, phase := .fresh, stopped := false, watchers := [] }] }

/-- Adds a job that begins when it is its turn. -/
def spawn (job : Job) (group : Option Nat) (a : Agenda ω) : Agenda ω :=
  (a.add job group).push (.resume (.job a.jobs.length) (.ok []))

end Agenda

end CodeAtlas
