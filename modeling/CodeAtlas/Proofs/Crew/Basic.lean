import CodeAtlas.Agenda.Control
import CodeAtlas.Proofs.Turns.Basic

namespace CodeAtlas

/-- What somebody waits for, apart from an answer. -/
inductive Await where
  | time (due : Float)
  | permit
  | members (numbers : List Nat)
  | job (number : Nat) (watch : Watch)

/-- Where somebody stands. An answer is settled when the question is asked, and arrives when it is due. -/
inductive Station where
  | fresh
  | running
  | asking (question : Ask) (reply : Except Fault question.Reply) (due : Float)
      (next : Except Fault question.Reply → Routine Yield)
  | waiting (await : Await) (resume : Waited → Routine Yield)
  | over (result : Except Fault Yield)

/-- Somebody who carries out a job or the program of a caller. One who is stopped goes on with a
cancellation, or never begins. -/
structure Hand where
  origin : Origin
  group : Option Nat
  station : Station
  stopped : Bool

namespace Hand

def new (origin : Origin) (group : Option Nat) : Hand := { origin, group, station := .fresh, stopped := false }

def moved (station : Station) (h : Hand) : Hand := { h with station }

def resumed (h : Hand) : Hand := { h with station := .running, stopped := false }

/-- A job that repeats is due again when it has ended well. -/
def closed (result : Except Fault Yield) (h : Hand) : Hand :=
  match result with
  | .ok last => h.moved (if h.origin.repeats then .fresh else .over (.ok last))
  | .error fault => h.moved (.over (.error fault))

def marked (h : Hand) : Hand :=
  match h.station with
  | .over _ => h
  | _ => { h with stopped := true }

/-- What is heard in place of an answer. -/
def heard {α : Type} (h : Hand) (reply : Except Fault α) : Except Fault α :=
  if h.stopped then .error .cancelled else reply

@[simp] theorem moved_origin (station : Station) (h : Hand) : (h.moved station).origin = h.origin := rfl

@[simp] theorem moved_group (station : Station) (h : Hand) : (h.moved station).group = h.group := rfl

@[simp] theorem moved_station (station : Station) (h : Hand) : (h.moved station).station = station := rfl

@[simp] theorem moved_stopped (station : Station) (h : Hand) : (h.moved station).stopped = h.stopped := rfl

@[simp] theorem resumed_origin (h : Hand) : h.resumed.origin = h.origin := rfl

@[simp] theorem resumed_group (h : Hand) : h.resumed.group = h.group := rfl

@[simp] theorem resumed_station (h : Hand) : h.resumed.station = .running := rfl

@[simp] theorem resumed_stopped (h : Hand) : h.resumed.stopped = false := rfl

@[simp] theorem closed_origin (result : Except Fault Yield) (h : Hand) : (h.closed result).origin = h.origin := by
  cases result <;> rfl

@[simp] theorem closed_group (result : Except Fault Yield) (h : Hand) : (h.closed result).group = h.group := by
  cases result <;> rfl

@[simp] theorem closed_stopped (result : Except Fault Yield) (h : Hand) : (h.closed result).stopped = h.stopped := by
  cases result <;> rfl

@[simp] theorem marked_origin (h : Hand) : h.marked.origin = h.origin := by
  unfold marked
  split <;> rfl

@[simp] theorem marked_group (h : Hand) : h.marked.group = h.group := by
  unfold marked
  split <;> rfl

@[simp] theorem marked_station (h : Hand) : h.marked.station = h.station := by
  unfold marked
  split <;> rfl

/-- Whoever is marked is to be stopped, unless there is nothing left to stop. -/
theorem marked_cases (h : Hand) : h.marked.stopped = true ∨ h.marked = h ∧ ∃ result, h.station = .over result := by
  unfold marked
  split
  next result isOver => exact .inr ⟨rfl, result, isOver⟩
  next => exact .inl rfl

end Hand

namespace Permits

def available : Permits → Bool
  | .limited n => 0 < n
  | .unlimited => true

def less : Permits → Permits
  | .limited n => .limited (n - 1)
  | .unlimited => .unlimited

def more : Permits → Permits
  | .limited n => .limited (n + 1)
  | .unlimited => .unlimited

end Permits

/-- What is noted: when, who and what. -/
abbrev Noted := Float × Who × Deed

/-- Everybody who takes turns on one loop, with what they share, the permits that are free, and what was
done so far. -/
structure Crew (ω : Type) where
  memory : Memory
  world : ω
  clock : Float
  hasLoop : Bool
  jobs : List Hand
  callers : List Hand
  groups : List Permits
  log : List Noted

namespace Crew

open Agenda (overOnly)

variable {ω : Type}

def start (memory : Memory) (world : ω) (hasLoop : Bool) : Crew ω :=
  { memory, world, clock := 0, hasLoop, jobs := [], callers := [], groups := [], log := [] }

def hand? (c : Crew ω) : Who → Option Hand
  | .job j => c.jobs[j]?
  | .caller j => c.callers[j]?

def note (k : Who) (deed : Deed) (c : Crew ω) : Crew ω := { c with log := c.log ++ [(c.clock, k, deed)] }

def onHand (k : Who) (f : Hand → Hand) (c : Crew ω) : Crew ω :=
  { c with
    jobs := match k with
      | .job j => c.jobs.modify j f
      | .caller _ => c.jobs
    callers := match k with
      | .job _ => c.callers
      | .caller j => c.callers.modify j f }

/-- What a job has come to, once it is over. -/
def result? (c : Crew ω) (n : Nat) : Option (Except Fault Yield) :=
  match c.jobs[n]? with
  | some h => match h.station with
    | .over result => some result
    | _ => none
  | none => none

def ended (c : Crew ω) (n : Nat) : Bool := (c.result? n).isSome

def call (program : Routine Yield) (c : Crew ω) : Crew ω :=
  { c with callers := c.callers ++ [.new (.caller program) none] }

def begin (k : Who) (origin : Origin) (c : Crew ω) : Crew ω :=
  (c.note k (.begins origin)).onHand k (Hand.moved .running)

def store (k : Who) (memory : Memory) (c : Crew ω) : Crew ω :=
  { c.note k (.stores c.memory memory) with memory }

/-- A question with its answer on the spot. -/
def exchange (k : Who) (question : Ask) (r : Reaction ω question) (c : Crew ω) : Crew ω :=
  { (c.note k (.asks question)).note k (.hears question r.reply) with world := r.world }

/-- A question whose answer takes its time. What surrounds the program has done its part already. -/
def ask (k : Who) (question : Ask) (r : Reaction ω question) (next : Except Fault question.Reply → Routine Yield)
    (c : Crew ω) : Crew ω :=
  { (c.note k (.asks question)).onHand k (Hand.moved (.asking question r.reply (c.clock + r.delay) next)) with
    world := r.world }

def hear (k : Who) (question : Ask) (heard : Except Fault question.Reply) (c : Crew ω) : Crew ω :=
  (c.note k (.hears question heard)).onHand k Hand.resumed

def rest (k : Who) (await : Await) (resume : Waited → Routine Yield) : Crew ω → Crew ω :=
  onHand k (Hand.moved (.waiting await resume))

def goOn (k : Who) : Crew ω → Crew ω := onHand k Hand.resumed

def close (k : Who) (result : Except Fault Yield) : Crew ω → Crew ω := onHand k (Hand.closed result)

def add (job : Job) (c : Crew ω) : Crew ω := { c with jobs := c.jobs ++ [.new (.job job) none] }

def spawn (k : Who) (job : Job) (c : Crew ω) : Crew ω := (c.note k (.starts job c.jobs.length)).add job

/-- Marks jobs as stopped. -/
def halt (numbers : List Nat) (c : Crew ω) : Crew ω :=
  { c with jobs := c.jobs.mapIdx fun j h => if j ∈ numbers then h.marked else h }

/-- The numbers of jobs that are added together. -/
def numbers (c : Crew ω) (jobs : List Job) : List Nat := (List.range jobs.length).map (c.jobs.length + ·)

def gather (permits : Permits) (jobs : List Job) (c : Crew ω) : Crew ω :=
  { c with
    jobs := c.jobs ++ jobs.map fun job => .new (.job job) (some c.groups.length)
    groups := c.groups ++ [permits] }

def groupOf (c : Crew ω) (k : Who) : Option Nat := (c.hand? k).bind (·.group)

/-- Whether a permit is free; one who is in no group needs none. -/
def isFree (c : Crew ω) (k : Who) : Bool :=
  match c.groupOf k with
  | some g => ((c.groups[g]?).map Permits.available).getD true
  | none => true

def onGroup (k : Who) (f : Permits → Permits) (c : Crew ω) : Crew ω :=
  match c.groupOf k with
  | some g => { c with groups := c.groups.modify g f }
  | none => c

/-- What jobs that run beside each other leave behind: something each, or the fault of one of them. -/
def Leaves (c : Crew ω) (members : List Nat) (waited : Waited) : Prop :=
  (∃ yields : List Yield, members.map c.result? = yields.map (fun y => some (.ok y)) ∧ waited = .ok yields) ∨
    ∃ m ∈ members, ∃ fault, c.result? m = some (.error fault) ∧ waited = .error fault

/-- Who is stopped along with a job: those that it waits for until the last of them has ended, or the job itself,
once there is news for it if it waits for others. -/
def Halts (c : Crew ω) (n : Nat) (numbers : List Nat) : Prop :=
  (∃ h resume, c.jobs[n]? = some h ∧ h.station = .waiting (.members numbers) resume ∧
    numbers.all c.ended = false) ∨
  (numbers = [n] ∧ ∀ h members resume, c.jobs[n]? = some h → h.station = .waiting (.members members) resume →
    ∃ waited, c.Leaves members waited)

/-- What a request that is granted at once does. -/
def Grants (c : Crew ω) (k : Who) : (request : Control) → Except Fault request.Reply → Crew ω → Prop
  | .now, reply, c' => reply = .ok c.clock ∧ c' = c
  | .hasLoop, reply, c' => reply = .ok c.hasLoop ∧ c' = c
  | .pause _, _, _ => False
  | .spawn job, reply, c' => reply = .ok c.jobs.length ∧ c' = c.spawn k job
  | .dispatch job, reply, c' => reply = .ok c.jobs.length ∧ c' = c.spawn k job
  | .ended n, reply, c' => reply = .ok (c.ended n) ∧ c' = c
  | .join n, reply, c' => (∃ result, c.result? n = some result ∧ reply = overOnly (Watch.direct.news result)) ∧ c' = c
  | .shield n, reply, c' => (∃ result, c.result? n = some result ∧ reply = overOnly (Watch.shielded.news result)) ∧ c' = c
  | .joinWorker n, reply, c' =>
    (∃ result, c.result? n = some result ∧ reply = overOnly (Watch.regardless.news result)) ∧ c' = c
  | .cancel n, reply, c' => reply = .ok () ∧ ∃ numbers, c.Halts n numbers ∧ c' = c.halt numbers
  | .gather _ jobs, reply, c' => jobs = [] ∧ reply = .ok [] ∧ c' = c
  | .takePermit, reply, c' => c.isFree k = true ∧ reply = .ok () ∧ c' = c.onGroup k Permits.less
  | .givePermit, reply, c' => reply = .ok () ∧ c' = c.onGroup k Permits.more

/-- How a request is put off: what is waited for, and how the end of the wait is read. -/
def Waits (c : Crew ω) : (request : Control) → Await → (Waited → Except Fault request.Reply) → Crew ω → Prop
  | .pause seconds, await, read, c' =>
    await = .time (if seconds ≤ 0 then c.clock else c.clock + seconds) ∧ read = overOnly ∧ c' = c
  | .join n, await, read, c' => await = .job n .direct ∧ read = overOnly ∧ c' = c
  | .shield n, await, read, c' => await = .job n .shielded ∧ read = overOnly ∧ c' = c
  | .joinWorker n, await, read, c' => await = .job n .regardless ∧ read = overOnly ∧ c' = c
  | .gather permits jobs, await, read, c' =>
    await = .members (c.numbers jobs) ∧ read = id ∧ c' = c.gather permits jobs
  | .takePermit, await, read, c' => await = .permit ∧ read = overOnly ∧ c' = c
  | _, _, _, _ => False

/-- What has come of what somebody waits for. -/
def News (c : Crew ω) (k : Who) : Await → Waited → Crew ω → Prop
  | .time due, waited, c' => c.clock = due ∧ waited = .ok [] ∧ c' = c
  | .permit, waited, c' => c.isFree k = true ∧ waited = .ok [] ∧ c' = c.onGroup k Permits.less
  | .members numbers, waited, c' => c.Leaves numbers waited ∧ c' = c
  | .job n watch, waited, c' => (∃ result, c.result? n = some result ∧ waited = watch.news result) ∧ c' = c

/-- How a wait ends: with a cancellation for one who is stopped, else with what is waited for. -/
def Wakes (c : Crew ω) (k : Who) (h : Hand) (await : Await) (waited : Waited) (c' : Crew ω) : Prop :=
  if h.stopped then waited = .error .cancelled ∧ c' = c else c.News k await waited c'

end Crew

/-- A crew and the one whose turn it is, with the rest of the routine. -/
structure Shift (ω : Type) where
  crew : Crew ω
  turn : Option (Who × Routine Yield)

namespace Shift

variable {ω : Type}

/-- One step of a crew whose members take their turns in any order. A turn lasts until its owner waits or
ends, and no time passes within it. Callers come at any time. -/
inductive Step (w : World ω) (callers : Routine Yield → Prop) : Shift ω → Shift ω → Prop
  | look {c k next} : Step w callers ⟨c, some (k, .look next)⟩ ⟨c, some (k, next c.memory)⟩
  | store {c k memory next} :
      Step w callers ⟨c, some (k, .store memory next)⟩ ⟨c.store k memory, some (k, next)⟩
  | exchange {c k question next} : ¬0 < (w.answer question c.clock c.world).delay →
      Step w callers ⟨c, some (k, .ask question next)⟩
        ⟨c.exchange k question (w.answer question c.clock c.world),
          some (k, next (w.answer question c.clock c.world).reply)⟩
  | ask {c k question next} : 0 < (w.answer question c.clock c.world).delay →
      Step w callers ⟨c, some (k, .ask question next)⟩
        ⟨c.ask k question (w.answer question c.clock c.world) next, none⟩
  | grant {c k request next reply c'} : c.Grants k request reply c' →
      Step w callers ⟨c, some (k, .control request next)⟩ ⟨c', some (k, next reply)⟩
  | wait {c k request next await read c'} : c.Waits request await read c' →
      Step w callers ⟨c, some (k, .control request next)⟩ ⟨c'.rest k await fun waited => next (read waited), none⟩
  | close {c k result} : Step w callers ⟨c, some (k, .done result)⟩ ⟨c.close k result, none⟩
  | begin {c k h} : c.hand? k = some h → h.station = .fresh → h.stopped = false →
      Step w callers ⟨c, none⟩ ⟨c.begin k h.origin, some (k, h.origin.routine)⟩
  | drop {c k h} : c.hand? k = some h → h.station = .fresh → h.stopped = true →
      Step w callers ⟨c, none⟩ ⟨c.close k (.error .cancelled), none⟩
  | hear {c k h question reply due next} : c.hand? k = some h → h.station = .asking question reply due next →
      (h.stopped = false → c.clock = due) →
      Step w callers ⟨c, none⟩ ⟨c.hear k question (h.heard reply), some (k, next (h.heard reply))⟩
  | resume {c k h await resume waited c'} : c.hand? k = some h → h.station = .waiting await resume →
      c.Wakes k h await waited c' → Step w callers ⟨c, none⟩ ⟨c'.goOn k, some (k, resume waited)⟩
  | call {c program} : callers program → Step w callers ⟨c, none⟩ ⟨c.call program, none⟩
  | pass {c} (time : Float) : Step w callers ⟨c, none⟩ ⟨{ c with clock := time }, none⟩

/-- What can become of a crew that begins with nobody. -/
inductive Reach (w : World ω) (callers : Routine Yield → Prop) (memory : Memory) (world : ω) (hasLoop : Bool) :
    Shift ω → Prop
  | start : Reach w callers memory world hasLoop ⟨.start memory world hasLoop, none⟩
  | next {a b} : Reach w callers memory world hasLoop a → Step w callers a b → Reach w callers memory world hasLoop b

end Shift

end CodeAtlas
