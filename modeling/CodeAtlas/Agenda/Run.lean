import CodeAtlas.Agenda.Control
import CodeAtlas.Ingestion

namespace CodeAtlas

/-- How far a routine has come. -/
inductive Advance (α : Type) where
  | ended (result : Except Fault α)
  | waits (hold : Hold) (resume : Waited → Routine α)

namespace Agenda

variable {ω α : Type}

/-- Carries out a routine until it ends or has to wait. Nobody else takes a turn in the meantime. -/
def advance (w : World ω) (who : Party) : Routine α → Agenda ω → Agenda ω × Advance α
  | .done result, a => (a, .ended result)
  | .look next, a => advance w who (next a.memory) a
  | .store memory next, a => advance w who next { a with memory }
  | .ask question next, a =>
    let reaction := w.answer question a.clock a.world
    let a := { a with world := reaction.world }
    if 0 < reaction.delay then
      (a.setTimer who reaction.delay, .waits .timer fun waited => next (waited.bind fun _ => reaction.reply))
    else advance w who (next reaction.reply) a
  | .control c next, a =>
    match a.handle who c with
    | (a, .atOnce reply) => advance w who (next reply) a
    | (a, .later hold read) => (a, .waits hold fun waited => next (read waited))

/-- A job has ended: those who wait for it are told, and so is its group. -/
def finish (n : Nat) (result : Except Fault Yield) (a : Agenda ω) : Agenda ω :=
  let e := a.entrant n
  let a := a.onEntrant n fun e => { e with phase := .over result, stopped := false, watchers := [] }
  let a := e.watchers.foldl (fun a (who, watch) =>
    let news := watch.news result
    match watch with
    | .shielded => a.push (.relay who news)
    | _ => a.wake who news) a
  match e.group with
  | some _ => a.push (.report n)
  | none => a

/-- What a job has come to: it waits, or it has ended. -/
def settle (n : Nat) : Agenda ω × Advance Yield → Agenda ω
  | (a, .waits hold resume) => a.onEntrant n fun e => { e with phase := .waiting hold resume }
  | (a, .ended result) => a.finish n result

/-- Carries out a job from where it is. A job that repeats starts over when it has ended well; should
that end well without a wait, it begins anew with its next turn. -/
def carryOut (w : World ω) (n : Nat) (p : Routine Yield) (a : Agenda ω) : Agenda ω :=
  let job := (a.entrant n).job
  match a.advance w (.job n) p with
  | (a, .ended (.ok last)) =>
    if job.repeats then
      match a.advance w (.job n) job.routine with
      | (a, .ended (.ok _)) =>
        (a.onEntrant n fun e => { e with phase := .fresh }).push (.resume (.job n) (.ok []))
      | other => settle n other
    else a.finish n (.ok last)
  | other => settle n other

/-- The turn of a job. One that is to stop goes on with a cancellation, or does not begin at all. -/
def resumeJob (w : World ω) (n : Nat) (waited : Waited) (a : Agenda ω) : Agenda ω :=
  match a.jobs[n]? with
  | none => a
  | some e =>
    match e.phase with
    | .over _ => a
    | .fresh => if e.stopped then a.finish n (.error .cancelled) else a.carryOut w n e.job.routine
    | .waiting hold resume =>
      let waited := if e.stopped then .error .cancelled else waited
      let a := match hold, e.group with
        | .granted, some g => a.takeUpGrant g n e.stopped
        | _, _ => a
      (a.onEntrant n fun e => { e with stopped := false }).carryOut w n (resume waited)

/-- What the jobs of a group have left behind, in order. -/
def yields (a : Agenda ω) (members : List Nat) : List Yield :=
  members.filterMap fun n =>
    match a.result? n with
    | some (.ok y) => some y
    | _ => none

/-- A group learns that one of its jobs has ended. The first fault ends the wait for the group, and
otherwise the last of its jobs does. -/
def report (n : Nat) (a : Agenda ω) : Agenda ω :=
  match (a.entrant n).group with
  | none => a
  | some g =>
    let group := a.group g
    if group.settled then a
    else match a.result? n with
      | some (.error fault) =>
        (a.onGroup g fun group => { group with settled := true }).wake group.owner (.error fault)
      | _ =>
        let reported := group.reported + 1
        if reported = group.members.length then
          (a.onGroup g fun group => { group with reported, settled := true }).wake group.owner
            (.ok (a.yields group.members))
        else a.onGroup g fun group => { group with reported }

/-- Carries out a turn. The turn of the one who runs the loop is left to them. -/
def take (w : World ω) (t : Turn) (a : Agenda ω) : Agenda ω × Option Waited :=
  match t with
  | .resume .main waited => (a, some waited)
  | .resume (.job n) waited => (a.resumeJob w n waited, none)
  | .relay who waited => (a.wake who waited, none)
  | .report n => (a.report n, none)

/-- Carries out the turn that is due next. The clock moves on, to the first timer, only when no turn
is due. There is no next turn when all wait for nothing. -/
def step (w : World ω) (a : Agenda ω) : Option (Agenda ω × Option Waited) :=
  match a.ready with
  | t :: rest => some (take w t { a with ready := rest })
  | [] =>
    match firstTimer a.timers with
    | some ((time, who), others) =>
      some (take w (.resume who (.ok [])) { a with clock := time, timers := others })
    | none => none

/-- Lets all take their turns until the one who runs the loop has ended. -/
def turns (w : World ω) : Nat → (Waited → Routine α) → Agenda ω → Agenda ω × Option (Except Fault α)
  | 0, _, a => (a, none)
  | fuel + 1, resume, a =>
    match a.step w with
    | none => (a, none)
    | some (a, none) => turns w fuel resume a
    | some (a, some waited) =>
      match a.advance w .main (resume waited) with
      | (a, .ended result) => (a, some result)
      | (a, .waits _ resume) => turns w fuel resume a

/-- Runs a routine, and the jobs beside it, until the routine has ended. There is no result when it
does not end within so many turns. -/
def run (w : World ω) (fuel : Nat) (p : Routine α) (a : Agenda ω) : Agenda ω × Option (Except Fault α) :=
  match a.advance w .main p with
  | (a, .ended result) => (a, some result)
  | (a, .waits _ resume) => turns w fuel resume a

end Agenda

end CodeAtlas
