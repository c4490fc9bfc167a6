import CodeAtlas.Agenda.Stop

namespace CodeAtlas

/-- What the loop does with a request: it answers at once, or lets the party wait and answers with
what the wait ends with. -/
inductive Handled (c : Control) where
  | atOnce (reply : Except Fault c.Reply)
  | later (hold : Hold) (read : Waited → Except Fault c.Reply)

namespace Agenda

variable {ω : Type}

/-- The group that a party belongs to. -/
def groupOf (who : Party) (a : Agenda ω) : Option Nat :=
  match who with
  | .main => none
  | .job n => (a.entrant n).group

/-- A wait whose only news is that it is over. -/
def overOnly (waited : Waited) : Except Fault Unit := waited.map fun _ => ()

/-- Lets a party wait for a job, unless it has ended. -/
def await (who : Party) (n : Nat) (watch : Watch) (a : Agenda ω) :
    Agenda ω × (Except Fault Unit ⊕ (Hold × (Waited → Except Fault Unit))) :=
  match a.result? n with
  | some result => (a, .inl (overOnly (watch.news result)))
  | none => (a.onEntrant n fun e => { e with watchers := e.watchers ++ [(who, watch)] }, .inr (.job n, overOnly))

/-- Opens a group and gives each of its jobs a turn. -/
def gather (who : Party) (permits : Permits) (jobs : List Job) (a : Agenda ω) : Agenda ω :=
  let g := a.groups.length
  let members := (List.range jobs.length).map (a.jobs.length + ·)
  let group : Group := { owner := who, members, free := permits, queue := [], reported := 0, settled := false }
  jobs.foldl (fun a job => a.spawn job (some g)) { a with groups := a.groups ++ [group] }

/-- Takes a permit of a group, or puts the job into the queue for one. -/
def takePermit (g n : Nat) (a : Agenda ω) : Agenda ω × Bool :=
  if (a.group g).isOpen then (a.onGroup g (Group.withFree (· - 1)), true)
  else (a.onGroup g fun group => { group with queue := group.queue ++ [(n, false)] }, false)

/-- Deals with what a party asks of the loop. -/
def handle (who : Party) (c : Control) (a : Agenda ω) : Agenda ω × Handled c :=
  match c with
  | .now => (a, .atOnce (.ok a.clock))
  | .hasLoop => (a, .atOnce (.ok a.hasLoop))
  | .pause seconds =>
    if seconds ≤ 0 then (a.push (.resume who (.ok [])), .later .turn overOnly)
    else (a.setTimer who seconds, .later .timer overOnly)
  | .spawn job => (a.spawn job none, .atOnce (.ok a.jobs.length))
  | .dispatch job => (a.add job none, .atOnce (.ok a.jobs.length))
  | .ended n => (a, .atOnce (.ok (a.ended n)))
  | .join n =>
    match a.await who n .direct with
    | (a, .inl reply) => (a, .atOnce reply)
    | (a, .inr (hold, read)) => (a, .later hold read)
  | .shield n =>
    match a.await who n .shielded with
    | (a, .inl reply) => (a, .atOnce reply)
    | (a, .inr (hold, read)) => (a, .later hold read)
  | .joinWorker n =>
    match a.await who n .regardless with
    | (a, .inl reply) => (a, .atOnce reply)
    | (a, .inr (hold, read)) => (a.push (.resume (.job n) (.ok [])), .later hold read)
  | .cancel n => (a.stop n, .atOnce (.ok ()))
  | .gather permits jobs =>
    if jobs.isEmpty then (a, .atOnce (.ok []))
    else (a.gather who permits jobs, .later (.members a.groups.length) id)
  | .takePermit =>
    match who, a.groupOf who with
    | .job n, some g =>
      match a.takePermit g n with
      | (a, true) => (a, .atOnce (.ok ()))
      | (a, false) => (a, .later .permit overOnly)
    | _, _ => (a, .atOnce (.ok ()))
  | .givePermit =>
    match a.groupOf who with
    | some g => (a.givePermit g, .atOnce (.ok ()))
    | none => (a, .atOnce (.ok ()))

end Agenda

end CodeAtlas
