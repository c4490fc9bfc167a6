import CodeAtlas.Agenda.Permit

namespace CodeAtlas.Agenda

variable {ω : Type}

def markStopped (n : Nat) : Agenda ω → Agenda ω :=
  onEntrant n fun e => { e with stopped := true }

/-- Stops a job: at once where it waits for a timer or a permit, else at its next turn. -/
def stopOne (n : Nat) (a : Agenda ω) : Agenda ω :=
  match (a.entrant n).phase with
  | .over _ => a
  | .fresh => a.markStopped n
  | .waiting hold _ =>
    match hold with
    | .timer => (a.dropTimer (.job n)).wake (.job n) (.error .cancelled)
    | .permit =>
      match (a.entrant n).group with
      | some g => (a.onGroup g (Group.leaveQueue n)).wake (.job n) (.error .cancelled)
      | none => a.markStopped n
    | _ => a.markStopped n

/-- Stops a job. One that waits for a group stops through the members of the group, unless all of
them have ended. -/
def stop (n : Nat) (a : Agenda ω) : Agenda ω :=
  match (a.entrant n).phase with
  | .waiting (.members g) _ =>
    let members := (a.group g).members
    if members.all a.ended then a.markStopped n else members.foldl (fun a m => a.stopOne m) a
  | _ => a.stopOne n

end CodeAtlas.Agenda
