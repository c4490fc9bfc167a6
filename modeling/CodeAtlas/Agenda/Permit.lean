import CodeAtlas.Agenda.Basic

namespace CodeAtlas

namespace Group

/-- Whether a permit is free and nobody waits for one. -/
def isOpen (g : Group) : Bool :=
  match g.free with
  | .unlimited => true
  | .limited n => 0 < n && g.queue.isEmpty

def withFree (f : Nat → Nat) (g : Group) : Group :=
  match g.free with
  | .unlimited => g
  | .limited n => { g with free := .limited (f n) }

def hasFree (g : Group) : Bool :=
  match g.free with
  | .unlimited => true
  | .limited n => 0 < n

/-- Takes a job off the queue. -/
def leaveQueue (n : Nat) (g : Group) : Group :=
  { g with queue := g.queue.filter (·.1 != n) }

/-- The first in the queue who has no grant yet. -/
def nextInQueue (g : Group) : Option Nat :=
  (g.queue.find? fun entry => !entry.2).map (·.1)

/-- Sets a permit aside for somebody in the queue. -/
def grant (n : Nat) (g : Group) : Group :=
  withFree (· - 1) { g with queue := g.queue.map fun entry => if entry.1 = n then (n, true) else entry }

end Group

namespace Agenda

variable {ω : Type}

/-- Grants a permit to the first in the queue who has none. -/
def grantNext (g : Nat) (a : Agenda ω) : Agenda ω :=
  match (a.group g).nextInQueue with
  | none => a
  | some n =>
    ((a.onGroup g (Group.grant n)).setHold n .granted).push (.resume (.job n) (.ok []))

/-- Hands a permit back. -/
def givePermit (g : Nat) (a : Agenda ω) : Agenda ω :=
  (a.onGroup g (Group.withFree (· + 1))).grantNext g

/-- A job takes up the permit that it was granted, or hands it back because it is to stop. -/
def takeUpGrant (g n : Nat) (stopped : Bool) (a : Agenda ω) : Agenda ω :=
  let a := a.onGroup g (Group.leaveQueue n)
  if stopped then a.givePermit g
  else if (a.group g).hasFree then a.grantNext g else a

end Agenda

end CodeAtlas
