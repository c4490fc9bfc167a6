import CodeAtlas.Proofs.Ingestion.Course
import CodeAtlas.Proofs.Ingestion.Regular

namespace CodeAtlas

/-- What has become of a run. -/
inductive Fate where
  | underway
  | empty
  | completed (stop : Float)
  | failed (stage : Stage) (fault : Fault)
  | aborted

/-- A run of a coordinator: its name, when its first stage was called, and what has become of it. -/
structure Run where
  id : String
  start : Float
  fate : Fate

/-- What the answer of a stage makes of a run. -/
def Fate.after (stage : Stage) (time : Float) (question : Ask) (reply : Except Fault question.Reply) : Fate :=
  match reply with
  | .error fault => if fault.ordinary then .failed stage fault else .aborted
  | .ok _ => if !question.goesOn reply then .empty else if stage = .vectorize then .completed time else .underway

namespace Run

/-- An ordinary fault is told with the stage that it came from. -/
def error? (r : Run) : Option String :=
  match r.fate with
  | .failed stage fault => some (stage.name ++ ": " ++ fault.message)
  | _ => none

/-- When a run began that completed all its stages, and when it was done. -/
def span? (r : Run) : Option (Float × Float) :=
  match r.fate with
  | .completed stop => some (r.start, stop)
  | _ => none

/-- The last run that completed all its stages. -/
def lastSpan? (runs : List Run) : Option (Float × Float) := (runs.filterMap span?).getLast?

def turns (fate : Fate) (r : Run) : Run := { r with fate }

/-- Something else becomes of the last run. -/
def amend (fate : Fate) (runs : List Run) : List Run := runs.dropLast ++ (runs.getLast?.map (turns fate)).toList

theorem amend_snoc (fate : Fate) (past : List Run) (r : Run) : amend fate (past ++ [r]) = past ++ [r.turns fate] := by
  simp [amend]

end Run

/-- What the deeds of those who had the lock of a coordinator say about its runs: who has the lock, the name
that is at hand for the next run, and all runs so far. -/
structure Chronicle where
  owner : Option Who
  name : Option String
  runs : List Run

/-- The name under which a run is to begin. -/
def Deed.names (n : Nat) (name : Option String) : Deed → Option String
  | .begins (.job (.ingest m id)) => if m = n then some id else name
  | .hears .drawId (.ok drawn) => some (drawnId drawn)
  | _ => name

/-- The runs after a deed of somebody who has the lock: a run begins with the call of its first stage, and the answer
of each stage tells what becomes of it. -/
def Deed.tells (time : Float) (name : Option String) (runs : List Run) : Deed → List Run
  | .asks (.fetchSnapshot _) => runs ++ [⟨name.getD "", time, .underway⟩]
  | .hears question reply =>
    match question.stage? with
    | some stage => Run.amend (.after stage time question reply) runs
    | none => runs
  | _ => runs

namespace Chronicle

def enter (n : Nat) (c : Chronicle) (noted : Noted) : Chronicle where
  owner := noted.2.2.passes n noted.2.1 c.owner
  name := if c.owner = some noted.2.1 then noted.2.2.names n c.name else c.name
  runs := if c.owner = some noted.2.1 then noted.2.2.tells noted.1 c.name c.runs else c.runs

def blank : Chronicle := ⟨none, none, []⟩

def after (n : Nat) (c : Chronicle) (log : List Noted) : Chronicle := log.foldl (enter n) c

theorem after_append (n : Nat) (c : Chronicle) (log log' : List Noted) :
    c.after n (log ++ log') = (c.after n log).after n log' := List.foldl_append

theorem after_owner (n : Nat) (c : Chronicle) (log : List Noted) : (c.after n log).owner = Log.ownerFrom n c.owner log := by
  induction log generalizing c with
  | nil => rfl
  | cons noted rest ih => exact ih (c.enter n noted)

/-- What the others do is not told of the run of an owner. -/
theorem after_others {n : Nat} {k : Who} {c : Chronicle} {m : Memory} {log : List Noted} (own : c.owner = some k)
    (lawful : Log.Lawful n (some k) log) (chained : Log.Chained m log) (others : ∀ noted ∈ log, noted.2.1 ≠ k) :
    (c.after n log).name = c.name ∧ (c.after n log).runs = c.runs := by
  induction log generalizing c m with
  | nil => exact ⟨rfl, rfl⟩
  | cons noted rest ih =>
    have other : noted.2.1 ≠ k := others noted (List.mem_cons_self ..)
    have apart : c.owner ≠ some noted.2.1 := fun same => other (Option.some.inj (same.symm.trans own))
    have stays : (c.enter n noted).owner = some k := by
      have chained' : Log.Chained m [noted] := by
        obtain ⟨time, j, deed⟩ := noted
        cases deed <;> first | exact ⟨chained.1, trivial⟩ | trivial
      have lawful' : Log.Lawful n (some k) [noted] := ⟨lawful.1, trivial⟩
      have kept := Log.kept lawful' chained' (by simpa using other)
      show noted.2.2.passes n noted.2.1 c.owner = some k
      rw [own]
      exact kept.1
    have onward : ∃ m', Log.Chained m' rest := by
      obtain ⟨time, j, deed⟩ := noted
      cases deed <;> first | exact ⟨_, chained.2⟩ | exact ⟨_, chained⟩
    obtain ⟨m', chained'⟩ := onward
    have lawful' : Log.Lawful n (some k) rest := by
      have := lawful.2
      rwa [← own, show noted.2.2.passes n noted.2.1 c.owner = some k from stays] at this
    obtain ⟨name, runs⟩ := ih stays lawful' chained' fun noted inside => others noted (List.mem_cons_of_mem _ inside)
    have same : (c.enter n noted).name = c.name ∧ (c.enter n noted).runs = c.runs := ⟨if_neg apart, if_neg apart⟩
    exact ⟨name.trans same.1, runs.trans same.2⟩

end Chronicle

end CodeAtlas
