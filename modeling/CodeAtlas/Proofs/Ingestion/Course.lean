import CodeAtlas.Proofs.Turns.Basic

namespace CodeAtlas

def Ask.stage? : Ask → Option Stage
  | .fetchSnapshot _ => some .fetch
  | .perform stage => some stage
  | _ => none

/-- Whether a run goes on after the answer of a stage. -/
def Ask.goesOn : (question : Ask) → Except Fault question.Reply → Bool
  | .fetchSnapshot _, .ok (some snapshot) => !snapshot.isEmpty
  | .perform _, .ok _ => true
  | _, _ => false

def Stage.next? : Stage → Option Stage
  | .fetch => some .build
  | .build => some .enrich
  | .enrich => some .vectorize
  | .vectorize => none

/-- What the deeds of all tasks mean for the runs of one coordinator. -/
inductive RunEvent where
  | took
  | gave (job : Nat)
  | refused
  | begun
  | called (question : Ask)
  | heard (question : Ask) (reply : Except Fault question.Reply)
  | freed

def Memory.locked (m : Memory) (n : Nat) : Bool := (m.coordinator n).run.locked

def Deed.event (n : Nat) : Deed → Option RunEvent
  | .begins (.job (.ingest m _)) => if m = n then some .begun else none
  | .begins _ => none
  | .stores before after =>
    match before.locked n, after.locked n with
    | false, true => some .took
    | true, false => some .freed
    | _, _ => none
  | .asks question => question.stage?.map fun _ => .called question
  | .hears (.newWorker _) (.error _) => some .refused
  | .hears question reply => question.stage?.map fun _ => .heard question reply
  | .starts (.ingest m _) job => if m = n then some (.gave job) else none
  | .starts _ _ => none

def runEvents (n : Nat) (trace : List (Who × Deed)) : List (Who × RunEvent) :=
  trace.filterMap fun entry => (entry.2.event n).map (entry.1, ·)

def lockEvents (k : Who) : Bool → Bool → List (Who × RunEvent)
  | false, true => [(k, .took)]
  | true, false => [(k, .freed)]
  | _, _ => []

/-- The kinds of events, apart from what was asked and answered. -/
inductive RunEvent.Kind where
  | took
  | gave
  | refused
  | begun
  | called
  | heard
  | freed
  deriving DecidableEq

def RunEvent.kind : RunEvent → RunEvent.Kind
  | .took => .took
  | .gave _ => .gave
  | .refused => .refused
  | .begun => .begun
  | .called _ => .called
  | .heard _ _ => .heard
  | .freed => .freed

def tally (kind : RunEvent.Kind) (events : List (Who × RunEvent)) : Nat := events.countP (·.2.kind = kind)

theorem tally_append (kind : RunEvent.Kind) (events events' : List (Who × RunEvent)) :
    tally kind (events ++ events') = tally kind events + tally kind events' := List.countP_append

/-- Where the run of a coordinator stands, and on whose account: nobody has the lock; somebody took
it, was refused a worker, or gave it to a job; the job has begun; a stage was called, or answered. -/
inductive Course where
  | idle
  | held (k : Who)
  | refused (k : Who)
  | given (k : Who)
  | begun (k : Who)
  | calling (k : Who) (question : Ask)
  | answered (k : Who) (question : Ask) (reply : Except Fault question.Reply)

namespace Course

def owner : Course → Option Who
  | .idle => none
  | .held k => some k
  | .refused k => some k
  | .given k => some k
  | .begun k => some k
  | .calling k _ => some k
  | .answered k _ _ => some k

/-- What may happen next, and by whom. -/
inductive Takes : Course → Who → RunEvent → Course → Prop
  | took {k} : Takes .idle k .took (.held k)
  | refused {k} : Takes (.held k) k .refused (.refused k)
  | gave {k job} : Takes (.held k) k (.gave job) (.given (.job job))
  | begun {k} : Takes (.given k) k .begun (.begun k)
  | first {k question} : question.stage? = some .fetch → Takes (.held k) k (.called question) (.calling k question)
  | firstOfJob {k question} : question.stage? = some .fetch →
      Takes (.begun k) k (.called question) (.calling k question)
  | later {k question reply question' stage stage'} : question.goesOn reply = true →
      question.stage? = some stage → stage.next? = some stage' → question'.stage? = some stage' →
      Takes (.answered k question reply) k (.called question') (.calling k question')
  | heard {k question reply} : Takes (.calling k question) k (.heard question reply) (.answered k question reply)
  | gaveBack {k} : Takes (.refused k) k .freed .idle
  | ended {k question reply} : (question.goesOn reply = true → question.stage? = some .vectorize) →
      Takes (.answered k question reply) k .freed .idle

/-- The course that a list of events leads to. -/
inductive Along : List (Who × RunEvent) → Course → Prop
  | start : Along [] .idle
  | next {events c k event c'} : Along events c → Takes c k event c' → Along (events ++ [(k, event)]) c'

end Course

/-- What the runs have come to: whether one of them completed, and whether the one that began last has
failed. -/
structure Ledger where
  completed : Bool
  failed : Bool

namespace Ledger

/-- A run begins with its first stage, completes with its last one, and fails by an ordinary fault of any. -/
def enter (l : Ledger) : RunEvent → Ledger
  | .called question => if question.stage? = some .fetch then { l with failed := false } else l
  | .heard question (.ok _) => if question.stage? = some .vectorize then { l with completed := true } else l
  | .heard _ (.error fault) => if fault.ordinary then { l with failed := true } else l
  | _ => l

theorem enter_value (l : Ledger) (question : Ask) (value : question.Reply) : l.enter (.heard question (.ok value)) =
    if question.stage? = some .vectorize then { l with completed := true } else l := rfl

theorem enter_fault (l : Ledger) (question : Ask) (fault : Fault) : l.enter (.heard question (.error fault)) =
    if fault.ordinary then { l with failed := true } else l := rfl

def after (l : Ledger) (events : List (Who × RunEvent)) : Ledger := events.foldl (fun l entry => l.enter entry.2) l

theorem after_snoc (l : Ledger) (events : List (Who × RunEvent)) (k : Who) (event : RunEvent) :
    l.after (events ++ [(k, event)]) = (l.after events).enter event := List.foldl_append

theorem after_append (l : Ledger) (events events' : List (Who × RunEvent)) :
    l.after (events ++ events') = (l.after events).after events' := List.foldl_append

end Ledger

def RunState.ledger (r : RunState) : Ledger := ⟨r.finishedAt.isSome, r.lastError.isSome⟩

/-- What is noted of the runs while nobody but the owner can change it. The owner brings it up to date
before it waits or frees the lock. -/
def Course.Tells (r : RunState) (l : Ledger) : Course → Prop
  | .idle => r.ledger = l
  | .refused _ => r.ledger = l
  | .given _ => r.ledger = l
  | .calling _ _ => r.ledger = l
  | _ => True

end CodeAtlas
