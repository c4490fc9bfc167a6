import CodeAtlas.Proofs.Graph.Rebuild
import CodeAtlas.Proofs.Turns.Runs

namespace CodeAtlas

instance : LawfulMonad Routine :=
  LawfulMonad.mk' Routine
    (fun p => (congrArg p.andThen (funext fun result => by cases result <;> rfl)).trans p.andThen_done)
    (fun _ _ => rfl)
    (fun p _ _ => (Routine.andThen_assoc p ..).trans
      (congrArg p.andThen (funext fun result => by cases result <;> rfl)))

theorem Routine.runs_now {log : List Event} {result : Except Fault Float} :
    now.Runs log result ↔ log = [.granted .now result] := by
  constructor
  · intro runs
    cases runs with
    | control _ rest =>
      obtain ⟨rfl, rfl⟩ := runs_done.mp rest
      rfl
  · rintro rfl
    exact .control (.alone (by simp)) .done

namespace GraphClient

variable {n : Nat}

/-- A query handed to a client: what happened over it and what it came to. -/
structure SentCall (n : Nat) where
  statement : Statement
  parameters : Value
  log : List Event
  outcome : Except Fault (List Value)
  runs : (send n statement parameters).Runs log outcome

/-- What happened over calls, one after the other. -/
def SentCall.happened (calls : List (SentCall n)) : List Event := calls.flatMap (·.log)

/-- Queries handed over in their order, up to the first whose fault is not borne. -/
inductive Series (bears : Fault → Prop) : List (Statement × Value) → List (SentCall n) → Option Fault → Prop
  | nil : Series bears [] [] none
  | passed (call : SentCall n) {queries calls stop} : (∀ fault, call.outcome = .error fault → bears fault) →
      Series bears queries calls stop → Series bears ((call.statement, call.parameters) :: queries) (call :: calls) stop
  | stopped (call : SentCall n) {queries fault} : call.outcome = .error fault → ¬ bears fault →
      Series bears ((call.statement, call.parameters) :: queries) [call] (some fault)

/-- How what sends queries ends: with the fault that stopped it, or else with its value. -/
def ended {α : Type} (a : α) : Option Fault → Except Fault α
  | none => .ok a
  | some fault => .error fault

/-- The query for a group of rows. -/
def batch (statement : Statement) (group : List Value) : Statement × Value :=
  (statement, .dict [(.str "rows", .list group)])

/-- Rows are cut up, in their order, into groups of at most `k` and of one at least. -/
structure CutUp (k : Nat) (rows : List Value) (groups : List (List Value)) : Prop where
  whole : groups.flatten = rows
  filled : ∀ group ∈ groups, group ≠ [] ∧ group.length ≤ k

theorem sendGroups_series {statement : Statement} {sent : Nat} {groups : List (List Value)} {log : List Event}
    {result : Except Fault Nat} (runs : (sendGroups n statement (.str "rows") sent groups).Runs log result) :
    ∃ calls : List (SentCall n), ∃ stop, Series (fun _ => False) (groups.map (batch statement)) calls stop ∧
      log = SentCall.happened calls ∧ result = ended (sent + groups.flatten.length) stop := by
  induction groups generalizing sent log with
  | nil =>
    obtain ⟨rfl, rfl⟩ := Routine.runs_done.mp runs
    exact ⟨[], none, .nil, rfl, rfl⟩
  | cons group rest ih =>
    obtain ⟨before, after, outcome, rfl, sends, goesOn⟩ := Routine.runs_andThen.mp runs
    let call : SentCall n := ⟨_, _, before, outcome, sends⟩
    cases outcome with
    | error fault =>
      obtain ⟨rfl, rfl⟩ := Routine.runs_done.mp goesOn
      exact ⟨[call], some fault, .stopped call rfl id, by simp [SentCall.happened, call], rfl⟩
    | ok records =>
      obtain ⟨calls, stop, series, rfl, rfl⟩ := ih goesOn
      refine ⟨call :: calls, stop, .passed call nofun series, rfl, ?_⟩
      rw [List.flatten_cons, List.length_append, Nat.add_assoc]

end GraphClient

open GraphClient

variable {n : Nat}

/-- What is tried for its effect alone is over, unless it was stopped from outside. -/
theorem Routine.runs_tried {α : Type} {p : Routine α} {log : List Event} {result : Except Fault Unit}
    (runs : (Routine.rescue (do let _ ← p) fun _ => return).Runs log result) : ∃ outcome, p.Runs log outcome ∧
      ((∀ fault, outcome = .error fault → fault.ordinary) ∧ result = .ok () ∨
        ∃ fault, outcome = .error fault ∧ ¬ fault.ordinary ∧ result = .error fault) := by
  rw [rescue, show (do let _ ← p) = p.andThen _ from rfl, andThen_assoc] at runs
  obtain ⟨before, after, outcome, rfl, first, second⟩ := runs_andThen.mp runs
  refine ⟨outcome, ?_⟩
  cases outcome with
  | ok a =>
    obtain ⟨rfl, rfl⟩ := runs_done.mp second
    exact ⟨(List.append_nil before).symm ▸ first, .inl ⟨nofun, rfl⟩⟩
  | error fault =>
    simp only [andThen] at second
    split at second
    next ordinary =>
      obtain ⟨rfl, rfl⟩ := runs_done.mp second
      exact ⟨(List.append_nil before).symm ▸ first, .inl ⟨fun _ same => Except.error.inj same ▸ ordinary, rfl⟩⟩
    next outside =>
      obtain ⟨rfl, rfl⟩ := runs_done.mp second
      exact ⟨(List.append_nil before).symm ▸ first, .inr ⟨fault, rfl, outside, rfl⟩⟩

/-- The queries for indexes. -/
def indexQueries (indexes : List GraphIndex) : List (Statement × Value) :=
  indexes.map fun index => (.createIndex index, .null)

/-- Indexes are asked for one after the other; only being stopped from outside ends that. -/
theorem createIndexes_series {indexes : List GraphIndex} {log : List Event} {result : Except Fault Unit}
    (runs : (createIndexes n indexes).Runs log result) : ∃ calls : List (SentCall n), ∃ stop,
      Series (·.ordinary) (indexQueries indexes) calls stop ∧ log = SentCall.happened calls ∧ result = ended () stop := by
  induction indexes generalizing log with
  | nil =>
    obtain ⟨rfl, rfl⟩ := Routine.runs_done.mp runs
    exact ⟨[], none, .nil, rfl, rfl⟩
  | cons index rest ih =>
    obtain ⟨before, after, tried, rfl, tries, goesOn⟩ := Routine.runs_andThen.mp runs
    obtain ⟨outcome, sends, ⟨borne, rfl⟩ | ⟨fault, rfl, outside, rfl⟩⟩ := Routine.runs_tried tries
    · obtain ⟨calls, stop, series, rfl, rfl⟩ := ih goesOn
      let call : SentCall n := ⟨_, _, before, outcome, sends⟩
      exact ⟨call :: calls, stop, .passed call borne series, rfl, rfl⟩
    · obtain ⟨rfl, rfl⟩ := Routine.runs_done.mp goesOn
      let call : SentCall n := ⟨_, _, before, .error fault, sends⟩
      exact ⟨[call], some fault, .stopped call rfl outside, by simp [SentCall.happened, call], rfl⟩

/-- Rows are sent in groups that make them up, until one fails. -/
theorem writeRows_series {size : Value} {k : Int} (isSize : size.toIndex = .ok k) (positive : 1 ≤ k)
    {statement : Statement} {rows : List Value} {log : List Event} {result : Except Fault Nat}
    (runs : (writeRows n size statement rows).Runs log result) :
    ∃ groups, ∃ calls : List (SentCall n), ∃ stop, CutUp k.toNat rows groups ∧
      Series (fun _ => False) (groups.map (batch statement)) calls stop ∧
        log = SentCall.happened calls ∧ result = ended rows.length stop := by
  unfold writeRows at runs
  split at runs
  next empty =>
    obtain rfl := List.isEmpty_iff.mp empty
    obtain ⟨rfl, rfl⟩ := Routine.runs_done.mp runs
    exact ⟨[], [], none, ⟨rfl, List.forall_mem_nil _⟩, .nil, rfl, rfl⟩
  next =>
    have nonzero : ¬ k = 0 := by omega
    have grouped : groupsBy size rows = .ok (groupsOf k.toNat rows) := by
      simp only [groupsBy, isSize, bind, Except.bind, nonzero, if_false]
    have cut : CutUp k.toNat rows (groupsOf k.toNat rows) :=
      ⟨groupsOf_flatten (by omega) rows, fun _ inside => mem_groupsOf inside⟩
    have sends : (sendGroups n statement (.str "rows") 0 (groupsOf k.toNat rows)).Runs log result := by
      change (Routine.ofExcept (groupsBy size rows) >>= _).Runs log result at runs
      rwa [grouped] at runs
    obtain ⟨calls, stop, series, rfl, rfl⟩ := sendGroups_series sends
    refine ⟨_, calls, stop, cut, series, rfl, ?_⟩
    rw [cut.whole, Nat.zero_add]

/-- What a build works out before it writes anything. -/
structure Snapshot.Prepared where
  index : ClassIndex
  classes : List Value
  methods : List Value
  ids : List Value

def Snapshot.prepared (s : Snapshot) : Except Fault Prepared := do
  let index ← ClassIndex.ofClasses s.classes
  let classes ← s.classes.mapM classRow
  let methods ← s.methods.mapM (methodRow index)
  let ids ← (s.methods.map SourceMethod.id).mapM Value.asKey
  return { index, classes, methods, ids }

/-- The statements of a build in their order, each with its rows where these can be made. -/
def Snapshot.phases (s : Snapshot) (p : Prepared) : List (Statement × Except Fault (List Value)) := [
  (.mergeClasses, .ok p.classes),
  (.mergeMethods, .ok p.methods),
  (.mergeEndpoints, s.endpoints.mapM endpointRow),
  (.mergeContains, do return (← s.methods.mapM (containsRow? p.index)).filterMap id),
  (.mergeCalls, do return (← callsOf p.ids [] s.methods).map fun (source, target) => edgeRow source target),
  (.mergeHandledBy, do return (← s.endpoints.mapM (handledByRow? p.index s.methods)).filterMap id),
  (.mergeExtends, do return (← s.classes.mapM (extendsRow? p.index)).filterMap id)]

/-- Every snapshot of texts makes the rows of each phase. -/
theorem Snapshot.Textual.phases_ok {s : Snapshot} (textual : s.Textual) :
    ∃ p, s.prepared = .ok p ∧ ∀ phase ∈ s.phases p, ∃ rows, phase.2 = .ok rows := by
  obtain ⟨r, of, _⟩ := textual.rows_ok
  refine ⟨⟨r.index, r.classes, r.methods, r.ids⟩, ?_, ?_⟩
  · simp only [prepared, of.index, of.classes, of.methods, of.ids, bind, Except.bind]
    rfl
  · simp only [phases, of.endpoints, of.contains, of.calls, of.handledBy, of.inherits, bind, Except.bind, pure,
      Except.pure, List.forall_mem_cons, Except.ok.injEq, exists_eq', true_and]
    exact List.forall_mem_nil _

/-- Writes the rows of one phase after the other, and counts them. -/
def writePhases (n : Nat) (size : Value) : List (Statement × Except Fault (List Value)) → Routine (List Nat)
  | [] => return []
  | (statement, made) :: rest => do
    let rows ← Routine.ofExcept made
    let count ← writeRows n size statement rows
    let counts ← writePhases n size rest
    return count :: counts

/-- The counts of a build in the order of its phases. -/
def BuildCounts.rows (c : BuildCounts) : List Nat :=
  [c.classes, c.methods, c.endpoints, c.contains, c.calls, c.handledBy, c.inherits]

def BuildCounts.ofRows (counts : List Nat) (duration : Float) : BuildCounts where
  classes := counts.getD 0 0
  methods := counts.getD 1 0
  endpoints := counts.getD 2 0
  contains := counts.getD 3 0
  calls := counts.getD 4 0
  handledBy := counts.getD 5 0
  inherits := counts.getD 6 0
  duration

theorem BuildCounts.rows_ofRows {counts : List Nat} {duration : Float} (each : counts.length = 7) :
    (ofRows counts duration).rows = counts := by
  match counts, each with
  | [_, _, _, _, _, _, _], rfl => rfl

theorem Routine.ofExcept_bind {α β : Type} (made : Except Fault α) (f : α → Except Fault β) :
    Routine.ofExcept (made >>= f) = Routine.ofExcept made >>= fun a => Routine.ofExcept (f a) := by
  cases made <;> rfl

theorem Routine.ofExcept_ok {α : Type} (a : α) : Routine.ofExcept (.ok a) = (pure a : Routine α) := rfl

/-- A build prepares everything once the indexes are there, and writes its phases in their order. -/
theorem buildGraph_eq (n : Nat) (size : Value) (s : Snapshot) : buildGraph n size s = (do
    let start ← Routine.now
    createIndexes n GraphIndex.all
    let p ← Routine.ofExcept s.prepared
    let counts ← writePhases n size (s.phases p)
    let stop ← Routine.now
    return .ofRows counts (stop - start)) := by
  have lifted : ∀ {α : Type} (made : Except Fault α), (liftM made : Routine α) = Routine.ofExcept made := fun _ => rfl
  unfold buildGraph
  refine congrArg _ (funext fun start => congrArg _ (funext fun _ => ?_))
  simp only [Snapshot.prepared, Snapshot.phases, writePhases, lifted, Routine.ofExcept_bind, Routine.ofExcept_ok,
    bind_assoc, pure_bind]
  rfl

/-- What is sent for phases, with the number of rows of each in the end: their rows, phase after phase, up to the first
fault. -/
inductive PhasesSent {n : Nat} (k : Nat) :
    List (Statement × Except Fault (List Value)) → List (SentCall n) → Except Fault (List Nat) → Prop
  | nil : PhasesSent k [] [] (.ok [])
  | unmade {statement fault rest} : PhasesSent k ((statement, .error fault) :: rest) [] (.error fault)
  | broken {statement rows rest groups calls fault} : CutUp k rows groups →
      Series (fun _ => False) (groups.map (batch statement)) calls (some fault) →
      PhasesSent k ((statement, .ok rows) :: rest) calls (.error fault)
  | sent {statement rows rest groups calls others counts} : CutUp k rows groups →
      Series (fun _ => False) (groups.map (batch statement)) calls none → PhasesSent k rest others counts →
      PhasesSent k ((statement, .ok rows) :: rest) (calls ++ others) (counts.map (rows.length :: ·))

/-- Phases that are sent to the end leave a count for each. -/
theorem PhasesSent.length {k : Nat} {phases : List (Statement × Except Fault (List Value))} {calls : List (SentCall n)}
    {counted : Except Fault (List Nat)} (sent : PhasesSent k phases calls counted) :
    ∀ counts, counted = .ok counts → counts.length = phases.length := by
  induction sent with
  | nil => rintro _ ⟨⟩; rfl
  | unmade => rintro _ ⟨⟩
  | broken => rintro _ ⟨⟩
  | @sent _ _ _ _ _ _ counted _ _ _ ih =>
    intro counts same
    cases counted with
    | error fault => cases same
    | ok counts' =>
      cases same
      rw [List.length_cons, List.length_cons, ih counts' rfl]

theorem writePhases_sent {size : Value} {k : Int} (isSize : size.toIndex = .ok k) (positive : 1 ≤ k)
    {phases : List (Statement × Except Fault (List Value))} {log : List Event} {result : Except Fault (List Nat)}
    (runs : (writePhases n size phases).Runs log result) :
    ∃ calls : List (SentCall n), PhasesSent k.toNat phases calls result ∧ log = SentCall.happened calls := by
  induction phases generalizing log result with
  | nil =>
    obtain ⟨rfl, rfl⟩ := Routine.runs_done.mp runs
    exact ⟨[], .nil, rfl⟩
  | cons phase rest ih =>
    obtain ⟨statement, made⟩ := phase
    cases made with
    | error fault =>
      obtain ⟨rfl, rfl⟩ := Routine.runs_done.mp runs
      exact ⟨[], .unmade, rfl⟩
    | ok rows =>
      rw [writePhases, Routine.ofExcept_ok, pure_bind] at runs
      obtain ⟨before, after, written, rfl, writes, goesOn⟩ := Routine.runs_andThen.mp runs
      obtain ⟨groups, calls, stop, cut, series, rfl, rfl⟩ := writeRows_series isSize positive writes
      cases stop with
      | some fault =>
        obtain ⟨rfl, rfl⟩ := Routine.runs_done.mp goesOn
        exact ⟨calls, .broken cut series, List.append_nil _⟩
      | none =>
        obtain ⟨others, none, counted, rfl, writesRest, counts⟩ := Routine.runs_andThen.mp goesOn
        obtain ⟨calls', sent, rfl⟩ := ih writesRest
        have ends : none = [] ∧ result = counted.map (rows.length :: ·) := by
          cases counted <;> exact Routine.runs_done.mp counts
        obtain ⟨rfl, rfl⟩ := ends
        exact ⟨calls ++ calls', .sent cut series sent, by simp [SentCall.happened]⟩

/-- What a build of a snapshot sends in groups of `k`, and how it ends. -/
inductive Snapshot.Sends (s : Snapshot) (n k : Nat) : List Event → Except Fault BuildCounts → Prop
  /-- Only being stopped from outside at an index counts. -/
  | unindexed {start fault} {indexing : List (SentCall n)} :
      Series (·.ordinary) (indexQueries GraphIndex.all) indexing (some fault) →
      s.Sends n k (.granted .now (.ok start) :: SentCall.happened indexing) (.error fault)
  | unprepared {start fault} {indexing : List (SentCall n)} :
      Series (·.ordinary) (indexQueries GraphIndex.all) indexing none → s.prepared = .error fault →
      s.Sends n k (.granted .now (.ok start) :: SentCall.happened indexing) (.error fault)
  | broken {start p fault} {indexing calls : List (SentCall n)} :
      Series (·.ordinary) (indexQueries GraphIndex.all) indexing none → s.prepared = .ok p →
      PhasesSent k (s.phases p) calls (.error fault) →
      s.Sends n k (.granted .now (.ok start) :: SentCall.happened (indexing ++ calls)) (.error fault)
  | whole {start stop : Float} {p counts} {indexing calls : List (SentCall n)} :
      Series (·.ordinary) (indexQueries GraphIndex.all) indexing none → s.prepared = .ok p →
      PhasesSent k (s.phases p) calls (.ok counts.rows) → counts.duration = stop - start →
      s.Sends n k (.granted .now (.ok start) :: (SentCall.happened (indexing ++ calls) ++ [.granted .now (.ok stop)]))
        (.ok counts)

/-- A build sends exactly its rows, in their order, and stops at the first fault; a snapshot of texts has all of its
rows. -/
theorem buildGraph_sends {size : Value} {k : Int} (isSize : size.toIndex = .ok k) (positive : 1 ≤ k) {s : Snapshot}
    {log : List Event} {result : Except Fault BuildCounts} (runs : (buildGraph n size s).Runs log result)
    (timed : ∀ reply, .granted .now reply ∈ log → ∃ time, reply = .ok time) :
    s.Sends n k.toNat log result ∧
      (s.Textual → ∃ p, s.prepared = .ok p ∧ ∀ phase ∈ s.phases p, ∃ rows, phase.2 = .ok rows) := by
  refine ⟨?_, Snapshot.Textual.phases_ok⟩
  rw [buildGraph_eq] at runs
  obtain ⟨_, afterStart, started, rfl, starts, begun⟩ := Routine.runs_andThen.mp runs
  obtain rfl := Routine.runs_now.mp starts
  obtain ⟨start, rfl⟩ := timed started (by simp)
  obtain ⟨_, afterIndexes, reached, rfl, indexes, indexed⟩ := Routine.runs_andThen.mp begun
  obtain ⟨indexing, stop, series, rfl, rfl⟩ := createIndexes_series indexes
  cases stop with
  | some fault =>
    obtain ⟨rfl, rfl⟩ := Routine.runs_done.mp indexed
    rw [List.append_nil]
    exact .unindexed series
  | none =>
    dsimp only [ended] at indexed
    cases prepared : s.prepared with
    | error fault =>
      rw [prepared] at indexed
      obtain ⟨rfl, rfl⟩ := Routine.runs_done.mp indexed
      rw [List.append_nil]
      exact .unprepared series prepared
    | ok p =>
      rw [prepared, Routine.ofExcept_ok, pure_bind] at indexed
      obtain ⟨_, afterPhases, counted, rfl, writes, written⟩ := Routine.runs_andThen.mp indexed
      obtain ⟨calls, sent, rfl⟩ := writePhases_sent isSize positive writes
      have joined : SentCall.happened indexing ++ SentCall.happened calls = SentCall.happened (indexing ++ calls) :=
        List.flatMap_append.symm
      cases counted with
      | error fault =>
        obtain ⟨rfl, rfl⟩ := Routine.runs_done.mp written
        rw [List.append_nil, joined]
        exact .broken series prepared sent
      | ok counts =>
        obtain ⟨_, rest, stopped, rfl, stops, ends⟩ := Routine.runs_andThen.mp written
        obtain rfl := Routine.runs_now.mp stops
        obtain ⟨stop, rfl⟩ := timed stopped (by simp)
        obtain ⟨rfl, rfl⟩ := Routine.runs_done.mp ends
        have inOrder : ∀ duration, (BuildCounts.ofRows counts duration).rows = counts :=
          fun _ => BuildCounts.rows_ofRows (sent.length counts rfl)
        rw [List.append_nil, ← List.append_assoc (SentCall.happened indexing), joined]
        exact .whole series prepared ((inOrder _).symm ▸ sent) rfl

section Refusals

/-- A memory whose first graph client is connected. -/
def connectedMemory : Memory := { (default : Memory) with graphs := [⟨default, true⟩] }

/-- A query that a connected client sends, and the fault it hears. -/
def turnedDown (fault : Fault) (query : Statement × Value) : List Event :=
  [.sees connectedMemory, .hears (.query query.1 (query.2.orElse (.dict []))) (.error fault)]

theorem GraphClient.send_refused (statement : Statement) (parameters : Value) (fault : Fault) :
    (send 0 statement parameters).Runs (turnedDown fault (statement, parameters)) (.error fault) := by
  rw [send_eq]
  exact .look (.ask .done)

theorem createIndexes_refused {fault : Fault} (ordinary : fault.ordinary) (indexes : List GraphIndex) :
    (createIndexes 0 indexes).Runs ((indexQueries indexes).flatMap (turnedDown fault)) (.ok ()) := by
  induction indexes with
  | nil => exact .done
  | cons index rest ih =>
    have refused := send_refused (.createIndex index) .null fault
    have tried : ((Routine.rescue (do let _ ← run 0 (.createIndex index)) fun _ => return) : Routine Unit).Runs
        (turnedDown fault (.createIndex index, .null)) (.ok ()) := by
      rw [← List.append_nil (turnedDown ..)]
      exact (refused.rescue_bind_error_iff ordinary).mpr .done
    exact tried.bind ih

/-- The indexes are there already, and the only batch of a snapshot of one class is refused. -/
def refusedLog (row : Value) : List Event :=
  .granted .now (.ok (0.0 : Float)) :: ((indexQueries GraphIndex.all).flatMap (turnedDown (.failure .notConnected)) ++
    turnedDown (.failure .graphClosed) (batch .mergeClasses [row]))

theorem shop_refused {row : Value} (made : shop.classes.mapM classRow = .ok [row]) :
    (buildGraph 0 (.int 1) shop).Runs (refusedLog row) (.error (.failure .graphClosed)) := by
  rw [buildGraph_eq]
  refine (Routine.runs_now.mpr rfl).bind ((createIndexes_refused rfl _).bind ?_)
  have grouped : groupsBy (.int 1) [row] = .ok [[row]] := by
    simp [groupsBy, groupsOf, Value.toIndex, bind, Except.bind]
  obtain ⟨index, prepared⟩ : ∃ index, shop.prepared = .ok ⟨index, [row], [], []⟩ := by
    simp only [Snapshot.prepared, made]
    exact ⟨_, rfl⟩
  have writes : (writeRows 0 (.int 1) .mergeClasses [row]).Runs (turnedDown (.failure .graphClosed) (batch .mergeClasses [row]))
      (.error (.failure .graphClosed)) := by
    change (Routine.ofExcept (groupsBy (.int 1) [row]) >>= _).Runs _ _
    rw [grouped]
    exact (send_refused ..).bind_error _
  rw [prepared, Routine.ofExcept_ok, pure_bind]
  refine Routine.Runs.bind_error _ ?_
  rw [Snapshot.phases, writePhases, Routine.ofExcept_ok, pure_bind]
  exact writes.bind_error _

/-- Such a build passes over the indexes, sends the batch and ends with its fault. -/
theorem shop_sends : ∃ row, shop.classes.mapM classRow = .ok [row] ∧
    shop.Sends 0 1 (refusedLog row) (.error (.failure .graphClosed)) := by
  obtain ⟨row, made⟩ : ∃ row, shop.classes.mapM classRow = .ok [row] := ⟨_, rfl⟩
  refine ⟨row, made, ?_⟩
  refine (buildGraph_sends rfl (by decide) (shop_refused made) fun reply asked => ?_).1
  simp only [refusedLog, turnedDown, List.mem_cons, List.mem_append, List.mem_flatMap, Event.granted.injEq, heq_eq_eq,
    true_and, reduceCtorEq, List.not_mem_nil, or_self, or_false, and_false, exists_false] at asked
  exact ⟨_, asked⟩

end Refusals

end CodeAtlas
