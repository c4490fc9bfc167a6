import CodeAtlas.Proofs.Graph.Contents
import CodeAtlas.Proofs.Graph.Rebuild
import CodeAtlas.Proofs.Turns.Charter

namespace CodeAtlas

/-- A thing among two lists in a row is in the one or in the other. -/
theorem List.append_cons_eq_append_iff {α : Type} {before after first second : List α} {a : α} :
    before ++ a :: after = first ++ second ↔
      (∃ more, first = before ++ a :: more ∧ after = more ++ second) ∨
        ∃ more, before = first ++ more ∧ second = more ++ a :: after := by
  rw [List.append_eq_append_iff]
  constructor
  · rintro (⟨more, rfl, same⟩ | other)
    · cases more with
      | nil => exact .inr ⟨[], by simp, same.symm⟩
      | cons b more =>
        obtain ⟨rfl, rfl⟩ := List.cons.inj same
        exact .inl ⟨more, rfl, rfl⟩
    · exact .inr other
  · rintro (⟨more, rfl, rfl⟩ | other)
    · exact .inl ⟨a :: more, rfl, rfl⟩
    · exact .inr other

/-- The rows of a query are written, with what is done with them, whatever the answer. -/
def Event.writes : Event → List Graph.Write
  | .hears (.query statement parameters) _ => statement.writes (sentRows parameters)
  | _ => []

/-- Everything that is written on the way, in its order. -/
def writesIn (log : List Event) : List Graph.Write := log.flatMap Event.writes

@[simp] theorem writesIn_nil : writesIn [] = [] := rfl

theorem writesIn_append (first second : List Event) : writesIn (first ++ second) = writesIn first ++ writesIn second :=
  List.flatMap_append

/-- Rows were sent, and the answer was a fault. -/
def Event.Refused (event : Event) : Prop :=
  event.writes ≠ [] ∧ ∃ (question : Ask) (fault : Fault), event = .hears question (.error fault)

/-- The client stays connected to a server that answers everything, and the loop grants everything. -/
def Event.Calm (n : Nat) : Event → Prop
  | .sees m => (m.graph n).connected = true
  | .stores _ => True
  | .hears question reply => question.Willing reply
  | .granted _ reply => ∃ value, reply = .ok value

namespace Routine

variable {α β : Type} {n : Nat}

/-- In each of its runs a routine begins with some writes, and makes all of them when it ends well, as it does where
nothing disturbs it. -/
structure Emits (n : Nat) (p : Routine α) (writes : List Graph.Write) : Prop where
  begins : ∀ {log result}, p.Runs log result → writesIn log <+: writes
  whole : ∀ {log a}, p.Runs log (.ok a) → writesIn log = writes
  ends : ∀ {log result}, p.Runs log result → (∀ event ∈ log, event.Calm n) → ∃ a, result = .ok a
  goes : ∃ log a, p.Runs log (.ok a) ∧ ∀ event ∈ log, event.Calm n
  /-- It does not go on when rows are refused. -/
  stops : ∀ {before event after result}, p.Runs (before ++ event :: after) result → event.Refused →
    writesIn after = [] ∧ ∃ fault, result = .error fault

theorem emits_done (a : α) : (done (.ok a)).Emits n [] where
  begins runs := by rw [(runs_done.mp runs).1]; exact List.prefix_rfl
  whole runs := by rw [(runs_done.mp runs).1]; rfl
  ends runs _ := ⟨a, (runs_done.mp runs).2⟩
  goes := ⟨[], a, .done, List.forall_mem_nil _⟩
  stops runs _ := absurd (runs_done.mp runs).1 (by simp)

theorem emits_now : (request .now).Emits n [] := by
  have runs_now : ∀ {log result}, (request .now).Runs log result → log = [.granted .now result] := by
    intro log result runs
    cases runs with
    | control _ rest =>
      obtain ⟨rfl, rfl⟩ := runs_done.mp rest
      rfl
  constructor
  · intro log result runs
    rw [runs_now runs]
    exact List.prefix_rfl
  · intro log a runs
    rw [runs_now runs]
    rfl
  · intro log result runs calm
    rw [runs_now runs] at calm
    exact calm _ (List.mem_singleton_self _)
  · exact ⟨_, (0.0 : Float), .control (.alone (by simp)) .done, List.forall_mem_singleton.mpr ⟨_, rfl⟩⟩
  · intro before event after result runs refused
    obtain rfl : event = .granted .now result :=
      List.mem_singleton.mp (runs_now runs ▸ List.mem_append_right _ (List.mem_cons_self ..))
    exact absurd rfl refused.1

theorem Emits.bind {p : Routine α} {f : α → Routine β} {first second : List Graph.Write} (emits : p.Emits n first)
    (rest : ∀ a, (f a).Emits n second) : (p >>= f).Emits n (first ++ second) := by
  constructor
  case begins =>
    intro log result runs
    obtain ⟨before, after, middle, rfl, own, others⟩ := runs_andThen.mp runs
    rw [writesIn_append]
    cases middle with
    | error fault =>
      obtain ⟨rfl, _⟩ := runs_done.mp others
      rw [writesIn_nil, List.append_nil]
      exact (emits.begins own).trans (List.prefix_append ..)
    | ok a =>
      rw [emits.whole own]
      exact (List.prefix_append_right_inj first).mpr ((rest a).begins others)
  case whole =>
    intro log b runs
    obtain ⟨before, after, a, rfl, own, others⟩ := runs_bind_ok.mp runs
    rw [writesIn_append, emits.whole own, (rest a).whole others]
  case ends =>
    intro log result runs calm
    obtain ⟨before, after, middle, rfl, own, others⟩ := runs_andThen.mp runs
    obtain ⟨a, rfl⟩ := emits.ends own fun event inside => calm event (List.mem_append_left _ inside)
    exact (rest a).ends others fun event inside => calm event (List.mem_append_right _ inside)
  case goes =>
    obtain ⟨before, a, own, calm⟩ := emits.goes
    obtain ⟨after, b, others, calm'⟩ := (rest a).goes
    exact ⟨before ++ after, b, own.bind others, List.forall_mem_append.mpr ⟨calm, calm'⟩⟩
  case stops =>
    intro before event after result runs refused
    obtain ⟨own, others, middle, same, first, second⟩ := runs_andThen.mp runs
    rcases List.append_cons_eq_append_iff.mp same with ⟨more, rfl, rfl⟩ | ⟨more, rfl, rfl⟩
    · obtain ⟨nothing, fault, rfl⟩ := emits.stops first refused
      obtain ⟨rfl, rfl⟩ := runs_done.mp second
      exact ⟨by rw [List.append_nil, nothing], fault, rfl⟩
    · cases middle with
      | error fault => exact absurd (runs_done.mp second).1 (by simp)
      | ok a => exact (rest a).stops second refused

/-- A routine that writes nothing still writes nothing when its faults are dealt with. -/
theorem Emits.rescue {p : Routine α} {handler : Fault → Routine α} (emits : p.Emits n [])
    (handles : ∀ fault, (handler fault).Emits n []) : (p.rescue handler).Emits n [] := by
  have silent : ∀ {log result}, (p.rescue handler).Runs log result → writesIn log = [] := by
    intro log result runs
    obtain ⟨before, after, middle, rfl, own, others⟩ := runs_andThen.mp runs
    rw [writesIn_append, List.prefix_nil.mp (emits.begins own), List.nil_append]
    cases middle with
    | ok a => rw [(runs_done.mp others).1, writesIn_nil]
    | error fault =>
      simp only at others
      split at others
      · exact List.prefix_nil.mp ((handles fault).begins others)
      · rw [(runs_done.mp others).1, writesIn_nil]
  constructor
  case begins => exact fun runs => silent runs ▸ List.prefix_rfl
  case whole => exact silent
  case ends =>
    intro log result runs calm
    obtain ⟨before, after, middle, rfl, own, others⟩ := runs_andThen.mp runs
    obtain ⟨a, rfl⟩ := emits.ends own fun event inside => calm event (List.mem_append_left _ inside)
    exact ⟨a, (runs_done.mp others).2⟩
  case goes =>
    obtain ⟨log, a, runs, calm⟩ := emits.goes
    exact ⟨log, a, List.append_nil log ▸ runs_andThen.mpr ⟨log, [], .ok a, rfl, runs, .done⟩, calm⟩
  case stops =>
    intro before event after result runs refused
    have nothing := silent runs
    rw [writesIn_append, List.append_eq_nil_iff] at nothing
    exact absurd (List.append_eq_nil_iff.mp nothing.2).1 refused.1

end Routine

namespace GraphClient

variable {n : Nat} {statement : Statement}

/-- A query is sent with its rows, or nothing is where the client is not connected. -/
theorem send_emits (merely : statement.Merely) {parameters : Value} {entries : List (Value × Value)}
    (named : parameters.orElse (.dict []) = .dict entries) :
    (send n statement parameters).Emits n (statement.writes (sentRows (.dict entries))) := by
  have cases_of : ∀ {log result}, (send n statement parameters).Runs log result → ∃ m,
      (m.graph n).connected = false ∧ log = [.sees m] ∧ result = .error (.failure .graphClosed) ∨
      (m.graph n).connected = true ∧ ∃ reply, log = [.sees m, .hears (.query statement (.dict entries)) reply] ∧
        result = read statement (.dict entries) reply := fun runs => named ▸ runs_send runs
  have written : ∀ (m : Memory) (reply : Except Fault (Ask.query statement (.dict entries)).Reply),
      writesIn [.sees m, .hears (.query statement (.dict entries)) reply] = statement.writes (sentRows (.dict entries)) :=
    fun m reply => List.append_nil _
  constructor
  · intro log result runs
    obtain ⟨m, ⟨_, rfl, _⟩ | ⟨_, reply, rfl, _⟩⟩ := cases_of runs
    · exact List.nil_prefix
    · exact written m reply ▸ List.prefix_rfl
  · intro log a runs
    obtain ⟨m, ⟨_, _, ⟨⟩⟩ | ⟨_, reply, rfl, _⟩⟩ := cases_of runs
    exact written m reply
  · intro log result runs calm
    obtain ⟨m, ⟨closed, rfl, _⟩ | ⟨_, reply, rfl, rfl⟩⟩ := cases_of runs
    · cases closed.symm.trans (calm _ (List.mem_singleton_self _))
    · exact read_ok merely entries (calm _ (List.mem_cons_of_mem _ (List.mem_singleton_self _)))
  · let m : Memory := { (default : Memory) with graphs := List.replicate (n + 1) ⟨default, true⟩ }
    have connected : (m.graph n).connected = true := by simp [m, Memory.graph, part]
    have willing : Ask.Willing (.query statement (.dict entries)) (.ok ⟨.null, []⟩) := ⟨[], rfl⟩
    obtain ⟨records, done⟩ := read_ok merely entries willing
    refine ⟨[.sees m, .hears (.query statement (.dict entries)) (.ok ⟨.null, []⟩)], records, ?_, ?_⟩
    · rw [send_eq, named]
      refine .look ?_
      rw [if_pos connected, ← done]
      exact .ask .done
    · exact List.forall_mem_cons.mpr ⟨connected, List.forall_mem_singleton.mpr willing⟩
  · intro before event after result runs refused
    obtain ⟨unanswered, question, fault, rfl⟩ := refused
    obtain ⟨m, ⟨_, same, _⟩ | ⟨_, reply, same, rfl⟩⟩ := cases_of runs
    · rcases List.append_eq_singleton_iff.mp same with ⟨_, same⟩ | ⟨_, same⟩ <;> cases same
    · rcases before with _ | ⟨first, _ | ⟨second, rest⟩⟩
      · cases same
      · cases same
        exact ⟨rfl, fault, rfl⟩
      · have lengths := congrArg List.length same
        simp at lengths

end GraphClient

theorem Accounting.emits (n : Nat) : Accounting n fun _ p writes => p.Emits n writes where
  done := Routine.emits_done
  now := Routine.emits_now
  bind := Routine.Emits.bind
  rescue := Routine.Emits.rescue
  send merely named := GraphClient.send_emits merely named

/-- A build writes its rows in their order, the first of them when it stops early. -/
theorem buildGraph_emits {n : Nat} {size : Value} {s : Snapshot} {r : BuildRows} (rows : r.Of s) (isSize : size.IsSize) :
    (buildGraph n size s).Emits n r.writes :=
  (Accounting.emits n).buildGraph rows isSize

/-- A class extends the class that its superclass means, and not itself. -/
theorem extendsRow?_eq_some {index : ClassIndex} {c : SourceClass} {row : Value} :
    extendsRow? index c = .ok (some row) ↔ ∃ parent, index.resolveClass c.superclass = .ok (some parent) ∧
      parent.id.same c.id = false ∧ row = edgeRow c.id parent.id := by
  unfold extendsRow?
  constructor
  · intro made
    cases meant : index.resolveClass c.superclass with
    | error fault => simp only [meant, bind, Except.bind] at made; cases made
    | ok parent =>
      cases parent with
      | none => simp only [meant, bind, Except.bind] at made; cases made
      | some parent =>
        simp only [meant, bind, Except.bind] at made
        split at made
        next => cases made
        next other =>
          cases made
          exact ⟨parent, rfl, Bool.eq_false_iff.mpr other, rfl⟩
  · rintro ⟨parent, meant, other, rfl⟩
    simp only [meant, bind, Except.bind, other, Bool.false_eq_true, if_false]
    rfl

/-- What a snapshot gives to write: the rows that are made of its parts. -/
inductive Snapshot.Gives (s : Snapshot) (index : ClassIndex) : Graph.Write → Prop
  | ofClass {c row} : c ∈ s.classes → classRow c = .ok row → Gives s index ⟨.node "Class" classProperties, row⟩
  | ofMethod {m row} : m ∈ s.methods → methodRow index m = .ok row → Gives s index ⟨.node "Method" methodProperties, row⟩
  | ofEndpoint {e row} : e ∈ s.endpoints → endpointRow e = .ok row → Gives s index ⟨.node "Endpoint" ["path", "method"], row⟩
  | contains {m row} : m ∈ s.methods → containsRow? index m = .ok (some row) →
      Gives s index ⟨.edge "Class" "CONTAINS" "Method", row⟩
  | calls {ids calls call} : (s.methods.map SourceMethod.id).mapM Value.asKey = .ok ids →
      callsOf ids [] s.methods = .ok calls → call ∈ calls →
      Gives s index ⟨.edge "Method" "CALLS" "Method", edgeRow call.1 call.2⟩
  | handledBy {e row} : e ∈ s.endpoints → handledByRow? index s.methods e = .ok (some row) →
      Gives s index ⟨.edge "Endpoint" "HANDLED_BY" "Method", row⟩
  | inherits {c row} : c ∈ s.classes → extendsRow? index c = .ok (some row) →
      Gives s index ⟨.edge "Class" "EXTENDS" "Class", row⟩

/-- Nothing is written but what may be. -/
def Charter.ofWrites (may : Graph.Write → Prop) : Charter where
  keeps _ := True
  asks
    | .query statement parameters => ∀ w ∈ statement.writes (sentRows parameters), may w
    | _ => True
  requests _ := True

section Writing

open Routine

variable {may : Graph.Write → Prop} {n : Nat} {size : Value}

theorem GraphClient.send_ofWrites {statement : Statement} {parameters : Value}
    (allowed : ∀ w ∈ statement.writes (sentRows (parameters.orElse (.dict []))), may w) :
    (send n statement parameters).Abides (.ofWrites may) := by
  rw [send_eq]
  intro m _
  dsimp only
  split
  · exact ⟨allowed, fun _ => trivial⟩
  · trivial

theorem GraphClient.sendGroups_ofWrites {statement : Statement} {groups : List (List Value)} (sent : Nat)
    (allowed : ∀ group ∈ groups, ∀ w ∈ statement.writes group, may w) :
    (sendGroups n statement (.str "rows") sent groups).Abides (.ofWrites may) := by
  induction groups generalizing sent with
  | nil => trivial
  | cons group rest ih =>
    have own : (send n statement (.dict [(.str "rows", .list group)])).Abides (.ofWrites may) :=
      send_ofWrites (allowed group (List.mem_cons_self ..))
    exact own.bind fun _ => ih _ fun group inside => allowed group (List.mem_cons_of_mem _ inside)

theorem writeRows_ofWrites {statement : Statement} {merge : Graph.Merge} (merges : statement.merge? = some merge)
    {rows : List Value} (allowed : ∀ row ∈ rows, may ⟨merge, row⟩) :
    (writeRows n size statement rows).Abides (.ofWrites may) := by
  unfold writeRows
  split
  · exact .pure _
  · refine Abides.compute fun groups grouped => GraphClient.sendGroups_ofWrites 0 fun group inside w written => ?_
    obtain ⟨row, member, rfl⟩ := mem_writes merges written
    exact allowed row (mem_of_groupsBy grouped inside member)

theorem createIndexes_ofWrites (indexes : List GraphIndex) : (createIndexes n indexes).Abides (.ofWrites may) := by
  induction indexes with
  | nil => trivial
  | cons index rest ih =>
    have asks : (GraphClient.run n (.createIndex index)).Abides (.ofWrites may) :=
      GraphClient.send_ofWrites fun _ inside => absurd inside List.not_mem_nil
    exact (Abides.rescue (asks.bind fun _ => .pure _) fun _ => .pure _).bind fun _ => ih

/-- A build writes what the snapshot gives. -/
theorem buildGraph_ofWrites (s : Snapshot) :
    (buildGraph n size s).Abides (.ofWrites fun w => ∃ index, ClassIndex.ofClasses s.classes = .ok index ∧ s.Gives index w) := by
  have some_of : ∀ {α : Type} {f : α → Except Fault (Option Value)} {l : List α} {rows : List (Option Value)},
      l.mapM f = .ok rows → ∀ row ∈ rows.filterMap id, ∃ a ∈ l, f a = .ok (some row) := by
    intro α f l rows done row inside
    obtain ⟨row', member, present⟩ := List.mem_filterMap.mp inside
    cases present
    exact mem_of_mapM done member
  have phase : ∀ {statement : Statement} {merge : Graph.Merge} {rows : List Value}, statement.merge? = some merge →
      (∀ row ∈ rows, ∃ index, ClassIndex.ofClasses s.classes = .ok index ∧ s.Gives index ⟨merge, row⟩) →
      (writeRows n size statement rows).Abides (.ofWrites fun w => ∃ index, ClassIndex.ofClasses s.classes = .ok index ∧
        s.Gives index w) := fun merges allowed => writeRows_ofWrites merges allowed
  refine (Abides.request trivial).bind fun _ => (createIndexes_ofWrites _).bind fun _ => ?_
  refine Abides.compute fun index indexed => Abides.compute fun classRows classes => ?_
  refine Abides.compute fun methodRows methods => Abides.compute fun ids keys => ?_
  refine (phase rfl fun row inside => ?_).bind fun _ => (phase rfl fun row inside => ?_).bind fun _ => ?_
  · obtain ⟨c, member, made⟩ := mem_of_mapM classes inside
    exact ⟨index, indexed, .ofClass member made⟩
  · obtain ⟨m, member, made⟩ := mem_of_mapM methods inside
    exact ⟨index, indexed, .ofMethod member made⟩
  refine Abides.compute fun endpointRows endpoints => (phase rfl fun row inside => ?_).bind fun _ => ?_
  · obtain ⟨e, member, made⟩ := mem_of_mapM endpoints inside
    exact ⟨index, indexed, .ofEndpoint member made⟩
  refine Abides.compute fun containsRows contains => (phase rfl fun row inside => ?_).bind fun _ => ?_
  · obtain ⟨m, member, made⟩ := some_of contains row inside
    exact ⟨index, indexed, .contains member made⟩
  refine Abides.compute fun calls called => (phase rfl fun row inside => ?_).bind fun _ => ?_
  · obtain ⟨call, member, rfl⟩ := List.mem_map.mp inside
    exact ⟨index, indexed, .calls keys called member⟩
  refine Abides.compute fun handledRows handled => (phase rfl fun row inside => ?_).bind fun _ => ?_
  · obtain ⟨e, member, made⟩ := some_of handled row inside
    exact ⟨index, indexed, .handledBy member made⟩
  refine Abides.compute fun extendsRows inherits => (phase rfl fun row inside => ?_).bind fun _ => ?_
  · obtain ⟨c, member, made⟩ := some_of inherits row inside
    exact ⟨index, indexed, .inherits member made⟩
  exact (Abides.request trivial).bind fun _ => .pure _

/-- Whatever a build writes, and however it ends, the snapshot gives it. -/
theorem Snapshot.gives_of_runs {s : Snapshot} {log : List Event} {result : Except Fault BuildCounts} {w : Graph.Write}
    (runs : (buildGraph n size s).Runs log result) (written : w ∈ writesIn log) :
    ∃ index, ClassIndex.ofClasses s.classes = .ok index ∧ s.Gives index w := by
  obtain ⟨event, happens, inside⟩ := List.mem_flatMap.mp written
  cases event with
  | hears question reply =>
    have asked := runs.asked (buildGraph_ofWrites s) (fun _ _ => trivial) happens
    cases question with
    | query => exact asked w inside
    | _ => cases inside
  | _ => cases inside

end Writing

/-- The rows of the edges of a type among some writes, in their order. -/
def edgeRowsOf (type : String) (writes : List Graph.Write) : List Value :=
  writes.filterMap fun w => match w.merge with
    | .edge _ type' _ => if type' = type then some w.row else none
    | .node .. => none

theorem mem_edgeRowsOf {type : String} {writes : List Graph.Write} {row : Value} (inside : row ∈ edgeRowsOf type writes) :
    ∃ source target, (⟨.edge source type target, row⟩ : Graph.Write) ∈ writes := by
  obtain ⟨⟨merge, row'⟩, member, kept⟩ := List.mem_filterMap.mp inside
  cases merge with
  | node label names => cases kept
  | edge source type' target =>
    simp only at kept
    split at kept
    next same =>
      cases kept
      exact ⟨source, target, same ▸ member⟩
    next => cases kept

section Edges

variable {n : Nat} {size : Value} {s : Snapshot} {log : List Event} {result : Except Fault BuildCounts} {row : Value}

/-- An edge that a build writes to a superclass leads to the class that is meant by it. -/
theorem Snapshot.extends_of_runs (runs : (buildGraph n size s).Runs log result)
    (inside : row ∈ edgeRowsOf "EXTENDS" (writesIn log)) :
    ∃ index, ClassIndex.ofClasses s.classes = .ok index ∧ ∃ c ∈ s.classes, ∃ parent,
      index.resolveClass c.superclass = .ok (some parent) ∧ parent.id.same c.id = false ∧ row = edgeRow c.id parent.id := by
  obtain ⟨source, target, written⟩ := mem_edgeRowsOf inside
  obtain ⟨index, indexed, gives⟩ := gives_of_runs runs written
  generalize merges : (⟨.edge source "EXTENDS" target, row⟩ : Graph.Write) = w at gives
  cases gives with
  | inherits known made =>
    cases merges
    exact ⟨index, indexed, _, known, extendsRow?_eq_some.mp made⟩
  | _ => simp at merges

/-- An edge that a build writes to a handler leads from an endpoint to the method that was found for it. -/
theorem Snapshot.handledBy_of_runs (runs : (buildGraph n size s).Runs log result)
    (inside : row ∈ edgeRowsOf "HANDLED_BY" (writesIn log)) :
    ∃ index, ClassIndex.ofClasses s.classes = .ok index ∧ ∃ e ∈ s.endpoints,
      handledByRow? index s.methods e = .ok (some row) := by
  obtain ⟨source, target, written⟩ := mem_edgeRowsOf inside
  obtain ⟨index, indexed, gives⟩ := gives_of_runs runs written
  generalize merges : (⟨.edge source "HANDLED_BY" target, row⟩ : Graph.Write) = w at gives
  cases gives with
  | handledBy known made =>
    cases merges
    exact ⟨index, indexed, _, known, made⟩
  | _ => simp at merges

end Edges

end CodeAtlas
