import CodeAtlas.Graph.Client
import CodeAtlas.Proofs.Graph.Store

namespace CodeAtlas

/-- What a statement writes with its rows. -/
def Statement.writes (statement : Statement) (rows : List Value) : List Graph.Write :=
  match statement.merge? with
  | some merge => rows.map (⟨merge, ·⟩)
  | none => []

def sentRows (parameters : Value) : List Value :=
  match parameters.field "rows" with
  | .list rows => rows
  | _ => []

/-- What a statement may do to a graph. Those that write descriptions, and those that are not of this
library, may do anything. -/
def Statement.Does (statement : Statement) (parameters : Value) (g g' : Graph) : Prop :=
  match statement with
  | .createDescription => True
  | .raw _ => True
  | _ => g' = g.writeAll (statement.writes (sentRows parameters))

/-- What is answered is done. What fails is done or not. -/
def Ask.Does : (question : Ask) → Except Fault question.Reply → Graph → Graph → Prop
  | .query statement parameters, .ok _, g, g' => statement.Does parameters g g'
  | .query statement parameters, .error _, g, g' => g' = g ∨ statement.Does parameters g g'
  | _, _, g, g' => g' = g

theorem Ask.exists_does (question : Ask) (reply : Except Fault question.Reply) (g : Graph) :
    ∃ g', question.Does reply g g' := by
  have statement_does : ∀ (statement : Statement) (parameters : Value), ∃ g', statement.Does parameters g g' := by
    intro statement parameters
    unfold Statement.Does
    split
    · exact ⟨g, trivial⟩
    · exact ⟨g, trivial⟩
    · exact ⟨_, rfl⟩
  cases question with
  | query statement parameters =>
    cases reply with
    | ok table => exact statement_does statement parameters
    | error fault => exact ⟨g, Or.inl rfl⟩
  | _ => exact ⟨g, rfl⟩

/-- What a routine may meet: the memory that it looks at, and what it is answered. -/
structure Surroundings where
  sees : Memory → Prop
  answers : (question : Ask) → Except Fault question.Reply → Prop
  grants : (request : Control) → Except Fault request.Reply → Prop

/-- Queries are answered with tables that can be read. -/
def Ask.Willing : (question : Ask) → Except Fault question.Reply → Prop
  | .query .., .ok table => ∃ records, Table.records table = .ok records
  | .query .., .error _ => False
  | _, _ => True

/-- A client stays connected to a server that answers everything, on a loop that grants everything. -/
structure Surroundings.Willing (n : Nat) (around : Surroundings) : Prop where
  connected : ∀ m, around.sees m → (m.graph n).connected = true
  answered : ∀ question reply, around.answers question reply → question.Willing reply
  granted : ∀ request reply, around.grants request reply → ∃ value, reply = .ok value

def Surroundings.any : Surroundings := ⟨fun _ => True, fun _ _ => True, fun _ _ => True⟩

/-- Surroundings that do anything as long as they are willing. -/
def Surroundings.willing (n : Nat) : Surroundings where
  sees m := (m.graph n).connected = true
  answers := Ask.Willing
  grants _ reply := ∃ value, reply = .ok value

theorem Surroundings.willing_willing (n : Nat) : (willing n).Willing n := ⟨fun _ => id, fun _ _ => id, fun _ _ => id⟩

/-- One way through a routine: it begins with a graph, has a result and leaves a graph. -/
def Routine.Leaves {α : Type} (around : Surroundings) : Routine α → Graph → Except Fault α → Graph → Prop
  | .done result, g, r, g' => r = result ∧ g' = g
  | .look next, g, r, g' => ∃ m, around.sees m ∧ (next m).Leaves around g r g'
  | .store _ next, g, r, g' => next.Leaves around g r g'
  | .ask question next, g, r, g' =>
    ∃ reply between, around.answers question reply ∧ question.Does reply g between ∧ (next reply).Leaves around between r g'
  | .control request next, g, r, g' => ∃ reply, around.grants request reply ∧ (next reply).Leaves around g r g'

namespace Routine

variable {α β : Type} {around : Surroundings}

theorem Leaves.split {p : Routine α} {f : Except Fault α → Routine β} {g : Graph} {r : Except Fault β} {g' : Graph}
    (leaves : (p.andThen f).Leaves around g r g') :
    ∃ result between, p.Leaves around g result between ∧ (f result).Leaves around between r g' := by
  induction p generalizing g with
  | done result => exact ⟨result, g, ⟨rfl, rfl⟩, leaves⟩
  | look next ih =>
    obtain ⟨m, seen, leaves⟩ := leaves
    obtain ⟨result, between, first, second⟩ := ih m leaves
    exact ⟨result, between, ⟨m, seen, first⟩, second⟩
  | store m next ih => exact ih leaves
  | ask question next ih =>
    obtain ⟨reply, after, answered, does, leaves⟩ := leaves
    obtain ⟨result, between, first, second⟩ := ih reply leaves
    exact ⟨result, between, ⟨reply, after, answered, does, first⟩, second⟩
  | control request next ih =>
    obtain ⟨reply, granted, leaves⟩ := leaves
    obtain ⟨result, between, first, second⟩ := ih reply leaves
    exact ⟨result, between, ⟨reply, granted, first⟩, second⟩

theorem Leaves.continues {p : Routine α} {f : Except Fault α → Routine β} {g between : Graph} {result : Except Fault α}
    {r : Except Fault β} {g' : Graph} (first : p.Leaves around g result between)
    (second : (f result).Leaves around between r g') : (p.andThen f).Leaves around g r g' := by
  induction p generalizing g with
  | done =>
    obtain ⟨rfl, rfl⟩ := first
    exact second
  | look next ih =>
    obtain ⟨m, seen, first⟩ := first
    exact ⟨m, seen, ih m first⟩
  | store m next ih => exact ih first
  | ask question next ih =>
    obtain ⟨reply, after, answered, does, first⟩ := first
    exact ⟨reply, after, answered, does, ih reply first⟩
  | control request next ih =>
    obtain ⟨reply, granted, first⟩ := first
    exact ⟨reply, granted, ih reply first⟩

theorem leaves_andThen {p : Routine α} {f : Except Fault α → Routine β} {g : Graph} {r : Except Fault β} {g' : Graph} :
    (p.andThen f).Leaves around g r g' ↔
      ∃ result between, p.Leaves around g result between ∧ (f result).Leaves around between r g' :=
  ⟨Leaves.split, fun ⟨_, _, first, second⟩ => first.continues second⟩

theorem Leaves.seq {p : Routine α} {f : α → Routine β} {g between : Graph} {a : α} {r : Except Fault β} {g' : Graph}
    (first : p.Leaves around g (.ok a) between) (second : (f a).Leaves around between r g') :
    (p >>= f).Leaves around g r g' := leaves_andThen.mpr ⟨.ok a, between, first, second⟩

theorem Leaves.stop {p : Routine α} (f : α → Routine β) {g g' : Graph} {fault : Fault}
    (first : p.Leaves around g (.error fault) g') : (p >>= f).Leaves around g (.error fault) g' :=
  leaves_andThen.mpr ⟨.error fault, g', first, rfl, rfl⟩

theorem Leaves.any {p : Routine α} {g : Graph} {r : Except Fault α} {g' : Graph} (leaves : p.Leaves around g r g') :
    p.Leaves .any g r g' := by
  induction p generalizing g with
  | done result => exact leaves
  | look next ih =>
    obtain ⟨m, _, rest⟩ := leaves
    exact ⟨m, trivial, ih m rest⟩
  | store m next ih => exact ih leaves
  | ask question next ih =>
    obtain ⟨reply, between, _, does, rest⟩ := leaves
    exact ⟨reply, between, trivial, does, ih reply rest⟩
  | control request next ih =>
    obtain ⟨reply, _, rest⟩ := leaves
    exact ⟨reply, trivial, ih reply rest⟩

/-- There is a way through every routine where something is always seen, answered and granted. -/
theorem exists_leaves (sees : ∃ m, around.sees m) (answers : ∀ question, ∃ reply, around.answers question reply)
    (grants : ∀ request, ∃ reply, around.grants request reply) (p : Routine α) (g : Graph) :
    ∃ r g', p.Leaves around g r g' := by
  induction p generalizing g with
  | done result => exact ⟨result, g, rfl, rfl⟩
  | look next ih =>
    obtain ⟨m, seen⟩ := sees
    obtain ⟨r, g', rest⟩ := ih m g
    exact ⟨r, g', m, seen, rest⟩
  | store m next ih => exact ih g
  | ask question next ih =>
    obtain ⟨reply, answered⟩ := answers question
    obtain ⟨between, does⟩ := question.exists_does reply g
    obtain ⟨r, g', rest⟩ := ih reply between
    exact ⟨r, g', reply, between, answered, does, rest⟩
  | control request next ih =>
    obtain ⟨reply, granted⟩ := grants request
    obtain ⟨r, g', rest⟩ := ih reply g
    exact ⟨r, g', reply, granted, rest⟩

theorem exists_willing (n : Nat) (p : Routine α) (g : Graph) : ∃ r g', p.Leaves (.willing n) g r g' := by
  refine exists_leaves ?_ (fun question => ?_) (fun request => ?_) p g
  · exact ⟨{ (default : Memory) with graphs := List.replicate (n + 1) ⟨default, true⟩ },
      by simp [Surroundings.willing, Memory.graph, part]⟩
  · cases question with
    | query => exact ⟨.ok ⟨.null, []⟩, [], rfl⟩
    | _ => exact ⟨.error .cancelled, trivial⟩
  · cases request with
    | now => exact ⟨.ok (0.0 : Float), _, rfl⟩
    | hasLoop | ended => exact ⟨.ok true, _, rfl⟩
    | spawn | dispatch => exact ⟨.ok (0 : Nat), _, rfl⟩
    | gather => exact ⟨.ok ([] : List Yield), _, rfl⟩
    | _ => exact ⟨.ok (), _, rfl⟩

/-- Whatever happens, a routine makes the first of some writes, and all of them when it ends well, as
it does in willing surroundings. -/
def Makes (n : Nat) (around : Surroundings) (p : Routine α) (writes : List Graph.Write) : Prop :=
  ∀ g r g', p.Leaves around g r g' → ∃ made, made <+: writes ∧ g' = g.writeAll made ∧
    (∀ a, r = .ok a → made = writes) ∧ (around.Willing n → ∃ a, r = .ok a)

variable {n : Nat}

theorem makes_done (a : α) : (done (.ok a)).Makes n around [] := by
  rintro g r g' ⟨rfl, rfl⟩
  exact ⟨[], List.prefix_rfl, rfl, fun _ _ => rfl, fun _ => ⟨a, rfl⟩⟩

theorem makes_request (c : Control) : (request c).Makes n around [] := by
  rintro g r g' ⟨reply, granted, rfl, rfl⟩
  exact ⟨[], List.prefix_rfl, rfl, fun _ _ => rfl, fun willing => willing.granted c _ granted⟩

theorem Makes.bind {p : Routine α} {f : α → Routine β} {first second : List Graph.Write}
    (makes : p.Makes n around first) (rest : ∀ a, (f a).Makes n around second) :
    (p >>= f).Makes n around (first ++ second) := by
  intro g r g' leaves
  obtain ⟨result, between, before, after⟩ := leaves_andThen.mp leaves
  obtain ⟨made, begun, rfl, whole, ends⟩ := makes g result between before
  cases result with
  | error fault =>
    obtain ⟨rfl, rfl⟩ := after
    refine ⟨made, begun.trans (List.prefix_append ..), rfl, nofun, fun willing => ?_⟩
    obtain ⟨a, same⟩ := ends willing
    cases same
  | ok a =>
    obtain rfl := whole a rfl
    obtain ⟨more, begun', rfl, whole', ends'⟩ := rest a _ r g' after
    refine ⟨made ++ more, (List.prefix_append_right_inj made).mpr begun', (Graph.writeAll_append ..).symm, ?_, ends'⟩
    exact fun b same => by rw [whole' b same]

/-- A routine that writes nothing still writes nothing when its faults are dealt with. -/
theorem Makes.rescue {p : Routine α} {handler : Fault → Routine α} (makes : p.Makes n around [])
    (handles : ∀ fault, (handler fault).Makes n around []) : (p.rescue handler).Makes n around [] := by
  intro g r g' leaves
  obtain ⟨result, between, before, after⟩ := leaves_andThen.mp leaves
  obtain ⟨made, begun, rfl, _, ends⟩ := makes g result between before
  obtain rfl := List.prefix_nil.mp begun
  cases result with
  | ok a => exact makes_done a _ r g' after
  | error fault =>
    simp only at after
    split at after
    · exact handles fault _ r g' after
    · obtain ⟨rfl, rfl⟩ := after
      exact ⟨[], List.prefix_rfl, rfl, nofun, ends⟩

end Routine

end CodeAtlas
