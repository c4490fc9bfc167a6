import CodeAtlas.Proofs.Graph.Rebuild
import CodeAtlas.Proofs.Ingestion.Civil
import CodeAtlas.Proofs.Turns.Simulation

namespace CodeAtlas

namespace GraphClient

open Routine

/-- What a client is called for. -/
inductive Call where
  | connect
  | close
  | query (statement : Statement) (parameters : Value)
  | health

/-- The type of what each call gives. -/
def Call.Gives : Call → Type
  | .connect | .close => Unit
  | .query .. => List Value
  | .health => Bool

def Call.routine (n : Nat) : (call : Call) → Routine call.Gives
  | .connect => GraphClient.connect n
  | .close => GraphClient.close n
  | .query statement parameters => send n statement parameters
  | .health => healthCheck n

/-- What is heard while the graph is opened with success. -/
def opened (settings : GraphSettings) : List Event :=
  [.hears (.openGraph settings.host settings.port settings.password) (.ok ()), .hears (.selectGraph settings.graphName) (.ok ())]

/-- An attempt to open the graph: what is heard, and how it ends. -/
inductive Opening (settings : GraphSettings) : List Event → Except Fault Unit → Prop
  | unreached (fault : Fault) :
      Opening settings [.hears (.openGraph settings.host settings.port settings.password) (.error fault)] (.error fault)
  | unselected (fault : Fault) :
      Opening settings [.hears (.openGraph settings.host settings.port settings.password) (.ok ()),
        .hears (.selectGraph settings.graphName) (.error fault)] (.error fault)
  | opened : Opening settings (opened settings) (.ok ())

/-- What is heard when a connected client sends a statement. -/
def asked (statement : Statement) (parameters : Value) (reply : Except Fault Table) : Event :=
  .hears (.query statement (parameters.orElse (.dict []))) reply

/-- The memory once a client is connected, or not any more. -/
def turned (n : Nat) (connected : Bool) (m : Memory) : Memory :=
  m.onGraph n fun c => { c with connected := connected }

@[simp]
theorem turned_length (n : Nat) (connected : Bool) (m : Memory) : (turned n connected m).graphs.length = m.graphs.length :=
  List.length_modify ..

@[simp]
theorem turned_settings (n : Nat) (connected : Bool) (m : Memory) :
    ((turned n connected m).graph n).settings = (m.graph n).settings := part_modify_same fun _ => rfl

theorem turned_connected {n : Nat} {m : Memory} (present : n < m.graphs.length) (connected : Bool) :
    ((turned n connected m).graph n).connected = connected := by
  simp [turned, Memory.graph, Memory.onGraph, part, present]

/-- Every question gets some answer, and whatever fails does so by an ordinary fault. -/
structure Plain (around : (question : Ask) → Except Fault question.Reply → Prop) : Prop where
  answers : ∀ question, ∃ reply, around question reply
  civil : ∀ question reply, around question reply → Civil reply

variable {around : (question : Ask) → Except Fault question.Reply → Prop} {n : Nat} {m : Memory} {log : List Event}
  {t : Memory × List Event}

/-- A client that is connected does nothing when it is to connect; another one attempts to open the graph, and is
connected when that succeeds. -/
theorem connect_takes (plain : Plain around) {r : Except Fault Unit}
    (arrives : (connect n).Arrives (.recorded around) (m, log) r t) :
    ((m.graph n).connected = true ∧ r = .ok () ∧ t = (m, log)) ∨
    ((m.graph n).connected = false ∧ Civil r ∧ ∃ heard, Opening (m.graph n).settings heard r ∧
      t = (if r.isOk then turned n true m else m, log ++ heard)) := by
  replace arrives := arrives_view_bind arrives
  split at arrives
  next connected =>
    obtain ⟨rfl, rfl⟩ := arrives
    exact .inl ⟨connected, rfl, rfl⟩
  next apart =>
    refine .inr ⟨Bool.eq_false_iff.mpr apart, ?_⟩
    rcases arrives_query_bind arrives with ⟨fault, admitted, rfl, rfl⟩ | ⟨_, _, arrives⟩
    · exact ⟨.error (plain.civil _ _ admitted fault rfl), _, .unreached fault, rfl⟩
    rcases arrives_query_bind arrives with ⟨fault, admitted, rfl, rfl⟩ | ⟨_, _, _, rfl, rfl, rfl⟩
    · exact ⟨.error (plain.civil _ _ admitted fault rfl), _, .unselected fault, by rw [List.append_assoc]; rfl⟩
    · exact ⟨.ok (), _, .opened, by rw [List.append_assoc]; rfl⟩

/-- A client that is not connected refuses a statement; a connected one sends it, and reads the answer. -/
theorem send_takes {statement : Statement} {parameters : Value} {r : Except Fault (List Value)}
    (arrives : (send n statement parameters).Arrives (.recorded around) (m, log) r t) :
    ((m.graph n).connected = false ∧ r = .error (.failure .graphClosed) ∧ t = (m, log)) ∨
    ((m.graph n).connected = true ∧ ∃ reply, around (.query statement (parameters.orElse (.dict []))) reply ∧
      r = read statement (parameters.orElse (.dict [])) reply ∧ t = (m, log ++ [asked statement parameters reply])) := by
  rw [send_eq] at arrives
  obtain ⟨_, rfl, arrives⟩ := arrives
  beta_reduce at arrives
  split at arrives
  next connected =>
    obtain ⟨reply, _, ⟨admitted, rfl⟩, rfl, rfl⟩ := arrives
    exact .inr ⟨connected, reply, admitted, rfl, rfl⟩
  next apart =>
    obtain ⟨rfl, rfl⟩ := arrives
    exact .inl ⟨Bool.eq_false_iff.mpr apart, rfl, rfl⟩

theorem read_civil (statement : Statement) (parameters : Value) {reply : Except Fault Table} (civil : Civil reply) :
    Civil (read statement parameters reply) :=
  civil.bind fun table => table.records_civil.bind fun _ => (journal_civil statement parameters).bind fun _ => .ok _

/-- Whether the probe of a client that is connected succeeds. -/
theorem probe_takes (plain : Plain around) (connected : (m.graph n).connected = true) {r : Except Fault Bool}
    (arrives : ((run n .probe >>= fun _ => Pure.pure true).rescue fun _ => Pure.pure false).Arrives (.recorded around)
      (m, log) r t) :
    ∃ reply, r = .ok (read .probe (.dict []) reply).isOk ∧ t = (m, log ++ [asked .probe .null reply]) := by
  obtain ⟨mid, t, first, handled⟩ := arrives_andThen.mp arrives
  obtain ⟨result, t, sent, rest⟩ := arrives_andThen.mp first
  rcases send_takes sent with ⟨apart, _⟩ | ⟨_, reply, admitted, rfl, rfl⟩
  · cases connected.symm.trans apart
  have civil := read_civil .probe (Value.null.orElse (.dict [])) (plain.civil _ _ admitted)
  refine ⟨reply, ?_⟩
  change r = .ok (read .probe (Value.null.orElse (.dict [])) reply).isOk ∧ _
  cases result : read .probe (Value.null.orElse (.dict [])) reply with
  | ok records =>
    rw [result] at rest
    obtain ⟨rfl, rfl⟩ := rest
    exact handled
  | error fault =>
    rw [result] at rest
    obtain ⟨rfl, rfl⟩ := rest
    dsimp only at handled
    rw [if_pos (civil fault result)] at handled
    exact handled

/-- A client that cannot be connected is not well; one that is or gets connected is well when its probe succeeds. -/
theorem healthCheck_takes (plain : Plain around) (present : n < m.graphs.length) {r : Except Fault Bool}
    (arrives : (healthCheck n).Arrives (.recorded around) (m, log) r t) :
    ((m.graph n).connected = false ∧ r = .ok false ∧ ∃ heard fault, Opening (m.graph n).settings heard (.error fault) ∧
      t = (m, log ++ heard)) ∨
    ∃ reply, r = .ok (read .probe (.dict []) reply).isOk ∧
      (((m.graph n).connected = true ∧ t = (m, log ++ [asked .probe .null reply])) ∨
       ((m.graph n).connected = false ∧
          t = (turned n true m, log ++ (opened (m.graph n).settings ++ [asked .probe .null reply])))) := by
  obtain ⟨mid, t, first, handled⟩ := arrives_andThen.mp arrives
  replace first := arrives_view_bind first
  split at first
  next apart =>
    have apart : (m.graph n).connected = false := by simpa using apart
    obtain ⟨result, t, connects, rest⟩ := arrives_andThen.mp first
    rcases connect_takes plain connects with ⟨connected, _⟩ | ⟨_, civil, heard, opening, rfl⟩
    · cases apart.symm.trans connected
    cases result with
    | error fault =>
      obtain ⟨rfl, rfl⟩ := rest
      dsimp only at handled
      rw [if_pos (civil fault rfl)] at handled
      obtain ⟨rfl, rfl⟩ := handled
      exact .inl ⟨apart, rfl, heard, fault, opening, rfl⟩
    | ok =>
      cases opening
      have connected := turned_connected present true
      obtain ⟨reply, probed, rfl⟩ := probe_takes plain connected (arrives_andThen.mpr ⟨mid, _, rest, handled⟩)
      exact .inr ⟨reply, probed, .inr ⟨apart, by rw [List.append_assoc]⟩⟩
  next connected =>
    have connected : (m.graph n).connected = true := by simpa using connected
    obtain ⟨reply, probed, rfl⟩ := probe_takes plain connected (arrives_andThen.mpr ⟨mid, _, first, handled⟩)
    exact .inr ⟨reply, probed, .inl ⟨connected, rfl⟩⟩

theorem close_takes {r : Except Fault Unit} (arrives : (close n).Arrives (.recorded around) (m, log) r t) :
    r = .ok () ∧ t = (turned n false m, log) := by
  obtain ⟨_, rfl, rfl, rfl⟩ := arrives
  exact ⟨rfl, rfl⟩

section

variable {s : Memory × List Event} {q : Ask}

end

/-- A call, what is heard on its account, and what comes of it. -/
structure Turn where
  call : Call
  heard : List Event
  result : Except Fault call.Gives

/-- Calls one after the other, from one memory to another. -/
inductive Uses (around : (question : Ask) → Except Fault question.Reply → Prop) (n : Nat) (m : Memory) : List Turn → Memory → Prop
  | start : Uses around n m [] m
  | next {turns m' call heard result m''} : Uses around n m turns m' →
      (Call.routine n call).Arrives (.recorded around) (m', []) result (m'', heard) →
      Uses around n m (turns ++ [⟨call, heard, result⟩]) m''

/-- On its account the graph is opened with success. -/
def Turn.Opens (settings : GraphSettings) (turn : Turn) : Prop := opened settings <+: turn.heard

/-- The graph was opened with success and not closed since. -/
def Open (settings : GraphSettings) (turns : List Turn) : Prop :=
  ∃ before turn after, turns = before ++ turn :: after ∧ turn.Opens settings ∧ ∀ later ∈ after, later.call ≠ .close

theorem not_open_nil (settings : GraphSettings) : ¬Open settings [] := by
  rintro ⟨before, turn, after, none, _⟩
  cases before <;> cases none

theorem open_snoc {settings : GraphSettings} {turns : List Turn} {turn : Turn} :
    Open settings (turns ++ [turn]) ↔ turn.Opens settings ∨ (turn.call ≠ .close ∧ Open settings turns) := by
  constructor
  · rintro ⟨before, opener, after, all, opens, standing⟩
    rcases List.eq_nil_or_concat after with rfl | ⟨after, last, rfl⟩
    · obtain ⟨rfl, same⟩ := List.append_inj' all rfl
      obtain rfl := (List.cons.inj same).1
      exact .inl opens
    · have all : turns ++ [turn] = (before ++ opener :: after) ++ [last] := by simpa using all
      obtain ⟨rfl, same⟩ := List.append_inj' all rfl
      obtain rfl := (List.cons.inj same).1
      refine .inr ⟨standing turn (by simp), before, opener, after, rfl, opens, fun later inside => ?_⟩
      exact standing later (by simp [inside])
  · rintro (opens | ⟨other, before, opener, after, rfl, opens, standing⟩)
    · exact ⟨turns, turn, [], rfl, opens, List.forall_mem_nil _⟩
    · refine ⟨before, opener, after ++ [turn], by simp, opens, fun later inside => ?_⟩
      rcases List.mem_append.mp inside with old | new
      · exact standing later old
      · obtain rfl := List.mem_singleton.mp new
        exact other

theorem opened_prefix_of_opening {settings : GraphSettings} {heard : List Event} {r : Except Fault Unit}
    (opening : Opening settings heard r) : opened settings <+: heard ↔ r.isOk := by
  cases opening with
  | unreached fault => simp [opened, Except.isOk, Except.toBool]
  | unselected fault => simp [opened, Except.isOk, Except.toBool]
  | opened => simp [Except.isOk, Except.toBool]

/-- After a call a client is connected if the graph was opened on its account, or if it was connected before and the
call was not to close. -/
theorem Call.turns_connected (plain : Plain around) (present : n < m.graphs.length) {call : Call}
    {r : Except Fault call.Gives} {m' : Memory} {heard : List Event}
    (arrives : (call.routine n).Arrives (.recorded around) (m, []) r (m', heard)) :
    m'.graphs.length = m.graphs.length ∧ (m'.graph n).settings = (m.graph n).settings ∧
    ((m'.graph n).connected = true ↔
      opened (m.graph n).settings <+: heard ∨ (call ≠ .close ∧ (m.graph n).connected = true)) := by
  cases call with
  | connect =>
    rcases connect_takes plain arrives with ⟨connected, rfl, ⟨⟩⟩ | ⟨apart, _, heard, opening, ⟨⟩⟩
    · simp [connected]
    · rw [List.nil_append, opened_prefix_of_opening opening]
      split
      next joined => simp [joined, turned_connected present]
      next failed => simp [failed, apart]
  | close =>
    obtain ⟨rfl, ⟨⟩⟩ := close_takes arrives
    simp [turned_connected present, opened]
  | query statement parameters =>
    rcases send_takes arrives with ⟨apart, rfl, ⟨⟩⟩ | ⟨connected, reply, _, rfl, ⟨⟩⟩
    · simp [apart, opened]
    · simp [connected]
  | health =>
    rcases healthCheck_takes plain present arrives with ⟨apart, rfl, heard, fault, opening, ⟨⟩⟩ | ⟨reply, rfl, either⟩
    · rw [List.nil_append, opened_prefix_of_opening opening]
      simp [apart, Except.isOk, Except.toBool]
    · rcases either with ⟨connected, ⟨⟩⟩ | ⟨apart, ⟨⟩⟩
      · simp [connected]
      · simp [turned_connected present]

/-- A client as it stands after calls. -/
structure Stands (n : Nat) (m : Memory) (turns : List Turn) (m' : Memory) : Prop where
  present : n < m'.graphs.length
  settings : (m'.graph n).settings = (m.graph n).settings
  connected_iff : (m'.graph n).connected = true ↔ Open (m.graph n).settings turns

theorem Uses.stands (plain : Plain around) (present : n < m.graphs.length) (new : (m.graph n).connected = false)
    {turns : List Turn} {m' : Memory} (uses : Uses around n m turns m') : Stands n m turns m' := by
  induction uses with
  | start => exact ⟨present, rfl, by simp [new, not_open_nil]⟩
  | next _ arrives ih =>
    obtain ⟨length, settings, connected⟩ := Call.turns_connected plain ih.present arrives
    refine ⟨length ▸ ih.present, settings.trans ih.settings, ?_⟩
    rw [connected, open_snoc, ih.connected_iff, ih.settings]
    rfl

/-- The rules that a client keeps, however it is called from a memory on. -/
structure Disciplined (around : (question : Ask) → Except Fault question.Reply → Prop) (n : Nat) (m : Memory) : Prop where
  ends : ∀ call, ∃ r t, (Call.routine n call).Arrives (.recorded around) (m, []) r t
  /-- A statement is sent at a moment at which the client is connected. -/
  asks : ∀ call statement parameters t, (Call.routine n call).Poses (.recorded around) (m, []) (.query statement parameters) t →
    (t.1.graph n).connected = true
  connect_again : (m.graph n).connected = true → ∀ r t, (connect n).Arrives (.recorded around) (m, []) r t →
    r = .ok () ∧ t = (m, [])
  connect_anew : (m.graph n).connected = false → ∀ r m' heard, (connect n).Arrives (.recorded around) (m, []) r (m', heard) →
    Opening (m.graph n).settings heard r ∧ ((m'.graph n).connected = true ↔ r.isOk)
  /-- When the server lets itself be opened, connecting succeeds. -/
  connect_able : (m.graph n).connected = false →
    around (.openGraph (m.graph n).settings.host (m.graph n).settings.port (m.graph n).settings.password) (.ok ()) →
    around (.selectGraph (m.graph n).settings.graphName) (.ok ()) →
    ∃ m', (connect n).Arrives (.recorded around) (m, []) (.ok ()) (m', opened (m.graph n).settings)
  closes : ∀ r m' heard, (close n).Arrives (.recorded around) (m, []) r (m', heard) →
    r = .ok () ∧ heard = [] ∧ (m'.graph n).connected = false
  query_refused : (m.graph n).connected = false → ∀ statement parameters r t,
    (send n statement parameters).Arrives (.recorded around) (m, []) r t → r = .error (.failure .graphClosed) ∧ t = (m, [])
  /-- Whether the answer to a statement is a fault, cannot be read, or is read: nothing else changes. -/
  query_sent : (m.graph n).connected = true → ∀ statement parameters r t,
    (send n statement parameters).Arrives (.recorded around) (m, []) r t →
    ∃ reply, r = read statement (parameters.orElse (.dict [])) reply ∧ t = (m, [asked statement parameters reply])
  health : ∀ r m' heard, (healthCheck n).Arrives (.recorded around) (m, []) r (m', heard) →
    ∃ well, r = .ok well ∧ (well = true ↔ ((m.graph n).connected = true ∨ opened (m.graph n).settings <+: heard) ∧
      ∃ reply records, heard.getLast? = some (asked .probe .null reply) ∧ read .probe (.dict []) reply = .ok records)

end GraphClient

end CodeAtlas
