import Mathlib.Algebra.Order.Ring.Unbundled.Rat
import CodeAtlas.Proofs.Crew.Finish
import CodeAtlas.Proofs.Enrichment.Treated
import CodeAtlas.Proofs.Graph.Contents
import CodeAtlas.Proofs.Settings.Usable

namespace CodeAtlas

variable {ω : Type}

section Records

/-- The line numbers of a record are whole numbers, or there are none. -/
def Value.Lined (record : Value) : Prop :=
  ∀ key ∈ ["start_line", "end_line"], record.field key = .null ∨ ∃ n, record.field key = .int n

theorem recordFrom_dict {row : Row} {headers : List Value} {position : Nat} {entries : List (Value × Value)} {record : Value}
    (read : recordFrom row position headers entries = .ok record) : ∃ entries', record = .dict entries' := by
  induction headers generalizing position entries with
  | nil =>
    cases read
    exact ⟨entries, rfl⟩
  | cons header rest ih =>
    obtain ⟨name, _, read⟩ := exists_of_bind_ok read
    obtain ⟨cell, _, read⟩ := exists_of_bind_ok read
    obtain ⟨key, _, read⟩ := exists_of_bind_ok read
    exact ih read

/-- Each row of an answer is read as a dictionary. -/
theorem Table.records_dict {table : Table} {records : List Value} (read : table.records = .ok records) :
    ∀ record ∈ records, ∃ entries, record = .dict entries := by
  intro record inside
  obtain ⟨row, _, made⟩ := mem_of_mapM read inside
  obtain ⟨headers, _, made⟩ := exists_of_bind_ok made
  exact recordFrom_dict made

theorem Value.given_dict (entries : List (Value × Value)) (key : String) (other : Value) :
    (Value.dict entries).given key other = .ok (((Value.dict entries).field key).orElse other) := rfl

theorem Value.toInt_of_lined {v : Value} (lined : v = .null ∨ ∃ n, v = .int n) : ∃ n, (v.orElse (.int 0)).toInt = .ok n := by
  rcases lined with rfl | ⟨n, rfl⟩
  · exact ⟨0, rfl⟩
  · unfold orElse
    split
    · exact ⟨n, rfl⟩
    · exact ⟨0, rfl⟩

/-- With whole numbers for its lines, or none, a record is that of a method, whatever else it holds. -/
theorem PendingMethod.ofRecord_lined {entries : List (Value × Value)} (lined : (Value.dict entries).Lined) :
    ∃ method, ofRecord (.dict entries) = .ok method := by
  obtain ⟨first, starts⟩ := Value.toInt_of_lined (lined "start_line" (by simp))
  obtain ⟨last, ends⟩ := Value.toInt_of_lined (lined "end_line" (by simp))
  have start : (.dict entries : Value).given "start_line" (.int 0) >>= Value.toInt = .ok first := starts
  have stop : (.dict entries : Value).given "end_line" (.int 0) >>= Value.toInt = .ok last := ends
  simp only [ofRecord, Value.get, Value.getD, Value.given_dict, bind, Except.bind, pure, Except.pure] at start stop ⊢
  rw [start]
  dsimp only
  rw [stop]
  exact ⟨_, rfl⟩

/-- All records of an answer with whole line numbers, or none, are those of methods. -/
theorem PendingMethod.ofRecord_all {table : Table} {records : List Value} (read : table.records = .ok records)
    (lined : ∀ record ∈ records, record.Lined) : ∃ methods, records.mapM ofRecord = .ok methods := by
  have each : ∀ record ∈ records, ∃ method, ofRecord record = .ok method := by
    intro record inside
    obtain ⟨entries, rfl⟩ := Table.records_dict read record inside
    exact ofRecord_lined (lined _ inside)
  have pairs : List.Forall₂ (fun record record' => record = record' ∧ record ∈ records) records records :=
    List.forall₂_same.mpr fun _ inside => ⟨rfl, inside⟩
  obtain ⟨methods, made, _⟩ := mapM_forall₂ (Q := fun _ _ => True) pairs fun record _ ⟨same, inside⟩ => by
    obtain ⟨method, own⟩ := each record inside
    exact ⟨method, same ▸ own, trivial⟩
  exact ⟨methods, made⟩

end Records

/-- Permits that were made of a number that is accepted are not used up from the start. -/
theorem Permits.available_of_ofValue {v : Value} {permits : Permits} (accepted : Permits.ofValue v = .ok permits) :
    permits.available = true := by
  obtain ⟨_, counts, made⟩ := exists_of_bind_ok accepted
  have enough := atLeastOne_eq_ok.mp counts
  split at made
  next q magnitude =>
    rw [Value.compare_of_magnitudes magnitude rfl] at enough
    have one_le : 1 ≤ q := Rat.not_lt.mp (of_decide_eq_false (Except.ok.inj enough))
    cases made
    split
    · have positive : 0 < q.num := Rat.num_pos.mpr (lt_of_lt_of_le (by decide : (0 : Rat) < 1) one_le)
      exact decide_eq_true (Int.pos_iff_toNat_pos.mp positive)
    · rfl
  next =>
    cases made
    rfl

/-- Surroundings in which methods are described. What fails while this is done does so by an ordinary fault, and numbers can
be drawn; the methods that are listed have whole numbers for their lines, or none. -/
structure World.Lists (w : World ω) : Prop where
  civil : ∀ (question : Ask) clock world, question.describes → question.Civil (w.answer question clock world).reply
  draws : ∀ clock world, ∃ drawn, (w.answer .drawId clock world).reply = .ok drawn
  lined : ∀ clock world table records, (w.answer (.query .undescribedMethods (.dict [])) clock world).reply = .ok table →
    table.records = .ok records → ∀ record ∈ records, record.Lined

namespace Enricher

/-- A caller has all methods described that have no description, and reports what comes of it. -/
def describing (e : Enricher) (report : Except Fault EnrichmentCounts → Except Fault Yield) (m : Memory) (world : ω) (hasLoop : Bool) :
    Shift ω :=
  Shift.solo ((enrichMethods e).andThen fun r => .done (report r)) m world hasLoop

/-- What is relied on while methods are described: the graph stays connected if it was, and what is answered the world
answers. -/
def terms (e : Enricher) (w : World ω) (m : Memory) : Terms where
  keeps m' := (m'.graph e.graph).connected = (m.graph e.graph).connected
  answers question reply := ∃ clock world, reply = (w.answer question clock world).reply

/-- What listing the methods that have no description comes to, and what is heard for it. -/
inductive Listed (e : Enricher) (m : Memory) : List Exchange → Except Fault (List Value) → Prop
  | closed : (m.graph e.graph).connected = false → Listed e m [] (.error (.failure .graphClosed))
  | answered {reply listing} : (m.graph e.graph).connected = true → GraphClient.read .undescribedMethods (.dict []) reply = listing →
      Listed e m [⟨.query .undescribedMethods (.dict []), reply⟩] listing

/-- What an enricher sets out to do: it has each method that is listed described by a job, and counts what comes of them. -/
def errand (e : Enricher) (w : World ω) (m : Memory) (report : Except Fault EnrichmentCounts → Except Fault Yield) : Errand where
  terms := e.terms w m
  permits := e.permits
  idle heard result := (∃ fault, e.Listed m heard (.error fault) ∧ result = report (.error fault)) ∨
    e.Listed m heard (.ok []) ∧ result = report (.ok ⟨0, 0, 0, 0, 0.0⟩)
  opens heard jobs := ∃ records methods, e.Listed m heard (.ok records) ∧ records.mapM PendingMethod.ofRecord = .ok methods ∧
    jobs = methods.map (.describe e)
  comes
    | .describe _ method, heard, result => ∃ outcome, result = .ok (.outcome outcome) ∧ Described (e.terms w m) e method heard outcome
    | _, _, _ => False
  closes jobs waited result := ∃ duration, result = report (waited.map fun yields =>
    .ofOutcomes jobs.length (yields.filterMap Yield.outcome?) duration)

variable {w : World ω} {e : Enricher} {m : Memory} {report : Except Fault EnrichmentCounts → Except Fault Yield}

theorem terms_serves (lists : w.Lists) (connected : (m.graph e.graph).connected = true) : (e.terms w m).Serves e where
  connected m' kept := kept.trans connected
  undisturbed m' n f kept := kept
  civil question reply describes answered := by
    obtain ⟨clock, world, rfl⟩ := answered
    exact lists.civil question clock world describes

/-- The errand is set out on as it is to be. -/
theorem prepares (lists : w.Lists) (e : Enricher) (m : Memory) (report : Except Fault EnrichmentCounts → Except Fault Yield) :
    (e.errand w m report).Prepares [] ((enrichMethods e).andThen fun r => .done (report r)) := by
  intro (start : Float)
  let rest (records : List Value) : Routine EnrichmentCounts := do
    let methods ← Routine.ofExcept (records.mapM PendingMethod.ofRecord)
    if methods.isEmpty then return ⟨0, 0, 0, 0, 0.0⟩
    let left ← Routine.request (.gather e.permits (methods.map (.describe e)))
    let stop ← Routine.now
    return .ofOutcomes methods.length (List.filterMap Yield.outcome? left) (stop - start)
  change Errand.Prepares _ [] ((GraphClient.send e.graph .undescribedMethods .null >>= rest).andThen _)
  rw [GraphClient.send_eq]
  intro m' kept
  cases connected : (m'.graph e.graph).connected with
  | false =>
    simp only [Routine.andThen, connected, Bool.false_eq_true, if_false]
    exact .inl ⟨_, .closed (kept.symm.trans connected), rfl⟩
  | true =>
    simp only [Routine.andThen, connected, if_true]
    have open' : (m.graph e.graph).connected = true := kept.symm.trans connected
    rintro reply ⟨clock, world, answered⟩
    change Errand.Prepares _ [⟨.query .undescribedMethods (.dict []), reply⟩]
      ((Routine.bind (.done (GraphClient.read .undescribedMethods (.dict []) reply)) rest).andThen _)
    cases listing : GraphClient.read .undescribedMethods (.dict []) reply with
    | error fault => exact .inl ⟨fault, .answered open' listing, rfl⟩
    | ok records =>
      obtain ⟨table, rfl, read⟩ := GraphClient.records_of_read listing
      obtain ⟨methods, made⟩ := PendingMethod.ofRecord_all read (lists.lined clock world table records answered.symm read)
      have listed : e.Listed m [⟨.query .undescribedMethods (.dict []), .ok table⟩] (.ok records) := .answered open' listing
      change Errand.Prepares _ _ ((rest records).andThen _)
      simp only [rest, made]
      cases methods with
      | nil =>
        have nothing : records = [] := List.length_eq_zero_iff.mp (getElem?_of_mapM made).1.symm
        exact .inr ⟨nothing ▸ listed, rfl⟩
      | cons method others =>
        refine ⟨rfl, List.cons_ne_nil _ _, ⟨records, _, listed, made, rfl⟩, fun job inside => ?_, fun waited => ?_⟩
        · obtain ⟨method', _, rfl⟩ := List.mem_map.mp inside
          exact ⟨rfl, describe_job_hears (terms_serves lists open') method'⟩
        · cases waited with
          | error fault => exact ⟨0, rfl⟩
          | ok yields =>
            intro (stop : Float)
            exact ⟨stop - start, by rw [List.length_map]; rfl⟩

/-- Whatever the order, the description of methods goes as it is to go. -/
theorem underway (lists : w.Lists) (e : Enricher) (m : Memory) (report : Except Fault EnrichmentCounts → Except Fault Yield) (world : ω)
    (hasLoop : Bool) : (e.errand w m report).Underway w (e.describing report m world hasLoop) :=
  Errand.underway (fun _ clock world => ⟨clock, world, rfl⟩) rfl (prepares lists e m report)

/-- Whatever has come about so far, the description of methods can come to the end. -/
theorem finishes (lists : w.Lists) {v : Value} (accepted : Permits.ofValue v = .ok e.permits) {world : ω} {hasLoop : Bool} {a : Shift ω}
    (leads : Shift.Leads w (e.describing report m world hasLoop) a) :
    ∃ b h result, Shift.Leads w a b ∧ b.crew.hand? (.caller 0) = some h ∧ h.station = .over result :=
  (underway lists e m report world hasLoop).finishes (Permits.available_of_ofValue accepted) leads

end Enricher

end CodeAtlas
