import CodeAtlas.Proofs.Enrichment.Treated
import CodeAtlas.Proofs.Turns.Runs

namespace CodeAtlas

open Routine

/-- What a fault makes of a method: an ordinary one makes it a failed one, any other is passed on. -/
def Fault.spared (fault : Fault) : Except Fault Outcome :=
  if fault.ordinary then .ok .failed else .error fault

/-- What happens to a method once its description is chosen, and what becomes of it. -/
inductive Concludes (e : Enricher) (m : PendingMethod) (content : String) (outcome : Outcome) :
    List Event → Except Fault Outcome → Prop
  | undrawn {fault} : Concludes e m content outcome [.hears .drawId (.error fault)] fault.spared
  | unconnected {drawn : Nat} {memory} : (memory.graph e.graph).connected = false →
      Concludes e m content outcome [.hears .drawId (.ok drawn), .sees memory] (.ok .failed)
  | unanswered {drawn : Nat} {memory fault} : (memory.graph e.graph).connected = true →
      Concludes e m content outcome [.hears .drawId (.ok drawn), .sees memory,
        .hears (.query .createDescription (m.parameters drawn content)) (.error fault)] fault.spared
  | refused {drawn : Nat} {memory} {table : Table} : (memory.graph e.graph).connected = true → table.creates = false →
      Concludes e m content outcome [.hears .drawId (.ok drawn), .sees memory,
        .hears (.query .createDescription (m.parameters drawn content)) (.ok table)] (.ok .failed)
  | created {drawn : Nat} {memory} {table : Table} : (memory.graph e.graph).connected = true → table.creates = true →
      Concludes e m content outcome [.hears .drawId (.ok drawn), .sees memory,
        .hears (.query .createDescription (m.parameters drawn content)) (.ok table)] (.ok outcome)

section Runs

variable {e : Enricher} {m : PendingMethod} {code : String} {reading asking rest log : List Event}

/-- What becomes of a method in the end, after its description was written or not. -/
def Outcome.given (outcome : Outcome) : Except Fault Unit → Except Fault Outcome
  | .ok _ => .ok outcome
  | .error fault => fault.spared

/-- What a description is answered decides what becomes of the method. -/
theorem PendingMethod.confirm_given (m : PendingMethod) (outcome : Outcome) (table : Table) :
    outcome.given (table.records >>= createdCount >>= m.confirm) = .ok (if table.creates then outcome else .failed) := by
  have confirmed := table.creates_iff m
  have civil : Civil (table.records >>= createdCount >>= m.confirm) :=
    (table.records_civil.bind createdCount_civil).bind fun _ => .ite (.ok ()) (.error rfl)
  cases came : table.records >>= createdCount >>= m.confirm with
  | ok =>
    rw [came] at confirmed
    rw [if_pos (confirmed.mp rfl), Outcome.given]
  | error fault =>
    rw [came] at confirmed
    rw [if_neg fun creates => Bool.false_ne_true (confirmed.mpr creates)]
    exact if_pos (civil fault came)

/-- What is left to do for a method whose description is chosen. -/
theorem concluding_eq (e : Enricher) (m : PendingMethod) (content : String) (outcome : Outcome) :
    ((writeDescription e m content >>= fun _ => pure outcome).rescue fun _ => pure .failed) = .ask .drawId fun drawing =>
      match drawing with
      | .error fault => .done fault.spared
      | .ok drawn => .look fun memory =>
        if (memory.graph e.graph).connected then .ask (.query .createDescription (m.parameters drawn content)) fun reply =>
          .done (outcome.given (reply >>= Table.records >>= createdCount >>= m.confirm))
        else .done (.ok .failed) := by
  have ends : ∀ p : Routine Unit, ((p >>= fun _ => pure outcome).rescue fun _ => pure .failed) =
      p.andThen fun written => .done (outcome.given written) := by
    refine fun p => (andThen_assoc p _ _).trans (congrArg p.andThen (funext fun written => ?_))
    cases written with
    | ok => rfl
    | error fault => exact (apply_ite Routine.done _ _ _).symm
  rw [ends, writeDescription_eq]
  refine congrArg (Routine.ask _) (funext fun drawing => ?_)
  cases drawing with
  | error fault => rfl
  | ok drawn =>
    refine congrArg Routine.look (funext fun memory => ?_)
    dsimp only
    split
    · rfl
    · rfl

/-- A description that was sent concludes by what it is answered. -/
theorem Concludes.sent {content : String} {outcome : Outcome} {drawn : Nat} {memory : Memory}
    (connected : (memory.graph e.graph).connected = true) (reply : Except Fault Table) :
    Concludes e m content outcome [.hears .drawId (.ok drawn), .sees memory,
      .hears (.query .createDescription (m.parameters drawn content)) reply]
      (outcome.given (reply >>= Table.records >>= createdCount >>= m.confirm)) := by
  cases reply with
  | error fault => exact .unanswered connected
  | ok table =>
    have given : outcome.given (Except.ok table >>= Table.records >>= createdCount >>= m.confirm) = _ := m.confirm_given outcome table
    rw [given]
    split
    next creates => exact .created connected creates
    next refuses => exact .refused connected (Bool.eq_false_iff.mpr refuses)

theorem runs_concludes {content : String} {outcome : Outcome} {result : Except Fault Outcome} :
    ((writeDescription e m content >>= fun _ => pure outcome).rescue fun _ => pure .failed).Runs log result ↔
      Concludes e m content outcome log result := by
  rw [concluding_eq]
  constructor
  · intro runs
    obtain ⟨drawing, _, rfl, drawn⟩ := runs_ask.mp runs
    cases drawing with
    | error fault =>
      obtain ⟨rfl, rfl⟩ := runs_done.mp drawn
      exact .undrawn
    | ok number =>
      obtain ⟨memory, _, rfl, looked⟩ := runs_look.mp drawn
      split at looked
      next connected =>
        obtain ⟨reply, _, rfl, answered⟩ := runs_ask.mp looked
        obtain ⟨rfl, rfl⟩ := runs_done.mp answered
        exact .sent connected reply
      next lost =>
        obtain ⟨rfl, rfl⟩ := runs_done.mp looked
        exact .unconnected (Bool.eq_false_iff.mpr lost)
  · intro concludes
    cases concludes with
    | undrawn => exact .ask .done
    | unconnected lost =>
      refine .ask (.look ?_)
      rw [if_neg (Bool.eq_false_iff.mp lost)]
      exact .done
    | unanswered connected =>
      refine .ask (.look ?_)
      rw [if_pos connected]
      exact .ask .done
    | @refused _ _ table connected refuses =>
      refine .ask (.look ?_)
      rw [if_pos connected]
      have given := m.confirm_given outcome table
      rw [refuses] at given
      exact .ask (runs_done.mpr ⟨rfl, given.symm⟩)
    | @created _ _ table connected creates =>
      refine .ask (.look ?_)
      rw [if_pos connected]
      have given := m.confirm_given outcome table
      rw [creates] at given
      exact .ask (runs_done.mpr ⟨rfl, given.symm⟩)

/-- The language model is asked, and what it answers is read; an ordinary fault leaves nothing. -/
theorem describe_runs {answer : Except Fault Value} (answers :
    (e.completion.complete (enrichmentPrompt m code) (some enrichmentSystem)).Runs asking answer) (civil : Civil answer) :
    (describe e m code).Runs asking (.ok (answer >>= readDescription).toOption) := by
  rw [← List.append_nil asking]
  cases answer with
  | error fault => exact (answers.rescue_bind_error_iff (civil fault rfl)).mpr .done
  | ok answer =>
    refine answers.rescue_bind_iff.mpr ?_
    have reads : (liftM (readDescription answer) : Routine String).Runs [] (readDescription answer) := .done
    change (Routine.rescue _ _).Runs ([] ++ []) (.ok (readDescription answer).toOption)
    cases came : readDescription answer with
    | ok content =>
      rw [came] at reads
      exact reads.rescue_bind_iff.mpr .done
    | error fault =>
      rw [came] at reads
      exact (reads.rescue_bind_error_iff (readDescription_civil answer fault came)).mpr .done

/-- Once the code is read and the language model has answered, the description that is chosen is written. -/
theorem enrichOne_runs_iff (read : (readCode e m).Runs reading (.ok code)) {description : Option String}
    (describes : (describe e m code).Runs asking (.ok description)) {result : Except Fault Outcome} :
    (enrichOne e m).Runs (reading ++ (asking ++ rest)) result ↔
      Concludes e m (description.getD m.placeholder) (if description.isSome then .enriched else .placeholder) rest result := by
  rw [← runs_concludes, enrichOne, read.rescue_bind_iff, describes.rescue_bind_iff]
  cases description with
  | none => exact Iff.rfl
  | some content => exact Iff.rfl

/-- A method is described by reading its code first, and then asking about this code. -/
theorem enrichOne_asks {result : Except Fault Outcome} (runs : (enrichOne e m).Runs log result) :
    ∃ reading rest read, log = reading ++ rest ∧ (readCode e m).Runs reading read ∧ ∀ code, read = .ok code →
      ∃ asking last answer, rest = asking ++ last ∧
        (e.completion.complete (enrichmentPrompt m code) (some enrichmentSystem)).Runs asking answer := by
  obtain ⟨body, _, _, rfl, runs, -⟩ := runs_andThen.mp runs
  obtain ⟨reading, rest, read, rfl, reads, runs⟩ := runs_andThen.mp runs
  refine ⟨reading, _, read, List.append_assoc .., reads, ?_⟩
  rintro code rfl
  obtain ⟨consulting, last, _, rfl, runs, -⟩ := runs_andThen.mp runs
  obtain ⟨body, _, _, rfl, runs, -⟩ := runs_andThen.mp runs
  obtain ⟨asking, _, answer, rfl, asks, -⟩ := runs_andThen.mp runs
  exact ⟨asking, _, answer, by rw [List.append_assoc, List.append_assoc, List.append_assoc], asks⟩

end Runs

end CodeAtlas
