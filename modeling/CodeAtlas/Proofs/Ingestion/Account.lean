import CodeAtlas.Facade
import CodeAtlas.Proofs.Ingestion.Calls
import CodeAtlas.Proofs.Ingestion.Scope

namespace CodeAtlas

/-- Whether all that is noted of the runs is good: one of them completed, and the last one has not failed. -/
def Ledger.fresh (l : Ledger) : Bool := l.completed && !l.failed

theorem Facade.isFresh_statusAt (c : Coordinator) (time : Float) : isFresh (c.statusAt time) = c.run.ledger.fresh := by
  simp only [isFresh, Coordinator.statusAt, RunState.ledger, Ledger.fresh]
  cases c.run.lastError <;> cases c.run.finishedAt <;> rfl

/-- A run waits for a stage, or has a good answer. -/
def Course.Thrives : Course → Prop
  | .calling _ _ => True
  | .answered _ _ (.ok _) => True
  | _ => False

/-- Nothing has failed since a run began that thrives. -/
theorem Course.Along.unfailed {events : List (Who × RunEvent)} {c : Course} (along : Course.Along events c) (l : Ledger)
    (thrives : c.Thrives) : (l.after events).failed = false := by
  induction along with
  | start => exact thrives.elim
  | @next events k event c c' along takes ih =>
    rw [l.after_snoc]
    cases takes with
    | first isFetch | firstOfJob isFetch => simp only [Ledger.enter, isFetch, if_true]
    | @later k question reply question' stage stage' goesOn isStage next isNext =>
      have notFetch : question'.stage? ≠ some .fetch := by
        rw [isNext]
        rintro ⟨⟩
        cases stage <;> cases next
      rw [Ledger.enter, if_neg notFetch]
      cases reply with
      | ok value => exact ih trivial
      | error fault => cases question <;> cases goesOn
    | @heard k question reply =>
      cases reply with
      | ok value =>
        have before := ih trivial
        rw [Ledger.enter_value]
        split <;> exact before
      | error => exact thrives.elim
    | took | refused | gave | begun | gaveBack | ended => exact thrives.elim

/-- The answer that a run has is the last thing that happened to it. -/
theorem Course.Along.heard {events : List (Who × RunEvent)} {k : Who} {question : Ask}
    {reply : Except Fault question.Reply} (along : Course.Along events (.answered k question reply)) :
    ∃ before, events = before ++ [(k, .heard question reply)] := by
  generalize whole : Course.answered k question reply = c at along
  cases along with
  | start => cases whole
  | next _ takes =>
    cases takes <;> cases whole
    exact ⟨_, rfl⟩

/-- The question that was put last. -/
def Course.question? : Course → Option Ask
  | .calling _ question => some question
  | .answered _ question _ => some question
  | _ => none

theorem Course.Along.isStage {events : List (Who × RunEvent)} {c : Course} (along : Course.Along events c)
    {question : Ask} (asked : c.question? = some question) : question.stage?.isSome = true := by
  induction along generalizing question with
  | start => cases asked
  | next _ takes ih =>
    cases takes with
    | first isStage | firstOfJob isStage | later _ _ _ isStage =>
      cases asked
      rw [isStage]
      rfl
    | heard => exact ih asked
    | took | refused | gave | begun | gaveBack | ended => cases asked

/-- Reading the population begins with a query for its classes. -/
def Deed.reads : Deed → Prop
  | .asks (.query .allClasses _) => True
  | _ => False

/-- Neither does it read the population nor change what is known of it. -/
def Deed.spares : Deed → Prop
  | .asks (.query .allClasses _) => False
  | .stores before after => after.registries = before.registries
  | _ => True

/-- Somebody has begun to read the population. -/
def HasRead (k : Who) (trace : List (Who × Deed)) : Prop := ∃ entry ∈ trace, entry.1 = k ∧ entry.2.reads

/-- Somebody has left the population alone. -/
def Spares (k : Who) (trace : List (Who × Deed)) : Prop := ∀ entry ∈ trace, entry.1 = k → entry.2.spares

section Entries

variable {k j : Who} {deed : Deed} {trace trace' : List (Who × Deed)}

theorem Deed.unread (spares : deed.spares) : ¬ deed.reads := by
  unfold Deed.reads
  split
  · exact fun _ => spares
  · exact id

theorem Spares.unread (spares : Spares k trace) : ¬ HasRead k trace := by
  rintro ⟨entry, inside, own, reads⟩
  exact Deed.unread (spares entry inside own) reads

theorem reads_append : HasRead k (trace ++ trace') ↔ HasRead k trace ∨ HasRead k trace' := by
  simp only [HasRead, List.mem_append, or_and_right, exists_or]

theorem spares_append : Spares k (trace ++ trace') ↔ Spares k trace ∧ Spares k trace' := by
  simp only [Spares, List.mem_append, or_imp, forall_and]

theorem reads_own (reads : deed.reads) : HasRead k (trace ++ [(k, deed)]) :=
  reads_append.mpr (.inr ⟨_, List.mem_singleton_self _, rfl, reads⟩)

theorem Spares.own (spares : Spares k trace) (also : deed.spares) : Spares k (trace ++ [(k, deed)]) := by
  refine spares_append.mpr ⟨spares, fun entry inside _ => ?_⟩
  rw [List.mem_singleton.mp inside]
  exact also

theorem Spares.other (spares : Spares k trace) (other : j ≠ k) : Spares k (trace ++ [(j, deed)]) := by
  refine spares_append.mpr ⟨spares, fun entry inside own => ?_⟩
  rw [List.mem_singleton.mp inside] at own
  exact absurd own other

end Entries

/-- How a call of an ingestion comes out: it is turned away, or its own run completes, finds nothing or fails. -/
inductive Upshot where
  | turnedAway
  | completed
  | empty
  | failed

/-- The runs so far, as one who calls has a part in them: none, or a run that has ended with the last of them,
which completes with its last stage, or ends with the first one or with any fault. -/
inductive Ends (k : Who) : List (Who × RunEvent) → Upshot → Prop
  | turnedAway {events} : (∀ entry ∈ events, entry.1 ≠ k) → Ends k events .turnedAway
  | completed {events question value} : Course.Along events (.answered k question (.ok value)) →
      question.stage? = some .vectorize → Ends k (events ++ [(k, .freed)]) .completed
  | empty {events endpoint found} : Course.Along events (.answered k (.fetchSnapshot endpoint) (.ok found)) →
      (Ask.fetchSnapshot endpoint).goesOn (.ok found) = false → Ends k (events ++ [(k, .freed)]) .empty
  | failed {events question fault} : Course.Along events (.answered k question (.error fault)) →
      Ends k (events ++ [(k, .freed)]) .failed

/-- Whether the population is read after a call, when the runs have come to this: what was noted of earlier
ones decides where the call has not completed a run itself. -/
def Ledger.due (l : Ledger) : Upshot → Bool
  | .turnedAway => l.fresh
  | .completed => true
  | .empty => l.completed
  | .failed => false

/-- What happened before a call decided whether to read the population, and what happened after it. -/
structure Decided (n : Nat) (k : Who) (trace before after : List (Who × Deed)) (upshot : Upshot) : Prop where
  whole : trace = before ++ after
  ends : Ends k (runEvents n before) upshot
  spared : Spares k before
  rest : ∀ entry ∈ after, entry.1 = k → entry.2.event n = none

/-- A call has decided whether to read the population, and has begun to if it was to. -/
def Concluded (l : Ledger) (n : Nat) (k : Who) (trace : List (Who × Deed)) : Prop :=
  ∃ before after upshot, Decided n k trace before after upshot ∧
    if (l.after (runEvents n before)).due upshot then HasRead k after else Spares k after

/-- How far a task is that runs an ingestion. -/
def Account (l : Ledger) (n : Nat) (k : Who) (t : Task) (trace : List (Who × Deed)) : Prop :=
  match t.stand with
  | .fresh => t.stopped = false ∧ ∀ entry ∈ trace, entry.1 ≠ k
  | .running => Spares k trace ∨ HasRead k trace ∧ Concluded l n k trace
  | .asking question _ =>
    if question.stage?.isSome then Spares k trace else HasRead k trace ∧ Concluded l n k trace
  | .waiting _ _ => Spares k trace
  | .ended => Concluded l n k trace

section Account

variable {l : Ledger} {n : Nat} {k j : Who} {t : Task} {trace before after : List (Who × Deed)} {deed : Deed}
variable {upshot : Upshot}

theorem Decided.now (ends : Ends k (runEvents n trace) upshot) (spared : Spares k trace) :
    Decided n k trace trace [] upshot :=
  ⟨(List.append_nil trace).symm, ends, spared, fun _ inside => absurd inside List.not_mem_nil⟩

/-- One more deed decides nothing any more, if it is no event of the run by the one who has decided. -/
theorem Decided.snoc (decided : Decided n k trace before after upshot) (silent : j = k → deed.event n = none) :
    Decided n k (trace ++ [(j, deed)]) before (after ++ [(j, deed)]) upshot where
  whole := by rw [decided.whole, List.append_assoc]
  ends := decided.ends
  spared := decided.spared
  rest := by
    intro entry inside own
    rcases List.mem_append.mp inside with old | new
    · exact decided.rest entry old own
    · rw [List.mem_singleton.mp new] at own ⊢
      exact silent own

theorem Decided.other (decided : Decided n k trace before after upshot) (other : j ≠ k) :
    Decided n k (trace ++ [(j, deed)]) before (after ++ [(j, deed)]) upshot := decided.snoc fun own => absurd own other

theorem Decided.goesOn (decided : Decided n k trace before after upshot) (silent : deed.event n = none) :
    Decided n k (trace ++ [(k, deed)]) before (after ++ [(k, deed)]) upshot := decided.snoc fun _ => silent

theorem Concluded.other (concluded : Concluded l n k trace) (other : j ≠ k) :
    Concluded l n k (trace ++ [(j, deed)]) := by
  obtain ⟨before, after, upshot, decided, outcome⟩ := concluded
  refine ⟨before, _, upshot, decided.other other, ?_⟩
  split at outcome
  next isDue =>
    rw [if_pos isDue]
    exact reads_append.mpr (.inl outcome)
  next notDue =>
    rw [if_neg notDue]
    exact outcome.other other

/-- Whoever has begun to read the population goes on with it. -/
theorem Concluded.goesOn (concluded : Concluded l n k trace) (reads : HasRead k trace) (silent : deed.event n = none) :
    Concluded l n k (trace ++ [(k, deed)]) := by
  obtain ⟨before, after, upshot, decided, outcome⟩ := concluded
  have later : HasRead k after := (reads_append.mp (decided.whole ▸ reads)).resolve_left decided.spared.unread
  refine ⟨before, _, upshot, decided.goesOn silent, ?_⟩
  split at outcome
  next isDue =>
    rw [if_pos isDue]
    exact reads_append.mpr (.inl outcome)
  next => exact absurd later outcome.unread

theorem Account.other (account : Account l n k t trace) (other : j ≠ k) : Account l n k t (trace ++ [(j, deed)]) := by
  have reading (reads : HasRead k trace ∧ Concluded l n k trace) :
      HasRead k (trace ++ [(j, deed)]) ∧ Concluded l n k (trace ++ [(j, deed)]) :=
    ⟨reads_append.mpr (.inl reads.1), reads.2.other other⟩
  unfold Account at account ⊢
  split
  next fresh =>
    simp only [fresh] at account
    refine ⟨account.1, fun entry inside => ?_⟩
    rcases List.mem_append.mp inside with old | new
    · exact account.2 entry old
    · rw [List.mem_singleton.mp new]
      exact other
  next running =>
    simp only [running] at account
    exact account.imp (·.other other) reading
  next asking =>
    simp only [asking] at account
    split
    next isStage =>
      rw [if_pos isStage] at account
      exact account.other other
    next notStage =>
      rw [if_neg notStage] at account
      exact reading account
  next waiting =>
    simp only [waiting] at account
    exact account.other other
  next ended =>
    simp only [ended] at account
    exact account.other other

/-- Whoever has begun to read the population has decided to. -/
theorem Account.concluded (account : Account l n k t trace) (reads : HasRead k trace) : Concluded l n k trace := by
  unfold Account at account
  split at account
  next =>
    obtain ⟨entry, inside, own, _⟩ := reads
    exact absurd own (account.2 entry inside)
  next => exact (account.resolve_left fun spares => spares.unread reads).2
  next =>
    split at account
    next => exact absurd reads account.unread
    next => exact account.2
  next => exact absurd reads account.unread
  next => exact account

end Account

end CodeAtlas
