import CodeAtlas.Proofs.Ingestion.Account

namespace CodeAtlas

namespace Facade

/-- An ingestion as somebody runs it who has no use for the answer. -/
def ingestion : Routine Yield := runIngestion.andThen fun result => .done (result.map fun _ => .nothing)

/-- What somebody does with a connected facade: an ingestion, or anything with its coordinator. -/
inductive Caller (n : Nat) : Routine Yield → Prop
  | coordinates {program} : Coordinator.Caller n program → Caller n program
  | ingests : Caller n ingestion

end Facade

/-- Task `k` runs an ingestion, which no job does. -/
def Ingests (k : Who) (origin : Origin) : Prop := (∃ i, k = .caller i) ∧ origin = .caller Facade.ingestion

/-- It is the turn of task `k`, which carries out this. -/
def Scene.Performs (s : Scene) (k : Who) (origin : Origin) : Prop :=
  ∃ t, s.task? k = some t ∧ t.stand = .running ∧ t.origin = origin

/-- What holds of the links of the facade and of all ingestions at all times. -/
structure Accounted (l : Ledger) (n r g : Nat) (s : Scene) : Prop where
  linked : s.memory.Linked n r g
  acted : ∀ entry ∈ s.trace, ∃ t, s.task? entry.1 = some t
  accounts : ∀ (k : Who) (t : Task), s.task? k = some t → Ingests k t.origin → Account l n k t s.trace

/-- It is the turn of task `k`, which has left the population alone so far if it runs an ingestion. -/
structure Engaged (l : Ledger) (n r g : Nat) (k : Who) (origin : Origin) (s : Scene) : Prop where
  accounted : Accounted l n r g s
  performs : s.Performs k origin
  spares : Ingests k origin → Spares k s.trace

section Moves

variable {l : Ledger} {n r g : Nat} {k : Who} {origin : Origin} {s : Scene}

namespace Scene.Performs

theorem of_resumed {t : Task} (found : s.task? k = some t) : (s.onTask k (Task.moved .running)).Performs k t.origin := by
  have moved := Scene.onTask_found found k (Task.moved .running)
  rw [if_pos rfl] at moved
  exact ⟨_, moved, rfl, rfl⟩

theorem joined (performs : s.Performs k origin) {s' : Scene} {j : Who} {origin' : Origin} (joined : s.Joined s' j origin') :
    s'.Performs k origin := by
  obtain ⟨t, found, stand, same⟩ := performs
  exact ⟨t, joined.old found, stand, same⟩

theorem cancel (performs : s.Performs k origin) (j : Who) : (s.onTask j Task.cancelled).Performs k origin := by
  obtain ⟨t, found, running, same⟩ := performs
  refine ⟨_, Scene.onTask_found found j _, ?_⟩
  split
  · exact ⟨t.cancelled_running.mpr running, t.cancelled_origin.trans same⟩
  · exact ⟨running, same⟩

/-- Whoever goes on after a wait carries out what it did before. -/
theorem same {t t' : Task} {s' : Scene} (performs : s.Performs k origin) (found : s.task? k = some t)
    (carries : s'.Carries k t.origin) (found' : s'.task? k = some t') : t'.origin = origin := by
  obtain ⟨_, at_k, _, same⟩ := performs
  cases Option.some.inj (found.symm.trans at_k)
  exact (carries t' found').trans same

end Scene.Performs

namespace Accounted

/-- A deed of somebody on its turn, who may have begun to read the population. -/
theorem note (accounted : Accounted l n r g s) (performs : s.Performs k origin) {deed : Deed}
    (own : Ingests k origin → Spares k (s.trace ++ [(k, deed)]) ∨
      HasRead k (s.trace ++ [(k, deed)]) ∧ Concluded l n k (s.trace ++ [(k, deed)])) :
    Accounted l n r g (s.note k deed) where
  linked := accounted.linked
  acted := by
    intro entry inside
    rcases List.mem_append.mp inside with old | new
    · exact accounted.acted entry old
    · obtain ⟨t, found, _⟩ := performs
      exact ⟨t, List.mem_singleton.mp new ▸ found⟩
  accounts := by
    intro j t found ingests
    by_cases same : k = j
    · subst same
      obtain ⟨t', found', stand, rfl⟩ := performs
      cases Option.some.inj (found.symm.trans found')
      simp only [Account, stand]
      exact own ingests
    · exact (accounted.accounts j t found ingests).other same

theorem onTask (accounted : Accounted l n r g s) {f : Task → Task} (origin : ∀ t, (f t).origin = t.origin)
    (own : ∀ t, s.task? k = some t → Ingests k t.origin → Account l n k (f t) s.trace) :
    Accounted l n r g (s.onTask k f) where
  linked := accounted.linked
  acted := by
    intro entry inside
    obtain ⟨t, found⟩ := accounted.acted entry inside
    exact ⟨_, Scene.onTask_found found k f⟩
  accounts := by
    intro j t found ingests
    obtain ⟨rfl, old, at_k, rfl⟩ | ⟨_, same⟩ := Scene.onTask_cases found
    · exact own old at_k (origin old ▸ ingests)
    · exact accounted.accounts j t same ingests

theorem store (accounted : Accounted l n r g s) {m : Memory} (linked : m.Linked n r g) :
    Accounted l n r g { s with memory := m } := ⟨linked, accounted.acted, accounted.accounts⟩

theorem joined (accounted : Accounted l n r g s) {s' : Scene} {j : Who} (joined : s.Joined s' j origin) :
    Accounted l n r g s' where
  linked := joined.memory ▸ accounted.linked
  acted := by
    intro entry inside
    obtain ⟨t, found⟩ := accounted.acted entry (joined.trace ▸ inside)
    exact ⟨t, joined.old found⟩
  accounts := by
    intro i t found ingests
    rw [joined.trace]
    rcases joined.cases found with old | ⟨new, rfl⟩
    · exact accounted.accounts i t old ingests
    · -- nobody has done anything yet under a name that was free
      refine ⟨rfl, fun entry inside same => ?_⟩
      obtain ⟨t, found⟩ := accounted.acted entry inside
      rw [same, new, joined.free] at found
      cases found

theorem close (accounted : Accounted l n r g s) (performs : s.Performs k origin) (other : ¬ Ingests k origin)
    (result : Except Fault Yield) : Accounted l n r g (s.close k result) := by
  refine accounted.onTask (Task.closed_origin result) fun t found ingests => ?_
  obtain ⟨t', found', _, rfl⟩ := performs
  cases Option.some.inj (found.symm.trans found')
  exact absurd ingests other

end Accounted

/-- Whoever waits for a stage or for others has left the population alone. -/
theorem Account.spares {t : Task} {trace : List (Who × Deed)} (account : Account l n k t trace)
    (waits : (∃ question next, t.stand = .asking question next ∧ question.stage?.isSome = true) ∨
      ∃ request next, t.stand = .waiting request next) : Spares k trace := by
  rcases waits with ⟨question, next, stand, isStage⟩ | ⟨request, next, stand⟩
  · simpa only [Account, stand, isStage, if_true] using account
  · simpa only [Account, stand] using account

namespace Engaged

theorem note (engaged : Engaged l n r g k origin s) {deed : Deed} (spares : deed.spares) :
    Engaged l n r g k origin (s.note k deed) :=
  ⟨engaged.accounted.note engaged.performs fun ingests => .inl ((engaged.spares ingests).own spares), engaged.performs,
    fun ingests => (engaged.spares ingests).own spares⟩

theorem store (engaged : Engaged l n r g k origin s) {m : Memory} (linked : m.Linked n r g)
    (same : m.registries = s.memory.registries) : Engaged l n r g k origin (s.store k m) := by
  have noted : Engaged l n r g k origin (s.note k (.stores s.memory m)) := engaged.note same
  exact ⟨noted.accounted.store linked, noted.performs, noted.spares⟩

theorem joined (engaged : Engaged l n r g k origin s) {s' : Scene} {j : Who} {origin' : Origin}
    (joined : s.Joined s' j origin') : Engaged l n r g k origin s' :=
  ⟨engaged.accounted.joined joined, engaged.performs.joined joined, fun ingests => joined.trace ▸ engaged.spares ingests⟩

theorem moved (engaged : Engaged l n r g k origin s) {stand : Stand}
    (waits : (∃ question next, stand = .asking question next ∧ question.stage?.isSome = true) ∨
      ∃ request next, stand = .waiting request next) : Accounted l n r g (s.onTask k (Task.moved stand)) := by
  refine engaged.accounted.onTask (fun _ => rfl) fun t found ingests => ?_
  obtain ⟨t', found', _, rfl⟩ := engaged.performs
  cases Option.some.inj (found.symm.trans found')
  have spares := engaged.spares ingests
  rcases waits with ⟨question, next, rfl, isStage⟩ | ⟨request, next, rfl⟩
  · simpa only [Account, Task.moved, isStage, if_true] using spares
  · exact spares

theorem of_resumed (accounted : Accounted l n r g s) {t : Task} (found : s.task? k = some t)
    (spares : Ingests k t.origin → Spares k s.trace) :
    Engaged l n r g k t.origin (s.onTask k (Task.moved .running)) := by
  refine ⟨accounted.onTask (fun _ => rfl) fun t' found' ingests => ?_, .of_resumed found, spares⟩
  cases Option.some.inj (found.symm.trans found')
  exact .inl (spares ingests)

theorem begin (accounted : Accounted l n r g s) {t : Task} (found : s.task? k = some t) (fresh : t.stand = .fresh) :
    Engaged l n r g k t.origin (s.begin k t.origin) := by
  have resumed := of_resumed accounted found fun ingests entry inside own => by
    have account := accounted.accounts k t found ingests
    simp only [Account, fresh] at account
    exact absurd own (account.2 entry inside)
  exact resumed.note trivial

theorem goesOn {t t' : Task} {s' : Scene} (engaged : Engaged l n r g k origin s) (found : s.task? k = some t)
    (accounted : Accounted l n r g s') (carries : s'.Carries k t.origin) (found' : s'.task? k = some t')
    (waits : (∃ question next, t'.stand = .asking question next ∧ question.stage?.isSome = true) ∨
      ∃ request next, t'.stand = .waiting request next) :
    Engaged l n r g k origin (s'.onTask k (Task.moved .running)) := by
  rw [← engaged.performs.same found carries found']
  exact of_resumed accounted found' fun ingests => (accounted.accounts k t' found' ingests).spares waits

/-- A job is stopped, which is not what runs an ingestion. -/
theorem cancel (engaged : Engaged l n r g k origin s) (j : Nat) :
    Engaged l n r g k origin (s.onTask (.job j) Task.cancelled) := by
  refine ⟨engaged.accounted.onTask Task.cancelled_origin fun t _ ingests => ?_, engaged.performs.cancel _, engaged.spares⟩
  obtain ⟨_, ⟨⟩⟩ := ingests.1

theorem spares_of_ofRun {question : Ask} (allowed : question.OfRun) : (Deed.asks question).spares := by
  cases question with
  | query => rcases allowed with stage | prompt <;> contradiction
  | _ => trivial

/-- Whatever a coordinator does keeps the accounts. -/
theorem frame (l : Ledger) (n r g : Nat) (k : Who) (origin : Origin) :
    Frame k (Coordinator.bounds n r g) (Engaged l n r g k origin) (Accounted l n r g) where
  leaves engaged := engaged.accounted.linked
  shares engaged := engaged.accounted
  store engaged linked same := engaged.store linked same
  exchange reply engaged allowed _ := (engaged.note (spares_of_ofRun allowed)).note trivial
  ask rest engaged allowed slow := by
    have isStage := Or.resolve_right allowed (by simp [slow])
    exact (engaged.note (spares_of_ofRun allowed)).moved (.inl ⟨_, rest, rfl, isStage⟩)
  hear := by
    rintro s t s' question reply engaged found accounted carries ⟨t', next, found', asking⟩ allowed slow
    have isStage := Or.resolve_right allowed (by simp [slow])
    have resumed := engaged.goesOn found accounted carries found' (.inl ⟨question, next, asking, isStage⟩)
    exact resumed.note trivial
  grant := by
    intro s request reply s' engaged granted
    cases request with
    | now | hasLoop | ended =>
      obtain ⟨_, rfl⟩ := granted
      exact engaged
    | spawn job | dispatch job =>
      obtain ⟨_, rfl⟩ := granted
      have noted : Engaged l n r g k origin (s.note k (.starts job s.jobs.length)) := engaged.note trivial
      exact noted.joined (s.start_joined k job)
    | cancel j =>
      obtain ⟨_, rfl⟩ := granted
      exact engaged.cancel j
    | _ => exact granted.elim
  wait request rest engaged := engaged.moved (.inr ⟨request, rest, rfl⟩)
  resume := by
    rintro s t s' request engaged found accounted carries ⟨t', next, found', waiting⟩
    exact engaged.goesOn found accounted carries found' (.inr ⟨request, next, waiting⟩)

end Engaged

end Moves

end CodeAtlas
