import CodeAtlas.Agenda.Run
import CodeAtlas.Proofs.Turns.Advance

namespace CodeAtlas

variable {ω : Type} {callers : Routine Yield → Prop} {inv : Scene → Prop} {m : Memory}

/-- A job that repeats is due again when it has ended well. -/
theorem Task.closed_of_repeats {t : Task} {job : Job} (began : t.origin = .job job) (again : job.repeats = true)
    (last : Yield) : t.closed (.ok last) = t.moved .fresh := by
  simp [closed, began, Origin.repeats, again]

namespace Agenda

/-- Between turns, the tasks may have come to what the agenda has come to, and no caller has moved. -/
def BetweenTurns (callers : Routine Yield → Prop) (m : Memory) (before : Scene) (a : Agenda ω) : Prop :=
  ∃ s, a.Mirrors s none ∧ s.callers = before.callers ∧ Pool.Reach callers m ⟨s, none⟩

variable {w : World ω} {origin : Origin} {a : Agenda ω} {s : Scene} {n : Nat}

theorem BetweenTurns.since {before before' : Scene} (rests : a.BetweenTurns callers m before')
    (same : before'.callers = before.callers) : a.BetweenTurns callers m before := by
  obtain ⟨s, mirrors, kept, reach⟩ := rests
  exact ⟨s, mirrors, kept.trans same, reach⟩

/-- What a job has come to is what its task has come to, unless it starts over. -/
theorem settle_mirrored {before : Scene} {job : Job} {result : Agenda ω × Advance Yield}
    (once : job.repeats = false ∨ ∀ last, result.2 ≠ .ended (.ok last))
    (advanced : Advanced callers m (.job n) (.job job) before result) :
    (settle n result).BetweenTurns callers m before := by
  have isJob : Party.job n ≠ .main := by simp
  obtain ⟨a, result | ⟨hold, resume⟩⟩ := result
  · obtain ⟨s, mirrors, ⟨t, found, began⟩, kept, reach⟩ := advanced
    refine ⟨_, mirrors.finished (.inr rfl) result fun t' found' => ?_, kept isJob, reach.next .close⟩
    cases Option.some.inj (found.symm.trans found')
    cases result with
    | error fault => exact ⟨rfl, rfl⟩
    | ok last =>
      have notAgain : t.origin.repeats = false := by
        rw [began]
        exact once.resolve_right fun never => never last rfl
      simp [Task.closed, Task.moved, notAgain]
  · obtain ⟨s, t, mirrors, found, began, kept, goesOn, reach⟩ := advanced
    have resting := mirrors.rests (f := fun t => t) (g := fun e => { e with phase := .waiting hold resume })
      fun t' e found' takes => by
        cases Option.some.inj (found.symm.trans found')
        exact ⟨takes.1, takes.2.1, goesOn, takes.2.2.1⟩
    rw [Scene.onTask_same] at resting
    exact ⟨s, resting, kept isJob, reach⟩

/-- A job that repeats waits for its next turn when it has ended well. -/
theorem Advanced.fresh {before : Scene} {job : Job} {last : Yield}
    (advanced : Advanced callers m (.job n) (.job job) before (a, .ended (.ok last))) (again : job.repeats = true) :
    (a.onEntrant n fun e => { e with phase := .fresh }).BetweenTurns callers m before := by
  obtain ⟨s, mirrors, ⟨t, found, began⟩, kept, reach⟩ := advanced
  refine ⟨_, mirrors.rests fun t' e found' takes => ?_, kept (by simp), reach.next .close⟩
  cases Option.some.inj (found.symm.trans found')
  obtain ⟨origin, alone, going, still⟩ := takes
  rw [Task.closed_of_repeats began again]
  exact ⟨origin, alone, rfl, going.trans still.symm⟩

/-- It may begin anew before anybody else takes a turn. -/
theorem Advanced.again {before : Scene} {job : Job} {last : Yield}
    (advanced : Advanced callers m (.job n) (.job job) before (a, .ended (.ok last))) (again : job.repeats = true) :
    ∃ s, a.Mirrors s (some (.job n)) ∧ s.Has (.job n) (.job job) ∧ s.callers = before.callers ∧
      Pool.Reach callers m ⟨s, some (.job n, job.routine)⟩ := by
  obtain ⟨s, mirrors, ⟨t, found, began⟩, kept, reach⟩ := advanced
  have found : s.task? (.job n) = some t := found
  have bound : n < a.jobs.length := mirrors.jobs ▸ (List.getElem?_eq_some_iff.mp found).1
  have going := (mirrors.onTurn n t a.jobs[n] found (List.getElem?_eq_getElem bound) rfl).2.2.1
  have due : (s.close (.job n) (.ok last)).task? (.job n) = some (t.moved .fresh) := by
    rw [Scene.close, Scene.task?_onTask, if_pos rfl, found, Option.map_some, Task.closed_of_repeats began again]
  have begun := (reach.next .close).next (.begin due rfl going)
  rw [show (t.moved .fresh).origin = .job job from began] at begun
  have closed : a.Mirrors (s.close (.job n) (.ok last)) (some (.job n)) :=
    mirrors.moved (.job n) fun t => ⟨rfl, rfl⟩
  have running : a.Mirrors ((s.close (.job n) (.ok last)).begin (.job n) (.job job)) (some (.job n)) :=
    (closed.note (.job n) (.begins (.job job))).moved (.job n) fun t => ⟨rfl, rfl⟩
  have still : (s.close (.job n) (.ok last)).Has (.job n) (.job job) := ⟨_, due, began⟩
  have begins : ((s.close (.job n) (.ok last)).begin (.job n) (.job job)).Has (.job n) (.job job) :=
    still.onTask (.job n) fun _ => rfl
  have isJob : Party.job n ≠ .main := by simp
  exact ⟨_, running, begins, kept isJob, begun⟩

/-- The one who runs the loop has ended, or waits while others take their turns. -/
theorem Advanced.main {before : Scene} {result : Agenda ω × Advance Yield}
    (advanced : Advanced callers m .main origin before result) :
    (∃ a last s, result = (a, .ended last) ∧ a.Mirrors s none ∧ Pool.Reach callers m ⟨s, none⟩) ∨
      ∃ a hold resume s t, result = (a, .waits hold resume) ∧ a.Mirrors s none ∧ s.task? (.caller 0) = some t ∧
        t.stand.GoesOn resume ∧ Pool.Reach callers m ⟨s, none⟩ := by
  obtain ⟨a, last | ⟨hold, resume⟩⟩ := result
  · obtain ⟨s, mirrors, _, _, reach⟩ := advanced
    have closed : a.Mirrors (s.close (.caller 0) last) none := mirrors.caller rfl rfl fun j => ⟨nofun, nofun⟩
    exact .inl ⟨a, last, _, rfl, closed, reach.next .close⟩
  · obtain ⟨s, t, mirrors, found, _, _, goesOn, reach⟩ := advanced
    have waits : a.Mirrors s none := mirrors.caller rfl rfl fun j => ⟨nofun, nofun⟩
    exact .inr ⟨a, hold, resume, s, t, rfl, waits, found, goesOn, reach⟩

variable (prompt : w.Prompt) (guarded : Guarded callers inv) (initially : inv ⟨m, [], [], []⟩)

include prompt guarded initially

/-- The turn of a job from where it is; one that repeats may begin anew within it. -/
theorem carryOut_mirrored {p : Routine Yield} (mirrors : a.Mirrors s (some (.job n)))
    (has : s.Has (.job n) (.job (a.entrant n).job)) (reach : Pool.Reach callers m ⟨s, some (.job n, p)⟩) :
    (a.carryOut w n p).BetweenTurns callers m s := by
  have advanced : Advanced callers m (.job n) (.job (a.entrant n).job) s (a.advance w (.job n) p) :=
    advance_mirrored prompt guarded initially p mirrors has reach
  unfold carryOut
  generalize (a.entrant n).job = job at advanced has
  dsimp only
  split
  next a' last ended =>
    rw [ended] at advanced
    split
    next again =>
      -- the job has ended well and repeats, so it begins anew within the same turn
      obtain ⟨s₁, mirrors₁, has₁, kept₁, reach₁⟩ := advanced.again again
      have advanced₂ : Advanced callers m (.job n) (.job job) s₁ (a'.advance w (.job n) job.routine) :=
        advance_mirrored prompt guarded initially job.routine mirrors₁ has₁ reach₁
      split
      next a₂ last₂ ended₂ =>
        rw [ended₂] at advanced₂
        obtain ⟨s₂, mirrors₂, kept₂, reach₂⟩ := (advanced₂.fresh again).since kept₁
        exact ⟨s₂, mirrors₂.of_core rfl, kept₂, reach₂⟩
      next never =>
        have notAgain : ∀ last, (a'.advance w (.job n) job.routine).2 ≠ .ended (.ok last) :=
          fun last same => never _ last (Prod.ext rfl same)
        exact (settle_mirrored (.inr notAgain) advanced₂).since kept₁
    next once => exact settle_mirrored (.inl (by simpa using once)) advanced
  next never => exact settle_mirrored (.inr fun last same => never _ last (Prod.ext rfl same)) advanced

theorem begin_mirrored {e : Entrant} (mirrors : a.Mirrors s none) (reach : Pool.Reach callers m ⟨s, none⟩)
    (found : a.jobs[n]? = some e) (fresh : e.phase = .fresh) (going : e.stopped = false) :
    (a.carryOut w n e.job.routine).BetweenTurns callers m s := by
  obtain ⟨t, there, origin, alone, stand⟩ := mirrors.follower (by simp) found
  simp only [fresh] at stand
  have begun := reach.next (.begin there stand.1 (stand.2.trans going))
  rw [origin] at begun
  have running : (a.onEntrant n fun e => e).Mirrors (s.begin (.job n) (.job e.job)) (some (.job n)) := by
    refine (mirrors.note (.job n) (.begins (.job e.job))).begins fun t' e' at_t at_e => ?_
    cases Option.some.inj (there.symm.trans at_t)
    cases Option.some.inj (found.symm.trans at_e)
    exact ⟨origin, alone, stand.2.trans going, going⟩
  have still : (s.begin (.job n) (.job e.job)).Has (.job n) (.job (a.entrant n).job) := by
    have has : s.Has (.job n) (.job (a.entrant n).job) := ⟨t, there, by rw [origin, entrant_of_found found]⟩
    exact has.onTask (.job n) fun _ => rfl
  have alike := running.of_core (core_onEntrant fun _ => rfl).symm
  have rests := carryOut_mirrored prompt guarded initially alike still begun
  exact rests.since rfl

/-- A turn of a job that has waited, whatever the wait has ended with. -/
theorem goOn_mirrored {e : Entrant} {hold : Hold} {resume : Waited → Routine Yield} (mirrors : a.Mirrors s none)
    (reach : Pool.Reach callers m ⟨s, none⟩) (found : a.jobs[n]? = some e) (waiting : e.phase = .waiting hold resume)
    (waited : Waited) :
    ((a.onEntrant n fun e => { e with stopped := false }).carryOut w n (resume waited)).BetweenTurns callers m s := by
  obtain ⟨t, there, origin, alone, stand⟩ := mirrors.follower (by simp) found
  simp only [waiting] at stand
  obtain ⟨goesOn, notStopped⟩ := stand
  obtain ⟨s₀, same, begun⟩ := reach.goesOn there goesOn waited
  have there₀ : s₀.task? (.job n) = some t := same.tasks _ ▸ there
  have running : (a.onEntrant n fun e => { e with stopped := false }).Mirrors
      (s₀.onTask (.job n) (Task.moved .running)) (some (.job n)) := by
    refine (mirrors.alike same).begins fun t' e' at_t at_e => ?_
    cases Option.some.inj (there₀.symm.trans at_t)
    cases Option.some.inj (found.symm.trans at_e)
    exact ⟨origin, alone, notStopped, rfl⟩
  have still : (s₀.onTask (.job n) (Task.moved .running)).Has (.job n)
      (.job ((a.onEntrant n fun e => { e with stopped := false }).entrant n).job) := by
    have has : s₀.Has (.job n) (.job e.job) := ⟨t, there₀, origin⟩
    have job : ((a.onEntrant n fun e => { e with stopped := false }).entrant n).job = e.job := by
      simp [entrant, part, onEntrant, found]
    rw [job]
    exact has.onTask (.job n) fun _ => rfl
  exact (carryOut_mirrored prompt guarded initially running still begun).since same.callers

theorem resumeJob_mirrored (waited : Waited) (mirrors : a.Mirrors s none) (reach : Pool.Reach callers m ⟨s, none⟩) :
    (a.resumeJob w n waited).BetweenTurns callers m s := by
  unfold resumeJob
  split
  next => exact ⟨s, mirrors, rfl, reach⟩
  next e found =>
    obtain ⟨t, there, origin, alone, stand⟩ := mirrors.follower (by simp) found
    split
    next => exact ⟨s, mirrors, rfl, reach⟩
    next fresh =>
      simp only [fresh] at stand
      split
      next stopped =>
        have dropped := reach.next (.drop there stand.1 (stand.2.trans stopped))
        refine ⟨_, mirrors.finished (.inl rfl) _ (f := Task.moved .ended) ?_, rfl, dropped⟩
        exact fun t _ => ⟨rfl, rfl⟩
      next going =>
        exact begin_mirrored prompt guarded initially mirrors reach found fresh (Bool.eq_false_iff.mpr going)
    next hold resume waiting =>
      rw [alone]
      have after := goOn_mirrored prompt guarded initially mirrors reach found waiting
      cases hold <;> exact after _

/-- The turn that is due next, if it is not that of the one who runs the loop. -/
theorem take_mirrored (t : Turn) (mirrors : a.Mirrors s none) (reach : Pool.Reach callers m ⟨s, none⟩) :
    (a.take w t).1.BetweenTurns callers m s := by
  cases t with
  | resume who waited =>
    cases who with
    | main => exact ⟨s, mirrors, rfl, reach⟩
    | job n => exact resumeJob_mirrored prompt guarded initially waited mirrors reach
  | relay who waited => exact ⟨s, mirrors.of_core (core_wake who waited), rfl, reach⟩
  | report n => exact ⟨s, mirrors.reported n, rfl, reach⟩

theorem step_mirrored {a' : Agenda ω} {news : Option Waited} (mirrors : a.Mirrors s none)
    (reach : Pool.Reach callers m ⟨s, none⟩) (step : a.step w = some (a', news)) :
    a'.BetweenTurns callers m s := by
  unfold Agenda.step at step
  split at step
  next t rest _ =>
    have due : Mirrors { a with ready := rest } s none := mirrors.of_core rfl
    have taken := take_mirrored prompt guarded initially t due reach
    rw [Option.some.inj step] at taken
    exact taken
  next =>
    split at step
    next time who others _ =>
      have due : Mirrors { a with clock := time, timers := others } s none := mirrors.of_core rfl
      have taken := take_mirrored prompt guarded initially (.resume who (.ok [])) due reach
      rw [Option.some.inj step] at taken
      exact taken
    next => cases step

theorem turns_mirrored (fuel : Nat) (resume : Waited → Routine Yield) {t : Task} (mirrors : a.Mirrors s none)
    (found : s.task? (.caller 0) = some t) (goesOn : t.stand.GoesOn resume)
    (reach : Pool.Reach callers m ⟨s, none⟩) :
    ∃ s', (a.turns w fuel resume).1.Mirrors s' none ∧ Pool.Reach callers m ⟨s', none⟩ := by
  -- between turns the caller waits where it was, whatever the jobs have done
  induction fuel generalizing resume a s t with
  | zero => exact ⟨s, mirrors, reach⟩
  | succ fuel ih =>
    unfold turns
    split
    next => exact ⟨s, mirrors, reach⟩
    next a₁ step =>
      obtain ⟨s₁, mirrors₁, kept, reach₁⟩ := step_mirrored prompt guarded initially mirrors reach step
      have found₁ : s₁.task? (.caller 0) = some t := (congrArg (·[0]?) kept).trans found
      exact ih resume mirrors₁ found₁ goesOn reach₁
    next a₁ waited step =>
      obtain ⟨s₁, mirrors₁, kept, reach₁⟩ := step_mirrored prompt guarded initially mirrors reach step
      have found₁ : s₁.task? (.caller 0) = some t := (congrArg (·[0]?) kept).trans found
      obtain ⟨s₂, same, begun⟩ := reach₁.goesOn found₁ goesOn waited
      have running : a₁.Mirrors (s₂.onTask (.caller 0) (Task.moved .running)) (some (.caller 0)) :=
        (mirrors₁.alike same).caller rfl rfl fun j => ⟨nofun, nofun⟩
      have has : s₂.Has (.caller 0) t.origin := ⟨t, (same.tasks _).trans found₁, rfl⟩
      have advanced : Advanced callers m .main t.origin _ (a₁.advance w .main (resume waited)) :=
        advance_mirrored prompt guarded initially _ running (has.onTask (.caller 0) fun _ => rfl) begun
      obtain ⟨a₂, last, s₃, same₂, ends⟩ | ⟨a₂, hold, resume₂, s₃, t₃, same₂, mirrors₃, found₃, goesOn₃, reach₃⟩ :=
        advanced.main
      · rw [same₂]
        exact ⟨s₃, ends⟩
      · rw [same₂]
        exact ih resume₂ mirrors₃ found₃ goesOn₃ reach₃

/-- Whatever the loop comes to when it carries out the program of a caller, and the jobs beside it, tasks
come to that take turns in some order. -/
theorem run_mirrored {program : Routine Yield} (calls : callers program) (x : ω) (hasLoop : Bool) (fuel : Nat) :
    ∃ s, ((start m x hasLoop).run w fuel program).1.Mirrors s none ∧ Pool.Reach callers m ⟨s, none⟩ := by
  have called : Pool.Reach callers m ⟨Scene.call program ⟨m, [], [], []⟩, none⟩ := .next .start (.call calls)
  have there : (Scene.call program ⟨m, [], [], []⟩).task? (.caller 0) = some (.new (.caller program)) := rfl
  have begun := called.next (.begin there rfl rfl)
  have mirrors : (start m x hasLoop).Mirrors
      ((Scene.call program ⟨m, [], [], []⟩).begin (.caller 0) (.caller program)) (some (.caller 0)) := by
    refine ⟨rfl, rfl, rfl, fun j t e at_t => ?_, fun j t e at_t => ?_⟩
    · cases (List.getElem?_nil (i := j)).symm.trans at_t
    · cases (List.getElem?_nil (i := j)).symm.trans at_t
  have advanced : Advanced callers m .main (.caller program) _ ((start m x hasLoop).advance w .main program) :=
    advance_mirrored prompt guarded initially program mirrors ⟨_, rfl, rfl⟩ begun
  unfold run
  obtain ⟨a, last, s, same, ends⟩ | ⟨a, hold, resume, s, t, same, mirrors, found, goesOn, reach⟩ := advanced.main
  · rw [same]
    exact ⟨s, ends⟩
  · rw [same]
    exact turns_mirrored prompt guarded initially fuel resume mirrors found goesOn reach

end Agenda

end CodeAtlas
