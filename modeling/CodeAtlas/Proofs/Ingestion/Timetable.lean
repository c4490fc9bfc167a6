import CodeAtlas.Proofs.Crew.Acts
import CodeAtlas.Proofs.Crew.Prompt
import CodeAtlas.Proofs.Ingestion.Regular

namespace CodeAtlas

/-- One call of a coordinator. -/
inductive Coordinator.Errand where
  | startScheduler
  | stopScheduler
  | trigger
  | runPipeline

/-- One thing is done, and nothing else. -/
def Routine.only {α : Type} (p : Routine α) : Routine Yield :=
  p.andThen fun result => .done (result.map fun _ => .nothing)

def Coordinator.Errand.program (n : Nat) : Errand → Routine Yield
  | .startScheduler => (Coordinator.startScheduler n).only
  | .stopScheduler => (Coordinator.stopScheduler n).only
  | .trigger => (Coordinator.trigger n).only
  | .runPipeline => (Coordinator.runPipeline n).only

/-- A coordinator, the memory that it begins with, and how many seconds pass between its scheduled runs. -/
structure Timetable where
  memory : Memory
  coordinator : Nat
  seconds : Float

namespace Timetable

variable (x : Timetable)

/-- What those do who call the coordinator. -/
def Calls (program : Routine Yield) : Prop := ∃ errand : Coordinator.Errand, program = errand.program x.coordinator

/-- The job that keeps to a timetable. -/
def loop : Origin := .job (.schedule x.coordinator)

/-- The caller who puts an end to that job. -/
def stopping : Origin := .caller (Coordinator.Errand.stopScheduler.program x.coordinator)

end Timetable

namespace Deed

/-- The lock of a coordinator is taken. -/
def Takes (n : Nat) : Deed → Prop
  | .stores before after =>
    (before.coordinator n).run.locked = false ∧ (after.coordinator n).run = (before.coordinator n).run.acquire
  | _ => False

/-- The lock is freed, and nothing else is changed of the run but that its stage is shown no more. -/
def Frees (n : Nat) : Deed → Prop
  | .stores before after =>
    (before.coordinator n).run.locked = true ∧ (after.coordinator n).run = (before.coordinator n).run.release
  | _ => False

/-- The lock is held throughout. -/
def Holds (n : Nat) : Deed → Prop
  | .stores before after => (before.coordinator n).run.locked = true ∧ (after.coordinator n).run.locked = true
  | .asks _ | .hears .. => True
  | _ => False

end Deed

/-- Nothing has come of a run so far: no error is noted, and the times are those of the run before it. -/
structure RunState.Open (before r : RunState) : Prop where
  lastError : r.lastError = none
  finishedAt : r.finishedAt = before.finishedAt
  duration : r.duration = before.duration

/-- Nothing has come of a run, and it is over: the lock is free, and no stage is shown. -/
structure RunState.Undone (before r : RunState) : Prop extends RunState.Open before r where
  unlocked : r.locked = false
  unset : r.stage = none

theorem RunState.Open.release {before r : RunState} (opened : RunState.Open before r) : RunState.Undone before r.release :=
  ⟨⟨opened.lastError, opened.finishedAt, opened.duration⟩, rfl, rfl⟩

namespace Log

/-- What somebody has done, and when. -/
def entries (k : Who) (log : List Noted) : Diary :=
  log.filterMap fun noted => if noted.2.1 = k then some (noted.1, noted.2.2) else none

theorem entries_append (k : Who) (log log' : List Noted) : entries k (log ++ log') = entries k log ++ entries k log' :=
  List.filterMap_append

theorem entries_others {k : Who} {log : List Noted} (others : ∀ noted ∈ log, noted.2.1 ≠ k) : entries k log = [] :=
  List.filterMap_eq_nil_iff.mpr fun noted inside => if_neg (others noted inside)

theorem others_of_entries {k : Who} {log : List Noted} (nothing : entries k log = []) : ∀ noted ∈ log, noted.2.1 ≠ k := by
  intro noted inside own
  have := List.filterMap_eq_nil_iff.mp nothing noted inside
  simp [own] at this

theorem entries_pages (k : Who) (new : Diary) : entries k (Crew.pages k new) = new := by
  simp [entries, Crew.pages, List.filterMap_map, Function.comp_def]

theorem entries_other {j k : Who} (other : k ≠ j) (new : Diary) : entries j (Crew.pages k new) = [] := by
  refine entries_others fun noted inside => ?_
  obtain ⟨entry, _, rfl⟩ := List.mem_map.mp inside
  exact other

/-- Something that is noted stands in the older part of a log, or in the newer one. -/
theorem split_append {log new earlier later : List Noted} {noted : Noted} (whole : log ++ new = earlier ++ noted :: later) :
    (∃ since, later = since ++ new ∧ log = earlier ++ noted :: since) ∨
      ∃ before, earlier = log ++ before ∧ new = before ++ noted :: later := by
  rcases List.append_eq_append_iff.mp whole with ⟨before, same, rest⟩ | ⟨since, same, rest⟩
  · exact .inr ⟨before, same, rest⟩
  · cases since with
    | nil => exact .inr ⟨[], by simpa using same.symm, by simpa using rest.symm⟩
    | cons first since =>
      obtain ⟨rfl, rfl⟩ := List.cons_eq_cons.mp rest
      exact .inl ⟨since, rfl, same⟩

/-- Nobody gets a lock but those who take it or are given it. -/
theorem owner_pages {n : Nat} {j k : Who} {owner : Option Who} {new : Diary}
    (kept : ∀ entry ∈ new, ∀ i id t, entry.2 = .starts (.ingest i id) t → .job t ≠ j)
    (owns : ownerFrom n owner (Crew.pages k new) = some j) : j = k ∨ owner = some j := by
  induction new generalizing owner with
  | nil => exact .inr owns
  | cons entry rest ih =>
    rcases ih (fun entry inside => kept entry (List.mem_cons_of_mem _ inside)) owns with same | before
    · exact .inl same
    · have first := kept entry (List.mem_cons_self ..)
      obtain ⟨time, deed⟩ := entry
      cases deed with
      | stores m m' =>
        simp only [Deed.passes] at before
        split at before
        · exact .inl (Option.some.inj before).symm
        · cases before
        · exact .inr before
      | starts job t =>
        cases job with
        | ingest i id =>
          simp only [Deed.passes] at before
          split at before
          · exact absurd (Option.some.inj before) (first i id t rfl)
          · exact .inr before
        | _ => exact .inr before
      | _ => exact .inr before

/-- Whoever owned a run owns it still, if all that was done since was done by others. -/
theorem owner_kept {n : Nat} {k : Who} {m : Memory} {earlier later : List Noted} (lawful : Lawful n none (earlier ++ later))
    (chained : Chained m (earlier ++ later)) (own : ownerFrom n none earlier = some k)
    (others : ∀ noted ∈ later, noted.2.1 ≠ k) : ownerFrom n none (earlier ++ later) = some k := by
  rw [lawful_append, own] at lawful
  rw [chained_append] at chained
  rw [ownerFrom_append, own]
  exact (kept lawful.2 chained.2 others).1

/-- A run that nobody owns stays as it is until somebody takes the lock. -/
theorem unowned {n : Nat} {m : Memory} {log : List Noted} (lawful : Lawful n none log) (chained : Chained m log)
    (free : (m.coordinator n).run.locked = false) (untaken : ∀ noted ∈ log, ¬noted.2.2.Takes n) :
    ((memoryFrom m log).coordinator n).run = (m.coordinator n).run := by
  induction log generalizing m with
  | nil => rfl
  | cons noted rest ih =>
    obtain ⟨time, k, deed⟩ := noted
    have later : ∀ noted ∈ rest, ¬noted.2.2.Takes n := fun noted inside => untaken noted (List.mem_cons_of_mem _ inside)
    obtain ⟨allowed, lawful⟩ := lawful
    cases deed with
    | stores before after =>
      obtain ⟨rfl, chained⟩ := chained
      have same : (after.coordinator n).run = (before.coordinator n).run := by
        rcases allowed with same | ⟨own, _⟩ | ⟨_, takes⟩
        · exact same
        · cases own
        · exact absurd ⟨free, takes⟩ (untaken _ (List.mem_cons_self ..))
      have owner : (Deed.stores before after).passes n k none = none := by
        simp only [Deed.passes, same, free]
      rw [owner] at lawful
      exact (ih lawful chained ((congrArg RunState.locked same).trans free) later).trans same
    | starts job number =>
      have owner : (Deed.starts job number).passes n k none = none := by
        cases job with
        | ingest => exact if_neg fun both => absurd both.2 (by simp)
        | _ => rfl
      rw [owner] at lawful
      exact ih lawful chained free later
    | _ => exact ih lawful chained free later

end Log

namespace Timetable

variable (x : Timetable)

section Rounds

variable (barred : Diary → Prop)

/-- The rounds of a timetable, one after the other, and when the last of them was over. Each begins as soon as the one
before it is over; the lock is tried once the seconds between two runs have passed. Then the round is over if the way is
barred, and a run takes the lock otherwise. -/
inductive Paced : Diary → Option Float → Prop
  | none : Paced [] none
  | skipped {past ended start} : Paced past ended → (∀ time, ended = some time → start = time) →
      barred (past ++ [(start, .begins x.loop)]) → Paced (past ++ [(start, .begins x.loop)]) (some (start + x.seconds))
  | ran {past ended start taken log finish freed} : Paced past ended → (∀ time, ended = some time → start = time) →
      taken.Takes x.coordinator → (∀ entry ∈ log, entry.2.Holds x.coordinator) → freed.Frees x.coordinator →
      Paced (past ++ (start, .begins x.loop) :: (start + x.seconds, taken) :: (log ++ [(finish, freed)])) (some finish)

/-- A round begins at a time, after those that were written down. -/
def Resumes (past : Diary) (start : Float) : Prop :=
  ∃ ended, x.Paced barred past ended ∧ ∀ time, ended = some time → start = time

/-- Whole rounds, and the last one as far as it has come. -/
inductive Keeps : Diary → Prop
  | whole {past ended} : x.Paced barred past ended → Keeps past
  | asleep {past start} : x.Resumes barred past start → Keeps (past ++ [(start, .begins x.loop)])
  | running {past start taken log} : x.Resumes barred past start → taken.Takes x.coordinator →
      (∀ entry ∈ log, entry.2.Holds x.coordinator) →
      Keeps (past ++ (start, .begins x.loop) :: (start + x.seconds, taken) :: log)

variable {x barred} {barred' : Diary → Prop} (more : ∀ past, barred past → barred' past)
include more

theorem Paced.mono {past : Diary} {ended : Option Float} (paced : x.Paced barred past ended) : x.Paced barred' past ended := by
  induction paced with
  | none => exact .none
  | skipped _ begins bars ih => exact .skipped ih begins (more _ bars)
  | ran _ begins takes holds frees ih => exact .ran ih begins takes holds frees

theorem Resumes.mono {past : Diary} {start : Float} (resumes : x.Resumes barred past start) : x.Resumes barred' past start :=
  resumes.imp fun _ ⟨paced, begins⟩ => ⟨paced.mono more, begins⟩

theorem Keeps.mono {past : Diary} (keeps : x.Keeps barred past) : x.Keeps barred' past := by
  cases keeps with
  | whole paced => exact .whole (paced.mono more)
  | asleep resumes => exact .asleep (resumes.mono more)
  | running resumes takes holds => exact .running (resumes.mono more) takes holds

end Rounds

/-- A run for which a job had taken the lock at a time was given up later: all that the job did since was to hear of its
cancellation and to free the lock, and nothing had come of the run. -/
inductive Aborts (t : Nat) (before : Memory) : List Noted → List Noted → Prop
  | intro {earlier first rest past due after log heard question time given freed} :
      Log.entries (.job t) earlier = past ++ (due, .stores before after) :: log →
      (Deed.stores before after).Takes x.coordinator → (∀ entry ∈ log, entry.2.Holds x.coordinator) →
      Log.entries (.job t) first = [(heard, .hears question (.error .cancelled))] → Log.entries (.job t) rest = [] →
      (Deed.stores given freed).Frees x.coordinator →
      RunState.Undone (before.coordinator x.coordinator).run (freed.coordinator x.coordinator).run →
      Aborts t before earlier (first ++ (time, .job t, .stores given freed) :: rest)

variable {x} in
theorem Aborts.grown {t : Nat} {before : Memory} {earlier later new : List Noted} (aborts : x.Aborts t before earlier later)
    (others : Log.entries (.job t) new = []) : x.Aborts t before earlier (later ++ new) := by
  obtain ⟨entries, takes, holds, heard, nothing, frees, undone⟩ := aborts
  rw [List.append_assoc, List.cons_append]
  exact .intro entries takes holds heard (by rw [Log.entries_append, nothing, others]; rfl) frees undone

end Timetable

namespace Crew

variable {ω : Type} (x : Timetable) (c : Crew ω)

/-- A caller has begun to put an end to the job that was scheduled then; what happened before, and what since. -/
def CallsOff (i t : Nat) (earlier later : List Noted) : Prop := ∃ time,
  c.log = earlier ++ (time, .caller i, .begins x.stopping) :: later ∧
    ((Log.memoryFrom x.memory earlier).coordinator x.coordinator).scheduler = some t

/-- Nobody has begun to put an end to a job. -/
def Spared (t : Nat) : Prop := ∀ i earlier later, ¬c.CallsOff x i t earlier later

/-- A job keeps to the timetable, which has not come to an end, and to which nobody has begun to put one. -/
def Ticking (t : Nat) : Prop := ∃ h, c.hand? (.job t) = some h ∧ h.origin = x.loop ∧
  (∀ result, h.station ≠ .over result) ∧ c.Spared x t

/-- A job has done nothing since somebody began to put an end to it. -/
def Untouched (t : Nat) : Prop := ∀ i earlier later, c.CallsOff x i t earlier later → Log.entries (.job t) later = []

/-- Somebody else had the lock when a job had done so much. -/
def Barred (t : Nat) (past : Diary) : Prop := ∃ earlier later k, c.log = earlier ++ later ∧
  Log.entries (.job t) earlier = past ∧ Log.ownerFrom x.coordinator none earlier = some k ∧ k ≠ .job t

/-- A job has taken the lock in a round that has begun, and has held it since. -/
def Driving (t : Nat) (before : Memory) : Prop := ∃ past start after log, x.Resumes (c.Barred x t) past start ∧
  c.diary (.job t) = past ++ (start, .begins x.loop) :: (start + x.seconds, .stores before after) :: log ∧
  (Deed.stores before after).Takes x.coordinator ∧ ∀ entry ∈ log, entry.2.Holds x.coordinator

/-- A job has taken the lock for a run, and nothing has come of the run so far. -/
def Underway (t : Nat) : Prop := ∃ before, c.Driving x t before ∧
  (before.coordinator x.coordinator).run.Open (c.memory.coordinator x.coordinator).run

end Crew

namespace Crew

variable {ω : Type} {x : Timetable} {c c' : Crew ω} {i t : Nat} {earlier later : List Noted} {k : Who} {new : Diary}

theorem CallsOff.grown {log : List Noted} (stops : c.CallsOff x i t earlier later) (grown : c'.log = c.log ++ log) :
    c'.CallsOff x i t earlier (later ++ log) := by
  obtain ⟨time, whole, scheduled⟩ := stops
  exact ⟨time, by rw [grown, whole, List.append_assoc, List.cons_append], scheduled⟩

/-- Somebody had begun to put an end to a job before, or has begun just now. -/
theorem CallsOff.before (stops : c'.CallsOff x i t earlier later) (log : c'.log = c.log ++ pages k new) :
    (∃ since, later = since ++ pages k new ∧ c.CallsOff x i t earlier since) ∨
      ∃ first last, earlier = c.log ++ pages k first ∧ later = pages k last ∧ k = .caller i ∧
        ∃ time, new = first ++ (time, .begins x.stopping) :: last := by
  obtain ⟨time, whole, scheduled⟩ := stops
  rcases Log.split_append (log.symm.trans whole) with ⟨since, same, old⟩ | ⟨before, same, recent⟩
  · exact .inl ⟨since, same, time, old, scheduled⟩
  · obtain ⟨first, rest, rfl, rfl, parts⟩ := List.map_eq_append_iff.mp recent
    obtain ⟨entry, last, rfl, own, rfl⟩ := List.map_eq_cons_iff.mp parts
    obtain ⟨at_time, deed⟩ := entry
    cases own
    exact .inr ⟨first, last, same, rfl, rfl, _, rfl⟩

/-- Nobody begins to put an end to a job as long as something else is done. -/
theorem CallsOff.old (stops : c'.CallsOff x i t earlier later) (log : c'.log = c.log ++ pages k new)
    (others : ∀ entry ∈ new, entry.2 ≠ .begins x.stopping) :
    ∃ since, later = since ++ pages k new ∧ c.CallsOff x i t earlier since := by
  rcases stops.before log with old | ⟨first, last, _, _, _, time, rfl⟩
  · exact old
  · exact absurd rfl (others _ (List.mem_append_right _ (List.mem_cons_self ..)))

theorem Spared.old (spared : c'.Spared x t) {log : List Noted} (grown : c'.log = c.log ++ log) : c.Spared x t :=
  fun _ _ _ stops => spared _ _ _ (stops.grown grown)

theorem Spared.goesOn (spared : c.Spared x t) (log : c'.log = c.log ++ pages k new)
    (others : ∀ entry ∈ new, entry.2 ≠ .begins x.stopping) : c'.Spared x t := by
  intro i earlier later stops
  obtain ⟨_, _, before⟩ := stops.old log others
  exact spared _ _ _ before

theorem Spared.untouched (spared : c.Spared x t) : c.Untouched x t := fun i _ _ stops => absurd stops (spared i _ _)

theorem Barred.grown {log : List Noted} (grown : c'.log = c.log ++ log) (past : Diary) (barred : c.Barred x t past) :
    c'.Barred x t past := by
  obtain ⟨earlier, later, k, whole, rest⟩ := barred
  exact ⟨earlier, later ++ log, k, by rw [grown, whole, List.append_assoc], rest⟩

namespace Driving

variable {before : Memory}

theorem same {log : List Noted} (driving : c.Driving x t before) (grown : c'.log = c.log ++ log)
    (diary : c'.diary (.job t) = c.diary (.job t)) : c'.Driving x t before := by
  obtain ⟨past, start, after, log, resumes, wrote, holds⟩ := driving
  exact ⟨past, start, after, log, resumes.mono (Barred.grown grown), diary.trans wrote, holds⟩

theorem goesOn (driving : c.Driving x t before) (log : c'.log = c.log ++ pages (.job t) new)
    (holds : ∀ entry ∈ new, entry.2.Holds x.coordinator) : c'.Driving x t before := by
  obtain ⟨past, start, after, since, resumes, wrote, takes, held⟩ := driving
  refine ⟨past, start, after, since ++ new, resumes.mono (Barred.grown log), ?_, takes, List.forall_mem_append.mpr ⟨held, holds⟩⟩
  rw [diary_own log, wrote, List.append_assoc]
  rfl

theorem keeps (driving : c.Driving x t before) : x.Keeps (c.Barred x t) (c.diary (.job t)) := by
  obtain ⟨past, start, after, log, resumes, wrote, takes, holds⟩ := driving
  rw [wrote]
  exact .running resumes takes holds

/-- The round is over when the lock is freed. -/
theorem ends {finish : Float} {freed : Deed} (driving : c.Driving x t before) (frees : freed.Frees x.coordinator)
    (log : c'.log = c.log ++ pages (.job t) [(finish, freed)]) :
    x.Paced (c'.Barred x t) (c'.diary (.job t)) (some finish) := by
  obtain ⟨past, start, after, since, ⟨ended, paced, begins⟩, wrote, takes, holds⟩ := driving
  rw [diary_own log, wrote, List.append_assoc]
  exact .ran (paced.mono (Barred.grown log)) begins takes holds frees

end Driving

/-- Whatever the others do, a job has done nothing. -/
theorem Untouched.other (untouched : c.Untouched x t) (log : c'.log = c.log ++ pages k new) (other : k ≠ .job t) :
    c'.Untouched x t := by
  intro i earlier later stops
  rcases stops.before log with ⟨since, rfl, old⟩ | ⟨_, last, _, rfl, _⟩
  · rw [Log.entries_append, untouched i earlier since old, Log.entries_other other]
    rfl
  · exact Log.entries_other other last

end Crew

end CodeAtlas
