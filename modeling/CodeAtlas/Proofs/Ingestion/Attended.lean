import CodeAtlas.Proofs.Ingestion.Scheduled

namespace CodeAtlas

variable {ω : Type}

namespace Crew

section Definitions

variable (x : Timetable) (c : Crew ω)

/-- A job has no run, and has done nothing since somebody began to put an end to it. -/
structure Aloof (t : Nat) : Prop where
  unowned : c.owner x.coordinator ≠ some (.job t)
  untouched : c.Untouched x t

/-- A job has begun a round, and waits until it is time for a run. -/
def Asleep (t : Nat) (await : Await) : Prop := ∃ past start, x.Resumes (c.Barred x t) past start ∧
  c.diary (.job t) = past ++ [(start, .begins x.loop)] ∧ await = .time (start + x.seconds)

/-- What a job waited for was itself cancelled or interrupted, or the job was. -/
def Broken (t : Nat) : Prop :=
  ∃ time question fault, (time, .hears question (.error fault)) ∈ c.diary (.job t) ∧ fault.ordinary = false

/-- A job has come to its end: somebody has put one to it, or what it waited for was cancelled or interrupted. What run it
had when somebody put an end to it was given up. -/
structure Finished (t : Nat) : Prop where
  keeps : x.Keeps (c.Barred x t) (c.diary (.job t))
  unowned : c.owner x.coordinator ≠ some (.job t)
  called : c.Spared x t → c.Broken t
  aborts : ∀ i earlier later, c.CallsOff x i t earlier later → Log.ownerFrom x.coordinator none earlier = some (.job t) →
    ∃ before, x.Aborts t before earlier later

/-- Where a job stands that keeps to a timetable. -/
def Standing (t : Nat) : Station → Prop
  | .fresh => x.Resumes (c.Barred x t) (c.diary (.job t)) c.clock ∧ c.Aloof x t
  | .running => x.Keeps (c.Barred x t) (c.diary (.job t))
  | .asking .. => c.Underway x t ∧ c.owner x.coordinator = some (.job t) ∧ c.Untouched x t
  | .waiting await _ => c.Asleep x t await ∧ c.Aloof x t
  | .over _ => c.Finished x t

/-- Where everybody stands: runs that were given to a job are its own until it is over, and whoever has put an end to a job
has waited for it. -/
structure Posted (k : Who) (h : Hand) : Prop where
  keeps : ∀ t, k = .job t → h.origin = x.loop → c.Standing x t h.station
  owns : ∀ t id, k = .job t → h.origin = .job (.ingest x.coordinator id) → h.station ≠ .running →
    (∀ result, h.station ≠ .over result) → c.owner x.coordinator = some (.job t)
  joined : ∀ i result, k = .caller i → h.origin = x.stopping → h.station = .over result →
    ∀ t earlier later, c.CallsOff x i t earlier later → c.ended t = true

/-- Everybody stands where they may, and only those are to be stopped to whom somebody has begun to put an end. -/
structure Placed : Prop where
  stands : ∀ k h, c.hand? k = some h → c.Posted x k h
  doomed : ∀ t h, c.hand? (.job t) = some h → h.origin = x.loop → h.stopped = true → ¬c.Spared x t

/-- Whoever is to come to an end has come to it, or is to be stopped; one of those may have yet to see to it who have begun
to put an end to a job. -/
def Heeded (o : Option Nat) : Prop := ∀ i t earlier later h, o ≠ some i → c.CallsOff x i t earlier later →
  c.hand? (.job t) = some h → h.stopped = true ∨ h.station = .running ∨ ∃ result, h.station = .over result

/-- A timetable is kept; between two turns all are stopped that are to be. -/
structure Attended : Prop where
  placed : c.Placed x
  heeded : c.Still → c.Heeded x none

/-- What is known of every crew in which callers call a coordinator. -/
structure Manned : Prop where
  recorded : c.Recorded x.memory
  regular : c.Regular
  scheduled : c.Scheduled x
  present : x.coordinator < c.memory.coordinators.length
  unhindered : c.Unhindered
  owned : ∀ n k, c.owner n = some k → ∃ h, c.hand? k = some h
  absent : ∀ k, c.hand? k = none → c.diary k = []
  unbegun : ∀ i h, c.hand? (.caller i) = some h → h.station = .fresh → c.diary (.caller i) = []

end Definitions

variable {x : Timetable} {c c' : Crew ω} {i t : Nat} {k : Who} {h : Hand} {new : Diary} {brings : Job → Prop}
  {halts : Nat → Prop}

/-- What was noted of somebody last is a part of the diary. -/
theorem CallsOff.diary {earlier later : List Noted} (stops : c.CallsOff x i t earlier later) (k : Nat) :
    c.diary (.job k) = Log.entries (.job k) earlier ++ Log.entries (.job k) later := by
  obtain ⟨time, whole, _⟩ := stops
  show Log.entries (.job k) c.log = _
  rw [whole, ← List.singleton_append, Log.entries_append, Log.entries_append]
  rfl

theorem CallsOff.begun {earlier later : List Noted} (stops : c.CallsOff x i t earlier later) :
    ∃ time, (time, .begins x.stopping) ∈ c.diary (.caller i) := by
  obtain ⟨time, whole, _⟩ := stops
  exact ⟨time, mem_diary.mpr (whole ▸ List.mem_append_right _ (List.mem_cons_self ..))⟩

/-- One who has no run, and has done nothing since, had no run when somebody began to put an end to the job. -/
theorem Aloof.unowned_before {earlier later : List Noted} (aloof : c.Aloof x t) (regular : c.Regular) (recorded : c.Recorded x.memory)
    (stops : c.CallsOff x i t earlier later) : Log.ownerFrom x.coordinator none earlier ≠ some (.job t) := by
  intro own
  have nothing := Log.others_of_entries (aloof.untouched i earlier later stops)
  obtain ⟨time, whole, _⟩ := stops
  have lawful := regular.lawful x.coordinator
  have chained := recorded.chained
  rw [whole] at lawful chained
  refine aloof.unowned ?_
  rw [Crew.owner, whole]
  refine Log.owner_kept lawful chained own fun noted inside => ?_
  rcases List.mem_cons.mp inside with rfl | since
  · rintro ⟨⟩
  · exact nothing noted since

/-- Where no run was to be given up, it is enough to have come to an end. -/
theorem Aloof.finished (aloof : c.Aloof x t) (known : c.Manned x)
    (keeps : x.Keeps (c.Barred x t) (c.diary (.job t)))
    (called : ¬c.Spared x t) : c.Finished x t where
  keeps := keeps
  unowned := aloof.unowned
  called spared := absurd spared called
  aborts _ _ _ stops own := absurd own (aloof.unowned_before known.regular known.recorded stops)

namespace Acts

theorem diary (acts : Acts brings halts k new c c') (other : k ≠ .job t) : c'.diary (.job t) = c.diary (.job t) := by
  show Log.entries (.job t) c'.log = Log.entries (.job t) c.log
  rw [acts.log, Log.entries_append, Log.entries_other other, List.append_nil]

/-- A lock comes to nobody who has not done anything, and is given to no job that keeps to a timetable. -/
theorem owner (acts : Acts brings halts k new c c') (other : k ≠ .job t) {h' : Hand} (found : c'.hand? (.job t) = some h')
    (loop : h'.origin = x.loop) {n : Nat} {first : Diary} (part : ∀ entry ∈ first, entry ∈ new)
    (own : Log.ownerFrom n none (c.log ++ pages k first) = some (.job t)) : c.owner n = some (.job t) := by
  rw [Log.ownerFrom_append] at own
  refine (Log.owner_pages (fun entry inside i id s starts same => ?_) own).resolve_left (Ne.symm other)
  obtain ⟨_, h'', found', origin⟩ := acts.starts entry (part entry inside) _ s starts
  cases same
  cases Option.some.inj (found.symm.trans found')
  cases origin.symm.trans loop

theorem ended (acts : Acts brings halts k new c c') (isOver : c.ended t = true) : c'.ended t = true := by
  obtain ⟨result, there⟩ := Option.isSome_iff_exists.mp isOver
  obtain ⟨h, found, ends⟩ := result?_of_found there
  obtain ⟨h', found', _, _, same⟩ := acts.follows.hands _ h found
  have other : .job t ≠ k := by
    rintro rfl
    exact acts.active h result found ends
  have found' : c'.jobs[t]? = some h' := found'
  simp [Crew.ended, Crew.result?, found', same other, ends]

theorem since (acts : Acts brings halts k new c c') (other : k ≠ .job t) : Since (.job t) c c' :=
  (Since.refl _ c).follows acts.follows other acts.active

end Acts

theorem Aloof.other (aloof : c.Aloof x t) (acts : Acts brings halts k new c c') {h' : Hand} (found : c'.hand? (.job t) = some h')
    (loop : h'.origin = x.loop) (other : k ≠ .job t) : c'.Aloof x t where
  unowned own := by
    rw [Crew.owner, acts.log] at own
    exact aloof.unowned (acts.owner other found loop (fun _ inside => inside) own)
  untouched := aloof.untouched.other acts.log other

theorem Finished.other (finished : c.Finished x t) (acts : Acts brings halts k new c c') {h' : Hand}
    (found : c'.hand? (.job t) = some h') (loop : h'.origin = x.loop) (other : k ≠ .job t) : c'.Finished x t where
  keeps := acts.diary other ▸ finished.keeps.mono (Barred.grown acts.log)
  unowned own := by
    rw [Crew.owner, acts.log] at own
    exact finished.unowned (acts.owner other found loop (fun _ inside => inside) own)
  called spared := by
    obtain ⟨time, question, fault, inside, special⟩ := finished.called (spared.old acts.log)
    exact ⟨time, question, fault, (acts.diary other).symm ▸ inside, special⟩
  aborts := by
    intro i earlier later stops own
    rcases stops.before acts.log with ⟨since, rfl, old⟩ | ⟨first, last, rfl, rfl, _, time, rfl⟩
    · obtain ⟨before, aborted⟩ := finished.aborts i earlier since old own
      exact ⟨before, aborted.grown (Log.entries_other other _)⟩
    · exact absurd (acts.owner other found loop (fun _ inside => List.mem_append_left _ inside) own) finished.unowned

/-- Whatever the others do, a job stands where it may. -/
theorem Standing.other {station : Station} (stands : c.Standing x t station) (known : c.Manned x) (known' : c'.Manned x)
    (acts : Acts brings halts k new c c') {h' : Hand} (found : c'.hand? (.job t) = some h') (loop : h'.origin = x.loop)
    (other : k ≠ .job t) : c'.Standing x t station := by
  have diary := acts.diary (t := t) other
  cases station with
  | fresh =>
    refine ⟨?_, stands.2.other acts found loop other⟩
    rw [diary, acts.clock]
    exact stands.1.mono (Barred.grown acts.log)
  | running =>
    have keeps : x.Keeps (c.Barred x t) (c.diary (.job t)) := stands
    exact (diary.symm ▸ keeps.mono (Barred.grown acts.log) : x.Keeps (c'.Barred x t) (c'.diary (.job t)))
  | asking =>
    obtain ⟨⟨before, driving, opened⟩, own, untouched⟩ := stands
    have kept := known'.regular.kept known'.recorded (acts.since other) known.recorded own
    exact ⟨⟨before, driving.same acts.log diary, kept.2.symm ▸ opened⟩, kept.1, untouched.other acts.log other⟩
  | waiting =>
    obtain ⟨⟨past, start, resumes, wrote, due⟩, aloof⟩ := stands
    exact ⟨⟨past, start, resumes.mono (Barred.grown acts.log), diary.trans wrote, due⟩, aloof.other acts found loop other⟩
  | _ => exact Finished.other stands acts found loop other

/-- A job that was added just now has done nothing. -/
theorem Standing.added {h' : Hand} (known : c.Manned x) (acts : Acts brings halts k new c c') (absent : c.hand? (.job t) = none)
    (found : c'.hand? (.job t) = some h') (loop : h'.origin = x.loop) (other : k ≠ .job t) : c'.Standing x t .fresh := by
  have nothing : c'.diary (.job t) = [] := (acts.diary other).trans (known.absent _ absent)
  refine ⟨nothing ▸ ⟨none, .none, by simp⟩, fun own => ?_, fun i earlier later stops => ?_⟩
  · rw [Crew.owner, acts.log] at own
    obtain ⟨h, there⟩ := known.owned _ _ (acts.owner other found loop (fun _ inside => inside) own)
    cases absent.symm.trans there
  · exact (List.append_eq_nil_iff.mp ((stops.diary t).symm.trans nothing)).2

/-- Whatever somebody else does, everybody stands where they may. -/
theorem Posted.other {j : Who} {h' : Hand} (stands : c.Posted x j h) (known : c.Manned x) (known' : c'.Manned x)
    (acts : Acts brings halts k new c c') (found : c'.hand? j = some h') (origin : h'.origin = h.origin)
    (station : h'.station = h.station) (other : k ≠ j) : c'.Posted x j h' where
  keeps := by
    rintro t rfl loop
    rw [station]
    exact (stands.keeps t rfl (origin.symm.trans loop)).other known known' acts found loop other
  owns := by
    rintro t id rfl ingests idle going
    rw [station] at idle going
    have own := stands.owns t id rfl (origin.symm.trans ingests) idle going
    exact (known'.regular.kept known'.recorded (acts.since other) known.recorded own).1
  joined := by
    rintro i result rfl stopping isOver t earlier later stops
    rcases stops.before acts.log with ⟨since, _, old⟩ | ⟨_, _, _, _, same, _⟩
    · exact acts.ended (stands.joined i result rfl (origin.symm.trans stopping) (station.symm.trans isOver) t _ _ old)
    · exact absurd same other

theorem Posted.added {j : Who} {h' : Hand} (known : c.Manned x) (known' : c'.Manned x) (acts : Acts brings halts k new c c')
    (absent : c.hand? j = none) (found : c'.hand? j = some h') (fresh : h'.station = .fresh) (other : k ≠ j) :
    c'.Posted x j h' where
  keeps := by
    rintro t rfl loop
    rw [fresh]
    exact Standing.added known acts absent found loop other
  owns t id same ingests _ _ := by
    subst same
    exact ((known'.regular.hands _ h' found).ingest _ id ingests).2 fresh
  joined i result _ _ isOver := by cases fresh.symm.trans isOver

/-- Whatever is done, everybody stands where they may if the one does who did it. -/
theorem Placed.acts (placed : c.Placed x) (known : c.Manned x) (known' : c'.Manned x) (acts : Acts brings halts k new c c')
    (halting : ∀ t, halts t → ¬c.Spared x t) (own : ∀ h', c'.hand? k = some h' → c'.Posted x k h') : c'.Placed x where
  stands := by
    intro j h' found
    by_cases self : k = j
    · exact self ▸ own h' (self ▸ found)
    · cases there : c.hand? j with
      | none =>
        rcases acts.follows.newcomers j h' found with ⟨h, old⟩ | ⟨fresh, _⟩
        · cases there.symm.trans old
        · exact Posted.added known known' acts there found fresh self
      | some h =>
        obtain ⟨h'', found'', origin, _, station⟩ := acts.follows.hands j h there
        cases Option.some.inj (found.symm.trans found'')
        exact (placed.stands j h there).other known known' acts found origin (station (Ne.symm self)) self
  doomed := by
    intro t h' found loop stopped spared
    rcases acts.halted t h' found stopped with ⟨h, there, marked⟩ | halted
    · obtain ⟨h'', found'', origin, _⟩ := acts.follows.hands _ h there
      cases Option.some.inj (found.symm.trans found'')
      exact placed.doomed t h there (origin.symm.trans loop) marked (spared.old acts.log)
    · exact halting t halted (spared.old acts.log)

/-- Whoever is to be stopped stays so, if they do nothing themselves. -/
theorem Heeded.acts {o : Option Nat} (heeded : c.Heeded x o) (known : c.Manned x) (acts : Acts brings halts k new c c')
    (others : ∀ i, o ≠ some i → k = .caller i → ∀ entry ∈ new, entry.2 ≠ .begins x.stopping)
    (own : ∀ t h', k = .job t → c'.hand? k = some h' → h'.origin = x.loop → c'.Spared x t ∨ h'.station = .running ∨
      ∃ result, h'.station = .over result) : c'.Heeded x o := by
  intro i t earlier later h' counts stops found
  have before : ∃ since, c.CallsOff x i t earlier since := by
    rcases stops.before acts.log with ⟨since, _, old⟩ | ⟨first, last, _, _, same, time, rfl⟩
    · exact ⟨since, old⟩
    · exact absurd rfl (others i counts same _ (List.mem_append_right _ (List.mem_cons_self ..)))
  obtain ⟨since, old⟩ := before
  obtain ⟨h, there, loop⟩ := known.scheduled.furnished.hired i t earlier since old
  obtain ⟨h'', found'', origin, _, station⟩ := acts.follows.hands _ h there
  cases Option.some.inj (found.symm.trans found'')
  by_cases self : k = .job t
  · rcases own t h' self (self ▸ found) (origin.trans loop) with spared | stands
    · exact absurd stops (spared i earlier later)
    · exact .inr stands
  · rw [station (Ne.symm self)]
    exact (heeded i t earlier since h counts old there).imp (acts.marks _ h h' (Ne.symm self) there found) id

end Crew

end CodeAtlas
