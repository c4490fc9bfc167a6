import CodeAtlas.Proofs.Ingestion.Attending

namespace CodeAtlas

open Routine

variable {ω : Type}

namespace Crew

/-- It is the turn of a caller who puts an end to a job, if there was one to put an end to. -/
structure Calling (x : Timetable) (i : Nat) (s : Option Nat) (c : Crew ω) : Prop where
  known : c.Manned x
  turn : ∃ h, c.hand? (.caller i) = some h ∧ h.station = .running ∧ h.origin = x.stopping
  placed : c.Placed x
  only : ∀ t earlier later, c.CallsOff x i t earlier later → s = some t

variable {x : Timetable} {c c' : Crew ω} {i t : Nat} {s : Option Nat} {h : Hand} {new : Diary} {brings : Job → Prop}
  {halts : Nat → Prop}

theorem Posted.of_caller (going : ∀ result, h.station ≠ .over result) : c.Posted x (.caller i) h where
  keeps _ same := by cases same
  owns _ _ same := by cases same
  joined _ result _ _ isOver := absurd isOver (going result)

/-- What a caller does lets nobody off who is to be stopped. -/
theorem Heeded.calls {o : Option Nat} (heeded : c.Heeded x o) (known : c.Manned x) (acts : Acts brings halts (.caller i) new c c')
    (others : o ≠ some i → ∀ entry ∈ new, entry.2 ≠ .begins x.stopping) : c'.Heeded x o := by
  refine heeded.acts known acts ?_ ?_
  · rintro j counts ⟨⟩
    exact others counts
  · rintro t h' ⟨⟩

/-- Somebody who has done nothing since has not begun since. -/
theorem CallsOff.since {d : Crew ω} {earlier later : List Noted} (stops : d.CallsOff x i t earlier later)
    (since : c.Since (.caller i) d) : ∃ rest, c.CallsOff x i t earlier rest := by
  obtain ⟨time, whole, scheduled⟩ := stops
  obtain ⟨new, log, others⟩ := since.log
  rcases Log.split_append (log.symm.trans whole) with ⟨rest, _, old⟩ | ⟨before, _, recent⟩
  · exact ⟨rest, time, old, scheduled⟩
  · exact absurd rfl (others _ (recent ▸ List.mem_append_right _ (List.mem_cons_self ..)))

theorem Heeded.mono {o : Option Nat} (heeded : c.Heeded x none) : c.Heeded x o :=
  fun i t earlier later h _ => heeded i t earlier later h nofun

namespace Calling

theorem still_only (calling : c.Calling x i s) (acts : Acts brings halts (.caller i) new c c')
    (unbegun : ∀ entry ∈ new, entry.2 ≠ .begins x.stopping) :
    ∀ t earlier later, c'.CallsOff x i t earlier later → s = some t := by
  intro t earlier later stops
  obtain ⟨since, _, old⟩ := stops.old acts.log unbegun
  exact calling.only t earlier since old

/-- Whatever is done on the way, everybody stands where they may. -/
theorem places (calling : c.Calling x i s) (acts : Acts brings halts (.caller i) new c c') (known' : c'.Manned x)
    (halting : ∀ t, halts t → ¬c.Spared x t) (found : c'.hand? (.caller i) = some h) (going : ∀ result, h.station ≠ .over result) :
    c'.Placed x := by
  refine calling.placed.acts calling.known known' acts halting fun h' found' => ?_
  cases Option.some.inj (found.symm.trans found')
  exact .of_caller going

/-- The turn goes on. -/
theorem goesOn (calling : c.Calling x i s) (acts : Acts brings halts (.caller i) new c c') (known' : c'.Manned x)
    (halting : ∀ t, halts t → ¬c.Spared x t) (unbegun : ∀ entry ∈ new, entry.2 ≠ .begins x.stopping)
    (found : c'.hand? (.caller i) = some h) (runs : h.station = .running) : c'.Calling x i s := by
  obtain ⟨h₀, found₀, _, origin⟩ := calling.turn
  obtain ⟨h', found', same, _⟩ := acts.follows.hands _ h₀ found₀
  cases Option.some.inj (found.symm.trans found')
  exact ⟨known', ⟨h, found, runs, same.trans origin⟩, calling.places acts known' halting found (by rw [runs]; exact nofun),
    calling.still_only acts unbegun⟩

/-- Once the job has ended, so may the caller. -/
theorem closes {result : Except Fault Yield} (calling : c.Calling x i s) (heeded : c.Heeded x none)
    (ended : ∀ t, s = some t → c.ended t = true) : (attending ω x).Closes (.caller i) result c := by
  intro known'
  obtain ⟨h, found, runs, _⟩ := calling.turn
  have acts : ActsAlone (.caller i) [] c (c.close (.caller i) result) :=
    .close (active_of found runs nofun) result
  refine ⟨⟨calling.placed.acts calling.known known' acts (fun _ => False.elim) fun h' _ => ?_, fun _ => ?_⟩, trivial⟩
  · refine ⟨fun _ same => (by cases same), fun _ _ same => (by cases same), ?_⟩
    rintro j _ ⟨⟩ _ _ t earlier later stops
    exact acts.ended (ended t (calling.still_only acts (by simp) t earlier later stops))
  · exact heeded.calls calling.known acts (by simp)

/-- The job is waited for. -/
theorem joins {task : Nat} (w : World ω) (calling : c.Calling x i (some task)) (heeded : c.Heeded x none) :
    (request (.join task)).Keeps w (attending ω x) (.caller i)
      (fun _ c' => c'.Calling x i (some task) ∧ c'.Heeded x none ∧ c'.ended task = true) c := by
  obtain ⟨h, found, runs, origin⟩ := calling.turn
  refine ⟨?_, ?_⟩
  · rintro _ _ ⟨⟨result, there, rfl⟩, rfl⟩ _
    exact ⟨⟨calling.placed, fun _ => heeded⟩, calling, heeded, by rw [Crew.ended, there]; rfl⟩
  · rintro _ _ _ rest ⟨rfl, rfl, rfl⟩ known'
    have acts : ActsAlone (.caller i) [] _ _ :=
      (Acts.refl (active_of found runs (by rintro _ ⟨⟩))).onHand found (Hand.moved_origin (.waiting (.job task .direct) rest))
        (Hand.moved_group _) fun _ => id
    have found' := hand?_self found (Hand.moved (.waiting (.job task .direct) rest))
    refine ⟨⟨calling.places acts known' (fun _ => False.elim) found' (fun _ same => by cases same), fun _ =>
      heeded.calls calling.known acts (by simp)⟩, ?_⟩
    intro d h' waited d' known attended still since there waiting wakes known''
    have going := known.unhindered i h' there
    have news : (∃ result, d.result? task = some result ∧ waited = Watch.direct.news result) ∧ d' = d := by
      simpa [Wakes, going, News] using wakes
    obtain ⟨⟨result, ends, _⟩, rfl⟩ := news
    have woken : ActsAlone (.caller i) [] d' (d'.goOn (.caller i)) :=
      (Acts.refl (active_of there waiting (by rintro _ ⟨⟩))).onHand there Hand.resumed_origin Hand.resumed_group
        fun _ stopped => by cases stopped
    have resumed := hand?_self there Hand.resumed
    have heeded' := (attended.heeded still).calls known woken (by simp)
    have placed : (d'.goOn (.caller i)).Placed x := attended.placed.acts known known'' woken (fun _ => False.elim) fun h'' found'' => by
      cases Option.some.inj (resumed.symm.trans found'')
      exact .of_caller (fun _ same => by cases same)
    have origin' : h'.origin = x.stopping := by
      obtain ⟨h'', there', same, _⟩ := since.hands _ _ found'
      cases Option.some.inj (there.symm.trans there')
      exact same.trans origin
    have only : ∀ t earlier later, (d'.goOn (.caller i)).CallsOff x i t earlier later → some task = some t := by
      intro t earlier later stops
      obtain ⟨_, _, old⟩ := stops.old woken.log (by simp)
      obtain ⟨rest, before⟩ := old.since since
      exact calling.still_only acts (by simp) t earlier rest before
    refine ⟨⟨placed, fun _ => heeded'⟩, ⟨known'', ⟨_, resumed, rfl, origin'⟩, placed, only⟩, heeded', ?_⟩
    exact woken.ended (by rw [Crew.ended, ends]; rfl)

/-- It is on turn, so nobody need have been stopped yet. -/
theorem attended (calling : c.Calling x i s) : c.Attended x where
  placed := calling.placed
  heeded still := by
    obtain ⟨h, found, runs, _⟩ := calling.turn
    exact absurd runs (still _ h found)

/-- The job is stopped that the caller is to put an end to, and no other. -/
theorem cancels {task : Nat} {numbers : List Nat} (calling : c.Calling x i (some task)) (heeded : c.Heeded x (some i))
    (called : ¬c.Spared x task) (halted : c.Halts task numbers) (known' : (c.halt numbers).Manned x) :
    (c.halt numbers).Calling x i (some task) ∧ (c.halt numbers).Heeded x none := by
  obtain ⟨h₀, found₀, runs, origin⟩ := calling.turn
  have loop : ∃ h, c.hand? (.job task) = some h ∧ h.origin = x.loop := by
    by_contra none
    refine called fun j earlier later stops => none ?_
    exact calling.known.scheduled.furnished.hired j task earlier later stops
  obtain ⟨h, found, loop⟩ := loop
  have single : numbers = [task] := by
    rcases halted with ⟨h', resume, there, waiting, _⟩ | ⟨same, _⟩
    · -- a job that keeps to a timetable waits for a time only
      cases Option.some.inj (found.symm.trans there)
      have stands := (calling.placed.stands _ h found).keeps task rfl loop
      rw [waiting] at stands
      obtain ⟨⟨_, _, _, _, due⟩, _⟩ := stands
      cases due
    · exact same
  subst single
  have acts : Acts (fun _ => False) (· = task) (.caller i) [] c (c.halt [task]) :=
    .halt (active_of found₀ runs nofun) fun t inside => List.mem_singleton.mp inside
  have calling' := calling.goesOn acts known' (by rintro _ rfl; exact called) (by simp) ((hand?_halt ..).trans found₀) runs
  refine ⟨calling', fun j t earlier later h' _ stops found' => ?_⟩
  by_cases self : j = i
  · subst self
    cases calling'.only t earlier later stops
    obtain ⟨old, there, ⟨_, spared⟩ | ⟨_, _, _, rfl⟩⟩ := halt_cases found'
    · exact absurd rfl (spared _ (List.mem_singleton.mpr rfl))
    · cases Option.some.inj (found.symm.trans there)
      rcases h.marked_cases with stopped | ⟨_, result, isOver⟩
      · exact .inl stopped
      · exact .inr (.inr ⟨result, h.marked_station.trans isOver⟩)
  · have kept := heeded.calls calling.known acts (fun _ => by simp)
    exact kept j t earlier later h' (fun same => self (Option.some.inj same).symm) stops found'

end Calling

/-- Whoever puts an end to a timetable has the job stopped that keeps to it, and waits for its end. -/
theorem Attended.stops (w : World ω) (attended : c.Attended x) (known : c.Manned x) (still : c.Still)
    (found : c.hand? (.caller i) = some h) (fresh : h.station = .fresh) (origin : h.origin = x.stopping) :
    (attending ω x).After (c.begin (.caller i) h.origin)
      (h.origin.routine.Keeps w (attending ω x) (.caller i) ((attending ω x).Closes (.caller i)) (c.begin (.caller i) h.origin)) := by
  rw [origin]
  intro known₁
  have begins : ActsAlone (.caller i) _ c (c.begin (.caller i) x.stopping) :=
    .begin (active_of found fresh nofun) x.stopping
  have found₁ := hand?_self (c := c.note (.caller i) (.begins x.stopping)) (k := .caller i) found (Hand.moved .running)
  have only : ∀ t earlier later, (c.begin (.caller i) x.stopping).CallsOff x i t earlier later →
      (c.memory.coordinator x.coordinator).scheduler = some t := by
    intro t earlier later stops
    rcases stops.begins known.recorded with ⟨since, old⟩ | ⟨_, _, _, _, scheduled⟩
    · obtain ⟨time, begun⟩ := old.begun
      rw [known.unbegun i h found fresh] at begun
      cases begun
    · exact scheduled
  have calling₁ : (c.begin (.caller i) x.stopping).Calling x i (c.memory.coordinator x.coordinator).scheduler := by
    refine ⟨known₁, ⟨_, found₁, rfl, origin⟩, ?_, only⟩
    refine attended.placed.acts known known₁ begins (fun _ => False.elim) fun h' found' => ?_
    cases Option.some.inj (found₁.symm.trans found')
    exact .of_caller fun _ same => by cases same
  have heeded₁ := (attended.heeded still).mono.calls (o := some i) known begins fun counts => absurd rfl counts
  refine ⟨calling₁.attended, ?_⟩
  have stopped : (Coordinator.stopScheduler x.coordinator).Keeps w (attending ω x) (.caller i)
      (fun _ c' => ∃ s, c'.Calling x i s ∧ c'.Heeded x none ∧ ∀ t, s = some t → c'.ended t = true)
      (c.begin (.caller i) x.stopping) := by
    unfold Coordinator.stopScheduler
    rw [keeps_view_bind, keeps_change_bind]
    intro known₂
    have stores : ActsAlone (.caller i) _ _ _ := .store (active_of found₁ rfl nofun)
      (c.memory.onCoordinator x.coordinator fun y => { y with scheduler := none })
    have calling₂ := calling₁.goesOn stores known₂ (fun _ => False.elim) (by simp) found₁ rfl
    have heeded₂ := heeded₁.calls known₁ stores (by simp)
    refine ⟨calling₂.attended, ?_⟩
    split
    next nobody =>
      have nobody : (c.memory.coordinator x.coordinator).scheduler = none := nobody
      rw [nobody] at calling₂
      refine ⟨none, calling₂, fun j t earlier later h' _ stops => ?_, nofun⟩
      by_cases self : j = i
      · cases calling₂.only t earlier later (self ▸ stops)
      · exact heeded₂ j t earlier later h' (fun same => self (Option.some.inj same).symm) stops
    next task scheduled =>
      have scheduled : (c.memory.coordinator x.coordinator).scheduler = some task := scheduled
      rw [scheduled] at calling₂
      have called : ¬(c.begin (.caller i) x.stopping).Spared x task := fun spared =>
        spared i c.log [] ⟨c.clock, rfl, by rw [← known.recorded.memory]; exact scheduled⟩
      refine keeps_cancel_bind fun numbers halted known₃ => ?_
      obtain ⟨calling₃, heeded₃⟩ := calling₂.cancels heeded₂ (fun spared => called (spared.old stores.log)) halted known₃
      refine ⟨calling₃.attended, (calling₃.joins w heeded₃).andThen ?_⟩
      rintro result c' ⟨calling, heeded, ended⟩
      have after : ∃ s, c'.Calling x i s ∧ c'.Heeded x none ∧ ∀ t, s = some t → c'.ended t = true :=
        ⟨some task, calling, heeded, by rintro _ ⟨⟩; exact ended⟩
      split <;> exact after
  exact stopped.andThen fun _ c' ⟨s, calling, heeded, ended⟩ => calling.closes heeded ended

end Crew

end CodeAtlas
