import CodeAtlas.Proofs.Crew.Diary

namespace CodeAtlas

variable {ω : Type}

namespace Crew

/-- What one of a crew does without time passing: it is written down, nobody else moves, nobody else who is to be stopped
is let off, and jobs are added and stopped that may be. -/
structure Acts (brings : Job → Prop) (halts : Nat → Prop) (k : Who) (new : Diary) (c c' : Crew ω) : Prop where
  follows : Follows k c c'
  active : c.Active k
  log : c'.log = c.log ++ pages k new
  clock : c'.clock = c.clock
  marks : ∀ j h h', j ≠ k → c.hand? j = some h → c'.hand? j = some h' → h.stopped = true → h'.stopped = true
  halted : ∀ t h', c'.hand? (.job t) = some h' → h'.stopped = true →
    (∃ h, c.hand? (.job t) = some h ∧ h.stopped = true) ∨ halts t
  brought : ∀ t h', c'.hand? (.job t) = some h' →
    (∃ h, c.hand? (.job t) = some h) ∨ ∃ job, h'.origin = .job job ∧ brings job
  starts : ∀ entry ∈ new, ∀ job t, entry.2 = .starts job t →
    c.hand? (.job t) = none ∧ ∃ h', c'.hand? (.job t) = some h' ∧ h'.origin = .job job

/-- What one of a crew does by which nobody is added or stopped. -/
abbrev ActsAlone (k : Who) (new : Diary) (c c' : Crew ω) : Prop :=
  Acts (fun _ => False) (fun _ => False) k new c c'

namespace Acts

variable {brings : Job → Prop} {halts : Nat → Prop} {k : Who} {new : Diary} {c c' d : Crew ω} {h : Hand}

/-- Nobody is added, and only one is moved. -/
theorem of_hands {f : Hand → Hand} (follows : Follows k c c') (active : c.Active k) (log : c'.log = c.log ++ pages k new)
    (clock : c'.clock = c.clock) (hands : ∀ j, c'.hand? j = (c.onHand k f).hand? j)
    (going : ∀ h, (f h).stopped = true → h.stopped = true)
    (quiet : ∀ entry ∈ new, ∀ job t, entry.2 ≠ .starts job t) : Acts brings halts k new c c' where
  follows := follows
  active := active
  log := log
  clock := clock
  marks := by
    intro j h h' other found found' stopped
    rw [hands, hand?_other (Ne.symm other)] at found'
    exact Option.some.inj (found.symm.trans found') ▸ stopped
  halted := by
    intro t h' found stopped
    rw [hands] at found
    obtain ⟨rfl, old, there, rfl⟩ | ⟨_, there⟩ := onHand_cases found
    · exact .inl ⟨old, there, going old stopped⟩
    · exact .inl ⟨h', there, stopped⟩
  brought := by
    intro t h' found
    rw [hands] at found
    obtain ⟨rfl, old, there, _⟩ | ⟨_, there⟩ := onHand_cases found
    · exact .inl ⟨old, there⟩
    · exact .inl ⟨h', there⟩
  starts entry inside job t same := absurd same (quiet entry inside job t)

theorem of_same (follows : Follows k c c') (active : c.Active k) (log : c'.log = c.log ++ pages k new)
    (clock : c'.clock = c.clock) (hands : ∀ j, c'.hand? j = c.hand? j)
    (quiet : ∀ entry ∈ new, ∀ job t, entry.2 ≠ .starts job t) : Acts brings halts k new c c' :=
  of_hands (f := id) follows active log clock (fun j => by rw [hands, onHand_id]) (fun _ => id) quiet

theorem store (active : c.Active k) (memory : Memory) :
    Acts brings halts k [(c.clock, .stores c.memory memory)] c (c.store k memory) :=
  of_same (.store k memory c) active rfl rfl (fun j => by cases j <;> rfl) (by simp)

theorem exchange (active : c.Active k) (question : Ask) (r : Reaction ω question) :
    Acts brings halts k [(c.clock, .asks question), (c.clock, .hears question r.reply)] c (c.exchange k question r) :=
  of_same (.exchange k question r c) active (List.append_assoc ..) rfl (fun j => by cases j <;> rfl) (by simp)

theorem ask (active : c.Active k) (question : Ask) (r : Reaction ω question)
    (next : Except Fault question.Reply → Routine Yield) :
    Acts brings halts k [(c.clock, .asks question)] c (c.ask k question r next) :=
  of_hands (f := Hand.moved (.asking question r.reply (c.clock + r.delay) next)) (.ask k question r next c) active rfl
    (by cases k <;> rfl) (fun j => by cases j <;> rfl) (fun _ => id) (by simp)

theorem hear (active : c.Active k) (question : Ask) (heard : Except Fault question.Reply) :
    Acts brings halts k [(c.clock, .hears question heard)] c (c.hear k question heard) :=
  of_hands (f := Hand.resumed) (.hear k question heard c) active rfl (by cases k <;> rfl) (fun j => by cases j <;> rfl)
    (fun _ stopped => by cases stopped) (by simp)

theorem begin (active : c.Active k) (origin : Origin) :
    Acts brings halts k [(c.clock, .begins origin)] c (c.begin k origin) :=
  of_hands (f := Hand.moved .running) (.begin k origin c) active rfl (by cases k <;> rfl) (fun j => by cases j <;> rfl)
    (fun _ => id) (by simp)

theorem close (active : c.Active k) (result : Except Fault Yield) : Acts brings halts k [] c (c.close k result) :=
  of_hands (.close k result c) active (List.append_nil _).symm (by cases k <;> rfl) (fun _ => rfl)
    (fun h => (h.closed_stopped result).symm.trans) (by simp)

theorem call (program : Routine Yield) : Acts brings halts (.caller c.callers.length) [] c (c.call program) where
  follows := .call _ program c
  active h result found := by simp [hand?] at found
  log := (List.append_nil _).symm
  clock := rfl
  marks j h h' _ found found' stopped := Option.some.inj ((call_found found).symm.trans found') ▸ stopped
  halted t h' found stopped := by
    rcases call_cases found with old | ⟨⟨⟩, _⟩
    exact .inl ⟨h', old, stopped⟩
  brought t h' found := by
    rcases call_cases found with old | ⟨⟨⟩, _⟩
    exact .inl ⟨h', old⟩
  starts := by simp

theorem spawn (active : c.Active k) {job : Job} (may : brings job) :
    Acts brings halts k [(c.clock, .starts job c.jobs.length)] c (c.spawn k job) where
  follows := .spawn k job c
  active := active
  log := rfl
  clock := rfl
  marks j h h' _ found found' stopped := Option.some.inj ((spawn_found found).symm.trans found') ▸ stopped
  halted t h' found stopped := by
    rcases spawn_cases found with old | ⟨_, rfl⟩
    · exact .inl ⟨h', old, stopped⟩
    · cases stopped
  brought t h' found := by
    rcases spawn_cases found with old | ⟨_, rfl⟩
    · exact .inl ⟨h', old⟩
    · exact .inr ⟨job, rfl, may⟩
  starts := by
    intro entry inside job' t same
    cases List.mem_singleton.mp inside
    cases same
    exact ⟨by simp [hand?], _, by rw [hand?_spawn, if_pos rfl], rfl⟩

theorem halt (active : c.Active k) {numbers : List Nat} (may : ∀ t ∈ numbers, halts t) :
    Acts brings halts k [] c (c.halt numbers) where
  follows := .halt k numbers c
  active := active
  log := (List.append_nil _).symm
  clock := rfl
  marks j h h' _ found found' stopped := by
    obtain ⟨old, there, either⟩ := halt_cases found'
    cases Option.some.inj (found.symm.trans there)
    obtain ⟨rfl, _⟩ | ⟨_, _, _, rfl⟩ := either
    · exact stopped
    · rcases h.marked_cases with marked | ⟨same, _⟩
      · exact marked
      · rwa [same]
  halted := by
    intro t h' found stopped
    obtain ⟨old, there, ⟨rfl, _⟩ | ⟨_, inside, same, _⟩⟩ := halt_cases found
    · exact .inl ⟨h', there, stopped⟩
    · cases same
      exact .inr (may t inside)
  brought t h' found := .inl ((halt_cases found).imp fun _ old => old.1)
  starts := by simp

theorem gather (active : c.Active k) (permits : Permits) {jobs : List Job} (may : ∀ job ∈ jobs, brings job) :
    Acts brings halts k [] c (c.gather permits jobs) where
  follows := .gather k permits jobs c
  active := active
  log := (List.append_nil _).symm
  clock := rfl
  marks j h h' _ found found' stopped := by
    rw [gather_found found] at found'
    exact Option.some.inj found' ▸ stopped
  halted := by
    intro t h' found stopped
    rcases gather_cases found with old | ⟨_, _, _, _, rfl⟩
    · exact .inl ⟨h', old, stopped⟩
    · cases stopped
  brought t h' found := by
    rcases gather_cases found with old | ⟨_, job, _, at_i, rfl⟩
    · exact .inl ⟨h', old⟩
    · exact .inr ⟨job, rfl, may job (List.mem_of_getElem? at_i)⟩
  starts := by simp

theorem refl (active : c.Active k) : Acts brings halts k [] c c :=
  of_same (.refl k c) active (List.append_nil _).symm rfl (fun _ => rfl) (by simp)

theorem onGroup (active : c.Active k) (f : Permits → Permits) : Acts brings halts k [] c (c.onGroup k f) :=
  of_same (.onGroup k f c) active ((c.onGroup_log k f).trans (List.append_nil _).symm) (c.onGroup_clock k f)
    (c.hand?_onGroup k f) (by simp)

/-- Whoever has done something is moved. -/
theorem onHand (acts : Acts brings halts k new c c') {f : Hand → Hand} (found : c.hand? k = some h)
    (origin : ∀ h, (f h).origin = h.origin) (group : ∀ h, (f h).group = h.group)
    (going : ∀ h, (f h).stopped = true → h.stopped = true) : Acts brings halts k new c (c'.onHand k f) where
  follows := acts.follows.onHand origin group fun _ _ => ⟨h, found⟩
  active := acts.active
  log := acts.log
  clock := (show (c'.onHand k f).clock = c'.clock by cases k <;> rfl).trans acts.clock
  marks j h h' other found found' := by
    rw [hand?_other (Ne.symm other)] at found'
    exact acts.marks j h h' other found found'
  halted t h' found' stopped := by
    obtain ⟨rfl, old, there, rfl⟩ | ⟨_, there⟩ := onHand_cases found'
    · exact acts.halted t old there (going old stopped)
    · exact acts.halted t h' there stopped
  brought t h' found' := by
    obtain ⟨rfl, _⟩ | ⟨_, there⟩ := onHand_cases found'
    · exact .inl ⟨h, found⟩
    · exact acts.brought t h' there
  starts entry inside job t same := by
    obtain ⟨absent, h', there, origin'⟩ := acts.starts entry inside job t same
    have other : k ≠ .job t := by
      rintro rfl
      cases found.symm.trans absent
    exact ⟨absent, h', (hand?_other other f).trans there, origin'⟩

end Acts

end Crew

/-- The jobs that a request adds. -/
def Control.Brings (job : Job) : Control → Prop
  | .spawn job' | .dispatch job' => job = job'
  | .gather _ jobs => job ∈ jobs
  | _ => False

namespace Crew

/-- The jobs that a request stops. -/
def Halting (c : Crew ω) (t : Nat) : Control → Prop
  | .cancel n => ∃ numbers, c.Halts n numbers ∧ t ∈ numbers
  | _ => False

variable {brings : Job → Prop} {halts : Nat → Prop} {k : Who} {new new' : Diary} {c c' d : Crew ω} {h : Hand}

theorem Grants.acts {request : Control} {reply : Except Fault request.Reply} (granted : c.Grants k request reply c')
    (active : c.Active k) (may : ∀ job, request.Brings job → brings job) (stops : ∀ t, c.Halting t request → halts t) :
    ∃ new, Acts brings halts k new c c' ∧ c'.memory = c.memory ∧ ∀ entry ∈ new, ∃ job t, entry.2 = .starts job t := by
  have nothing : ∀ entry ∈ ([] : Diary), ∃ job t, entry.2 = .starts job t := by simp
  cases request with
  | now | hasLoop | ended | join | shield | joinWorker => obtain ⟨_, rfl⟩ := granted; exact ⟨_, .refl active, rfl, nothing⟩
  | pause => exact granted.elim
  | spawn job | dispatch job =>
    obtain ⟨_, rfl⟩ := granted
    exact ⟨_, .spawn active (may job rfl), rfl, by simp⟩
  | cancel =>
    obtain ⟨_, numbers, halted, rfl⟩ := granted
    exact ⟨_, .halt active fun t inside => stops t ⟨numbers, halted, inside⟩, rfl, nothing⟩
  | gather => obtain ⟨_, _, rfl⟩ := granted; exact ⟨_, .refl active, rfl, nothing⟩
  | takePermit => obtain ⟨_, _, rfl⟩ := granted; exact ⟨_, .onGroup active _, c.onGroup_memory k _, nothing⟩
  | givePermit => obtain ⟨_, rfl⟩ := granted; exact ⟨_, .onGroup active _, c.onGroup_memory k _, nothing⟩

theorem Waits.acts {request : Control} {await : Await} {read : Waited → Except Fault request.Reply}
    (waits : c.Waits request await read c') (active : c.Active k) (found : c.hand? k = some h)
    (may : ∀ job, request.Brings job → brings job) (resume : Waited → Routine Yield) :
    Acts brings halts k [] c (c'.rest k await resume) := by
  refine Acts.onHand (h := h) ?_ found (Hand.moved_origin _) (Hand.moved_group _) fun _ => id
  cases request with
  | gather permits jobs => obtain ⟨_, _, rfl⟩ := waits; exact .gather active permits may
  | pause | join | shield | joinWorker | takePermit => obtain ⟨_, _, rfl⟩ := waits; exact .refl active
  | _ => exact waits.elim

theorem Wakes.acts {await : Await} {waited : Waited} (wakes : c.Wakes k h await waited c') (active : c.Active k)
    (found : c.hand? k = some h) : Acts brings halts k [] c (c'.goOn k) := by
  refine Acts.onHand (h := h) ?_ found Hand.resumed_origin Hand.resumed_group fun _ stopped => by cases stopped
  rcases wakes.changes with rfl | rfl
  · exact .refl active
  · exact .onGroup active _

/-- Whoever stands somewhere and has not come to an end is able to do something. -/
theorem active_of {station : Station} (found : c.hand? k = some h) (stands : h.station = station)
    (going : ∀ result, station ≠ .over result) : c.Active k := by
  intro h' result found' ended
  cases Option.some.inj (found.symm.trans found')
  exact going result (stands.symm.trans ended)

end Crew

/-- Who it is that does something in a step: whoever is on turn before or after it, or hears that they were stopped before they
began, or was not there. -/
def Shift.By (k : Who) (a b : Shift ω) : Prop := (∃ p, a.turn = some (k, p)) ∨ (∃ p, b.turn = some (k, p)) ∨
  (∃ h, a.crew.hand? k = some h ∧ h.stopped = true) ∨ a.crew.hand? k = none

/-- Each step is time passing, or what somebody does. -/
theorem Shift.Step.acts {w : World ω} {callers : Routine Yield → Prop} {a b : Shift ω} (step : Shift.Step w callers a b)
    (proper : a.Proper) : (∃ time, b.crew = { a.crew with clock := time }) ∨
      ∃ k new, Crew.Acts (fun _ => True) (fun _ => True) k new a.crew b.crew ∧ Shift.By k a b := by
  cases step with
  | @look c => exact .inl ⟨c.clock, rfl⟩
  | pass time => exact .inl ⟨time, rfl⟩
  | store => exact .inr ⟨_, _, .store proper.active _, .inl ⟨_, rfl⟩⟩
  | exchange => exact .inr ⟨_, _, .exchange proper.active _ _, .inl ⟨_, rfl⟩⟩
  | ask => exact .inr ⟨_, _, .ask proper.active _ _ _, .inl ⟨_, rfl⟩⟩
  | @grant c k request _ _ _ granted =>
    have may : ∀ job, request.Brings job → (fun _ => True) job := fun _ _ => trivial
    have stops : ∀ t, c.Halting t request → (fun _ => True) t := fun _ _ => trivial
    obtain ⟨new, acts, _⟩ := granted.acts proper.active may stops
    exact .inr ⟨k, new, acts, .inl ⟨_, rfl⟩⟩
  | wait waits =>
    obtain ⟨h, found, _⟩ := proper.runs _ _ rfl
    exact .inr ⟨_, _, waits.acts proper.active found (fun _ _ => trivial) _, .inl ⟨_, rfl⟩⟩
  | close => exact .inr ⟨_, _, .close proper.active _, .inl ⟨_, rfl⟩⟩
  | begin found fresh => exact .inr ⟨_, _, .begin (Crew.active_of found fresh nofun) _, .inr (.inl ⟨_, rfl⟩)⟩
  | drop found fresh stopped =>
    exact .inr ⟨_, _, .close (Crew.active_of found fresh nofun) _, .inr (.inr (.inl ⟨_, found, stopped⟩))⟩
  | hear found asking => exact .inr ⟨_, _, .hear (Crew.active_of found asking nofun) _ _, .inr (.inl ⟨_, rfl⟩)⟩
  | resume found waiting wakes =>
    exact .inr ⟨_, _, wakes.acts (Crew.active_of found waiting nofun) found, .inr (.inl ⟨_, rfl⟩)⟩
  | call => exact .inr ⟨_, _, .call _, .inr (.inr (.inr (by simp [Crew.hand?])))⟩

/-- What holds while somebody is on turn is kept by each step within a remit if it is kept by all that is done, and is
found again in every crew in which nobody is on turn. -/
theorem Upkeep.of_acts {w : World ω} {R : Rules ω} {k : Who} {r : Remit} {holds : Crew ω → Prop} {brings : Job → Prop}
    {halts : Nat → Prop} (requests : ∀ request job, r.requests request → request.Brings job → brings job)
    (stops : ∀ (c : Crew ω) request t, r.requests request → c.Halting t request → halts t)
    (may : ∀ question c, R.may k question c)
    (finds : ∀ {c}, R.known c → holds c → r.finds c.memory)
    (found_again : ∀ {c d}, R.known c → holds c → R.known d → R.inv d → d.Still → c.Since k d → holds d)
    (acts : ∀ {c c' new}, R.known c → R.known c' → holds c → Crew.Acts brings halts k new c c' →
      (c'.memory = c.memory ∨ r.writes c.memory c'.memory) → (∀ entry ∈ new, ∀ origin, entry.2 ≠ .begins origin) → holds c')
    (inv : ∀ {c}, R.known c → holds c → R.inv c) :
    Upkeep w R k r fun c => (R.known c ∧ ∃ h, c.hand? k = some h ∧ h.station = .running) ∧ holds c where
  finds own := finds own.1.1 own.2
  may _ _ := may _ _
  store := by
    rintro c m ⟨⟨known, h, found, runs⟩, own⟩ writes known'
    have own' := acts known known' own (.store (Crew.active_of found runs nofun) m) (.inr writes) (by simp)
    exact ⟨inv known' own', ⟨known', h, by cases k <;> exact found, runs⟩, own'⟩
  exchange := by
    rintro c question ⟨⟨known, h, found, runs⟩, own⟩ _ _ known'
    have own' := acts known known' own (.exchange (Crew.active_of found runs nofun) question _) (.inl rfl) (by simp)
    exact ⟨inv known' own', ⟨known', h, by cases k <;> exact found, runs⟩, own'⟩
  ask := by
    rintro c question rest ⟨⟨known, h, found, runs⟩, own⟩ _ _ known'
    have own' := acts known known' own (.ask (Crew.active_of found runs nofun) question _ rest) (.inl rfl) (by simp)
    refine ⟨inv known' own', fun d h' known inv' still since found' asking known'' => ?_⟩
    have heard : Crew.Acts brings halts k _ d _ := .hear (Crew.active_of found' asking nofun) question
      (h'.heard (c.reaction w question).reply)
    have own'' := acts known known'' (found_again known' own' known inv' still since) heard (.inl rfl) (by simp)
    exact ⟨inv known'' own'', ⟨known'', _, Crew.hand?_self (h := h') (by cases k <;> exact found') _, rfl⟩, own''⟩
  grant := by
    rintro c request reply c' ⟨⟨known, h, found, runs⟩, own⟩ allowed granted known'
    obtain ⟨new, does, memory, starts⟩ := granted.acts (Crew.active_of found runs nofun) (requests request · allowed)
      (stops c request · allowed)
    have unbegun : ∀ entry ∈ new, ∀ origin, entry.2 ≠ .begins origin := by
      intro entry inside origin same
      obtain ⟨_, _, started⟩ := starts entry inside
      cases started.symm.trans same
    have own' := acts known known' own does (.inl memory) unbegun
    obtain ⟨h', found', same⟩ := granted.hands.1 k h found
    exact ⟨inv known' own', ⟨known', h', found', same.trans runs⟩, own'⟩
  wait := by
    rintro c request await read c' rest ⟨⟨known, h, found, runs⟩, own⟩ allowed waits known'
    have active := Crew.active_of found runs nofun
    have own' := acts known known' own (waits.acts active found (requests request · allowed) rest) (.inl waits.noted.1) (by simp)
    refine ⟨inv known' own', fun d h' waited d' known inv' still since found' waiting wakes known'' => ?_⟩
    have woken : Crew.Acts brings halts k [] d _ := wakes.acts (Crew.active_of found' waiting nofun) found'
    have own'' := acts known known'' (found_again known' own' known inv' still since) woken (.inl wakes.noted.1) (by simp)
    exact ⟨inv known'' own'', ⟨known'', _, Crew.hand?_self ((wakes.hands k).trans found') _, rfl⟩, own''⟩

end CodeAtlas
