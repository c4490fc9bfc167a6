import CodeAtlas.Proofs.Crew.Hands

namespace CodeAtlas

variable {ω : Type}

/-- What everybody keeps to: what is known of every crew that can come about, what is to hold of each, and
what may be asked. -/
structure Rules (ω : Type) where
  known : Crew ω → Prop
  inv : Crew ω → Prop
  may : Who → Ask → Crew ω → Prop

/-- The invariant holds of a crew that has come about, and so does a claim about it. -/
def Rules.After (R : Rules ω) (c : Crew ω) (claim : Prop) : Prop := R.known c → R.inv c ∧ claim

/-- Nobody is in the middle of a turn. -/
def Crew.Still (c : Crew ω) : Prop := ∀ k h, c.hand? k = some h → h.station ≠ .running

/-- What comes of a question that is asked now. -/
abbrev Crew.reaction (w : World ω) (question : Ask) (c : Crew ω) : Reaction ω question :=
  w.answer question c.clock c.world

/-- From a crew on, each step of a routine keeps to the rules as long as the others do, and what it ends in
satisfies `post`. -/
def Routine.Keeps {α : Type} (w : World ω) (R : Rules ω) (k : Who) (post : Except Fault α → Crew ω → Prop) :
    Routine α → Crew ω → Prop
  | .done result, c => post result c
  | .look next, c => (next c.memory).Keeps w R k post c
  | .store m next, c => R.After (c.store k m) (next.Keeps w R k post (c.store k m))
  | .ask question next, c => R.may k question c ∧
      (¬0 < (c.reaction w question).delay → R.After (c.exchange k question (c.reaction w question))
        ((next (c.reaction w question).reply).Keeps w R k post (c.exchange k question (c.reaction w question)))) ∧
      (0 < (c.reaction w question).delay → ∀ rest, R.After (c.ask k question (c.reaction w question) rest)
        (∀ c' h, R.known c' → R.inv c' → c'.Still → (c.ask k question (c.reaction w question) rest).Since k c' →
          c'.hand? k = some h →
          h.station = .asking question (c.reaction w question).reply (c.clock + (c.reaction w question).delay) rest →
          R.After (c'.hear k question (h.heard (c.reaction w question).reply))
            ((next (h.heard (c.reaction w question).reply)).Keeps w R k post
              (c'.hear k question (h.heard (c.reaction w question).reply)))))
  | .control request next, c =>
      (∀ reply c', c.Grants k request reply c' → R.After c' ((next reply).Keeps w R k post c')) ∧
      (∀ await read c' rest, c.Waits request await read c' → R.After (c'.rest k await rest)
        (∀ d h waited d', R.known d → R.inv d → d.Still → (c'.rest k await rest).Since k d → d.hand? k = some h →
          h.station = .waiting await rest → d.Wakes k h await waited d' →
          R.After (d'.goOn k) ((next (read waited)).Keeps w R k post (d'.goOn k))))

namespace Routine

variable {α β : Type} {w : World ω} {R : Rules ω} {k : Who}

theorem Keeps.andThen {p : Routine α} {f : Except Fault α → Routine β} {mid : Except Fault α → Crew ω → Prop}
    {post : Except Fault β → Crew ω → Prop} {c : Crew ω} (keeps : p.Keeps w R k mid c)
    (rest : ∀ result c', mid result c' → (f result).Keeps w R k post c') : (p.andThen f).Keeps w R k post c := by
  induction p generalizing c with
  | done result => exact rest result c keeps
  | look next ih => exact ih _ keeps
  | store m next ih => exact fun known => ⟨(keeps known).1, ih (keeps known).2⟩
  | ask question next ih =>
    refine ⟨keeps.1, fun soon known => ?_, fun slow after known => ?_⟩
    · exact ⟨(keeps.2.1 soon known).1, ih _ (keeps.2.1 soon known).2⟩
    · refine ⟨(keeps.2.2 slow after known).1, fun c' h known' inv' still since found asking => ?_⟩
      have goesOn := (keeps.2.2 slow after known).2 c' h known' inv' still since found asking
      exact fun heard => ⟨(goesOn heard).1, ih _ (goesOn heard).2⟩
  | control request next ih =>
    refine ⟨fun reply c' granted known => ?_, fun await read c' after waits known => ?_⟩
    · exact ⟨(keeps.1 reply c' granted known).1, ih _ (keeps.1 reply c' granted known).2⟩
    · refine ⟨(keeps.2 await read c' after waits known).1, ?_⟩
      intro d h waited d' known' inv' still since found waiting wakes
      have goesOn := (keeps.2 await read c' after waits known).2 d h waited d' known' inv' still since found waiting wakes
      exact fun woken => ⟨(goesOn woken).1, ih _ (goesOn woken).2⟩

theorem Keeps.imp {p : Routine α} {post post' : Except Fault α → Crew ω → Prop} {c : Crew ω}
    (keeps : p.Keeps w R k post c) (weaker : ∀ result c', post result c' → post' result c') : p.Keeps w R k post' c := by
  rw [← andThen_done p]
  exact keeps.andThen weaker

theorem Keeps.bind {p : Routine α} {f : α → Routine β} {mid : Except Fault α → Crew ω → Prop}
    {post : Except Fault β → Crew ω → Prop} {c : Crew ω} (keeps : p.Keeps w R k mid c)
    (value : ∀ a c', mid (.ok a) c' → (f a).Keeps w R k post c')
    (fault : ∀ e c', mid (.error e) c' → post (.error e) c') : (p >>= f).Keeps w R k post c := by
  refine keeps.andThen ?_
  intro result c' holds
  cases result with
  | ok a => exact value a c' holds
  | error e => exact fault e c' holds

end Routine

/-- What holds when somebody comes to an end. -/
def Rules.Closes (R : Rules ω) (k : Who) (result : Except Fault Yield) (c : Crew ω) : Prop :=
  R.After (c.close k result) True

/-- Whoever waits keeps to the rules when going on. -/
def Hand.Able (w : World ω) (R : Rules ω) (k : Who) (h : Hand) (c : Crew ω) : Prop :=
  match h.station with
  | .asking question reply due next => ∃ d : Crew ω, d.Since k c ∧ ∀ c' h', R.known c' → R.inv c' → c'.Still →
      d.Since k c' → c'.hand? k = some h' → h'.station = .asking question reply due next →
      R.After (c'.hear k question (h'.heard reply))
        ((next (h'.heard reply)).Keeps w R k (R.Closes k) (c'.hear k question (h'.heard reply)))
  | .waiting await resume => ∃ d : Crew ω, d.Since k c ∧ ∀ c' h' waited c'', R.known c' → R.inv c' → c'.Still →
      d.Since k c' → c'.hand? k = some h' → h'.station = .waiting await resume → c'.Wakes k h' await waited c'' →
      R.After (c''.goOn k) ((resume waited).Keeps w R k (R.Closes k) (c''.goOn k))
  | _ => True

/-- Callers that come, and those who begin or never do keep to the rules. -/
structure Rules.Opens (w : World ω) (R : Rules ω) (callers : Routine Yield → Prop) : Prop where
  call : ∀ {c program}, R.known c → R.inv c → callers program → R.known (c.call program) → R.inv (c.call program)
  drop : ∀ {c k h}, R.known c → R.inv c → c.Still → c.hand? k = some h → h.station = .fresh → h.stopped = true →
    R.Closes k (.error .cancelled) c
  begin : ∀ {c k h}, R.known c → R.inv c → c.Still → c.hand? k = some h → h.station = .fresh → h.stopped = false →
    (∀ program, h.origin = .caller program → callers program) →
    R.After (c.begin k h.origin) (h.origin.routine.Keeps w R k (R.Closes k) (c.begin k h.origin))

/-- So does time that passes. -/
structure Rules.Guards (w : World ω) (R : Rules ω) (callers : Routine Yield → Prop) : Prop extends R.Opens w callers where
  pass : ∀ {c time}, R.known c → R.inv c → R.inv { c with clock := time }

/-- Whoever calls the program is one of the callers. -/
structure Crew.Knows (callers : Routine Yield → Prop) (c : Crew ω) : Prop where
  fits : ∀ k h, c.hand? k = some h → h.origin.Fits k
  program : ∀ k h program, c.hand? k = some h → h.origin = .caller program → callers program

/-- The invariant holds, and whoever is to go on keeps to the rules. -/
structure Shift.Sound (w : World ω) (R : Rules ω) (a : Shift ω) : Prop where
  holds : R.inv a.crew
  able : ∀ k h, a.crew.hand? k = some h → h.Able w R k a.crew
  keeps : ∀ k p, a.turn = some (k, p) → p.Keeps w R k (R.Closes k) a.crew

section Able

variable {w : World ω} {R : Rules ω} {c c' : Crew ω} {h h' : Hand} {j k : Who}

/-- Those who wait are as able as before, whatever somebody else does. -/
theorem Hand.Able.follows (able : h.Able w R k c) (follows : Crew.Follows j c c') (other : j ≠ k) (active : c.Active j)
    (same : h'.station = h.station) : h'.Able w R k c' := by
  unfold Hand.Able at able ⊢
  rw [same]
  split at able
  · obtain ⟨d, since, goesOn⟩ := able
    exact ⟨d, since.follows follows other active, goesOn⟩
  · obtain ⟨d, since, goesOn⟩ := able
    exact ⟨d, since.follows follows other active, goesOn⟩
  · trivial

/-- After a step of one of them all are able, provided that this one is. -/
theorem Shift.Sound.able_after (able : ∀ k h, c.hand? k = some h → h.Able w R k c) (follows : Crew.Follows j c c')
    (active : c.Active j) (own : ∀ h, c'.hand? j = some h → h.Able w R j c') :
    ∀ k h, c'.hand? k = some h → h.Able w R k c' := by
  intro k h found
  by_cases self : j = k
  · exact own h (self ▸ found) |> fun holds => self ▸ holds
  · rcases follows.newcomers k h found with ⟨old, found'⟩ | fresh
    · obtain ⟨h', found'', _, _, same⟩ := follows.hands k old found'
      cases Option.some.inj (found.symm.trans found'')
      exact (able k old found').follows follows self active (same (Ne.symm self))
    · simp [Hand.Able, fresh.1]

theorem Hand.able_running (runs : h.station = .running) : h.Able w R k c := by
  simp [Hand.Able, runs]

theorem Hand.able_closed (result : Except Fault Yield) : (h.closed result).Able w R k c := by
  cases result with
  | ok => cases again : h.origin.repeats <;> simp [Hand.Able, Hand.closed, again]
  | error => simp [Hand.Able, Hand.closed]

end Able

section Knows

variable {w : World ω} {callers : Routine Yield → Prop} {c c' : Crew ω} {k : Who}

theorem Crew.Knows.follows (knows : c.Knows callers) (follows : Crew.Follows k c c')
    (nobody : c'.callers.length = c.callers.length) : c'.Knows callers where
  fits := by
    intro j h found
    rcases follows.newcomers j h found with ⟨h', found'⟩ | ⟨_, fits⟩
    · obtain ⟨h'', found'', origin, _⟩ := follows.hands j h' found'
      cases Option.some.inj (found.symm.trans found'')
      exact origin ▸ knows.fits j h' found'
    · exact fits
  program := by
    intro j h program found calls
    have old : ∃ h', c.hand? j = some h' := by
      rcases follows.newcomers j h found with old | ⟨_, fits⟩
      · exact old
      · rw [calls] at fits
        cases j with
        | job i => exact fits.elim
        | caller i =>
          have inside : i < c.callers.length := nobody ▸ (List.getElem?_eq_some_iff.mp found).1
          exact ⟨_, List.getElem?_eq_getElem inside⟩
    obtain ⟨h', found'⟩ := old
    obtain ⟨h'', found'', origin, _⟩ := follows.hands j h' found'
    cases Option.some.inj (found.symm.trans found'')
    exact knows.program j h' program found' (origin.symm.trans calls)

theorem Crew.callers_onHand (c : Crew ω) (k : Who) (f : Hand → Hand) : (c.onHand k f).callers.length = c.callers.length := by
  cases k <;> simp [Crew.onHand]

theorem Crew.callers_onGroup (c : Crew ω) (k : Who) (f : Permits → Permits) : (c.onGroup k f).callers = c.callers := by
  unfold Crew.onGroup
  split <;> rfl

theorem Crew.callers_of_grants {request : Control} {reply : Except Fault request.Reply}
    (granted : c.Grants k request reply c') : c'.callers = c.callers := by
  cases request with
  | now | hasLoop | ended | join | shield | joinWorker | spawn | dispatch => obtain ⟨_, rfl⟩ := granted; rfl
  | cancel => obtain ⟨_, _, _, rfl⟩ := granted; rfl
  | pause => exact granted.elim
  | gather => obtain ⟨_, _, rfl⟩ := granted; rfl
  | takePermit => obtain ⟨_, _, rfl⟩ := granted; exact c.callers_onGroup k _
  | givePermit => obtain ⟨_, rfl⟩ := granted; exact c.callers_onGroup k _

theorem Crew.callers_of_waits {request : Control} {await : Await} {read : Waited → Except Fault request.Reply}
    (waits : c.Waits request await read c') : c'.callers = c.callers := by
  cases request with
  | gather | pause | join | shield | joinWorker | takePermit => obtain ⟨_, _, rfl⟩ := waits; rfl
  | _ => exact waits.elim

theorem Crew.callers_of_wakes {h : Hand} {await : Await} {waited : Waited} (wakes : c.Wakes k h await waited c') :
    c'.callers = c.callers := by
  rcases wakes.changes with rfl | rfl
  · rfl
  · exact c.callers_onGroup k _

theorem Shift.Step.knows {a b : Shift ω} (step : Shift.Step w callers a b) (knows : a.crew.Knows callers) :
    b.crew.Knows callers := by
  cases step with
  | look => exact knows
  | store => exact knows.follows (.store _ _ _) rfl
  | exchange => exact knows.follows (.exchange _ _ _ _) rfl
  | ask => exact knows.follows (.ask _ _ _ _ _) (Crew.callers_onHand _ _ _)
  | grant granted => exact knows.follows (.of_grants granted) (congrArg _ (Crew.callers_of_grants granted))
  | @wait c k request next await read c' waits =>
    have added := knows.follows (.of_waits (k := k) waits) (congrArg _ (Crew.callers_of_waits waits))
    exact added.follows (.rest _ _ _ _) (Crew.callers_onHand _ _ _)
  | close => exact knows.follows (.close _ _ _) (Crew.callers_onHand _ _ _)
  | begin => exact knows.follows (.begin _ _ _) (Crew.callers_onHand _ _ _)
  | drop => exact knows.follows (.close _ _ _) (Crew.callers_onHand _ _ _)
  | hear => exact knows.follows (.hear _ _ _ _) (Crew.callers_onHand _ _ _)
  | @resume c k h await resume waited c' found waiting wakes =>
    have woken := knows.follows (.of_wakes wakes) (congrArg _ (Crew.callers_of_wakes wakes))
    exact woken.follows (.goOn _ _) (Crew.callers_onHand _ _ _)
  | @call c program calls =>
    refine ⟨fun j h found => ?_, fun j h program' found origin => ?_⟩
    · rcases Crew.call_cases found with old | ⟨rfl, rfl⟩
      · exact knows.fits j h old
      · trivial
    · rcases Crew.call_cases found with old | ⟨_, rfl⟩
      · exact knows.program j h program' old origin
      · cases origin
        exact calls
  | pass => exact ⟨knows.fits, knows.program⟩

theorem Shift.Reach.knows {memory : Memory} {world : ω} {hasLoop : Bool} {a : Shift ω}
    (reach : Shift.Reach w callers memory world hasLoop a) : a.crew.Knows callers := by
  induction reach with
  | start =>
    have nobody : ∀ k, (Crew.start memory world hasLoop).hand? k = none := fun k => by
      cases k <;> simp [Crew.hand?, Crew.start]
    exact ⟨fun k h found => by simp [nobody k] at found, fun k h program found => by simp [nobody k] at found⟩
  | next _ step ih => exact step.knows ih

end Knows

section Sound

variable {w : World ω} {R : Rules ω} {callers : Routine Yield → Prop} {c : Crew ω} {k : Who} {p : Routine Yield}

theorem Shift.Proper.able (proper : Shift.Proper ⟨c, some (k, p)⟩) : ∀ h, c.hand? k = some h → h.Able w R k c := by
  intro h found
  obtain ⟨h', found', runs⟩ := proper.runs k p rfl
  cases Option.some.inj (found'.symm.trans found)
  exact Hand.able_running runs

/-- Whoever goes to wait for an answer is able to go on. -/
theorem Shift.Sound.asked {question : Ask} {next : Except Fault question.Reply → Routine Yield}
    (slow : 0 < (c.reaction w question).delay) (keeps : (Routine.ask question next).Keeps w R k (R.Closes k) c)
    (known : R.known (c.ask k question (c.reaction w question) next)) :
    ∀ h, (c.ask k question (c.reaction w question) next).hand? k = some h →
      h.Able w R k (c.ask k question (c.reaction w question) next) := by
  intro h found
  obtain ⟨_, old, _, rfl⟩ | ⟨other, _⟩ := Crew.onHand_cases (c := { c.note k (.asks question) with world := _ }) found
  · simp only [Hand.Able, Hand.moved_station]
    exact ⟨_, .refl k _, (keeps.2.2 slow next known).2⟩
  · exact absurd rfl other

theorem Shift.Sound.waited {c' : Crew ω} {request : Control} {next : Except Fault request.Reply → Routine Yield} {await : Await}
    {read : Waited → Except Fault request.Reply} (waits : c.Waits request await read c')
    (keeps : (Routine.control request next).Keeps w R k (R.Closes k) c)
    (known : R.known (c'.rest k await fun waited => next (read waited))) :
    ∀ h, (c'.rest k await fun waited => next (read waited)).hand? k = some h →
      h.Able w R k (c'.rest k await fun waited => next (read waited)) := by
  intro h found
  obtain ⟨_, old, _, rfl⟩ | ⟨other, _⟩ := Crew.onHand_cases found
  · simp only [Hand.Able, Hand.moved_station]
    exact ⟨_, .refl k _, (keeps.2 await read c' _ waits known).2⟩
  · exact absurd rfl other

/-- Whoever goes on within the rules leaves all of them able to keep to them. -/
theorem Shift.Sound.onTurn {c' : Crew ω} {q : Routine Yield} (able : ∀ k h, c.hand? k = some h → h.Able w R k c)
    (follows : Crew.Follows k c c') (active : c.Active k) (proper : Shift.Proper ⟨c', some (k, q)⟩) (known : R.known c')
    (after : R.After c' (q.Keeps w R k (R.Closes k) c')) : Shift.Sound w R ⟨c', some (k, q)⟩ := by
  obtain ⟨inv, goesOn⟩ := after known
  refine ⟨inv, able_after able follows active proper.able, ?_⟩
  rintro _ _ ⟨⟩
  exact goesOn

/-- So does whoever comes to an end within the rules. -/
theorem Shift.Sound.closed {result : Except Fault Yield} (able : ∀ k h, c.hand? k = some h → h.Able w R k c)
    (active : c.Active k) (known : R.known (c.close k result)) (closes : R.Closes k result c) :
    Shift.Sound w R ⟨c.close k result, none⟩ := by
  refine ⟨(closes known).1, able_after able (.close k result c) active fun h found => ?_, by rintro _ _ ⟨⟩⟩
  obtain ⟨_, old, _, rfl⟩ | ⟨other, _⟩ := Crew.onHand_cases found
  · exact Hand.able_closed result
  · exact absurd rfl other

/-- There is room for another caller. -/
theorem Crew.active_new (c : Crew ω) : c.Active (.caller c.callers.length) := fun _ _ there => by
  simp [Crew.hand?] at there

/-- Every step keeps to the rules, and leaves everybody able to keep to them, if time may pass. -/
theorem Shift.Sound.step {a b : Shift ω} (opens : R.Opens w callers)
    (passes : ∀ {c time}, a = ⟨c, none⟩ → b = ⟨{ c with clock := time }, none⟩ → R.inv { c with clock := time })
    (proper : a.Proper) (knows : a.crew.Knows callers)
    (known : R.known a.crew) (known' : R.known b.crew) (sound : a.Sound w R) (step : Shift.Step w callers a b) :
    b.Sound w R := by
  obtain ⟨holds, able, keeps⟩ := sound
  have proper' := step.proper proper
  have still : a.turn = none → a.crew.Still := by
    intro idle k h found runs
    obtain ⟨p, turn⟩ := proper.alone k h found runs
    cases idle.symm.trans turn
  have idle : ∀ {k h station}, a.crew.hand? k = some h → h.station = station → (∀ result, station ≠ .over result) →
      a.crew.Active k := by
    intro k h station found at_station other h' result found' ended
    cases Option.some.inj (found.symm.trans found')
    exact other result (at_station.symm.trans ended)
  cases step with
  | look =>
    have next := keeps _ _ rfl
    exact ⟨holds, able, fun k p same => by cases same; exact next⟩
  | @store c k memory next => exact onTurn able (.store k memory c) proper.active proper' known' (keeps _ _ rfl)
  | @exchange c k question next soon =>
    exact onTurn able (.exchange k question _ c) proper.active proper' known' ((keeps _ _ rfl).2.1 soon)
  | @ask c k question next slow =>
    have asks := keeps _ _ rfl
    exact ⟨(asks.2.2 slow next known').1, able_after able (.ask k question _ next c) proper.active (asked slow asks known'),
      by rintro _ _ ⟨⟩⟩
  | @grant c k request next reply c' granted =>
    exact onTurn able (.of_grants granted) proper.active proper' known' ((keeps _ _ rfl).1 reply c' granted)
  | @wait c k request next await read c' waits =>
    have asks := keeps _ _ rfl
    have follows : Crew.Follows k c (c'.rest k await fun waited => next (read waited)) :=
      (Crew.Follows.of_waits waits).trans (.rest _ _ _ _) fun h found => ?_
    · exact ⟨(asks.2 await read c' _ waits known').1, able_after able follows proper.active (waited waits asks known'), by rintro _ _ ⟨⟩⟩
    · obtain ⟨h', found', _⟩ := proper.runs k _ rfl
      exact ⟨h', found'⟩
  | @close c k result => exact closed able proper.active known' (keeps _ _ rfl)
  | @begin c k h found fresh going =>
    have begins := opens.begin known holds (still rfl) found fresh going fun program => knows.program k h program found
    exact onTurn able (.begin k h.origin c) (idle found fresh (by rintro _ ⟨⟩)) proper' known' begins
  | @drop c k h found fresh stopped =>
    exact closed able (idle found fresh (by rintro _ ⟨⟩)) known' (opens.drop known holds (still rfl) found fresh stopped)
  | @hear c k h question reply due next found asking due_now =>
    have waits := able k h found
    simp only [Hand.Able, asking] at waits
    obtain ⟨d, since, waits⟩ := waits
    exact onTurn able (.hear k question _ c) (idle found asking (by rintro _ ⟨⟩)) proper' known'
      (waits c h known holds (still rfl) since found asking)
  | @resume c k h await resume waited c' found waiting wakes =>
    have waits := able k h found
    simp only [Hand.Able, waiting] at waits
    obtain ⟨d, since, waits⟩ := waits
    have follows : Crew.Follows k c (c'.goOn k) :=
      (Crew.Follows.of_wakes wakes).trans (.goOn _ _) fun h found => ⟨h, (wakes.hands k).symm.trans found⟩
    exact onTurn able follows (idle found waiting (by rintro _ ⟨⟩)) proper' known'
      (waits c h waited c' known holds (still rfl) since found waiting wakes)
  | @call c program calls =>
    refine ⟨opens.call known holds calls known', fun k h found => ?_, by rintro _ _ ⟨⟩⟩
    rcases Crew.call_cases found with old | ⟨_, rfl⟩
    · have other : Who.caller c.callers.length ≠ k := by
        rintro rfl
        simp [Crew.hand?] at old
      exact (able k h old).follows (.call _ program c) other c.active_new rfl
    · trivial
  | @pass c time =>
    refine ⟨passes rfl rfl, fun k h found => ?_, by rintro _ _ ⟨⟩⟩
    have follows : Crew.Follows (.caller c.callers.length) c { c with clock := time } :=
      (Crew.Follows.refl _ c).of_same (fun j => by cases j <;> rfl) rfl rfl
    refine (able k h found).follows follows ?_ c.active_new rfl
    rintro rfl
    simp [Crew.hand?] at found

/-- Where time keeps to the rules whenever it passes, it may pass. -/
theorem Shift.Sound.passes {a b : Shift ω} (sound : a.Sound w R) (guards : R.Guards w callers) (known : R.known a.crew)
    {c : Crew ω} {time : Float} (idle : a = ⟨c, none⟩) (_ : b = ⟨{ c with clock := time }, none⟩) :
    R.inv { c with clock := time } := by
  subst idle
  exact guards.pass known sound.holds

/-- All that can come about keeps to the rules that beginnings and routines keep to. -/
theorem Shift.Reach.sound {memory : Memory} {world : ω} {hasLoop : Bool} {a : Shift ω} (guards : R.Guards w callers)
    (known : ∀ {a}, Shift.Reach w callers memory world hasLoop a → R.known a.crew)
    (initially : R.inv (.start memory world hasLoop)) (reach : Shift.Reach w callers memory world hasLoop a) :
    a.Sound w R := by
  induction reach with
  | start =>
    refine ⟨initially, fun k h found => ?_, by rintro _ _ ⟨⟩⟩
    cases k <;> simp [Crew.hand?, Crew.start] at found
  | next reach step ih =>
    exact ih.step guards.toOpens (ih.passes guards (known reach)) reach.proper reach.knows (known reach) (known (reach.next step)) step

end Sound

end CodeAtlas
