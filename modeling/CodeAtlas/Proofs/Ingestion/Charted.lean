import CodeAtlas.Proofs.Crew.Moved
import CodeAtlas.Proofs.Crew.Staff
import CodeAtlas.Proofs.Graph.Descriptions
import CodeAtlas.Proofs.Ingestion.Rounds

namespace CodeAtlas

variable {ω : Type}

/-- No two are on turn at a time. -/
def Crew.Single (c : Crew ω) : Prop :=
  ∀ i j h h', c.hand? i = some h → h.station = .running → c.hand? j = some h' → h'.station = .running → i = j

theorem Shift.Proper.single {a : Shift ω} (proper : a.Proper) : a.crew.Single := by
  intro i j h h' found runs found' runs'
  obtain ⟨p, turn⟩ := proper.alone i h found runs
  obtain ⟨p', turn'⟩ := proper.alone j h' found' runs'
  cases turn.symm.trans turn'
  rfl

/-- Neither on turn nor over. -/
def Station.Rests : Station → Prop
  | .running | .over _ => False
  | _ => True

/-- Those who work with a coordinator, or for those who do. -/
inductive Origin.Serves (n : Nat) : Who → Origin → Prop
  | caller {i program} : Serves n (.caller i) (.caller program)
  | ingest {j id} : Serves n (.job j) (.job (.ingest n id))
  | schedule {j} : Serves n (.job j) (.job (.schedule n))
  | describe {j e method} : Serves n (.job j) (.job (.describe e method))

namespace Crew

/-- A job is to describe a method, and rests while it was not stopped. -/
def Pending (c : Crew ω) (j : Nat) (method : PendingMethod) : Prop :=
  ∃ h e, c.hand? (.job j) = some h ∧ h.origin = .job (.describe e method) ∧ h.stopped = false ∧ h.station.Rests

/-- A job that describes a method was stopped, or has ended with a fault. -/
def Failed (c : Crew ω) (j : Nat) : Prop :=
  ∃ h e method, c.hand? (.job j) = some h ∧ h.origin = .job (.describe e method) ∧
    (h.stopped = true ∨ ∃ fault, h.station = .over (.error fault))

/-- Somebody waits for jobs that work beside each other. -/
def Awaits (c : Crew ω) (k : Who) (numbers : List Nat) : Prop :=
  ∃ h resume, c.hand? k = some h ∧ h.station = .waiting (.members numbers) resume

/-- Whoever waits was stopped, or one of those waited for has failed. -/
def Cut (c : Crew ω) (k : Who) (numbers : List Nat) : Prop :=
  (∃ h, c.hand? k = some h ∧ h.stopped = true) ∨ ∃ j ∈ numbers, c.Failed j

/-- A job may write a description: its method has none, no other job is to describe the same method, and it is
waited for by somebody who is not cut off. -/
structure Live (graph : ω → Graph) (c : Crew ω) (j : Nat) (method : PendingMethod) : Prop where
  lacks : (graph c.world).Lacks method.id
  apart : ∀ i other, c.Pending i other → i ≠ j → other.id.same method.id = false ∧ method.id.same other.id = false
  awaited : ∃ k numbers, c.Awaits k numbers ∧ j ∈ numbers ∧ ¬c.Cut k numbers

/-- None of those who are waited for together with a job is to describe a method any more. -/
def Doomed (c : Crew ω) (j : Nat) : Prop :=
  ∀ k numbers, c.Awaits k numbers → j ∈ numbers → ∀ i ∈ numbers, ∀ method, ¬c.Pending i method

/-- The graph is tidy, and the methods that jobs are to describe are different ones without a description. The jobs
are waited for by the owner of the run, and none is left to work once one of them was stopped or has failed. -/
structure Charted (n : Nat) (graph : ω → Graph) (c : Crew ω) : Prop where
  staff : c.Staffed (Origin.Serves n)
  tidy : (graph c.world).Tidy
  lacks : ∀ j method, c.Pending j method → (graph c.world).Lacks method.id
  apart : ∀ i j a b, c.Pending i a → c.Pending j b → i ≠ j → a.id.same b.id = false
  awaited : ∀ j method, c.Pending j method → ∃ k numbers, c.Awaits k numbers ∧ j ∈ numbers
  owners : ∀ k numbers, c.Awaits k numbers → c.owner n = some k
  spent : ∀ k numbers, c.Awaits k numbers → c.Cut k numbers → ∀ j ∈ numbers, ∀ method, ¬c.Pending j method
  going : ∀ k h, c.hand? k = some h → h.station = .running → h.stopped = false

/-- It is no job that describes a method. -/
def Plain (k : Who) (c : Crew ω) : Prop := ∀ h e method, c.hand? k = some h → h.origin ≠ .job (.describe e method)

variable {n : Nat} {graph : ω → Graph} {c c' d : Crew ω} {k : Who} {f : Hand → Hand} {m : Memory}

theorem Awaits.numbers {numbers numbers' : List Nat} (awaits : c.Awaits k numbers) (awaits' : c.Awaits k numbers') :
    numbers = numbers' := by
  obtain ⟨h, resume, found, waiting⟩ := awaits
  obtain ⟨h', resume', found', waiting'⟩ := awaits'
  cases Option.some.inj (found.symm.trans found')
  cases waiting.symm.trans waiting'
  rfl

/-- Whoever is on turn waits for nobody. -/
theorem OnTurn.not_awaits (on : c.OnTurn m k) (numbers : List Nat) : ¬c.Awaits k numbers := by
  rintro ⟨h, resume, found, waiting⟩
  obtain ⟨h', found', runs⟩ := on.running
  cases Option.some.inj (found.symm.trans found')
  cases waiting.symm.trans runs

theorem OnTurn.not_pending {j : Nat} {method : PendingMethod} (on : c.OnTurn m (.job j)) : ¬c.Pending j method := by
  rintro ⟨h, e, found, _, _, rests⟩
  obtain ⟨h', found', runs⟩ := on.running
  cases Option.some.inj (found.symm.trans found')
  simp [runs, Station.Rests] at rests

theorem Pending.not_failed {j : Nat} {method : PendingMethod} (pending : c.Pending j method) : ¬c.Failed j := by
  rintro ⟨h, e, method, found, _, stopped⟩
  obtain ⟨h', e', found', _, going, rests⟩ := pending
  cases Option.some.inj (found.symm.trans found')
  rcases stopped with stopped | ⟨fault, isOver⟩
  · cases going.symm.trans stopped
  · simp [isOver, Station.Rests] at rests

section Others

variable (moved : Moved k f c c')
include moved

/-- Where others stand is left as it is. -/
theorem pending_iff_of_others {j : Nat} {method : PendingMethod} (other : Who.job j ≠ k) : c'.Pending j method ↔ c.Pending j method := by
  simp only [Pending, moved.others _ other]

theorem failed_iff_of_others {j : Nat} (other : Who.job j ≠ k) : c'.Failed j ↔ c.Failed j := by
  simp only [Failed, moved.others _ other]

theorem awaits_iff_of_others {i : Who} {numbers : List Nat} (other : i ≠ k) : c'.Awaits i numbers ↔ c.Awaits i numbers := by
  simp only [Awaits, moved.others _ other]

end Others

namespace Charted

/-- A job that is to describe a method may write its description. -/
theorem live {j : Nat} {method : PendingMethod} (charted : c.Charted n graph) (pending : c.Pending j method) :
    c.Live graph j method where
  lacks := charted.lacks j method pending
  apart i other is other_ := ⟨charted.apart i j other method is pending other_, charted.apart j i method other pending is (Ne.symm other_)⟩
  awaited := by
    obtain ⟨k, numbers, awaits, inside⟩ := charted.awaited j method pending
    exact ⟨k, numbers, awaits, inside, fun cut => charted.spent k numbers awaits cut j inside method pending⟩

/-- One who has failed leaves nobody to work. -/
theorem doomed {j : Nat} (charted : c.Charted n graph) (failed : c.Failed j) : c.Doomed j :=
  fun k numbers awaits inside => charted.spent k numbers awaits (.inr ⟨j, inside, failed⟩)

/-- Only one waits for jobs. -/
theorem alone {i k : Who} {numbers numbers' : List Nat} (charted : c.Charted n graph) (awaits : c.Awaits i numbers)
    (awaits' : c.Awaits k numbers') : i = k ∧ numbers = numbers' := by
  have same : i = k := Option.some.inj ((charted.owners i numbers awaits).symm.trans (charted.owners k numbers' awaits'))
  subst same
  exact ⟨rfl, awaits.numbers awaits'⟩

/-- While the owner of the run is on turn, nobody is about to describe a method. -/
theorem owner_alone (charted : c.Charted n graph) (on : c.OnTurn m k) (own : c.owner n = some k) :
    (∀ i numbers, ¬c.Awaits i numbers) ∧ ∀ j method, ¬c.Pending j method := by
  have nobody : ∀ i numbers, ¬c.Awaits i numbers := by
    intro i numbers awaits
    have same : i = k := Option.some.inj ((charted.owners i numbers awaits).symm.trans own)
    subst same
    exact on.not_awaits numbers awaits
  refine ⟨nobody, fun j method pending => ?_⟩
  obtain ⟨i, numbers, awaits, _⟩ := charted.awaited j method pending
  exact nobody i numbers awaits

/-- Where nobody waits for jobs and none is about to work, there is little to keep. -/
theorem of_still (staff : c.Staffed (Origin.Serves n)) (tidy : (graph c.world).Tidy) (nobody : ∀ k numbers, ¬c.Awaits k numbers)
    (none : ∀ j method, ¬c.Pending j method) (going : ∀ k h, c.hand? k = some h → h.station = .running → h.stopped = false) :
    c.Charted n graph where
  staff := staff
  tidy := tidy
  lacks j method pending := absurd pending (none j method)
  apart i _ a _ pending := absurd pending (none i a)
  awaited j method pending := absurd pending (none j method)
  owners k numbers awaits := absurd awaits (nobody k numbers)
  spent k numbers awaits := absurd awaits (nobody k numbers)
  going := going

/-- One hand moves that waits for no jobs, neither before nor after. -/
theorem moves (charted : c.Charted n graph) (moved : Moved k f c c') (staff : c'.Staffed (Origin.Serves n))
    (apart : ∀ numbers, ¬c.Awaits k numbers) (apart' : ∀ numbers, ¬c'.Awaits k numbers)
    (pends : ∀ j method, k = .job j → c'.Pending j method → c.Live graph j method ∧ (graph c'.world).Lacks method.id)
    (fails : ∀ j, k = .job j → c'.Failed j → c.Doomed j)
    (going : ∀ h, c'.hand? k = some h → h.station = .running → h.stopped = false)
    (owner : ∀ i numbers, i ≠ k → c.Awaits i numbers → c'.owner n = some i) (tidy : (graph c'.world).Tidy)
    (lacks : ∀ j method, Who.job j ≠ k → c.Pending j method → (graph c'.world).Lacks method.id) : c'.Charted n graph := by
  have pending : ∀ {j method}, Who.job j ≠ k → c'.Pending j method → c.Pending j method :=
    fun other => (pending_iff_of_others moved other).mp
  have awaits : ∀ {i numbers}, c'.Awaits i numbers → i ≠ k ∧ c.Awaits i numbers := by
    intro i numbers is
    have other : i ≠ k := by
      rintro rfl
      exact apart' numbers is
    exact ⟨other, (awaits_iff_of_others moved other).mp is⟩
  have keeps : ∀ {i numbers}, c.Awaits i numbers → c'.Awaits i numbers := by
    intro i numbers was
    refine (awaits_iff_of_others moved ?_).mpr was
    rintro rfl
    exact apart numbers was
  refine ⟨staff, tidy, fun j method is => ?_, fun i j a b first second distinct => ?_, fun j method is => ?_, fun i numbers is => ?_,
    fun i numbers is cut j inside method is' => ?_, fun i h found runs => ?_⟩
  · by_cases own : Who.job j = k
    · exact (pends j method own.symm is).2
    · exact lacks j method own (pending own is)
  · by_cases own : Who.job i = k
    · have other : Who.job j ≠ k := by
        rintro rfl
        exact distinct (Who.job.inj own)
      exact ((pends i a own.symm first).1.apart j b (pending other second) (Ne.symm distinct)).2
    · by_cases own' : Who.job j = k
      · exact ((pends j b own'.symm second).1.apart i a (pending own first) distinct).1
      · exact charted.apart i j a b (pending own first) (pending own' second) distinct
  · by_cases own : Who.job j = k
    · obtain ⟨i, numbers, waits, inside, _⟩ := (pends j method own.symm is).1.awaited
      exact ⟨i, numbers, keeps waits, inside⟩
    · obtain ⟨i, numbers, waits, inside⟩ := charted.awaited j method (pending own is)
      exact ⟨i, numbers, keeps waits, inside⟩
  · exact owner i numbers (awaits is).1 (awaits is).2
  · obtain ⟨other, was⟩ := awaits is
    have uncut : ¬c.Cut i numbers := by
      by_cases own : Who.job j = k
      · obtain ⟨i', numbers', was', inside', uncut⟩ := (pends j method own.symm is').1.awaited
        obtain ⟨rfl, rfl⟩ := charted.alone was was'
        exact uncut
      · exact fun cut => charted.spent i numbers was cut j inside method (pending own is')
    rcases cut with ⟨h, found, stopped⟩ | ⟨l, member, failed⟩
    · exact uncut (.inl ⟨h, (moved.others i other).symm.trans found, stopped⟩)
    · by_cases own : Who.job l = k
      · have done := fails l own.symm failed i numbers was member j inside method
        by_cases own' : Who.job j = k
        · cases own.trans own'.symm
          exact is'.not_failed failed
        · exact done (pending own' is')
      · exact uncut (.inr ⟨l, member, (failed_iff_of_others moved own).mp failed⟩)
  · by_cases own : i = k
    · exact going h (own ▸ found) runs
    · exact charted.going i h ((moved.others i own).symm.trans found) runs

/-- Somebody moves who has nothing to do with descriptions. -/
theorem plain (charted : c.Charted n graph) (isPlain : c.Plain k) (moved : Moved k f c c') (origin : ∀ h, (f h).origin = h.origin)
    (staff : c'.Staffed (Origin.Serves n)) (apart : ∀ numbers, ¬c.Awaits k numbers) (apart' : ∀ numbers, ¬c'.Awaits k numbers)
    (going : ∀ h, c'.hand? k = some h → h.station = .running → h.stopped = false)
    (owner : ∀ i numbers, i ≠ k → c.Awaits i numbers → c'.owner n = some i) (tidy : (graph c'.world).Tidy)
    (lacks : ∀ j method, c.Pending j method → (graph c'.world).Lacks method.id) : c'.Charted n graph ∧ c'.Plain k := by
  have same : ∀ h', c'.hand? k = some h' → ∃ h, c.hand? k = some h ∧ h'.origin = h.origin := by
    intro h' found
    obtain ⟨h, at_k, rfl⟩ := Option.map_eq_some_iff.mp (moved.own.symm.trans found)
    exact ⟨h, at_k, origin h⟩
  have isPlain' : c'.Plain k := by
    intro h' e method found describes
    obtain ⟨h, at_k, own⟩ := same h' found
    exact isPlain h e method at_k (own.symm.trans describes)
  refine ⟨charted.moves moved staff apart apart' ?_ ?_ going owner tidy fun j method _ => lacks j method, isPlain'⟩
  · rintro j method rfl ⟨h, e, found, describes, _⟩
    exact absurd describes (isPlain' h e method found)
  · rintro j rfl ⟨h, e, method, found, describes, _⟩
    exact absurd describes (isPlain' h e method found)

theorem owned (charted : c.Charted n graph) (owner : c'.owner n = c.owner n) :
    ∀ i numbers, i ≠ k → c.Awaits i numbers → c'.owner n = some i :=
  fun i numbers _ awaits => owner.trans (charted.owners i numbers awaits)

end Charted

/-- A hand stands where it waits for no jobs. -/
theorem not_awaits_of {h : Hand} (found : c.hand? k = some h) (other : ∀ numbers resume, h.station ≠ .waiting (.members numbers) resume)
    (numbers : List Nat) : ¬c.Awaits k numbers := by
  rintro ⟨h', resume, found', waiting⟩
  cases Option.some.inj (found.symm.trans found')
  exact other numbers resume waiting

theorem Moved.not_awaits (moved : Moved k f c c') (other : ∀ h numbers resume, (f h).station ≠ .waiting (.members numbers) resume)
    (numbers : List Nat) : ¬c'.Awaits k numbers := by
  rintro ⟨h', resume, found', waiting⟩
  obtain ⟨h, _, rfl⟩ := Option.map_eq_some_iff.mp (moved.own.symm.trans found')
  exact other h numbers resume waiting

end Crew

/-- The language model is to describe something. -/
def Ask.prompts : Ask → Prop
  | .requestCompletion .. | .complete .. => True
  | _ => False

/-- Nobody is added or stopped. -/
def Control.lone : Control → Prop
  | .spawn _ | .dispatch _ | .cancel _ | .gather .. => False
  | _ => True

/-- The rules under which methods are described. Only a job that describes a method without a description asks the
language model. -/
def Crew.charting (ω : Type) (m : Memory) (n : Nat) (graph : ω → Graph) : Rules ω where
  known c := c.Recorded m ∧ c.Regular ∧ c.Single
  inv := Crew.Charted n graph
  may k question c := question.prompts → ∃ j h e method, k = .job j ∧ c.hand? k = some h ∧ h.origin = .job (.describe e method) ∧
    question.About method ∧ (graph c.world).Lacks method.id

section Plain

open Crew

variable {w : World ω} {m : Memory} {n : Nat} {graph : ω → Graph} {k : Who} {c c' d : Crew ω}

/-- What somebody carries out stays the same while they wait. -/
theorem Crew.Plain.since {h : Hand} (isPlain : d.Plain k) (since : Since k d c) (there : d.hand? k = some h) : c.Plain k := by
  intro h' e method found describes
  obtain ⟨h'', found', origin, _⟩ := since.hands k h there
  cases Option.some.inj (found.symm.trans found')
  exact isPlain h e method there (origin.symm.trans describes)

/-- Somebody goes on who waited for something else than jobs. -/
theorem Crew.Charted.resumes {h : Hand} (charted : c.Charted n graph) (isPlain : c.Plain k) (found : c.hand? k = some h)
    (other : ∀ numbers resume, h.station ≠ .waiting (.members numbers) resume) (moved : Moved k Hand.resumed c c')
    (staff : c'.Staffed (Origin.Serves n)) (owner : c'.owner n = c.owner n) (world : graph c'.world = graph c.world) :
    c'.Charted n graph ∧ c'.Plain k := by
  refine charted.plain isPlain moved (fun _ => rfl) staff (not_awaits_of found other) (moved.not_awaits (by rintro _ _ _ ⟨⟩)) ?_
    (charted.owned owner) (world ▸ charted.tidy) (world ▸ charted.lacks)
  intro h' found' _
  obtain ⟨_, _, rfl⟩ := Option.map_eq_some_iff.mp (moved.own.symm.trans found')
  rfl

/-- Something is stored by somebody who has nothing to do with descriptions. -/
theorem Crew.Charted.stored {m' : Memory} (charted : c.Charted n graph) (isPlain : c.Plain k) (on : c.OnTurn m k)
    (on' : (c.store k m').OnTurn m k) (owner : ∀ i numbers, i ≠ k → c.Awaits i numbers → (c.store k m').owner n = some i) :
    (c.store k m').Charted n graph ∧ (c.store k m').Plain k := by
  have going : ∀ h, (c.store k m').hand? k = some h → h.station = .running → h.stopped = false :=
    fun h found => charted.going k h (by cases k <;> exact found)
  exact charted.plain isPlain (.store k m' c) (fun _ => rfl) (charted.staff.store k m') on.not_awaits on'.not_awaits going owner
    charted.tidy charted.lacks

/-- A question is answered on the spot. -/
theorem Crew.Charted.exchanged {question : Ask} {r : Reaction ω question} (charted : c.Charted n graph) (isPlain : c.Plain k)
    (on : c.OnTurn m k) (on' : (c.exchange k question r).OnTurn m k) (tidy : (graph r.world).Tidy)
    (lacks : ∀ j method, c.Pending j method → (graph r.world).Lacks method.id) :
    (c.exchange k question r).Charted n graph ∧ (c.exchange k question r).Plain k := by
  have owner : (c.exchange k question r).owner n = c.owner n :=
    (Recorded.owner_snoc (c.note k (.asks question)) ..).trans (Recorded.owner_snoc ..)
  have going : ∀ h, (c.exchange k question r).hand? k = some h → h.station = .running → h.stopped = false :=
    fun h found => charted.going k h (by cases k <;> exact found)
  exact charted.plain isPlain (.exchange k question r c) (fun _ => rfl) (charted.staff.exchange k question r) on.not_awaits
    on'.not_awaits going (charted.owned owner) tidy lacks

/-- Whoever moves away from a turn is not on turn any more. -/
theorem Crew.Moved.off {f : Hand → Hand} (moved : Moved k f c c') (rests : ∀ h, (f h).station ≠ .running) :
    ∀ h, c'.hand? k = some h → h.station = .running → h.stopped = false := by
  intro h found runs
  obtain ⟨old, _, rfl⟩ := Option.map_eq_some_iff.mp (moved.own.symm.trans found)
  exact absurd runs (rests old)

/-- A question is asked, and its answer waited for. -/
theorem Crew.Charted.asked {question : Ask} {r : Reaction ω question} (charted : c.Charted n graph) (isPlain : c.Plain k)
    (on : c.OnTurn m k) (next : Except Fault question.Reply → Routine Yield) (tidy : (graph r.world).Tidy)
    (lacks : ∀ j method, c.Pending j method → (graph r.world).Lacks method.id) :
    (c.ask k question r next).Charted n graph ∧ (c.ask k question r next).Plain k := by
  have moved := Moved.ask k question r next c
  have owner : (c.ask k question r next).owner n = c.owner n := Recorded.owner_snoc ..
  exact charted.plain isPlain moved (fun _ => rfl) (charted.staff.ask k question r next) on.not_awaits
    (moved.not_awaits (by rintro _ _ _ ⟨⟩)) (moved.off fun _ => nofun) (charted.owned owner) tidy lacks

/-- Permits are taken or given back. -/
theorem Crew.Charted.permitted {f : Permits → Permits} (charted : c.Charted n graph) (isPlain : c.Plain k) (on : c.OnTurn m k)
    (on' : (c.onGroup k f).OnTurn m k) : (c.onGroup k f).Charted n graph ∧ (c.onGroup k f).Plain k := by
  have going : ∀ h, (c.onGroup k f).hand? k = some h → h.station = .running → h.stopped = false :=
    fun h found => charted.going k h ((c.hand?_onGroup k f k).symm.trans found)
  have owner : (c.onGroup k f).owner n = c.owner n := by rw [owner, owner, c.onGroup_log]
  have world : graph (c.onGroup k f).world = graph c.world := by rw [c.onGroup_world]
  exact charted.plain isPlain (.onGroup k f c) (fun _ => rfl) (charted.staff.onGroup k f) on.not_awaits on'.not_awaits
    going (charted.owned owner) (world ▸ charted.tidy) (world ▸ charted.lacks)

/-- Something else than jobs is waited for. -/
theorem Crew.Charted.rested {await : Await} (charted : c.Charted n graph) (isPlain : c.Plain k) (on : c.OnTurn m k)
    (resume : Waited → Routine Yield) (other : ∀ numbers, await ≠ .members numbers) :
    (c.rest k await resume).Charted n graph ∧ (c.rest k await resume).Plain k := by
  have moved := Moved.rest k await resume c
  have standing : ∀ h numbers next, (Hand.moved (.waiting await resume) h).station ≠ .waiting (.members numbers) next := by
    rintro _ numbers _ ⟨⟩
    exact other numbers rfl
  exact charted.plain isPlain moved (fun _ => rfl) (charted.staff.rest k await resume) on.not_awaits (moved.not_awaits standing)
    (moved.off fun _ => nofun) (charted.owned rfl) charted.tidy charted.lacks

/-- What is kept of the descriptions by those who have nothing to do with them. -/
theorem Crew.Charted.besides (w : World ω) (m : Memory) (n : Nat) (graph : ω → Graph) (k : Who) {r : Remit} {holds : Crew ω → Prop}
    (on : ∀ {c}, holds c → c.OnTurn m k) (prompts : ∀ question, r.asks question → ¬question.prompts)
    (answers : ∀ {c : Crew ω} {question}, holds c → c.Charted n graph → r.asks question →
      (graph (c.reaction w question).world).Tidy ∧
        ∀ j method, c.Pending j method → (graph (c.reaction w question).world).Lacks method.id)
    (writes : ∀ m m', r.writes m m' → (m'.coordinator n).run = (m.coordinator n).run)
    (requests : ∀ request, r.requests request → request.lone) :
    Besides w (charting ω m n graph) k r holds fun c => c.Charted n graph ∧ c.Plain k where
  may _ _ allowed asks := absurd asks (prompts _ allowed)
  store := by
    rintro c m' own ⟨charted, isPlain⟩ allowed _ own'
    have after := charted.stored isPlain (on own) (on own') (charted.owned (owner_store_same (writes _ _ allowed)))
    exact ⟨after.1, after⟩
  exchange := by
    rintro c question own ⟨charted, isPlain⟩ allowed _ _ own'
    obtain ⟨tidy, lacks⟩ := answers own charted allowed
    have after := charted.exchanged isPlain (on own) (on own') tidy lacks
    exact ⟨after.1, after⟩
  ask := by
    rintro c question rest own ⟨charted, isPlain⟩ allowed _ _
    obtain ⟨tidy, lacks⟩ := answers own charted allowed
    have after := charted.asked isPlain (on own) rest tidy lacks
    refine ⟨after.1, fun c' h _ charted' _ since found asking _ _ => ?_⟩
    obtain ⟨h₀, there, _⟩ := (on own).running
    have asked : (c.ask k question (c.reaction w question) rest).hand? k = some _ :=
      (Moved.ask k question (c.reaction w question) rest c).own.trans (congrArg _ there)
    have owner' : (c'.hear k question (h.heard (c.reaction w question).reply)).owner n = c'.owner n := Recorded.owner_snoc ..
    have heard := charted'.resumes (after.2.since since asked) found (by simp [asking]) (.hear k question _ c')
      (charted'.staff.hear k question (h.heard (c.reaction w question).reply)) owner' rfl
    exact ⟨heard.1, heard⟩
  grant := by
    rintro c request reply c' own ⟨charted, isPlain⟩ allowed granted _ own'
    cases request with
    | now | hasLoop | ended | join | shield | joinWorker => obtain ⟨_, rfl⟩ := granted; exact ⟨charted, charted, isPlain⟩
    | pause => exact granted.elim
    | takePermit =>
      obtain ⟨_, _, rfl⟩ := granted
      have after := charted.permitted isPlain (on own) (on own')
      exact ⟨after.1, after⟩
    | givePermit =>
      obtain ⟨_, rfl⟩ := granted
      have after := charted.permitted isPlain (on own) (on own')
      exact ⟨after.1, after⟩
    | _ => exact (requests _ allowed).elim
  wait := by
    rintro c request await read c' rest own ⟨charted, isPlain⟩ allowed waits _
    have lone : ∀ permits jobs, request ≠ .gather permits jobs := by
      rintro permits jobs rfl
      exact requests _ allowed
    obtain ⟨rfl, other⟩ := waits.alone lone
    have after := charted.rested isPlain (on own) rest other
    refine ⟨after.1, fun d h waited d' _ charted' _ since found waiting wakes _ _ => ?_⟩
    obtain ⟨h₀, there, _⟩ := (on own).running
    have laid : (c'.rest k await rest).hand? k = some _ := (Moved.rest k await rest c').own.trans (congrArg _ there)
    have owner : (d'.goOn k).owner n = d.owner n := congrArg (Log.ownerFrom n none) wakes.noted.2
    have world : graph (d'.goOn k).world = graph d.world := congrArg graph wakes.world
    have woken := charted'.resumes (after.2.since since laid) found
      (fun numbers resume members => other numbers (Station.waiting.inj (waiting.symm.trans members)).1) (.after_waking wakes)
      ((charted'.staff.woken wakes).goOn k) owner world
    exact ⟨woken.1, woken⟩

end Plain

end CodeAtlas
