import CodeAtlas.Proofs.Crew.Remit
import CodeAtlas.Proofs.Crew.Solo
import CodeAtlas.Proofs.Ingestion.Owner
import CodeAtlas.Proofs.Turns.Charter

namespace CodeAtlas

variable {ω : Type} {ch : Charter}

namespace Deed

/-- What is asked is allowed. -/
def Lawful (ch : Charter) : Deed → Prop
  | .asks question => ch.asks question
  | _ => True

/-- What is left in the memory is not yet as the charter has it. -/
def Early (ch : Charter) : Deed → Prop
  | .stores _ after => ¬ch.keeps after
  | _ => True

end Deed

namespace Crew

/-- The first caller has left a memory that is as the charter has it. -/
def Founded (ch : Charter) (c : Crew ω) : Prop :=
  ∃ time before after, (time, .caller 0, .stores before after) ∈ c.log ∧ ch.keeps after

/-- Only what is allowed was asked, and the memory is as the charter has it once it was left so. Until then the
first caller is alone. -/
structure Chartered (ch : Charter) (c : Crew ω) : Prop where
  asked : ∀ noted ∈ c.log, noted.2.2.Lawful ch
  kept : c.Founded ch → ch.keeps c.memory
  alone : ¬c.Founded ch → c.jobs = [] ∧ ∀ noted ∈ c.log, noted.2.1 = .caller 0

/-- The rules under a charter. -/
def charter (ω : Type) (ch : Charter) (m : Memory) : Rules ω where
  known c := c.Recorded m ∧ c.Solo ∧ ∀ k h, c.hand? k = some h → h.origin.Fits k
  inv := Chartered ch
  may _ question _ := ch.asks question

/-- The memory is as the charter has it, and stays so. -/
structure Holds (ch : Charter) (c : Crew ω) : Prop where
  founded : c.Founded ch
  chartered : c.Chartered ch

/-- The memory was never as the charter has it, and something else holds of it. -/
structure Lone (ch : Charter) (seen : Memory → Prop) (c : Crew ω) : Prop where
  unfounded : ¬c.Founded ch
  chartered : c.Chartered ch
  seen : seen c.memory

variable {c c' d : Crew ω} {k : Who} {m : Memory} {new : List Noted}

theorem Founded.grown (founded : c.Founded ch) (log : c'.log = c.log ++ new) : c'.Founded ch := by
  obtain ⟨time, before, after, noted, kept⟩ := founded
  exact ⟨time, before, after, log ▸ List.mem_append_left _ noted, kept⟩

theorem Chartered.asked_grown (chartered : c.Chartered ch) (log : c'.log = c.log ++ new)
    (lawful : ∀ noted ∈ new, noted.2.2.Lawful ch) : ∀ noted ∈ c'.log, noted.2.2.Lawful ch := by
  rw [log]
  exact List.forall_mem_append.mpr ⟨chartered.asked, lawful⟩

namespace Holds

theorem keeps (holds : c.Holds ch) : ch.keeps c.memory := holds.chartered.kept holds.founded

theorem grown (holds : c.Holds ch) (log : c'.log = c.log ++ new) (lawful : ∀ noted ∈ new, noted.2.2.Lawful ch)
    (keeps : ch.keeps c'.memory) : c'.Holds ch := by
  have founded := holds.founded.grown log
  exact ⟨founded, ⟨holds.chartered.asked_grown log lawful, fun _ => keeps, fun not => absurd founded not⟩⟩

theorem noted (holds : c.Holds ch) {noted : Noted} (log : c'.log = c.log ++ [noted]) (lawful : noted.2.2.Lawful ch)
    (keeps : ch.keeps c'.memory) : c'.Holds ch :=
  holds.grown log (List.forall_mem_singleton.mpr lawful) keeps

theorem same (holds : c.Holds ch) (memory : c'.memory = c.memory) (log : c'.log = c.log) : c'.Holds ch :=
  holds.grown (log.trans (List.append_nil _).symm) (List.forall_mem_nil _) (memory ▸ holds.keeps)

theorem since (holds : d.Holds ch) (since : Since k d c) (chartered : c.Chartered ch) : c.Holds ch := by
  obtain ⟨new, log, _⟩ := since.log
  exact ⟨holds.founded.grown log, chartered⟩

/-- Whoever has a job works on a memory that is as the charter has it. -/
theorem of_job (chartered : c.Chartered ch) {j : Nat} {h : Hand} (found : c.hand? (.job j) = some h) : c.Holds ch := by
  refine ⟨Classical.byContradiction fun unfounded => ?_, chartered⟩
  rw [hand?, (chartered.alone unfounded).1] at found
  cases found

end Holds

namespace Lone

variable {seen seen' : Memory → Prop}

theorem grown (lone : c.Lone ch seen) (log : c'.log = c.log ++ new)
    (early : ∀ noted ∈ new, noted.2.1 = .caller 0 ∧ noted.2.2.Lawful ch ∧ noted.2.2.Early ch)
    (jobs : c'.jobs = c.jobs) (after : seen' c'.memory) : c'.Lone ch seen' := by
  have unfounded : ¬c'.Founded ch := by
    rintro ⟨time, before, after, noted, kept⟩
    rw [log, List.mem_append] at noted
    rcases noted with old | added
    · exact lone.unfounded ⟨time, before, after, old, kept⟩
    · exact (early _ added).2.2 kept
  have asked := lone.chartered.asked_grown log fun noted added => (early noted added).2.1
  refine ⟨unfounded, ⟨asked, fun founded => absurd founded unfounded, fun _ => ?_⟩, after⟩
  obtain ⟨nobody, own⟩ := lone.chartered.alone lone.unfounded
  refine ⟨jobs.trans nobody, ?_⟩
  rw [log]
  exact List.forall_mem_append.mpr ⟨own, fun noted added => (early noted added).1⟩

theorem noted (lone : c.Lone ch seen) {time : Float} {deed : Deed} (log : c'.log = c.log ++ [(time, .caller 0, deed)])
    (lawful : deed.Lawful ch) (early : deed.Early ch) (jobs : c'.jobs = c.jobs) (after : seen' c'.memory) : c'.Lone ch seen' :=
  lone.grown log (List.forall_mem_singleton.mpr ⟨rfl, lawful, early⟩) jobs after

theorem exchange {question : Ask} (lone : c.Lone ch seen) (allowed : ch.asks question) (r : Reaction ω question) :
    (c.exchange (.caller 0) question r).Lone ch seen := by
  have asked : (c.note (.caller 0) (.asks question)).Lone ch seen := lone.noted rfl allowed trivial rfl lone.seen
  exact asked.noted rfl trivial trivial rfl lone.seen

theorem ask {question : Ask} (lone : c.Lone ch seen) (allowed : ch.asks question) (r : Reaction ω question)
    (next : Except Fault question.Reply → Routine Yield) : (c.ask (.caller 0) question r next).Lone ch seen :=
  lone.noted rfl allowed trivial rfl lone.seen

theorem hear (lone : c.Lone ch seen) (question : Ask) (reply : Except Fault question.Reply) :
    (c.hear (.caller 0) question reply).Lone ch seen :=
  lone.noted rfl trivial trivial rfl lone.seen

/-- While the caller waits nothing is done, as nobody else is there. -/
theorem since (lone : d.Lone ch seen) (before : d.Recorded m) (since : Since (.caller 0) d c) (recorded : c.Recorded m)
    (chartered : c.Chartered ch) : c.Lone ch seen := by
  obtain ⟨new, log, others⟩ := since.log
  have unfounded : ¬c.Founded ch := by
    rintro ⟨time, old, after, noted, kept⟩
    rw [log, List.mem_append] at noted
    rcases noted with earlier | added
    · exact lone.unfounded ⟨time, old, after, earlier, kept⟩
    · exact others _ added rfl
  have none_new : new = [] := by
    refine List.eq_nil_iff_forall_not_mem.mpr fun noted added => others noted added ?_
    exact (chartered.alone unfounded).2 noted (log ▸ List.mem_append_right _ added)
  have same : c.memory = d.memory := by rw [recorded.memory, before.memory, log, none_new, List.append_nil]
  exact ⟨unfounded, chartered, same ▸ lone.seen⟩

end Lone

end Crew

/-- What one does under a charter. -/
def Charter.remit (ch : Charter) : Remit where
  asks := ch.asks
  writes m m' := ch.keeps m → ch.keeps m'
  requests := ch.requests
  finds := ch.keeps
  leaves found writes := writes found

open Crew

section Held

variable {w : World ω} {m : Memory} {k : Who} {α : Type} {p : Routine α} {c : Crew ω}

theorem Routine.Abides.minds (abides : p.Abides ch) : p.Minds ch.remit := by
  intro m found
  induction p generalizing m with
  | done => trivial
  | look next ih => exact ih m (abides m found) m found
  | store m' next ih => exact ⟨fun _ => abides.1, ih abides.2 m' abides.1⟩
  | ask question next ih => exact ⟨abides.1, fun reply m' found' => ih reply (abides.2 reply) m' found'⟩
  | control request next ih => exact ⟨abides.1, fun reply m' found' => ih reply (abides.2 reply) m' found'⟩

theorem Charter.upkeep (w : World ω) (ch : Charter) (m : Memory) (k : Who) :
    Upkeep w (charter ω ch m) k ch.remit (Holds ch) where
  finds holds := holds.keeps
  may _ allowed := allowed
  store := by
    intro c m' holds keeps _
    have holds' : (c.store k m').Holds ch := holds.noted rfl trivial (keeps holds.keeps)
    exact ⟨holds'.chartered, holds'⟩
  exchange := by
    intro c question holds allowed _ _
    have asked : (c.note k (.asks question)).Holds ch := holds.noted rfl allowed holds.keeps
    have holds' : (c.exchange k question (c.reaction w question)).Holds ch := asked.noted rfl trivial holds.keeps
    exact ⟨holds'.chartered, holds'⟩
  ask := by
    intro c question rest holds allowed _ _
    have holds' : (c.ask k question (c.reaction w question) rest).Holds ch := holds.noted rfl allowed holds.keeps
    refine ⟨holds'.chartered, fun c' h _ chartered _ since _ _ _ => ?_⟩
    have later := holds'.since since chartered
    have heard : (c'.hear k question (h.heard (c.reaction w question).reply)).Holds ch := later.noted rfl trivial later.keeps
    exact ⟨heard.chartered, heard⟩
  grant := by
    intro c request reply c' holds _ granted _
    have holds' : c'.Holds ch := by
      rcases granted.noted with ⟨memory, log⟩ | ⟨job, rfl⟩
      · exact holds.same memory log
      · exact holds.noted rfl trivial holds.keeps
    exact ⟨holds'.chartered, holds'⟩
  wait := by
    intro c request await read c' rest holds _ waits _
    have holds' : (c'.rest k await rest).Holds ch := holds.same waits.noted.1 waits.noted.2
    refine ⟨holds'.chartered, fun d h waited d' _ chartered _ since _ _ wakes _ => ?_⟩
    have woken : (d'.goOn k).Holds ch := (holds'.since since chartered).same wakes.noted.1 wakes.noted.2
    exact ⟨woken.chartered, woken⟩

theorem Routine.Minds.held (minds : p.Minds ch.remit) (holds : c.Holds ch) :
    p.Keeps w (charter ω ch m) k (fun _ c' => c'.Holds ch) c :=
  minds.keeps (Charter.upkeep w ch m k) holds

end Held

section Lone

variable {w : World ω} {m : Memory} {c : Crew ω} {seen seen' : Memory → Prop}

/-- The caller changes the memory, which is not yet as the charter has it. -/
theorem Crew.Lone.change {f : Memory → Memory} (lone : c.Lone ch seen)
    (goesOn : ∀ m, seen m → ¬ch.keeps (f m) ∧ seen' (f m)) :
    (Routine.change f).Keeps w (charter ω ch m) (.caller 0) (fun _ c' => c'.Lone ch seen') c := by
  intro _
  obtain ⟨unkept, after⟩ := goesOn c.memory lone.seen
  have lone' : (c.store (.caller 0) (f c.memory)).Lone ch seen' := lone.noted rfl trivial unkept rfl after
  exact ⟨lone'.chartered, lone'⟩

/-- The caller leaves the memory as the charter has it. -/
theorem Crew.Lone.found {f : Memory → Memory} (lone : c.Lone ch seen) (keeps : ∀ m, seen m → ch.keeps (f m)) :
    (Routine.change f).Keeps w (charter ω ch m) (.caller 0) (fun _ c' => c'.Holds ch) c := by
  intro _
  have kept := keeps c.memory lone.seen
  have founded : (c.store (.caller 0) (f c.memory)).Founded ch :=
    ⟨c.clock, c.memory, f c.memory, List.mem_append_right _ (List.mem_singleton_self _), kept⟩
  have chartered : (c.store (.caller 0) (f c.memory)).Chartered ch :=
    ⟨lone.chartered.asked_grown rfl (List.forall_mem_singleton.mpr trivial), fun _ => kept, fun not => absurd founded not⟩
  exact ⟨chartered, founded, chartered⟩

/-- The caller asks something. What surrounds it answers, or the caller is stopped. -/
theorem Crew.Lone.query {question : Ask} (lone : c.Lone ch seen) (allowed : ch.asks question) :
    (Routine.query question).Keeps w (charter ω ch m) (.caller 0)
      (fun reply c' => ((∃ time world, reply = (w.answer question time world).reply) ∨ reply = .error .cancelled) ∧
        c'.Lone ch seen) c := by
  refine ⟨allowed, fun _ _ => ?_, fun _ rest known => ?_⟩
  · have exchanged := lone.exchange allowed (c.reaction w question)
    exact ⟨exchanged.chartered, .inl ⟨_, _, rfl⟩, exchanged⟩
  · have asked := lone.ask allowed (c.reaction w question) rest
    refine ⟨asked.chartered, fun c' h known' chartered _ since _ _ _ => ?_⟩
    have heard := (asked.since known.1 since known'.1 chartered).hear question (h.heard (c.reaction w question).reply)
    refine ⟨heard.chartered, ?_, heard⟩
    unfold Hand.heard
    split
    · exact .inr rfl
    · exact .inl ⟨_, _, rfl⟩

/-- What a caller may do who is alone. -/
def Charter.early (ch : Charter) (seen : Memory → Prop) : Remit where
  asks := ch.asks
  writes m m' := seen m → ¬ch.keeps m' ∧ seen m'
  requests _ := False
  finds := seen
  leaves found writes := (writes found).2

theorem Charter.early_upkeep (w : World ω) (ch : Charter) (m : Memory) (seen : Memory → Prop) :
    Upkeep w (charter ω ch m) (.caller 0) (ch.early seen) (Lone ch seen) where
  finds lone := lone.seen
  may _ allowed := allowed
  store := by
    intro c m' lone writes _
    obtain ⟨unkept, after⟩ := writes lone.seen
    have lone' : (c.store (.caller 0) m').Lone ch seen := lone.noted rfl trivial unkept rfl after
    exact ⟨lone'.chartered, lone'⟩
  exchange := by
    intro c question lone allowed _ _
    have exchanged := lone.exchange allowed (c.reaction w question)
    exact ⟨exchanged.chartered, exchanged⟩
  ask := by
    intro c question rest lone allowed _ known
    have asked := lone.ask allowed (c.reaction w question) rest
    refine ⟨asked.chartered, fun c' h known' chartered _ since _ _ _ => ?_⟩
    have heard := (asked.since known.1 since known'.1 chartered).hear question (h.heard (c.reaction w question).reply)
    exact ⟨heard.chartered, heard⟩
  grant _ requested := requested.elim
  wait _ _ requested := requested.elim

theorem Routine.Minds.lone {α : Type} {p : Routine α} (minds : p.Minds (ch.early seen)) (lone : c.Lone ch seen) :
    p.Keeps w (charter ω ch m) (.caller 0) (fun _ c' => c'.Lone ch seen) c :=
  minds.keeps (Charter.early_upkeep w ch m seen) lone

end Lone

/-- What comes of a caller who leaves the memory as the charter has it, and of all who work with it from then on. -/
theorem Shift.Leads.chartered {w : World ω} {program : Routine Yield} {m : Memory} {world : ω} {hasLoop : Bool} {a : Shift ω}
    (free : ∀ n, (m.coordinator n).run.locked = false) (jobs : ∀ job : Job, job.routine.Minds ch.remit)
    (founds : ∀ c : Crew ω, c.Lone ch (· = m) → program.Keeps w (charter ω ch m) (.caller 0) (fun _ c' => c'.Chartered ch) c)
    (leads : Leads w (Shift.solo program m world hasLoop) a) : a.crew.Chartered ch := by
  have closes : ∀ {k result} {c : Crew ω}, c.Chartered ch → (charter ω ch m).Closes k result c := by
    intro k result c chartered _
    refine ⟨⟨chartered.asked, chartered.kept, fun unfounded => ?_⟩, trivial⟩
    obtain ⟨nobody, own⟩ := chartered.alone unfounded
    refine ⟨?_, own⟩
    cases k with
    | job j => simp [Crew.close, onHand, nobody]
    | caller j => exact nobody
  have guards : (charter ω ch m).Guards w (· = program) := by
    refine ⟨⟨?call, ?drop, ?begin⟩, ?pass⟩
    case call => exact fun known _ _ known' => absurd known'.2.1 (known.2.1.not_call _)
    case pass => exact fun _ chartered => ⟨chartered.asked, chartered.kept, chartered.alone⟩
    case drop => exact fun _ chartered _ _ _ _ => closes chartered
    case begin =>
      intro c k h known chartered _ found fresh _ _ _
      cases k with
      | caller i => exact absurd fresh (known.2.1.begun found)
      | job j =>
        have before := Holds.of_job chartered found
        have holds : (c.begin (.job j) h.origin).Holds ch := before.noted rfl trivial before.keeps
        refine ⟨holds.chartered, ?_⟩
        have works : h.origin.routine.Minds ch.remit := by
          cases origin : h.origin with
          | job job => exact jobs job
          | caller program => exact absurd (known.2.2 _ h found) (by simp [origin, Origin.Fits])
        exact (works.held holds).imp fun _ _ holds => closes holds.chartered
  have start : Crew.Lone ch (· = m) (Shift.solo program m world hasLoop).crew := by
    have unfounded : ¬(Shift.solo program m world hasLoop).crew.Founded ch := by
      rintro ⟨time, before, after, noted, _⟩
      cases List.mem_singleton.mp noted
    exact ⟨unfounded, ⟨List.forall_mem_singleton.mpr trivial, fun founded => absurd founded unfounded,
      fun _ => ⟨rfl, List.forall_mem_singleton.mpr rfl⟩⟩, rfl⟩
  have known : ∀ {a}, Leads w (Shift.solo program m world hasLoop) a → (charter ω ch m).known a.crew :=
    fun leads => ⟨leads.reach.recorded free, leads.solo, leads.reach.knows.fits⟩
  exact (leads.sound guards known start.chartered ((founds _ start).imp fun _ _ => closes)).holds

end CodeAtlas
