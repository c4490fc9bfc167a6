import CodeAtlas.Proofs.Ingestion.Charted
import CodeAtlas.Proofs.Ingestion.Civil

namespace CodeAtlas

variable {ω : Type}

/-- What may change the graph. -/
def Ask.alters : Ask → Prop
  | .query statement _ => statement = .createDescription ∨ statement.builds
  | _ => False

/-- Surroundings with a graph that statements read and change as they say, at once and whole if at all. What is asked to
describe a method fails by ordinary faults alone. -/
structure World.Stores (w : World ω) (graph : ω → Graph) : Prop where
  inline : ∀ statement parameters clock world, ¬0 < (w.answer (.query statement parameters) clock world).delay
  civil : ∀ (question : Ask) clock world, question.describes → question.Civil (w.answer question clock world).reply
  lists : ∀ parameters clock world table,
    (w.answer (.query .undescribedMethods parameters) clock world).reply = .ok table → (graph world).Lists table
  describes : ∀ parameters clock world,
    graph (w.answer (.query .createDescription parameters) clock world).world = (graph world).describe parameters ∨
      graph (w.answer (.query .createDescription parameters) clock world).world = graph world ∧
        ∃ fault, (w.answer (.query .createDescription parameters) clock world).reply = .error fault
  builds : ∀ statement parameters clock world, statement.builds →
    graph (w.answer (.query statement parameters) clock world).world =
        (graph world).writeAll (statement.writes (sentRows parameters)) ∨
      graph (w.answer (.query statement parameters) clock world).world = graph world ∧
        ∃ fault, (w.answer (.query statement parameters) clock world).reply = .error fault
  keeps : ∀ (question : Ask) clock world, ¬question.alters → graph (w.answer question clock world).world = graph world

namespace Crew

variable {m : Memory} {n : Nat} {graph : ω → Graph} {j : Nat} {e : Enricher} {method : PendingMethod}
  {c c' : Crew ω} {f : Hand → Hand}

theorem not_failed_of {h : Hand} (found : c.hand? (.job j) = some h) (going : h.stopped = false)
    (notOver : ∀ fault, h.station ≠ .over (.error fault)) : ¬c.Failed j := by
  rintro ⟨h', e, method, found', _, stopped | ⟨fault, isOver⟩⟩
  · cases Option.some.inj (found.symm.trans found')
    cases going.symm.trans stopped
  · cases Option.some.inj (found.symm.trans found')
    exact notOver fault isOver

theorem Live.moved (live : c.Live graph j method) (moved : Moved (.job j) f c c') (world : graph c'.world = graph c.world)
    (apart : ∀ numbers, ¬c.Awaits (.job j) numbers) (well : ¬c'.Failed j) : c'.Live graph j method where
  lacks := world ▸ live.lacks
  apart i other pending distinct := by
    have elsewhere : Who.job i ≠ .job j := fun same => distinct (Who.job.inj same)
    exact live.apart i other ((pending_iff_of_others moved elsewhere).mp pending) distinct
  awaited := by
    obtain ⟨k, numbers, awaits, inside, uncut⟩ := live.awaited
    have elsewhere : k ≠ .job j := by
      rintro rfl
      exact apart numbers awaits
    refine ⟨k, numbers, (awaits_iff_of_others moved elsewhere).mpr awaits, inside, ?_⟩
    rintro (⟨h', found', stopped⟩ | ⟨i, member, failed⟩)
    · exact uncut (.inl ⟨h', (moved.others k elsewhere).symm.trans found', stopped⟩)
    · by_cases own : i = j
      · exact well (own ▸ failed)
      · have other : Who.job i ≠ .job j := fun same => own (Who.job.inj same)
        exact uncut (.inr ⟨i, member, (failed_iff_of_others moved other).mp failed⟩)

theorem Doomed.moved (doomed : c.Doomed j) (moved : Moved (.job j) f c c') (apart : ∀ numbers, ¬c'.Awaits (.job j) numbers)
    (idle : ∀ other, ¬c'.Pending j other) : c'.Doomed j := by
  intro k numbers awaits inside i member other pending
  have elsewhere : k ≠ .job j := by
    rintro rfl
    exact apart numbers awaits
  by_cases own : i = j
  · exact idle other (own ▸ pending)
  · have apart' : Who.job i ≠ .job j := fun same => own (Who.job.inj same)
    exact doomed k numbers ((awaits_iff_of_others moved elsewhere).mp awaits) inside i member other
      ((pending_iff_of_others moved apart').mp pending)

/-- It is the turn of a job that describes a method. -/
structure Describing (m : Memory) (n : Nat) (graph : ω → Graph) (j : Nat) (e : Enricher) (method : PendingMethod)
    (c : Crew ω) : Prop where
  on : c.OnTurn m (.job j)
  charted : c.Charted n graph
  origin : ∀ h, c.hand? (.job j) = some h → h.origin = .job (.describe e method)

namespace Describing

theorem not_failed (describing : c.Describing m n graph j e method) : ¬c.Failed j := by
  obtain ⟨h, found, runs⟩ := describing.on.running
  exact not_failed_of found (describing.charted.going _ h found runs) (by simp [runs])

/-- The job does something and stays on turn. -/
theorem stays (describing : c.Describing m n graph j e method) (moved : Moved (.job j) id c c') (on : c'.OnTurn m (.job j))
    (staff : c'.Staffed (Origin.Serves n)) (owner : c'.owner n = c.owner n) (tidy : (graph c'.world).Tidy)
    (lacks : ∀ i other, i ≠ j → c.Pending i other → (graph c'.world).Lacks other.id) :
    c'.Describing m n graph j e method := by
  have same : ∀ h, c'.hand? (.job j) = some h → c.hand? (.job j) = some h := by
    intro h found
    rw [moved.own, Option.map_id] at found
    exact found
  have origin : ∀ h, c'.hand? (.job j) = some h → h.origin = .job (.describe e method) :=
    fun h found => describing.origin h (same h found)
  have going : ∀ h, c'.hand? (.job j) = some h → h.station = .running → h.stopped = false :=
    fun h found => describing.charted.going _ h (same h found)
  refine ⟨on, ?_, origin⟩
  refine describing.charted.moves moved staff describing.on.not_awaits on.not_awaits ?_ ?_ going
    (describing.charted.owned owner) tidy fun i other elsewhere => lacks i other fun same => elsewhere (same ▸ rfl)
  · rintro _ other ⟨⟩ pending
    exact absurd pending on.not_pending
  · rintro _ ⟨⟩ ⟨h, e', method', found, origin', rest⟩
    exact absurd ⟨h, e', method', same h found, origin', rest⟩ describing.not_failed

/-- The graph stays as it is. -/
theorem keeps (describing : c.Describing m n graph j e method) (moved : Moved (.job j) id c c') (on : c'.OnTurn m (.job j))
    (staff : c'.Staffed (Origin.Serves n)) (owner : c'.owner n = c.owner n) (world : graph c'.world = graph c.world) :
    c'.Describing m n graph j e method :=
  describing.stays moved on staff owner (world ▸ describing.charted.tidy)
    fun i other _ pending => world ▸ describing.charted.lacks i other pending

theorem live (describing : c.Describing m n graph j e method) (live : c.Live graph j method) (moved : Moved (.job j) id c c')
    (after : c'.Describing m n graph j e method) (world : graph c'.world = graph c.world) : c'.Live graph j method :=
  live.moved moved world describing.on.not_awaits after.not_failed

/-- The job goes to wait. -/
theorem rests {station : Station} (describing : c.Describing m n graph j e method) (live : c.Live graph j method)
    (moved : Moved (.job j) (Hand.moved station) c c') (waits : station.Rests)
    (other : ∀ numbers resume, station ≠ .waiting (.members numbers) resume) (staff : c'.Staffed (Origin.Serves n))
    (owner : c'.owner n = c.owner n) (world : graph c'.world = graph c.world) : c'.Charted n graph := by
  have own : ∀ h, c'.hand? (.job j) = some h →
      h.station = station ∧ h.stopped = false ∧ h.origin = .job (.describe e method) := by
    intro h found
    obtain ⟨h₀, there, runs⟩ := describing.on.running
    rw [moved.own, there] at found
    cases found
    exact ⟨rfl, describing.charted.going _ h₀ there runs, describing.origin h₀ there⟩
  refine describing.charted.moves moved staff describing.on.not_awaits (moved.not_awaits fun _ => other) ?_ ?_ ?_
    (describing.charted.owned owner) (world ▸ describing.charted.tidy)
    fun i other _ pending => world ▸ describing.charted.lacks i other pending
  · rintro _ method' ⟨⟩ ⟨h, e', found, origin, _⟩
    cases (own h found).2.2.symm.trans origin
    exact ⟨live, world ▸ live.lacks⟩
  · rintro _ ⟨⟩ ⟨h, e', method', found, _, stopped | ⟨fault, isOver⟩⟩
    · cases (own h found).2.1.symm.trans stopped
    · rw [(own h found).1] at isOver
      simp [isOver, Station.Rests] at waits
  · exact fun h found _ => (own h found).2.1

/-- What the job carries out stays the same while it waits. -/
theorem origin_since {d : Crew ω} {station : Station} {h : Hand} (describing : c.Describing m n graph j e method)
    (moved : Moved (.job j) (Hand.moved station) c c') (since : Since (.job j) c' d) (found : d.hand? (.job j) = some h) :
    h.origin = .job (.describe e method) := by
  obtain ⟨h₀, there, _⟩ := describing.on.running
  obtain ⟨h', found', same, _⟩ := since.hands _ _ (moved.own.trans (congrArg _ there))
  cases Option.some.inj (found.symm.trans found')
  exact same.trans (describing.origin h₀ there)

/-- What the job goes on with after a wait: it was stopped in the meantime, or may describe its method still. -/
theorem returns {h : Hand} (charted : c.Charted n graph) (found : c.hand? (.job j) = some h)
    (origin : h.origin = .job (.describe e method)) (waited : h.station.Rests)
    (other : ∀ numbers resume, h.station ≠ .waiting (.members numbers) resume) (moved : Moved (.job j) f c c')
    (back : f h = h.resumed) (on : c'.OnTurn m (.job j)) (staff : c'.Staffed (Origin.Serves n)) (owner : c'.owner n = c.owner n)
    (world : graph c'.world = graph c.world) : c'.Describing m n graph j e method ∧
      (h.stopped = true ∧ c'.Doomed j ∨ h.stopped = false ∧ c'.Live graph j method) := by
  have apart := not_awaits_of found other
  have resumed : c'.hand? (.job j) = some h.resumed := moved.own.trans ((congrArg _ found).trans (congrArg some back))
  have well : ¬c'.Failed j := not_failed_of resumed rfl (by rintro _ ⟨⟩)
  have own : ∀ h', c'.hand? (.job j) = some h' → h' = h.resumed :=
    fun h' found' => Option.some.inj (found'.symm.trans resumed)
  have charted' : c'.Charted n graph := by
    refine charted.moves moved staff apart on.not_awaits ?_ ?_ ?_ (charted.owned owner) (world ▸ charted.tidy)
      fun i other _ pending => world ▸ charted.lacks i other pending
    · rintro _ other ⟨⟩ pending
      exact absurd pending on.not_pending
    · rintro _ ⟨⟩ failed
      exact absurd failed well
    · rintro h' found' _
      rw [own h' found']
      rfl
  refine ⟨⟨on, charted', fun h' found' => (own h' found') ▸ origin⟩, ?_⟩
  cases stopped : h.stopped with
  | true =>
    have doomed : c.Doomed j := charted.doomed ⟨h, e, method, found, origin, .inl stopped⟩
    exact .inl ⟨rfl, doomed.moved moved on.not_awaits fun _ => on.not_pending⟩
  | false =>
    have pending : c.Pending j method := ⟨h, e, found, origin, stopped, waited⟩
    exact .inr ⟨rfl, (charted.live pending).moved moved world apart well⟩

/-- The job ends. With a fault it only does so when it was stopped. -/
theorem closes {result : Except Fault Yield} (describing : c.Describing m n graph j e method)
    (failed : ∀ fault, result = .error fault → c.Doomed j) : (c.close (.job j) result).Charted n graph := by
  have moved := Moved.close (.job j) result c
  obtain ⟨h₀, there, runs⟩ := describing.on.running
  have origin := describing.origin h₀ there
  have ended : ∀ h, (c.close (.job j) result).hand? (.job j) = some h →
      h.station = .over result ∧ h.stopped = false := by
    intro h found
    rw [moved.own, there] at found
    cases found
    cases result with
    | ok last => simp [Hand.closed, origin, Origin.repeats, Job.repeats, describing.charted.going _ h₀ there runs]
    | error => simp [Hand.closed, describing.charted.going _ h₀ there runs]
  have apart : ∀ numbers, ¬(c.close (.job j) result).Awaits (.job j) numbers := by
    rintro numbers ⟨h, resume, found, waiting⟩
    cases (ended h found).1.symm.trans waiting
  refine describing.charted.moves moved (describing.charted.staff.close _ _) describing.on.not_awaits apart ?_ ?_ ?_
    (describing.charted.owned rfl) describing.charted.tidy fun i other _ => describing.charted.lacks i other
  · rintro _ other ⟨⟩ ⟨h, e', found, _, _, rests⟩
    simp [(ended h found).1, Station.Rests] at rests
  · rintro _ ⟨⟩ ⟨h, e', method', found, _, stopped | ⟨fault, isOver⟩⟩
    · cases (ended h found).2.symm.trans stopped
    · cases (ended h found).1.symm.trans isOver
      exact failed fault rfl
  · exact fun h found _ => (ended h found).2

end Describing

end Crew

section Job

open Crew Routine

variable {m : Memory} {n : Nat} {graph : ω → Graph} {w : World ω} {j : Nat} {e : Enricher} {method : PendingMethod} {c c' : Crew ω}

/-- A job that describes a method is on turn, and may describe it. -/
def Crew.Entitled (m : Memory) (n : Nat) (graph : ω → Graph) (j : Nat) (e : Enricher) (method : PendingMethod) (c : Crew ω) : Prop :=
  c.Describing m n graph j e method ∧ c.Live graph j method

/-- What a job goes on with that describes a method: it may do so still, or has heard that it was stopped. -/
def Crew.Informed {α : Type} (m : Memory) (n : Nat) (graph : ω → Graph) (j : Nat) (e : Enricher) (method : PendingMethod)
    (result : Except Fault α) (c : Crew ω) : Prop :=
  c.Describing m n graph j e method ∧
    (c.Live graph j method ∧ Civil result ∨ result = .error .cancelled ∧ c.Doomed j)

namespace Crew.Describing

theorem store {m' : Memory} (describing : c.Describing m n graph j e method) (aside : c.memory.Aside m')
    (known : (c.store (.job j) m').Recorded m) : (c.store (.job j) m').Describing m n graph j e method := by
  have on := describing.on.store (describing.on.regular.allows aside.beside) known
  have run : (m'.coordinator n).run = (c.memory.coordinator n).run := by
    rw [Memory.coordinator, aside.coordinators]
    rfl
  exact describing.keeps (.store _ m' c) on (describing.charted.staff.store _ m') (owner_store_same run) rfl

theorem onGroup (describing : c.Describing m n graph j e method) (f : Permits → Permits) (known : (c.onGroup (.job j) f).Recorded m) :
    (c.onGroup (.job j) f).Describing m n graph j e method := by
  have on := describing.on.stays known (describing.on.regular.onGroup _ f) (c.hand?_onGroup _ f _)
  have owner : (c.onGroup (.job j) f).owner n = c.owner n := by rw [owner, owner, c.onGroup_log]
  exact describing.keeps (.onGroup _ f c) on (describing.charted.staff.onGroup _ f) owner (by rw [c.onGroup_world])

/-- A question is answered at once. What the answer leaves of the graph is tidy, and leaves the methods of the others
without a description. -/
theorem exchange (describing : c.Describing m n graph j e method) (question : Ask)
    (known : (c.exchange (.job j) question (c.reaction w question)).Recorded m)
    (tidy : (graph (c.reaction w question).world).Tidy)
    (lacks : ∀ i other, i ≠ j → c.Pending i other → (graph (c.reaction w question).world).Lacks other.id) :
    (c.exchange (.job j) question (c.reaction w question)).Describing m n graph j e method := by
  have owner : (c.exchange (.job j) question (c.reaction w question)).owner n = c.owner n :=
    (Recorded.owner_snoc (c.note (.job j) (.asks question)) ..).trans (Recorded.owner_snoc ..)
  exact describing.stays (.exchange _ question _ c) (describing.on.exchange question _ known)
    (describing.charted.staff.exchange _ question _) owner tidy lacks

/-- The graph is left as it is. -/
theorem inquire (describing : c.Describing m n graph j e method) {question : Ask}
    (known : (c.exchange (.job j) question (c.reaction w question)).Recorded m)
    (same : graph (c.reaction w question).world = graph c.world) :
    (c.exchange (.job j) question (c.reaction w question)).Describing m n graph j e method := by
  refine describing.exchange question known (same ▸ describing.charted.tidy) fun i other _ pending => ?_
  exact same ▸ describing.charted.lacks i other pending

/-- The job begins, unless it was stopped before. -/
theorem begins {h : Hand} (charted : c.Charted n graph) (regular : c.Regular) (found : c.hand? (.job j) = some h)
    (fresh : h.station = .fresh) (going : h.stopped = false) (origin : h.origin = .job (.describe e method))
    (known : (c.begin (.job j) h.origin).Recorded m) : (c.begin (.job j) h.origin).Entitled m n graph j e method := by
  have owner : (c.begin (.job j) h.origin).owner n = c.owner n := Recorded.owner_snoc ..
  have back : h.moved .running = h.resumed := by simp [Hand.moved, Hand.resumed, going]
  obtain ⟨after, told⟩ := returns charted found origin (fresh ▸ trivial) (by simp [fresh]) (.begin _ h.origin c) back
    (regular.begins found known) (charted.staff.begin _ _) owner rfl
  rcases told with ⟨stopped, _⟩ | ⟨_, live⟩
  · cases going.symm.trans stopped
  · exact ⟨after, live⟩

/-- What ends a wait for a time to come or a permit. -/
theorem woken {h : Hand} {await : Await} {resume : Waited → Routine Yield} {waited : Waited} {d' : Crew ω}
    (charted : c.Charted n graph) (regular : c.Regular) (found : c.hand? (.job j) = some h)
    (origin : h.origin = .job (.describe e method)) (waits : h.station = .waiting await resume)
    (brief : (∃ due, await = .time due) ∨ await = .permit) (wakes : c.Wakes (.job j) h await waited d')
    (known : (d'.goOn (.job j)).Recorded m) : (d'.goOn (.job j)).Describing m n graph j e method ∧
      (waited = .error .cancelled ∧ (d'.goOn (.job j)).Doomed j ∨ waited = .ok [] ∧ (d'.goOn (.job j)).Live graph j method) := by
  have other : ∀ numbers resume, h.station ≠ .waiting (.members numbers) resume := by
    rcases brief with ⟨due, rfl⟩ | rfl <;> simp [waits]
  have on := OnTurn.resumed known (regular.woken wakes) ((wakes.hands _).trans found)
  have owner : (d'.goOn (.job j)).owner n = c.owner n := congrArg (Log.ownerFrom n none) wakes.noted.2
  have back := returns charted found origin (waits ▸ trivial) other (.after_waking wakes) rfl on
    ((charted.staff.woken wakes).goOn _) owner (congrArg graph wakes.world)
  refine ⟨back.1, ?_⟩
  unfold Wakes at wakes
  rcases back.2 with ⟨stopped, doomed⟩ | ⟨going, live⟩
  · rw [if_pos stopped] at wakes
    exact .inl ⟨wakes.1, doomed⟩
  · rw [if_neg (by simp [going])] at wakes
    rcases brief with ⟨due, rfl⟩ | rfl
    · exact .inr ⟨wakes.2.1, live⟩
    · exact .inr ⟨wakes.2.1, live⟩

end Crew.Describing

theorem Ask.not_alters_of_inquires {question : Ask} (inquires : question.inquires method) : ¬question.alters := by
  cases question <;> first | exact inquires.choose_spec.elim | exact id

variable {α : Type} {post : Except Fault α → Crew ω → Prop}

/-- A question on the way to a description: the job stays entitled, or hears in place of the answer that it was stopped. -/
theorem Crew.Entitled.asks (stores : w.Stores graph) (entitled : c.Entitled m n graph j e method) {question : Ask}
    (inquires : question.inquires method) {next : Except Fault question.Reply → Routine α}
    (goesOn : ∀ reply c', question.Civil reply → c'.Entitled m n graph j e method →
      (next reply).Keeps w (charting ω m n graph) (.job j) post c')
    (stops : ∀ c', c'.Describing m n graph j e method → c'.Doomed j →
      (next (.error .cancelled)).Keeps w (charting ω m n graph) (.job j) post c') :
    (Routine.ask question next).Keeps w (charting ω m n graph) (.job j) post c := by
  obtain ⟨describing, live⟩ := entitled
  have same : graph (c.reaction w question).world = graph c.world :=
    stores.keeps question c.clock c.world (Ask.not_alters_of_inquires inquires)
  have civil := stores.civil question c.clock c.world (Ask.describes_of_inquires inquires)
  refine ⟨fun prompts => ?_, fun soon known => ?_, fun slow rest known => ?_⟩
  · obtain ⟨h, found, _⟩ := describing.on.running
    have about : question.About method := by
      cases question <;> first | exact inquires | exact prompts.elim
    exact ⟨j, h, e, method, rfl, found, describing.origin h found, about, live.lacks⟩
  · have after := describing.inquire known.1 same
    exact ⟨after.charted, goesOn _ _ civil ⟨after, describing.live live (.exchange _ _ _ c) after same⟩⟩
  · have moved := Moved.ask (.job j) question (c.reaction w question) rest c
    have owner : (c.ask (.job j) question (c.reaction w question) rest).owner n = c.owner n := Recorded.owner_snoc ..
    refine ⟨describing.rests live moved trivial (by rintro _ _ ⟨⟩) (describing.charted.staff.ask _ _ _ _) owner same, ?_⟩
    intro c' h known' charted' still since found asking known''
    have origin := describing.origin_since moved since found
    have heard : (c'.hear (.job j) question (h.heard (c.reaction w question).reply)).owner n = c'.owner n := Recorded.owner_snoc ..
    have on := OnTurn.heard known''.1 known'.2.1 found
    obtain ⟨after, told⟩ := Describing.returns charted' found origin (asking ▸ trivial) (by simp [asking]) (.hear _ question _ c') rfl on
      (charted'.staff.hear _ question _) heard rfl
    refine ⟨after.charted, ?_⟩
    rcases told with ⟨stopped, doomed⟩ | ⟨going, live'⟩
    · have cancelled : h.heard (c.reaction w question).reply = .error .cancelled := if_pos stopped
      rw [cancelled] at after doomed ⊢
      exact stops _ after doomed
    · have answered : h.heard (c.reaction w question).reply = (c.reaction w question).reply := if_neg (by simp [going])
      rw [answered] at after live' ⊢
      exact goesOn _ _ civil ⟨after, live'⟩

/-- A wait of the job, for a time or a permit. -/
theorem Crew.Entitled.waits (entitled : c.Entitled m n graph j e method) {await : Await} {next : Waited → Routine α}
    (rest : Waited → Routine Yield) (brief : (∃ due, await = .time due) ∨ await = .permit)
    (goesOn : ∀ c', c'.Entitled m n graph j e method → (next (.ok [])).Keeps w (charting ω m n graph) (.job j) post c')
    (stops : ∀ c', c'.Describing m n graph j e method → c'.Doomed j →
      (next (.error .cancelled)).Keeps w (charting ω m n graph) (.job j) post c') :
    (charting ω m n graph).After (c.rest (.job j) await rest) (∀ d h waited d', (charting ω m n graph).known d →
      d.Charted n graph → d.Still → (c.rest (.job j) await rest).Since (.job j) d → d.hand? (.job j) = some h →
      h.station = .waiting await rest → d.Wakes (.job j) h await waited d' →
      (charting ω m n graph).After (d'.goOn (.job j)) ((next waited).Keeps w (charting ω m n graph) (.job j) post (d'.goOn (.job j)))) := by
  obtain ⟨describing, live⟩ := entitled
  intro known
  have other : ∀ numbers resume, Station.waiting await rest ≠ .waiting (.members numbers) resume := by
    rcases brief with ⟨due, rfl⟩ | rfl <;> rintro _ _ ⟨⟩
  have moved := Moved.rest (.job j) await rest c
  refine ⟨describing.rests live moved trivial other (describing.charted.staff.rest _ _ _) rfl rfl, ?_⟩
  intro d h waited d' known' charted' still since found waiting wakes known''
  have origin := describing.origin_since moved since found
  obtain ⟨after, told⟩ := Describing.woken charted' known'.2.1 found origin waiting brief wakes known''.1
  refine ⟨after.charted, ?_⟩
  rcases told with ⟨rfl, doomed⟩ | ⟨rfl, live'⟩
  · exact stops _ after doomed
  · exact goesOn _ ⟨after, live'⟩

/-- A request of the job, which is granted at once or waited for. -/
theorem Crew.Entitled.requests (entitled : c.Entitled m n graph j e method) {request : Control}
    (allowed : (Remit.works (Ask.inquires method)).requests request) {next : Except Fault request.Reply → Routine α}
    (goesOn : ∀ a c', c'.Entitled m n graph j e method → (next (.ok a)).Keeps w (charting ω m n graph) (.job j) post c')
    (stops : ∀ c', c'.Describing m n graph j e method → c'.Doomed j →
      (next (.error .cancelled)).Keeps w (charting ω m n graph) (.job j) post c') :
    (Routine.control request next).Keeps w (charting ω m n graph) (.job j) post c := by
  have group : ∀ f, (charting ω m n graph).After (c.onGroup (.job j) f) ((c.onGroup (.job j) f).Entitled m n graph j e method) := by
    intro f known
    have after := entitled.1.onGroup f known.1
    exact ⟨after.charted, after, entitled.1.live entitled.2 (.onGroup _ f c) after (by rw [c.onGroup_world])⟩
  refine ⟨fun reply c' granted known => ?_, fun await read c' rest waits => ?_⟩
  · cases request with
    | now =>
      obtain ⟨rfl, rfl⟩ := granted
      exact ⟨entitled.1.charted, goesOn _ _ entitled⟩
    | takePermit =>
      obtain ⟨_, rfl, rfl⟩ := granted
      exact ⟨(group _ known).1, goesOn _ _ (group _ known).2⟩
    | givePermit =>
      obtain ⟨rfl, rfl⟩ := granted
      exact ⟨(group _ known).1, goesOn _ _ (group _ known).2⟩
    | pause => exact granted.elim
    | _ => exact allowed.elim
  · cases request with
    | pause =>
      obtain ⟨brief, rfl, rfl⟩ := waits
      exact entitled.waits rest (.inl ⟨_, brief⟩) (goesOn ()) stops
    | takePermit =>
      obtain ⟨brief, rfl, rfl⟩ := waits
      exact entitled.waits rest (.inr brief) (goesOn ()) stops
    | now | givePermit => exact waits.elim
    | _ => exact allowed.elim

/-- While a job comes to a description, it stays entitled to give it, or hears that it was stopped and ends at once. -/
theorem Routine.Heeds.keeps {p : Routine α} (stores : w.Stores graph) (heeds : p.Heeds)
    (stays : p.StaysIn (.works (Ask.inquires method)) c.memory) (entitled : c.Entitled m n graph j e method) :
    p.Keeps w (charting ω m n graph) (.job j) (Informed m n graph j e method) c := by
  induction p generalizing c with
  | done result => exact ⟨entitled.1, .inl ⟨entitled.2, heeds⟩⟩
  | look next ih => exact ih c.memory (heeds _) stays entitled
  | store m' next ih =>
    intro known
    have after := entitled.1.store stays.1 known.1
    exact ⟨after.charted, ih heeds stays.2 ⟨after, entitled.1.live entitled.2 (.store _ m' c) after rfl⟩⟩
  | ask question next ih =>
    refine entitled.asks stores stays.1 (fun reply c' civil entitled' => ?_) fun c' describing doomed => ?_
    · exact ih reply (heeds.2 reply civil) (stays.2 _ _ trivial) entitled'
    · rw [heeds.1]
      exact ⟨describing, .inr ⟨rfl, doomed⟩⟩
  | control request next ih =>
    refine entitled.requests stays.1 (fun a c' entitled' => ?_) fun c' describing doomed => ?_
    · exact ih _ (heeds.2 _ (.ok a)) (stays.2 _ _ trivial) entitled'
    · rw [heeds.1]
      exact ⟨describing, .inr ⟨rfl, doomed⟩⟩

/-- A job has come to a result: it had a description written or tried to, or was stopped. -/
def Crew.Accomplished {α : Type} (m : Memory) (n : Nat) (graph : ω → Graph) (j : Nat) (e : Enricher) (method : PendingMethod)
    (result : Except Fault α) (c : Crew ω) : Prop :=
  c.Describing m n graph j e method ∧ ∀ fault, result = .error fault → fault.ordinary = true ∨ c.Doomed j

theorem Crew.Describing.accomplished {α : Type} {result : Except Fault α} (describing : c.Describing m n graph j e method)
    (civil : Civil result) : c.Accomplished m n graph j e method result :=
  ⟨describing, fun fault failed => .inl (civil fault failed)⟩

theorem Crew.Informed.accomplished {α β : Type} {fault : Fault}
    (informed : c.Informed m n graph j e method (.error fault : Except Fault α)) :
    c.Accomplished m n graph j e method (.error fault : Except Fault β) := by
  refine ⟨informed.1, ?_⟩
  rintro _ ⟨⟩
  rcases informed.2 with ⟨_, civil⟩ | ⟨_, doomed⟩
  · exact .inl (civil fault rfl)
  · exact .inr doomed

theorem Crew.Informed.entitled {α : Type} {a : α} (informed : c.Informed m n graph j e method (.ok a)) :
    c.Entitled m n graph j e method := by
  rcases informed.2 with ⟨live, _⟩ | ⟨cancelled, _⟩
  · exact ⟨informed.1, live⟩
  · cases cancelled

theorem Crew.Entitled.comes {α β : Type} {p : Routine α} {f : α → Routine β} (stores : w.Stores graph) (heeds : p.Heeds)
    (minds : p.Minds (.works (Ask.inquires method))) (entitled : c.Entitled m n graph j e method)
    (rest : ∀ a c', c'.Entitled m n graph j e method →
      (f a).Keeps w (charting ω m n graph) (.job j) (Accomplished m n graph j e method) c') :
    (p >>= f).Keeps w (charting ω m n graph) (.job j) (Accomplished m n graph j e method) c :=
  (heeds.keeps stores (minds _ trivial) entitled).bind (fun a c' informed => rest a c' informed.entitled)
    fun _ _ informed => informed.accomplished

/-- What a job does after the description was written, or after that has failed. -/
theorem Crew.Accomplished.goesOn {α β : Type} {p : Routine α} {f : α → Routine β}
    (keeps : p.Keeps w (charting ω m n graph) (.job j) (Accomplished m n graph j e method) c)
    (rest : ∀ a c', c'.Describing m n graph j e method →
      (f a).Keeps w (charting ω m n graph) (.job j) (Accomplished m n graph j e method) c') :
    (p >>= f).Keeps w (charting ω m n graph) (.job j) (Accomplished m n graph j e method) c :=
  keeps.bind (fun a c' done => rest a c' done.1) fun _ _ done =>
    ⟨done.1, by rintro _ ⟨⟩; exact done.2 _ rfl⟩

/-- A description is written at once, and for no other method. -/
theorem Crew.Entitled.describes (stores : w.Stores graph) (entitled : c.Entitled m n graph j e method) {parameters : Value}
    (about : parameters.field "method_id" = method.id) :
    (query (.query .createDescription parameters)).Keeps w (charting ω m n graph) (.job j) (Accomplished m n graph j e method) c := by
  obtain ⟨describing, live⟩ := entitled
  have tidy := describing.charted.tidy
  refine ⟨False.elim, fun _ known => ?_, fun slow => absurd slow (stores.inline _ _ _ _)⟩
  have after : (c.exchange (.job j) (.query .createDescription parameters)
      (c.reaction w (.query .createDescription parameters))).Describing m n graph j e method := by
    rcases stores.describes parameters c.clock c.world with written | ⟨same, _⟩
    · refine describing.exchange _ known.1 (written ▸ tidy.describe (about ▸ live.lacks)) fun i other distinct pending => ?_
      have others := (describing.charted.lacks i other pending).describe tidy (about ▸ (live.apart i other pending distinct).2)
      exact written ▸ others
    · exact describing.inquire known.1 same
  have civil : Civil (c.reaction w (.query .createDescription parameters)).reply :=
    stores.civil (.query .createDescription parameters) c.clock c.world trivial
  exact ⟨after.charted, after.accomplished civil⟩

theorem GraphClient.send_accomplished (stores : w.Stores graph) (entitled : c.Entitled m n graph j e method) (graphNumber : Nat)
    {parameters : Value} (about : (parameters.orElse (.dict [])).field "method_id" = method.id) :
    (send graphNumber .createDescription parameters).Keeps w (charting ω m n graph) (.job j) (Accomplished m n graph j e method) c := by
  unfold GraphClient.send
  rw [keeps_view_bind]
  split
  · exact entitled.1.accomplished (.error rfl)
  · refine Accomplished.goesOn (entitled.describes stores about) fun table c₁ describing => ?_
    refine Accomplished.goesOn (describing.accomplished table.records_civil) fun records c₂ describing => ?_
    refine Accomplished.goesOn (describing.accomplished (journal_civil _ _)) fun _ c₃ describing => ?_
    exact describing.accomplished (.ok records)

theorem writeDescription_keeps (stores : w.Stores graph) (entitled : c.Entitled m n graph j e method) (content : String) :
    (writeDescription e method content).Keeps w (charting ω m n graph) (.job j) (Accomplished m n graph j e method) c := by
  have draws : (query .drawId).Heeds := .query fun _ => id
  refine entitled.comes stores draws (.query trivial) fun drawn c₁ entitled => ?_
  refine Accomplished.goesOn (GraphClient.send_accomplished stores entitled _ rfl) fun records c₂ describing => ?_
  refine Accomplished.goesOn (describing.accomplished (createdCount_civil records)) fun created c₃ describing => ?_
  split
  · exact describing.accomplished (.ok ())
  · exact describing.accomplished (.error rfl)

/-- Once ordinary faults are caught, a job fails only because it was stopped. -/
theorem Crew.Accomplished.rescue {α : Type} {p : Routine α} (a : α)
    (keeps : p.Keeps w (charting ω m n graph) (.job j) (Accomplished m n graph j e method) c) :
    (p.rescue fun _ => pure a).Keeps w (charting ω m n graph) (.job j) (fun result c' => c'.Describing m n graph j e method ∧
      ∀ fault, result = .error fault → c'.Doomed j) c := by
  refine keeps.andThen fun result c₁ ⟨describing, failed⟩ => ?_
  cases result with
  | ok outcome => exact ⟨describing, by rintro _ ⟨⟩⟩
  | error fault =>
    dsimp only
    split
    · exact ⟨describing, by rintro _ ⟨⟩⟩
    next extraordinary =>
      refine ⟨describing, ?_⟩
      rintro _ ⟨⟩
      exact (failed fault rfl).resolve_left extraordinary

/-- Describing a method fails only for one who was stopped. -/
theorem enrichOne_keeps (stores : w.Stores graph) (entitled : c.Entitled m n graph j e method) :
    (enrichOne e method).Keeps w (charting ω m n graph) (.job j) (fun result c' => c'.Describing m n graph j e method ∧
      ∀ fault, result = .error fault → c'.Doomed j) c := by
  refine Accomplished.rescue Outcome.failed ?_
  refine entitled.comes stores (readCode_heeds e method) (readCode_minds e method) fun code c₁ entitled => ?_
  refine entitled.comes stores (describe_heeds e method code) (describe_minds e method code) fun content c₂ entitled => ?_
  cases content with
  | some content =>
    exact Accomplished.goesOn (writeDescription_keeps stores entitled content) fun _ _ describing =>
      describing.accomplished (.ok Outcome.enriched)
  | none =>
    exact Accomplished.goesOn (writeDescription_keeps stores entitled _) fun _ _ describing =>
      describing.accomplished (.ok Outcome.placeholder)

/-- A job that describes a method keeps to the rules from its beginning to its end. -/
theorem Job.describe_keeps (stores : w.Stores graph) (entitled : c.Entitled m n graph j e method) :
    (Job.describe e method).routine.Keeps w (charting ω m n graph) (.job j) ((charting ω m n graph).Closes (.job j)) c := by
  have closes : ∀ {c : Crew ω} {result : Except Fault Yield}, c.Describing m n graph j e method →
      (∀ fault, result = .error fault → c.Doomed j) → (charting ω m n graph).Closes (.job j) result c :=
    fun describing failed _ => ⟨describing.closes failed, trivial⟩
  have outcome : (enrichWithPermit e method).Keeps w (charting ω m n graph) (.job j) (fun result c' =>
      c'.Describing m n graph j e method ∧ ∀ fault, result = .error fault → c'.Doomed j) c := by
    have permits : (Remit.works (Ask.inquires method)).requests .takePermit := trivial
    refine entitled.requests permits (fun _ c₁ entitled => ?_) fun c₁ describing doomed => ?_
    · refine (enrichOne_keeps stores entitled).andThen fun result c₂ ⟨describing, failed⟩ => ?_
      refine ⟨?_, fun _ _ _ _ waits => waits.elim⟩
      rintro _ _ ⟨rfl, rfl⟩ known
      have after := describing.onGroup Permits.more known.1
      refine ⟨after.charted, after, fun fault ended => ?_⟩
      exact (failed fault ended).moved (.onGroup _ _ c₂) after.on.not_awaits fun _ => after.on.not_pending
    · exact ⟨describing, fun _ _ => doomed⟩
  exact outcome.bind (fun _ _ after => closes after.1 (by rintro _ ⟨⟩)) fun _ _ after => closes after.1 (by rintro _ ⟨⟩; exact after.2 _ rfl)

end Job

end CodeAtlas
