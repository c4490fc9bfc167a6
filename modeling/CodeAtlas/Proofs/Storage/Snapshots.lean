import CodeAtlas.Proofs.Crew.Diary
import CodeAtlas.Proofs.Crew.Rota
import CodeAtlas.Proofs.Graph.Rebuild
import CodeAtlas.Proofs.Ingestion.Work
import CodeAtlas.Proofs.Retrieval.Fallback

namespace CodeAtlas

open Routine Crew

/-- Work that leaves a registry as it is. -/
def Remit.aloof (n : Nat) : Remit where
  asks _ := True
  writes m m' := m'.registry n = m.registry n ∧ m.registries.length ≤ m'.registries.length
  requests _ := True

theorem Remit.aloof_aside {n : Nat} {m m' : Memory} (aside : m.Aside m') : (Remit.aloof n).writes m m' := by
  show m'.registry n = m.registry n ∧ m.registries.length ≤ m'.registries.length
  rw [Memory.registry, aside.registries]
  exact ⟨rfl, Nat.le_refl _⟩

theorem Remit.aloof_carries (n : Nat) : (Remit.aloof n).Carries where
  asks _ _ := trivial
  aside _ _ := aloof_aside
  requests _ _ := trivial
  change _ _ _ _ := ⟨rfl, Nat.le_refl _⟩
  all _ := trivial
  vectorize _ _ p _ _ := (vectorize_minds p.graph p.index p.embedding).mono (fun _ _ => trivial)
    (fun _ _ aside => aloof_aside aside) fun _ _ => trivial

/-- Work that changes nothing but a population, and that as a whole. -/
def Remit.loading (n : Nat) : Remit where
  asks _ := True
  writes m m' := ∃ classes methods, m' = m.onRegistry n (Registry.load classes methods)
  requests _ := True

/-- Work that stores nothing. -/
def Remit.observing : Remit where
  asks _ := True
  writes _ _ := False
  requests _ := True

/-- What one has stored, with what was there before. -/
def Diary.stores (log : Diary) : List (Memory × Memory) := log.filterMap fun entry =>
  match entry.2 with
  | .stores before after => some (before, after)
  | _ => none

/-- What a fault passes through may be done at the end of two steps, or of the second one. -/
theorem Routine.bind_andThen {α β γ : Type} {p : Routine α} {f : α → Routine β} {g : Except Fault β → Routine γ}
    {h : α → Routine γ} (faults : ∀ fault, g (.error fault) = .done (.error fault)) (same : ∀ a, h a = (f a).andThen g) :
    (p >>= h) = (p >>= f).andThen g := by
  refine Eq.trans (congrArg p.andThen (funext fun result => ?_)) (andThen_assoc ..).symm
  cases result with
  | ok a => exact same a
  | error fault => exact (faults fault).symm

namespace Registry

/-- The population that two answers of the graph amount to. -/
def population (first second : Except Fault Table) : Except Fault (List ClassEntity × List MethodEntity) := do
  let classRecords ← GraphClient.read .allClasses (.dict []) first
  let methodRecords ← GraphClient.read .allMethods (.dict []) second
  let classes ← classRecords.mapM ClassEntity.ofRecord
  let methods ← methodRecords.mapM MethodEntity.ofRecord
  return (classes, methods)

/-- Two answers of the graph have been heard that amount to a population. -/
def Told (log : Diary) (classes : List ClassEntity) (methods : List MethodEntity) : Prop := ∃ time first time' second,
  (time, .hears (.query .allClasses (.dict [])) first) ∈ log ∧ (time', .hears (.query .allMethods (.dict [])) second) ∈ log ∧
    population first second = .ok (classes, methods)

/-- What a whole refresh has done: a population that it was told of has taken the place of the old one in one go, or
nothing has changed. -/
inductive Refreshed (n : Nat) (log : Diary) : Except Fault (Nat × Nat) → Prop
  | kept {fault} : log.stores = [] → Refreshed n log (.error fault)
  | replaced {before classes methods} : Told log classes methods →
      log.stores = [(before, before.onRegistry n (load classes methods))] → Refreshed n log (.ok (classes.length, methods.length))

/-- Asks the graph for a population. -/
def fetch (n : Nat) : Routine (List ClassEntity × List MethodEntity) := do
  let registry ← Routine.view (·.registry n)
  match registry.graph with
  | none => Routine.fail (.failure .noGraph)
  | some graph =>
    let classRecords ← GraphClient.run graph .allClasses
    let methodRecords ← GraphClient.run graph .allMethods
    let classes ← Routine.ofExcept (classRecords.mapM ClassEntity.ofRecord)
    let methods ← Routine.ofExcept (methodRecords.mapM MethodEntity.ofRecord)
    return (classes, methods)

/-- What is done with a population that has been asked for. -/
def keep (n : Nat) : Except Fault (List ClassEntity × List MethodEntity) → Routine (Nat × Nat)
  | .ok (classes, methods) => do
    Routine.change (Memory.onRegistry n (load classes methods))
    return (classes.length, methods.length)
  | .error fault => .done (.error fault)

theorem refresh_eq (n : Nat) : refresh n = (fetch n).andThen (keep n) := by
  have faults : ∀ fault, keep n (.error fault) = .done (.error fault) := fun _ => rfl
  refine bind_andThen faults fun registry => ?_
  cases registry.graph with
  | none => rfl
  | some graph =>
    refine bind_andThen faults fun classRecords => bind_andThen faults fun methodRecords => ?_
    exact bind_andThen faults fun classes => bind_andThen faults fun methods => rfl

end Registry

section Path

variable {ω : Type} {w : World ω} {cut : Prop} {s s' : Moment} {log : Diary} {graph n : Nat}

theorem Routine.Minds.stores_nothing {α : Type} {p q : Routine α} (minds : p.Minds .observing)
    (path : p.Path w cut s log q s') : log.stores = [] := by
  refine List.filterMap_eq_nil_iff.mpr fun entry inside => ?_
  have silent := minds.path (fun _ => trivial) path entry inside
  obtain ⟨time, deed⟩ := entry
  cases deed with
  | stores before after => exact (silent before after rfl).elim
  | _ => rfl

/-- Records of the graph come from an answer of its server. -/
theorem GraphClient.run_heard {statement : Statement} {records : List Value}
    (path : (run graph statement).Path w cut s log (.done (.ok records)) s') : ∃ time reply,
      (time, .hears (.query statement (.dict [])) reply) ∈ log ∧ read statement (.dict []) reply = .ok records := by
  rw [run, send_eq] at path
  cases path with
  | look path =>
    dsimp only at path
    split at path
    · cases path with
      | @ask _ _ _ reply later _ _ _ _ path =>
        obtain ⟨same, rfl, -⟩ := path.of_done
        exact ⟨later.time, reply, .tail _ (.head _), (Routine.done.inj same).symm⟩
    · cases path.of_done.1

theorem GraphClient.run_silent (graph : Nat) (statement : Statement) : (run graph statement).Minds .observing := by
  rw [run, send_eq]
  refine fun m _ => ?_
  show Routine.StaysIn _ (if (m.graph graph).connected then _ else _) m
  split
  · exact ⟨trivial, fun _ _ _ => trivial⟩
  · trivial

namespace Registry

theorem fetch_silent (n : Nat) : (fetch n).Minds .observing := by
  refine (Minds.view _).bind fun registry => ?_
  cases registry.graph with
  | none => exact .fail _
  | some graph =>
    refine (GraphClient.run_silent _ _).bind fun _ => (GraphClient.run_silent _ _).bind fun _ => ?_
    exact (Minds.ofExcept _).bind fun _ => (Minds.ofExcept _).bind fun _ => .pure _

/-- Whoever has a population from the graph was told of it. -/
theorem fetch_told {classes : List ClassEntity} {methods : List MethodEntity}
    (path : (fetch n).Path w cut s log (.done (.ok (classes, methods))) s') : Told log classes methods := by
  obtain ⟨registry, _, _, _, rfl, _, path⟩ := path.bind_ok
  cases linked : registry.graph with
  | none =>
    rw [linked] at path
    cases path.of_done.1
  | some graph =>
    rw [linked] at path
    obtain ⟨classRecords, _, _, _, rfl, asked, path⟩ := path.bind_ok
    obtain ⟨time, first, heard, read⟩ := GraphClient.run_heard asked
    obtain ⟨methodRecords, _, _, _, rfl, asked, path⟩ := path.bind_ok
    obtain ⟨time', second, heard', read'⟩ := GraphClient.run_heard asked
    obtain ⟨found, _, _, _, rfl, made, path⟩ := path.bind_ok
    obtain ⟨found', _, _, _, rfl, made', path⟩ := path.bind_ok
    refine ⟨time, first, time', second, by simp [heard], by simp [heard'], ?_⟩
    have classes : classRecords.mapM ClassEntity.ofRecord = .ok found := Routine.done.inj made.of_done.1.symm
    have methods : methodRecords.mapM MethodEntity.ofRecord = .ok found' := Routine.done.inj made'.of_done.1.symm
    cases path.of_done.1
    simp only [population, read, read', Bind.bind, Except.bind, classes, methods]
    rfl

/-- A refresh replaces the population once, or changes nothing. -/
theorem refresh_path {outcome : Except Fault (Nat × Nat)} (path : (refresh n).Path w cut s log (.done outcome) s') :
    Refreshed n log outcome := by
  rw [refresh_eq] at path
  obtain ⟨result, middle, before, after, rfl, fetched, kept⟩ := path.andThen_done
  have nothing := (fetch_silent n).stores_nothing fetched
  cases result with
  | error fault =>
    obtain ⟨same, rfl, -⟩ := kept.of_done
    cases same
    exact .kept (by rw [List.append_nil, nothing])
  | ok population =>
    obtain ⟨classes, methods⟩ := population
    cases kept with
    | look kept => cases kept with
      | store kept =>
        obtain ⟨same, rfl, -⟩ := kept.of_done
        cases same
        obtain ⟨time, first, time', second, heard, heard', read⟩ := fetch_told fetched
        refine @Refreshed.replaced n _ middle.memory _ _ ⟨time, first, time', second, by simp [heard], by simp [heard'], read⟩ ?_
        rw [Diary.stores, List.filterMap_append]
        exact congrArg (· ++ _) nothing

theorem refresh_replaces (n : Nat) : (refresh n).Minds (.loading n) := by
  have fetches : (fetch n).Minds (.loading n) := (fetch_silent n).mono (fun _ => id) (fun _ _ => False.elim) fun _ => id
  rw [refresh_eq]
  refine fetches.andThen fun result => ?_
  cases result with
  | error => exact .done _
  | ok population => exact Minds.bind (.change fun m => ⟨_, _, rfl⟩) fun _ => .pure _

end Registry

end Path

namespace Registry

/-- Replaces the population, as a call. -/
def loading (n : Nat) (classes : List ClassEntity) (methods : List MethodEntity)
    (finish : Except Fault Unit → Except Fault Yield) : Routine Yield :=
  (Routine.change (Memory.onRegistry n (load classes methods))).andThen fun result => .done (finish result)

/-- Reads the population from the graph, as a call. -/
def refreshing (n : Nat) (finish : Except Fault (Nat × Nat) → Except Fault Yield) : Routine Yield :=
  (refresh n).andThen fun result => .done (finish result)

/-- Those who call: one who replaces the population, one who reads it from the graph, and others who leave it alone. -/
inductive Caller (n : Nat) : Routine Yield → Prop
  | load (classes methods finish) : Caller n (loading n classes methods finish)
  | refresh (finish) : Caller n (refreshing n finish)
  | other {program} : program.Minds (.aloof n) → Caller n program

/-- Whoever is here to replace the population. -/
inductive Loader (n : Nat) : Origin → Prop
  | load (classes methods finish) : Loader n (.caller (loading n classes methods finish))
  | refresh (finish) : Loader n (.caller (refreshing n finish))

end Registry

/-- Whether somebody is here to replace the population of a registry. -/
def Crew.Loads {ω : Type} (c : Crew ω) (n : Nat) (k : Who) : Prop := ∃ h, c.hand? k = some h ∧ Registry.Loader n h.origin

namespace Registry

/-- What the last load has left of a registry: what was there in the beginning, or the population of the last load as
a whole. -/
inductive Last (n : Nat) (loads : Who → Prop) (m : Memory) (log : List Noted) : Registry → Prop
  | never : (∀ time k before after, (time, k, .stores before after) ∈ log → ¬loads k) → Last n loads m log (m.registry n)
  | loaded {earlier later time k before classes methods} :
      log = earlier ++ (time, k, .stores before (before.onRegistry n (load classes methods))) :: later → loads k →
      (∀ time k before after, (time, k, .stores before after) ∈ later → ¬loads k) →
      Last n loads m log { m.registry n with classes, methods, loaded := true }

variable {n : Nat} {loads : Who → Prop} {m : Memory} {log : List Noted} {r : Registry}

/-- A store within what one may store: a load, or nothing to do with the registry. -/
def Fair (n : Nat) (loads : Who → Prop) (k : Who) (deed : Deed) : Prop := ∀ before after, deed = .stores before after →
  (loads k ∧ (Remit.loading n).writes before after) ∨ (¬loads k ∧ (Remit.aloof n).writes before after)

theorem Last.snoc (last : Last n loads m log r) {time : Float} {k : Who} {deed : Deed}
    (apart : ∀ before after, deed = .stores before after → ¬loads k) : Last n loads m (log ++ [(time, k, deed)]) r := by
  have further : ∀ {log : List Noted}, (∀ time k before after, (time, k, .stores before after) ∈ log → ¬loads k) →
      ∀ time' j before after, (time', j, .stores before after) ∈ log ++ [(time, k, deed)] → ¬loads j := by
    intro log none time' j before after inside
    rcases List.mem_append.mp inside with old | new
    · exact none _ _ _ _ old
    · cases List.mem_singleton.mp new
      exact apart _ _ rfl
  cases last with
  | never none => exact .never (further none)
  | @loaded earlier later _ _ _ _ _ whole own none =>
    exact .loaded (by rw [whole, List.append_assoc]; rfl) own (further none)

/-- As long as everybody keeps to their remit, a registry has what the last load has left. -/
theorem Last.of_chained (present : n < m.registries.length) (chained : Log.Chained m log)
    (fair : ∀ noted ∈ log, Fair n loads noted.2.1 noted.2.2) :
    Last n loads m log ((Log.memoryFrom m log).registry n) ∧ n < (Log.memoryFrom m log).registries.length := by
  induction log using List.reverseRecOn with
  | nil => exact ⟨.never (by simp), present⟩
  | append_singleton log noted ih =>
    obtain ⟨before, now⟩ := (Log.chained_append ..).mp chained
    obtain ⟨last, there⟩ := ih before fun noted inside => fair noted (List.mem_append_left _ inside)
    have own := fair noted (by simp)
    rw [Log.memoryFrom_append]
    obtain ⟨time, k, deed⟩ := noted
    cases deed with
    | stores old new =>
      obtain ⟨rfl, -⟩ := now
      rcases own _ _ rfl with ⟨mine, classes, methods, rfl⟩ | ⟨other, same, grown⟩
      · have now : ((Log.memoryFrom m log).onRegistry n (load classes methods)).registry n =
            load classes methods ((Log.memoryFrom m log).registry n) := by
          simp [Memory.registry, Memory.onRegistry, part, there]
        refine ⟨?_, by simpa [Log.memoryFrom, Memory.onRegistry] using there⟩
        show Last n loads m _ (((Log.memoryFrom m log).onRegistry n (load classes methods)).registry n)
        rw [now]
        have whole : ∀ r, Last n loads m log r → load classes methods r = { m.registry n with classes, methods, loaded := true } := by
          rintro _ (_ | _) <;> rfl
        rw [whole _ last]
        exact .loaded rfl mine (by simp)
      · refine ⟨?_, Nat.lt_of_lt_of_le there grown⟩
        show Last n loads m _ (new.registry n)
        rw [same]
        refine last.snoc ?_
        rintro _ _ ⟨⟩
        exact other
    | begins | starts | asks | hears => exact ⟨last.snoc (by rintro _ _ ⟨⟩), there⟩

end Registry

/-- The population is that of a registry, as it is when it is looked at. -/
def Sources.reading (sources : Sources) (n : Nat) : Sources :=
  { sources with classes := Registry.allClasses n, methods := Registry.allMethods n }

/-- The population is given. -/
def Sources.holding (sources : Sources) (r : Registry) : Sources :=
  { sources with classes := pure r.classes, methods := pure r.methods }

/-- The analysis of a query, as a call. -/
def analyzing (s : FunnelSettings) (sources : Sources) (query : Value) (finish : Except Fault Selection → Except Fault Yield) :
    Routine Yield :=
  (analyzeEntities s sources query).andThen fun result => .done (finish result)

/-- An analysis that has anything to ask looks at the population twice, and does nothing between. -/
theorem analyzing_reading {s : FunnelSettings} {query : Value} (given : isBlankQuery query = .ok false) (sources : Sources) (n : Nat)
    (finish : Except Fault Selection → Except Fault Yield) : analyzing s (sources.reading n) query finish =
      .look fun m => .look fun m' => analyzing s
        (sources.holding { m'.registry n with classes := (m.registry n).classes }) query finish := by
  simp only [analyzing, analyzeEntities, given]
  rfl

namespace Registry

/-- An analysis leaves the population alone if its helpers do. -/
theorem Caller.analysis {n : Nat} {sources : Sources} (s : FunnelSettings) (query : Value)
    (finish : Except Fault Selection → Except Fault Yield) (embeds : ∀ text, (sources.embed text).Minds (.aloof n))
    (completes : ∀ prompt, (sources.complete prompt).Minds (.aloof n)) :
    Caller n (analyzing s (sources.reading n) query finish) := by
  have analyzes : (analyzeEntities s (sources.reading n) query).Minds (.aloof n) :=
    (Remit.aloof_carries n).analyzeEntities s query (.view _) (.view _) embeds completes
  exact .other (analyzes.andThen fun _ => .done _)

/-- Where an analysis is that is not on turn: it has come there as one to which the population was given that the last
load had left when it began. -/
def Analyzes {ω : Type} (w : World ω) (n : Nat) (m : Memory) (c : Crew ω) (i : Nat) (station : Station) (s : FunnelSettings)
    (sources : Sources) (query : Value) (finish : Except Fault Selection → Except Fault Yield) : Prop :=
  ∃ earlier later start log pending q stop, c.log = earlier ++ (start.time, .caller i, .begins
      (.caller (analyzing s (sources.reading n) query finish))) :: later ∧
    (c.diary (.caller i)) = (start.time, .begins (.caller (analyzing s (sources.reading n) query finish))) :: (log ++ pending) ∧
    (analyzing s (sources.holding ((Log.memoryFrom m earlier).registry n)) query finish).Path w False start log q stop ∧
    ∀ result, station = .over result → q = .done result ∧ pending = []

/-- The population of a registry is only ever replaced as a whole, by a load that is complete, and looked at as a whole. -/
structure Atomic {ω : Type} (w : World ω) (n : Nat) (m : Memory) (c : Crew ω) : Prop where
  /-- At every point a registry has what the last load has left. -/
  last : ∀ earlier later, c.log = earlier ++ later → Last n (c.Loads n) m earlier ((Log.memoryFrom m earlier).registry n)
  memory : c.memory = Log.memoryFrom m c.log
  loaded : ∀ i h result classes methods finish, c.hand? (.caller i) = some h → h.station = .over result →
    h.origin = .caller (loading n classes methods finish) → result = finish (.ok ()) ∧
      ∃ before, (c.diary (.caller i)).stores = [(before, before.onRegistry n (load classes methods))]
  refreshed : ∀ i h result finish, c.hand? (.caller i) = some h → h.station = .over result →
    h.origin = .caller (refreshing n finish) → ∃ outcome, result = finish outcome ∧ Refreshed n (c.diary (.caller i)) outcome
  analyzed : ∀ i h s sources query finish, c.hand? (.caller i) = some h → h.station ≠ .fresh → h.station ≠ .running →
    isBlankQuery query = .ok false → h.origin = .caller (analyzing s (sources.reading n) query finish) →
    Analyzes w n m c i h.station s sources query finish

section Reach

variable {ω : Type} {w : World ω} {n : Nat} {m : Memory} {world : ω} {hasLoop : Bool} {a : Shift ω}

theorem loading_loads (n : Nat) (classes : List ClassEntity) (methods : List MethodEntity)
    (finish : Except Fault Unit → Except Fault Yield) : (loading n classes methods finish).Minds (.loading n) :=
  Minds.andThen (.change fun _ => ⟨_, _, rfl⟩) fun _ => .done _

/-- Whoever is here to replace the population does only that. -/
theorem Loader.loads {origin : Origin} (loader : Loader n origin) : origin.routine.Minds (.loading n) := by
  cases loader with
  | load classes methods finish => exact loading_loads n classes methods finish
  | refresh => exact (refresh_replaces n).andThen fun _ => .done _

/-- Whatever is stored is a load, or nothing to do with the registry. -/
theorem reach_fair (reach : Shift.Reach w (Caller n) m world hasLoop a) : ∀ noted ∈ a.crew.log,
    Fair n (a.crew.Loads n) noted.2.1 noted.2.2 := by
  rintro ⟨time, k, deed⟩ inside
  have own : (time, deed) ∈ a.crew.diary k := mem_diary.mpr inside
  cases found : a.crew.hand? k with
  | none =>
    rw [reach.written.absent k found] at own
    cases own
  | some h =>
    have turn : h.station = .running → ∃ q, a.turn = some (k, q) := reach.proper.alone k h found
    have all : ∀ entry ∈ a.crew.diary k, Fair n (a.crew.Loads n) k entry.2 := by
      refine (reach.written.hands k h found).all turn (by rintro _ _ _ ⟨⟩) (by rintro _ _ _ _ ⟨⟩) ?_
      intro s log q s' path entry inside before after stored
      by_cases loads : Loader n h.origin
      · exact .inl ⟨⟨h, found, loads⟩, loads.loads.path (fun _ => trivial) path entry inside before after stored⟩
      · have others : ¬a.crew.Loads n k := by
          rintro ⟨_, found', loader⟩
          cases Option.some.inj (found.symm.trans found')
          exact loads loader
        refine .inr ⟨others, ?_⟩
        have minds : h.origin.routine.Minds (.aloof n) := by
          cases origin : h.origin with
          | job job => exact (Remit.aloof_carries n).job job
          | caller program =>
            rw [origin] at loads
            cases reach.knows.program k h program found origin with
            | load => exact absurd (.load ..) loads
            | refresh => exact absurd (.refresh _) loads
            | other aloof => exact aloof
        exact minds.path (fun _ => trivial) path entry inside before after stored
    exact all _ own

/-- A registry never shows a part of a load: who fails to refresh it has changed nothing, who replaces its population has
done so in one go, and who analyzes a query has looked at what the last load had left as a whole. -/
theorem atomic (present : n < m.registries.length) (reach : Shift.Reach w (Caller n) m world hasLoop a) :
    Atomic w n m a.crew where
  last := by
    intro earlier later whole
    have chained := reach.written.recalls.chained
    rw [whole] at chained
    refine (Last.of_chained present ((Log.chained_append ..).mp chained).1 fun noted inside => ?_).1
    exact reach_fair reach noted (whole ▸ List.mem_append_left _ inside)
  memory := reach.written.recalls.memory
  loaded := by
    intro i h result classes methods finish found isOver origin
    obtain ⟨start, stop, log, diary, path⟩ := reach.ended found isOver
    rw [origin] at path
    rw [diary]
    cases path with
    | look path => cases path with
      | store path =>
        obtain ⟨same, rfl, -⟩ := path.of_done
        cases same
        exact ⟨rfl, start.memory, rfl⟩
  refreshed := by
    intro i h result finish found isOver origin
    obtain ⟨start, stop, log, diary, path⟩ := reach.ended found isOver
    rw [origin] at path
    rw [diary]
    obtain ⟨outcome, middle, before, after, rfl, asked, rest⟩ := Path.andThen_done path
    obtain ⟨same, rfl, -⟩ := rest.of_done
    cases same
    refine ⟨outcome, rfl, ?_⟩
    rw [List.append_nil]
    cases refresh_path asked with
    | kept nothing => exact .kept nothing
    | replaced told once =>
      obtain ⟨time, first, time', second, heard, heard', read⟩ := told
      exact .replaced ⟨time, first, time', second, .tail _ heard, .tail _ heard', read⟩ once
  analyzed := by
    intro i h s sources query finish found begun idle given origin
    obtain ⟨earlier, later, start, log, pending, q, stop, whole, memory, diary, path, further, ended⟩ := reach.begun found begun idle
    rw [origin] at whole diary path
    refine ⟨earlier, later, start, log, pending, q, stop, whole, diary, ?_, ended⟩
    change Path w False (analyzing s (sources.reading n) query finish) start log q stop at path
    rw [analyzing_reading given] at path
    cases path with
    | refl => exact absurd rfl (further _)
    | look path => cases path with
      | refl => exact absurd rfl (further _)
      | look path => exact memory ▸ path

end Reach

end Registry

section Example

/-- A registry whose client of the graph is connected. -/
def Memory.registered : Memory :=
  { (default : Memory) with
    graphs := [{ (default : GraphClient) with connected := true }]
    registries := [{ (default : Registry) with graph := some 0 }] }

/-- The graph tells of no classes, and after a while it does not answer. -/
def World.halfway : World Unit where
  answer
    | .query .allClasses _, _, _ => ⟨(), 1, .ok ⟨.list [], []⟩⟩
    | .query .allMethods _, _, _ => ⟨(), 1, .error (.foreign .connection none)⟩
    | .complete .., _, _ => ⟨(), 1, .ok (.str "")⟩
    | _, _, _ => ⟨(), 0, .error (.foreign .connection none)⟩

/-- Helpers that ask outside. -/
def Sources.outside : Sources where
  classes := pure []
  methods := pure []
  embed text := Routine.query (.embed text)
  search := .outside
  complete prompt := Routine.query (.complete prompt none)

/-- One replaces the population, one reads it from the graph, and one analyzes a query. -/
def Registry.three : Crew Unit :=
  (((Crew.start Memory.registered () true).call (Registry.loading 0 [default] [] fun _ => .ok .nothing)).call
    (Registry.refreshing 0 fun result => result.map fun _ => .nothing)).call
      (analyzing default (Sources.outside.reading 0) (.str "who?") fun _ => .ok .nothing)

/-- While a refresh waits for the graph a load takes place, and a query is analyzed; the refresh fails, and the population
of the load stays. -/
theorem Registry.atomic_halfway : ∃ a h fault, Shift.Reach World.halfway (Registry.Caller 0) Memory.registered () true a ∧
    a.crew.hand? (.caller 1) = some h ∧ h.station = .over (.error fault) ∧
      (a.crew.memory.registry 0).classes.length = 1 ∧ Registry.Atomic World.halfway 0 Memory.registered a.crew := by
  have called : Shift.Reach World.halfway (Registry.Caller 0) Memory.registered () true ⟨Registry.three, none⟩ :=
    ((Shift.Reach.start.next (.call (.load ..))).next (.call (.refresh _))).next
      (.call (.analysis _ _ _ (fun _ => .query trivial) fun _ => .query trivial))
  let turns : List (Who × Nat) := [(.caller 1, 9), (.caller 0, 9), (.caller 2, 99), (.caller 1, 9), (.caller 1, 9), (.caller 2, 9)]
  have reach := called.leads (Shift.rota_leads turns _)
  obtain ⟨fault, failed⟩ := Option.isSome_iff_exists.mp
    (show ((Shift.rota World.halfway ⟨Registry.three, none⟩ turns).crew.failed? (.caller 1)).isSome by decide +kernel)
  obtain ⟨h, found, failed⟩ := Crew.over_of_failed? failed
  exact ⟨_, h, fault, reach, found, failed, by decide +kernel, Registry.atomic (by decide) reach⟩

end Example

end CodeAtlas
