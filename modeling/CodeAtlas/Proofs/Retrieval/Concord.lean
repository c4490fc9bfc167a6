import CodeAtlas.Facade
import CodeAtlas.Proofs.Turns.Simulation

namespace CodeAtlas

open Routine

/-- What an analysis reads of two memories is the same. Whether the model is loaded and a session open is left out:
that decides what is asked first, and nothing else. -/
structure Memory.Agrees (m m' : Memory) : Prop where
  connected : m.facade.connected = m'.facade.connected
  registry : m.facade.registry = m'.facade.registry
  sources : m.facade.sources = m'.facade.sources
  registries : ∀ n, m.registry n = m'.registry n
  graphs : ∀ n, m.graph n = m'.graph n
  prefixes : ∀ n, (m.embedding n).queryPrefix = (m'.embedding n).queryPrefix
  normalize : ∀ n, (m.embedding n).normalize = (m'.embedding n).normalize
  completions : ∀ n, (m.completion n).settings = (m'.completion n).settings

theorem Memory.Agrees.symm {m m' : Memory} (agrees : m.Agrees m') : m'.Agrees m where
  connected := agrees.connected.symm
  registry := agrees.registry.symm
  sources := agrees.sources.symm
  registries n := (agrees.registries n).symm
  graphs n := (agrees.graphs n).symm
  prefixes n := (agrees.prefixes n).symm
  normalize n := (agrees.normalize n).symm
  completions n := (agrees.completions n).symm

variable {around : (question : Ask) → Except Fault question.Reply → Prop} {alike : Memory → Memory → Prop}
  {kept : Event → Bool}

namespace Facade

theorem required_bind {α : Type} (next : Facade → Routine α) : (required >>= next) = .look fun m =>
    if m.facade.connected then next m.facade else .fail (.failure .notConnected) := by
  refine congrArg Routine.look (funext fun m => ?_)
  change ((if m.facade.connected then pure m.facade else .fail (.failure .notConnected)) >>= next) = _
  split <;> rfl

/-- What is left of an analysis once the population is there. -/
def analyzing (f : Facade) (query usePrefilter : Value) : Routine Selection := do
  let s ← f.funnelFor usePrefilter
  analyzeEntities s f.sources query

end Facade

/-- What an analysis does to a memory, apart from reading the population anew. -/
inductive Facade.Touches : (Memory → Memory) → Prop
  | loaded (n : Nat) : Touches (Memory.onEmbedding n fun s => { s with loaded := true })
  | opened (n : Nat) : Touches (Memory.onCompletion n fun s => { s with session := .open })
  | used (n : Nat) (usage : List (String × Value)) : Touches (Memory.onCompletion n fun s => { s with usage })

/-- Memories that are alike agree, and stay alike. -/
structure Concord (around : (question : Ask) → Except Fault question.Reply → Prop) (alike : Memory → Memory → Prop)
    (kept : Event → Bool) : Prop where
  agrees : ∀ {m m'}, alike m m' → m.Agrees m'
  touched : ∀ {f m m'}, Facade.Touches f → alike m m' → alike (f m) (f m')
  loads : ∀ n, Matched around alike kept (EmbeddingService.load n) (EmbeddingService.load n)
  opens : ∀ n, Matched around alike kept (CompletionService.openSession n) (CompletionService.openSession n)

/-- Memories that are alike stay alike when the same population is put into both. -/
def Repopulates (alike : Memory → Memory → Prop) : Prop := ∀ {m m'} n classes methods, alike m m' →
  alike (m.onRegistry n (Registry.load classes methods)) (m'.onRegistry n (Registry.load classes methods))

namespace Concord

variable (concord : Concord around alike kept)

include concord

theorem touch {f : Memory → Memory} (touches : Facade.Touches f) : Matched around alike kept (change f) (change f) :=
  .change fun _ _ => concord.touched touches

theorem run (n : Nat) (statement : Statement) :
    Matched around alike kept (GraphClient.run n statement) (GraphClient.run n statement) := by
  refine .view fun m m' same => ?_
  rw [(concord.agrees same).graphs n]
  refine .ite (fun _ => .fail _) fun _ => (Matched.query _).bind fun table => (Matched.ofExcept _).bind fun records => ?_
  exact (Matched.ofExcept _).bind fun _ => .pure _

theorem refresh (populates : Repopulates alike) (n : Nat) :
    Matched around alike kept (Registry.refresh n) (Registry.refresh n) := by
  refine .view fun m m' same => ?_
  rw [(concord.agrees same).registries n]
  cases (m'.registry n).graph with
  | none => exact .fail _
  | some graph =>
    refine (concord.run graph _).bind fun classRecords => (concord.run graph _).bind fun methodRecords => ?_
    refine (Matched.ofExcept _).bind fun classes => (Matched.ofExcept _).bind fun methods => ?_
    exact (Matched.change fun m m' => populates n _ _).bind fun _ => .pure _

theorem encodeQuery (n : Nat) (text : Value) :
    Matched around alike kept (EmbeddingService.encodeQuery n text) (EmbeddingService.encodeQuery n text) := by
  refine (Matched.ofExcept _).bind fun _ => (concord.loads n).bind fun _ => .view fun m m' same => ?_
  have prefixed := (concord.agrees same).prefixes n
  have normalized := (concord.agrees same).normalize n
  generalize m.embedding n = service at prefixed normalized ⊢
  generalize m'.embedding n = service' at prefixed normalized ⊢
  cases service
  cases service'
  cases prefixed
  cases normalized
  exact .query _

theorem generate (n : Nat) (prompt system : Value) :
    Matched around alike kept (CompletionService.generate n prompt system) (CompletionService.generate n prompt system) := by
  refine .view fun m m' same => ?_
  rw [(concord.agrees same).completions n]
  refine .ite (fun _ => .fail _) fun _ => (concord.opens n).bind fun _ => (Matched.query _).bind fun reply => ?_
  refine .ite (fun _ => .fail _) fun _ => (Matched.ofExcept _).bind fun data => (Matched.ofExcept _).bind fun read => ?_
  refine (concord.touch (.used n _)).bind fun _ => (Matched.ofExcept _).bind fun _ => ?_
  exact .pure _

omit concord in
theorem searchBoth (s : FunnelSettings) (sources : Sources) (vector : Value) :
    Matched around alike kept (searchBoth s sources vector) (searchBoth s sources vector) := by
  refine (Matched.request _).bind fun left => ?_
  split <;> exact .pure _

/-- The sources of a facade are read alike. -/
theorem analyzeEntities (s : FunnelSettings) (f : Facade) (query : Value) :
    Matched around alike kept (analyzeEntities s f.sources query) (analyzeEntities s f.sources query) := by
  have registered (m m' : Memory) (same : alike m m') := (concord.agrees same).registries (number f.registry)
  have classes : Matched around alike kept f.sources.classes f.sources.classes :=
    .viewed fun m m' same => congrArg Registry.classes (registered m m' same)
  have methods : Matched around alike kept f.sources.methods f.sources.methods :=
    .viewed fun m m' same => congrArg Registry.methods (registered m m' same)
  have asks (classes : List ClassEntity) (methods : List MethodEntity) :
      Matched around alike kept (selectByModel s f.sources query classes methods)
        (selectByModel s f.sources query classes methods) := by
    refine (Matched.ofExcept _).bind fun classText => (Matched.ofExcept _).bind fun methodText => ?_
    exact (concord.generate _ _ _).bind fun answer => .ofExcept _
  refine Matched.rescue ((Matched.ofExcept _).bind fun blank => .ite (fun _ => .pure _) fun _ => ?_) fun _ => .pure _
  refine classes.bind fun classes => methods.bind fun methods => .ite (fun _ => ?_) fun _ => asks _ _
  refine Matched.bind (Matched.rescue ?_ fun _ => .pure _) fun p => asks _ _
  refine (concord.encodeQuery _ _).bind fun vector => (searchBoth s f.sources vector).bind fun found => ?_
  obtain ⟨classMatches, methodMatches⟩ := found
  exact .ofExcept _

theorem required_bind {α : Type} {next next' : Facade → Routine α}
    (rest : ∀ m m', alike m m' → m.facade.connected = true → Matched around alike kept (next m.facade) (next' m'.facade)) :
    Matched around alike kept (Facade.required >>= next) (Facade.required >>= next') := by
  rw [Facade.required_bind, Facade.required_bind]
  refine .look fun m m' same => ?_
  rw [← (concord.agrees same).connected]
  exact .ite (rest m m' same) fun _ => .fail _

theorem refreshing (populates : Repopulates alike) : Matched around alike kept Facade.refresh Facade.refresh :=
  concord.required_bind fun _ _ same _ => (concord.agrees same).registry ▸ concord.refresh populates _

/-- Analyses of alike memories match when what they do with the population does. A population that is there is
left alone. -/
theorem analyze (query : Value) {usePrefilter usePrefilter' : Value}
    (reads : (∀ m m' m₁ m₁', alike m m' → alike m₁ m₁' → (m₁.registry (number m.facade.registry)).loaded = true) ∨
      Repopulates alike)
    (rest : ∀ m m', alike m m' → m.facade.connected = true →
      Matched around alike kept (m.facade.analyzing query usePrefilter) (m'.facade.analyzing query usePrefilter')) :
    Matched around alike kept (Facade.analyze query usePrefilter) (Facade.analyze query usePrefilter') := by
  refine concord.required_bind fun m m' same connected => ?_
  have rest := rest m m' same connected
  have registry := (concord.agrees same).registry
  refine .view fun m₁ m₁' same₁ => ?_
  rw [← registry, ← (concord.agrees same₁).registries]
  refine .ite (fun missing => ?_) fun _ => rest
  rcases reads with loaded | populates
  · rw [loaded m m' m₁ m₁' same same₁] at missing
    cases missing
  · exact (concord.refreshing populates).bind fun _ => rest

theorem analyzing (f : Facade) (query usePrefilter : Value) :
    Matched around alike kept (f.analyzing query usePrefilter) (f.analyzing query usePrefilter) :=
  (Matched.ofExcept _).bind fun s => concord.analyzeEntities s f query

end Concord

/-- Memories that are alike are the same in what is open, too. -/
structure Lockstep (alike : Memory → Memory → Prop) : Prop where
  agrees : ∀ {m m'}, alike m m' → m.Agrees m'
  embeddings : ∀ {m m'}, alike m m' → m.embeddings = m'.embeddings
  sessions : ∀ {m m'} n, alike m m' → (m.completion n).session = (m'.completion n).session
  touched : ∀ {f m m'}, Facade.Touches f → alike m m' → alike (f m) (f m')

theorem Lockstep.concord (lockstep : Lockstep alike) : Concord around alike kept where
  agrees := lockstep.agrees
  touched := lockstep.touched
  loads n := by
    refine .view fun m m' same => ?_
    have there : m.embedding n = m'.embedding n := congrArg (part · n) (lockstep.embeddings same)
    rw [there]
    refine .ite (fun _ => .pure _) fun _ => ((Matched.query _).rescue fun _ => .fail _).bind fun _ => ?_
    exact .change fun _ _ => lockstep.touched (.loaded n)
  opens n := by
    refine .view fun m m' same => ?_
    rw [lockstep.sessions n same, (lockstep.agrees same).completions n]
    refine .ite (fun _ => .pure _) fun _ => (Matched.query _).bind fun _ => ?_
    exact .change fun _ _ => lockstep.touched (.opened n)

/-- A memory is in step with itself, whatever is known of it and stays true. -/
theorem Lockstep.of_invariant {inv : Memory → Prop} (touched : ∀ {f m}, Facade.Touches f → inv m → inv (f m)) :
    Lockstep fun m m' => m' = m ∧ inv m where
  agrees := by
    rintro m _ ⟨rfl, _⟩
    exact ⟨rfl, rfl, rfl, fun _ => rfl, fun _ => rfl, fun _ => rfl, fun _ => rfl, fun _ => rfl⟩
  embeddings := by
    rintro m _ ⟨rfl, _⟩
    rfl
  sessions := by
    rintro m _ _ ⟨rfl, _⟩
    rfl
  touched := by
    rintro f m _ touches ⟨rfl, holds⟩
    exact ⟨rfl, touched touches holds⟩

namespace Lockstep

variable (lockstep : Lockstep alike)

include lockstep

theorem flip : Lockstep fun m m' => alike m' m where
  agrees same := (lockstep.agrees same).symm
  embeddings same := (lockstep.embeddings same).symm
  sessions n same := (lockstep.sessions n same).symm
  touched := lockstep.touched

/-- Facades that do the same with a population do the same in all. -/
theorem analyze {query usePrefilter usePrefilter' : Value}
    (reads : (∀ m m' m₁ m₁', alike m m' → alike m₁ m₁' → (m₁.registry (number m.facade.registry)).loaded = true) ∨
      Repopulates alike)
    (same : ∀ m m', alike m m' → m.facade.connected = true →
      m.facade.analyzing query usePrefilter = m'.facade.analyzing query usePrefilter') :
    Matched around alike kept (Facade.analyze query usePrefilter) (Facade.analyze query usePrefilter') := by
  refine lockstep.concord.analyze query reads fun m m' seen connected => ?_
  rw [same m m' seen connected]
  exact lockstep.concord.analyzing _ _ _

end Lockstep

/-- Questions that are asked when something is used for the first time, and open it. -/
def Ask.onFirstUse : Ask → Bool
  | .loadModel .. => true
  | .openSession _ => true
  | _ => false

def Event.onFirstUse : Event → Bool
  | .hears question _ => question.onFirstUse
  | _ => false

/-- What is used for the first time can be opened. -/
def Obliging (around : (question : Ask) → Except Fault question.Reply → Prop) : Prop :=
  ∀ question reply, question.onFirstUse = true → (around question reply ↔ ∃ answer, reply = .ok answer)

namespace Obliging

variable (obliging : Obliging around) (dropped : ∀ e, e.onFirstUse = true → kept e = false) {s : Memory × List Event}

include obliging dropped

theorem comes {question : Ask} {next : Except Fault question.Reply → Routine Unit} {ready : Memory → Memory}
    (opening : question.onFirstUse = true) (goesOn : ∀ answer, next (.ok answer) = change ready) :
    (Routine.ask question next).Comes (.recorded around) s fun r t =>
      r = .ok () ∧ t.1 = ready s.1 ∧ t.2.filter kept = s.2.filter kept := by
  constructor
  · obtain ⟨answer⟩ : Nonempty question.Reply := by cases question <;> first | exact ⟨()⟩ | cases opening
    have ready : (next (.ok answer)).Arrives (.recorded around) (s.1, s.2 ++ [.hears question (.ok answer)]) (.ok ())
        (ready s.1, s.2 ++ [.hears question (.ok answer)]) := by
      rw [goesOn]
      exact ⟨_, rfl, rfl, rfl⟩
    exact ⟨.ok (), _, .ok answer, _, ⟨(obliging _ _ opening).mpr ⟨answer, rfl⟩, rfl⟩, ready⟩
  · rintro r t ⟨reply, _, ⟨admitted, rfl⟩, rest⟩
    obtain ⟨answer, rfl⟩ := (obliging _ _ opening).mp admitted
    rw [goesOn] at rest
    obtain ⟨_, rfl, rfl, rfl⟩ := rest
    have silent : kept (.hears question (.ok answer)) = false := dropped _ opening
    refine ⟨rfl, rfl, ?_⟩
    change (s.2 ++ [_]).filter kept = s.2.filter kept
    simp [silent]

/-- What is opened when it is first needed is open afterwards, whether it was before or not. -/
theorem lazily (isOpen : Memory → Prop) [DecidablePred isOpen] {p : Routine Unit} {asked : Memory → Ask}
    {next : (m : Memory) → Except Fault (asked m).Reply → Routine Unit} {ready : Memory → Memory}
    (parts : p = .look fun m => if isOpen m then .done (.ok ()) else .ask (asked m) (next m))
    (opening : ∀ m, (asked m).onFirstUse = true) (goesOn : ∀ m answer, next m (.ok answer) = change ready)
    (still : ∀ m m', alike m m' → alike (if isOpen m then m else ready m) (if isOpen m' then m' else ready m')) :
    Matched around alike kept p p := by
  have quiet (s : Memory × List Event) : p.Comes (.recorded around) s fun r t =>
      r = .ok () ∧ t.1 = (if isOpen s.1 then s.1 else ready s.1) ∧ t.2.filter kept = s.2.filter kept := by
    have rest : (if isOpen s.1 then done (.ok ()) else ask (asked s.1) (next s.1)).Comes (.recorded around) s fun r t =>
        r = .ok () ∧ t.1 = (if isOpen s.1 then s.1 else ready s.1) ∧ t.2.filter kept = s.2.filter kept := by
      split
      · exact comes_done ⟨rfl, rfl, rfl⟩
      · exact obliging.comes dropped (opening _) (goesOn _)
    obtain ⟨⟨r, t, arrives⟩, ends⟩ := rest
    rw [parts]
    refine ⟨⟨r, t, s.1, rfl, arrives⟩, ?_⟩
    rintro r t ⟨_, rfl, arrives⟩
    exact ends r t arrives
  exact .quiet quiet still

end Obliging

namespace Memory

/-- A memory without what is open and what was used: what an analysis cannot change. -/
def outline (m : Memory) : Memory :=
  { m with
    embeddings := m.embeddings.map fun s => { s with loaded := false }
    completions := m.completions.map fun s => { s with session := .none, usage := [] } }

theorem map_modify_same {α β : Type} (parts : List α) (n : Nat) {f : α → α} {g : α → β} (same : ∀ x, g (f x) = g x) :
    (parts.modify n f).map g = parts.map g := by
  refine List.ext_getElem? fun i => ?_
  simp only [List.getElem?_map, List.getElem?_modify]
  cases parts[i]? with
  | none => rfl
  | some x => by_cases here : n = i <;> simp [here, same]

theorem outline_touched {f : Memory → Memory} (touches : Facade.Touches f) (m : Memory) : (f m).outline = m.outline := by
  cases touches with
  | loaded n => simp [outline, onEmbedding, map_modify_same]
  | opened n => simp [outline, onCompletion, map_modify_same]
  | used n usage => simp [outline, onCompletion, map_modify_same]

theorem outline_part {α β : Type} [Inhabited α] (parts : List α) (n : Nat) {f : α → α} {p : α → β}
    (same : ∀ x, p (f x) = p x) : p (part (parts.map f) n) = p (part parts n) := by
  simp only [part, List.getElem?_map]
  cases parts[n]? with
  | none => rfl
  | some x => exact same x

theorem Agrees.of_outline {m m' : Memory} (same : m.outline = m'.outline) : m.Agrees m' := by
  have facade : m.facade = m'.facade := (congrArg Memory.facade same :)
  have registries : m.registries = m'.registries := (congrArg Memory.registries same :)
  have graphs : m.graphs = m'.graphs := (congrArg Memory.graphs same :)
  have embedding {β : Type} {p : EmbeddingService → β} (kept : ∀ x, p { x with loaded := false } = p x) (n : Nat) :
      p (m.embedding n) = p (m'.embedding n) := by
    have outlined : p (m.outline.embedding n) = p (m'.outline.embedding n) := by rw [same]
    exact (outline_part m.embeddings n kept).symm.trans (outlined.trans (outline_part m'.embeddings n kept))
  have completion (n : Nat) : (m.completion n).settings = (m'.completion n).settings := by
    have kept (x : CompletionService) : ({ x with session := .none, usage := [] } : CompletionService).settings = x.settings := rfl
    have outlined : (m.outline.completion n).settings = (m'.outline.completion n).settings := by rw [same]
    exact (outline_part m.completions n kept).symm.trans (outlined.trans (outline_part m'.completions n kept))
  exact {
    connected := congrArg Facade.connected facade
    registry := congrArg Facade.registry facade
    sources := congrArg Facade.sources facade
    registries := fun n => congrArg (part · n) registries
    graphs := fun n => congrArg (part · n) graphs
    prefixes := embedding fun _ => rfl
    normalize := embedding fun _ => rfl
    completions := completion }

/-- Memories with the same outline cannot be told apart, but for what is opened. -/
theorem outline_concord (obliging : Obliging around) (dropped : ∀ e, e.onFirstUse = true → kept e = false) :
    Concord around (fun m m' => m.outline = m'.outline) kept where
  agrees := .of_outline
  touched touches same := (outline_touched touches _).trans (same.trans (outline_touched touches _).symm)
  loads n := by
    refine obliging.lazily dropped (fun m => (m.embedding n).loaded = true) rfl (fun _ => rfl) (fun _ _ => rfl) fun m m' same => ?_
    have ready (x : Memory) : (if (x.embedding n).loaded = true then x else
        x.onEmbedding n fun s => { s with loaded := true }).outline = x.outline := by
      split
      · rfl
      · exact outline_touched (.loaded n) x
    exact (ready m).trans (same.trans (ready m').symm)
  opens n := by
    refine obliging.lazily dropped (fun m => (m.completion n).session = .open) rfl (fun _ => rfl) (fun _ _ => rfl) fun m m' same => ?_
    have ready (x : Memory) : (if (x.completion n).session = .open then x else
        x.onCompletion n fun s => { s with session := .open }).outline = x.outline := by
      split
      · rfl
      · exact outline_touched (.opened n) x
    exact (ready m).trans (same.trans (ready m').symm)

theorem outline_repopulates : Repopulates fun m m' : Memory => m.outline = m'.outline :=
  fun n classes methods same => congrArg (Memory.onRegistry n (Registry.load classes methods)) same

end Memory

end CodeAtlas
