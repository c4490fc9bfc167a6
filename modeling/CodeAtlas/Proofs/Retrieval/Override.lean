import CodeAtlas.Proofs.Retrieval.Concord
import CodeAtlas.Proofs.Settings.Overlay
import CodeAtlas.Proofs.Truth

namespace CodeAtlas

open Routine

variable {around : (question : Ask) → Except Fault question.Reply → Prop} {alike : Memory → Memory → Prop}
  {kept : Event → Bool}

/-- What the analyzer does depends on its switch only through what it counts as. -/
theorem analyzeEntities_switch (s : FunnelSettings) (sources : Sources) (query : Value) {v : Value}
    (same : s.prefiltering.truthy = v.truthy) :
    analyzeEntities s sources query = analyzeEntities { s with prefiltering := v } sources query := by
  simp only [analyzeEntities, same]
  rfl

namespace Facade

/-- The same facade, with the pre-filter of its analyzer switched on or off. -/
def switched (b : Bool) (f : Facade) : Facade :=
  { f with
    settings := { f.settings with funnel := { f.settings.funnel with prefiltering := .bool b } }
    funnel := f.funnel.map fun s => { s with prefiltering := .bool b } }

/-- A connected facade has an analyzer, whose settings were checked. -/
def Serves (f : Facade) : Prop := f.connected = true → ∃ s, f.funnel = some s ∧ s.check = .ok ()

/-- The settings that an analyzer gets were checked, and so were those of the analyzer that there is. -/
def serving : Charter where
  keeps m := m.facade.settings.funnel.check = .ok () ∧ m.facade.Serves
  asks _ := True
  requests _ := True

theorem serving_change {f : Memory → Memory} (settings : ∀ m, (f m).facade.settings = m.facade.settings)
    (funnel : ∀ m, (f m).facade.funnel = m.facade.funnel) (connected : ∀ m, (f m).facade.connected = m.facade.connected) :
    (change f).Abides serving := by
  refine .change fun m ⟨checked, serves⟩ => ⟨(settings m).symm ▸ checked, fun joined => ?_⟩
  rw [funnel]
  exact serves ((connected m).symm.trans joined)

theorem apart_abides {f : Memory → Memory} (same : ∀ m, (f m).facade = m.facade) : (change f).Abides serving :=
  serving_change (fun m => same m ▸ rfl) (fun m => same m ▸ rfl) fun m => same m ▸ rfl

theorem note_abides {f : Facade → Facade} (settings : ∀ x, (f x).settings = x.settings)
    (funnel : ∀ x, (f x).funnel = x.funnel) (connected : ∀ x, (f x).connected = x.connected) : (note f).Abides serving :=
  serving_change (fun _ => settings _) (fun _ => funnel _) fun _ => connected _

theorem add_abides {α : Type} {parts : Memory → List α} {put : List α → Memory → Memory} {new : α}
    (same : ∀ xs m, (put xs m).facade = m.facade) : (add parts put new).Abides serving :=
  .view fun _ _ => .bind (apart_abides (same _)) fun _ => .pure _

theorem connectGraph_abides (settings : GraphSettings) : (connectGraph settings).Abides serving := by
  have connects (graph : Nat) : (GraphClient.connect graph).Abides serving := by
    refine .view fun m _ => .ite (fun _ => .pure _) fun _ => .bind (.query trivial) fun _ => .bind (.query trivial) fun _ => ?_
    exact apart_abides fun _ => rfl
  refine .bind (add_abides fun _ _ => rfl) fun graph => .bind ?_ fun _ => (connects graph).bind fun _ => .pure _
  exact note_abides (fun _ => rfl) (fun _ => rfl) fun _ => rfl

theorem takeEmbedding_abides (env : Environment) (settings : EmbeddingSettings) : (takeEmbedding env settings).Abides serving := by
  have creates (options : EmbeddingOptions) : (EmbeddingService.create env options).Abides serving := by
    refine .bind (.query trivial) fun accelerated => .bind (.ofExcept _) fun service => .view fun m _ => ?_
    exact .bind (apart_abides fun _ => rfl) fun _ => .pure _
  have shares (options : EmbeddingOptions) : (EmbeddingService.sharedService env options).Abides serving := by
    refine .view fun m _ => ?_
    cases m.shared with
    | some n => exact .pure _
    | none => exact (creates options).bind fun n => .bind (apart_abides fun _ => rfl) fun _ => .pure _
  refine .bind (.ofExcept _) fun options => (shares options).bind fun embedding => .bind ?_ fun _ => .pure _
  exact note_abides (fun _ => rfl) (fun _ => rfl) fun _ => rfl

theorem connect_abides (env : Environment) : (connect env).Abides serving := by
  refine .view fun m ⟨checked, _⟩ => .ite (fun _ => .pure _) fun _ => ?_
  have completes (settings : CompletionSettings) : (newCompletion settings).Abides serving :=
    .bind (add_abides fun _ _ => rfl) fun _ => .bind (note_abides (fun _ => rfl) (fun _ => rfl) fun _ => rfl) fun _ => .pure _
  have registers (graph : Nat) : (newRegistry graph).Abides serving :=
    .bind (add_abides fun _ _ => rfl) fun _ => note_abides (fun _ => rfl) (fun _ => rfl) fun _ => rfl
  have indexes (settings : VectorSettings) (size : Value) : (newIndex settings size).Abides serving :=
    .bind (.ofExcept _) fun _ => .bind (add_abides fun _ _ => rfl) fun _ =>
      .bind (note_abides (fun _ => rfl) (fun _ => rfl) fun _ => rfl) fun _ => .pure _
  have coordinates (settings : IngestionSettings) (p : Pipeline) : (newCoordinator settings p).Abides serving :=
    .bind (add_abides fun _ _ => rfl) fun _ => note_abides (fun _ => rfl) (fun _ => rfl) fun _ => rfl
  refine (connectGraph_abides _).bind fun graph => (takeEmbedding_abides env _).bind fun embedding => ?_
  refine (completes _).bind fun completion => (registers graph).bind fun _ => (indexes _ _).bind fun index => ?_
  refine .bind (.ofExcept _) fun pipeline => (coordinates _ pipeline).bind fun _ => ?_
  -- The settings that the analyzer gets are those that were there at the start.
  exact .change fun n ⟨stays, _⟩ => ⟨stays, fun _ => ⟨_, rfl, checked⟩⟩

/-- A facade that connects with settings that were checked has an analyzer. -/
theorem connect_serves {env : Environment} {m n : Memory} {log log' : List Event} {r : Except Fault Unit}
    (checked : m.facade.settings.funnel.check = .ok ()) (apart : m.facade.connected = false)
    (arrives : (connect env).Arrives (.recorded around) (m, log) r (n, log')) : n.facade.Serves := by
  have kept : serving.keeps m := ⟨checked, fun joined => nomatch apart.symm.trans joined⟩
  exact ((connect_abides env).arrives kept arrives).2

theorem replace_switch {s : FunnelSettings} (checked : s.check = .ok ()) (b : Bool) :
    funnelSection.replace s [(.str "prefiltering_enabled", .bool b)] = .ok { s with prefiltering := .bool b } := by
  have overlaid : funnelSection.Overlaid [(.str "prefiltering_enabled", .bool b)] s { s with prefiltering := .bool b } := by
    simp [Section.Overlaid, funnelSection, Value.lookup]
  refine Section.replace_eq_ok.mpr ⟨?_, funnelSection_lawful.laid_eq overlaid, checked⟩
  intro k v inside
  simp only [List.mem_singleton, Prod.mk.injEq] at inside
  exact ⟨_, List.mem_cons_self .., inside.1⟩

/-- What a call does with an override, the facade that is switched that way does without one. -/
theorem analyzing_switched {f : Facade} (serves : f.Serves) (connected : f.connected = true) (query : Value) (b : Bool) :
    f.analyzing query (.bool b) = (f.switched b).analyzing query .null := by
  obtain ⟨s, has, checked⟩ := serves connected
  have plain : (f.switched b).funnelFor .null = .ok { s with prefiltering := .bool b } := by
    simp [funnelFor, switched, has, Value.isNull]
  have analyzes : (f.switched b).analyzing query .null = analyzeEntities { s with prefiltering := .bool b } f.sources query := by
    simp only [analyzing, plain]
    rfl
  rw [analyzes]
  by_cases same : (Value.bool b).same s.prefiltering = true
  · have kept : f.funnelFor (.bool b) = .ok s := by simp [funnelFor, has, same]
    rw [← analyzeEntities_switch s f.sources query (Value.truthy_eq_of_same same).symm]
    simp only [analyzing, kept]
    rfl
  · have replaced : f.funnelFor (.bool b) = .ok { s with prefiltering := .bool b } := by
      simp [funnelFor, has, same, Value.isNull, replace_switch checked]
    simp only [analyzing, replaced]
    rfl

end Facade

namespace Memory

/-- The same registry and collaborators, under a facade that differs in its switch alone. -/
def switched (b : Bool) (m : Memory) : Memory := m.onFacade (Facade.switched b)

theorem switched_touched {f : Memory → Memory} (touches : Facade.Touches f) (b : Bool) (m : Memory) :
    f (m.switched b) = (f m).switched b := by
  cases touches <;> rfl

theorem facade_touched {f : Memory → Memory} (touches : Facade.Touches f) (m : Memory) : (f m).facade = m.facade := by
  cases touches <;> rfl

theorem registries_touched {f : Memory → Memory} (touches : Facade.Touches f) (m : Memory) : (f m).registries = m.registries := by
  cases touches <;> rfl

theorem agrees_switched (b : Bool) (m : Memory) : m.Agrees (m.switched b) :=
  ⟨rfl, rfl, rfl, fun _ => rfl, fun _ => rfl, fun _ => rfl, fun _ => rfl, fun _ => rfl⟩

theorem switched_lockstep (b : Bool) : Lockstep fun m m' : Memory => m' = m.switched b ∧ m.facade.Serves where
  agrees := by
    rintro m _ ⟨rfl, _⟩
    exact agrees_switched b m
  embeddings := by
    rintro m _ ⟨rfl, _⟩
    rfl
  sessions := by
    rintro m _ n ⟨rfl, _⟩
    rfl
  touched := by
    rintro f m _ touches ⟨rfl, serves⟩
    exact ⟨switched_touched touches b m, (facade_touched touches m).symm ▸ serves⟩

end Memory

namespace Facade

/-- An override makes the same calls and gives the same result as the switch of the facade does. -/
theorem analyze_switched {m n : Memory} {trace : List Event} {r : Except Fault Selection} (serves : m.facade.Serves)
    (query : Value) (b : Bool) :
    (analyze query .null).Arrives (.recorded around) (m.switched b, []) r (n, trace) ↔
      ∃ m', (analyze query (.bool b)).Arrives (.recorded around) (m, []) r (m', trace) ∧ n = m'.switched b := by
  have lockstep := Memory.switched_lockstep b
  constructor
  · intro arrives
    have matched : Matched around (fun m m' => m = m'.switched b ∧ m'.facade.Serves) (fun _ => true) (analyze query .null)
        (analyze query (.bool b)) := by
      refine lockstep.flip.analyze (.inr ?_) ?_
      · rintro _ m n classes methods ⟨rfl, serves⟩
        exact ⟨rfl, serves⟩
      · rintro _ m ⟨rfl, serves⟩ connected
        exact (analyzing_switched serves connected query b).symm
    obtain ⟨m', arrives', same, _⟩ := matched.whole ⟨rfl, serves⟩ arrives
    exact ⟨m', arrives', same⟩
  · rintro ⟨m', arrives, rfl⟩
    have matched : Matched around (fun m m' => m' = m.switched b ∧ m.facade.Serves) (fun _ => true) (analyze query (.bool b))
        (analyze query .null) := by
      refine lockstep.analyze (.inr ?_) ?_
      · rintro m _ n classes methods ⟨rfl, serves⟩
        exact ⟨rfl, serves⟩
      · rintro m _ ⟨rfl, serves⟩ connected
        exact analyzing_switched serves connected query b
    obtain ⟨_, arrives', rfl, _⟩ := matched.whole ⟨rfl, serves⟩ arrives
    exact arrives'

/-- What nothing in an analysis disturbs still holds after it. -/
theorem analyze_keeps (inv : Memory → Prop) {query usePrefilter : Value} {m n : Memory} {log log' : List Event}
    {r : Except Fault Selection} (touched : ∀ {f x}, Touches f → inv x → inv (f x))
    (reads : (∀ x y, inv x → inv y → (y.registry (number x.facade.registry)).loaded = true) ∨
      ∀ {x} i classes methods, inv x → inv (x.onRegistry i (Registry.load classes methods)))
    (holds : inv m) (arrives : (analyze query usePrefilter).Arrives (.recorded around) (m, log) r (n, log')) : inv n := by
  have matched : Matched around (fun x y => y = x ∧ inv x) (fun _ => true) (analyze query usePrefilter)
      (analyze query usePrefilter) := by
    refine (Lockstep.of_invariant touched).analyze (reads.imp ?_ ?_) ?_
    · intro loaded x _ y _ first second
      exact loaded x y first.2 second.2
    · rintro populated x _ i classes methods ⟨rfl, holds⟩
      exact ⟨rfl, populated i classes methods holds⟩
    · rintro x _ ⟨rfl, _⟩ _
      rfl
  obtain ⟨_, _, _, holds⟩ := matched.whole ⟨rfl, holds⟩ arrives
  exact holds

/-- An analysis changes the population and what is open, and nothing else. -/
theorem analyze_outline {query usePrefilter : Value} {m n : Memory} {log log' : List Event} {r : Except Fault Selection}
    (arrives : (analyze query usePrefilter).Arrives (.recorded around) (m, log) r (n, log')) :
    n.outline = { m.outline with registries := n.registries } := by
  refine analyze_keeps (fun x => x.outline = { m.outline with registries := x.registries }) ?_ (.inr ?_) rfl arrives
  · intro f x touches holds
    rw [Memory.outline_touched touches, Memory.registries_touched touches, holds]
  · intro x i classes methods holds
    change x.outline.onRegistry i (Registry.load classes methods) = _
    rw [holds]
    rfl

theorem analyze_population {query usePrefilter : Value} {m n : Memory} {log log' : List Event} {r : Except Fault Selection}
    (loaded : (m.registry (number m.facade.registry)).loaded = true)
    (arrives : (analyze query usePrefilter).Arrives (.recorded around) (m, log) r (n, log')) : n.registries = m.registries := by
  refine (analyze_keeps (fun x => x.registries = m.registries ∧ x.facade = m.facade) ?_ (.inl ?_) ⟨rfl, rfl⟩ arrives).1
  · intro f x touches holds
    rw [Memory.registries_touched touches, Memory.facade_touched touches]
    exact holds
  · rintro x y ⟨_, sameFacade⟩ ⟨samePopulation, _⟩
    rw [sameFacade, Memory.registry, samePopulation]
    exact loaded

/-- An analysis leaves the facade as it was, with the settings that the next one goes by. -/
theorem analyze_facade {query usePrefilter : Value} {m n : Memory} {log log' : List Event} {r : Except Fault Selection}
    (arrives : (analyze query usePrefilter).Arrives (.recorded around) (m, log) r (n, log')) : n.facade = m.facade :=
  (congrArg Memory.facade (analyze_outline arrives) :)

end Facade

/-- One analysis: what is given to it, what it comes to, and what happens on its way. -/
structure Consultation where
  query : Value
  usePrefilter : Value
  result : Except Fault Selection
  trace : List Event

/-- The same analysis, with only a part of what happens on its way. -/
def Consultation.keeping (kept : Event → Bool) (c : Consultation) : Consultation := { c with trace := c.trace.filter kept }

/-- Analyses one after the other, each with what the one before it left. -/
inductive Facade.Consults (around : (question : Ask) → Except Fault question.Reply → Prop) :
    Memory → List Consultation → Memory → Prop
  | nil {m} : Consults around m [] m
  | cons {m n k} {c : Consultation} {rest : List Consultation} :
      (Facade.analyze c.query c.usePrefilter).Arrives (.recorded around) (m, []) c.result (n, c.trace) →
      Consults around n rest k → Consults around m (c :: rest) k

/-- From alike memories the same analyses may come, one after the other. -/
theorem Concord.consults (concord : Concord around alike kept) (populates : Repopulates alike)
    (facades : ∀ {m m'}, alike m m' → m.facade = m'.facade) {m m' n : Memory} {calls : List Consultation}
    (same : alike m m') (consults : Facade.Consults around m calls n) :
    ∃ calls' n', Facade.Consults around m' calls' n' ∧ alike n n' ∧
      calls'.map (Consultation.keeping kept) = calls.map (Consultation.keeping kept) := by
  induction consults generalizing m' with
  | nil => exact ⟨[], m', .nil, same, rfl⟩
  | @cons m n k c rest arrives _ ih =>
    have matched : Matched around alike kept (Facade.analyze c.query c.usePrefilter) (Facade.analyze c.query c.usePrefilter) := by
      refine concord.analyze c.query (.inr populates) fun x x' seen _ => ?_
      rw [facades seen]
      exact concord.analyzing _ _ _
    have abreast : Abreast alike kept (m, []) (m', []) := ⟨same, rfl⟩
    obtain ⟨⟨n', trace⟩, arrives', same', traces⟩ := matched abreast _ _ arrives
    obtain ⟨calls, k', consults, same'', alikeCalls⟩ := ih same'
    refine ⟨{ c with trace } :: calls, k', .cons arrives' consults, same'', ?_⟩
    have first : Consultation.keeping kept { c with trace } = c.keeping kept := by
      simp only [Consultation.keeping]
      rw [traces]
    rw [List.map_cons, List.map_cons, first, alikeCalls]

namespace Memory

/-- A memory without the usage that was reported, which nothing reads. -/
def unaccounted (m : Memory) : Memory := { m with completions := m.completions.map fun s => { s with usage := [] } }

theorem outline_unaccounted (m : Memory) : m.unaccounted.outline = m.outline := by
  simp [outline, unaccounted]

theorem unaccounted_touched {f : Memory → Memory} (touches : Facade.Touches f) {m m' : Memory}
    (same : m.unaccounted = m'.unaccounted) : (f m).unaccounted = (f m').unaccounted := by
  have opened (n : Nat) (x : Memory) : (x.onCompletion n fun s => { s with session := .open }).unaccounted =
      x.unaccounted.onCompletion n fun s => { s with session := .open } := by
    simp only [unaccounted, onCompletion, Memory.mk.injEq, true_and, and_true]
    refine List.ext_getElem? fun i => ?_
    simp only [List.getElem?_map, List.getElem?_modify]
    cases x.completions[i]? with
    | none => rfl
    | some s => by_cases here : n = i <;> simp [here]
  have used (n : Nat) (usage : List (String × Value)) (x : Memory) :
      (x.onCompletion n fun s => { s with usage }).unaccounted = x.unaccounted := by
    simp [unaccounted, onCompletion, map_modify_same]
  cases touches with
  | loaded n => exact congrArg (Memory.onEmbedding n fun s => { s with loaded := true }) same
  | opened n => rw [opened, opened, same]
  | used n usage => rw [used, used, same]

theorem unaccounted_lockstep : Lockstep fun m m' : Memory => m.unaccounted = m'.unaccounted where
  agrees {m m'} same := by
    refine .of_outline ?_
    rw [← outline_unaccounted m, same, outline_unaccounted]
  embeddings same := (congrArg Memory.embeddings same :)
  sessions {m m'} n same := by
    have kept (x : CompletionService) : ({ x with usage := [] } : CompletionService).session = x.session := rfl
    have sessions : (m.unaccounted.completion n).session = (m'.unaccounted.completion n).session := by rw [same]
    exact (outline_part m.completions n kept).symm.trans (sessions.trans (outline_part m'.completions n kept))
  touched touches same := unaccounted_touched touches same

end Memory

namespace Facade

/-- These analyses may come one after the other, of what happens on the way only what is kept. -/
def Expects (around : (question : Ask) → Except Fault question.Reply → Prop) (kept : Event → Bool) (m : Memory)
    (calls : List Consultation) : Prop :=
  ∃ made n, Consults around m made n ∧ made.map (Consultation.keeping kept) = calls

/-- What can be said of an analysis that is told whether to pre-filter. -/
structure Override (around : (question : Ask) → Except Fault question.Reply → Prop) (m : Memory) (query : Value)
    (b : Bool) : Prop where
  /-- It makes the calls and gives the result of one that is told nothing, where the facade is switched that way. -/
  equivalent : ∀ {r trace n}, (analyze query .null).Arrives (.recorded around) (m.switched b, []) r (n, trace) ↔
    ∃ m', (analyze query (.bool b)).Arrives (.recorded around) (m, []) r (m', trace) ∧ n = m'.switched b
  /-- The facade, and the settings of its analyzer with it, stay as they are. -/
  stays : ∀ {r trace n}, (analyze query (.bool b)).Arrives (.recorded around) (m, []) r (n, trace) → n.facade = m.facade
  /-- The same analyses may come after it as after one that was told nothing and found the same population, apart from
  when the model is loaded and a session is opened. -/
  later : Obliging around → ∀ {r r' trace trace' n n'},
    (analyze query (.bool b)).Arrives (.recorded around) (m, []) r (n, trace) →
    (analyze query .null).Arrives (.recorded around) (m, []) r' (n', trace') →
    (m.registry (number m.facade.registry)).loaded = true ∨ n.registries = n'.registries →
    ∀ calls, Expects around (!·.onFirstUse) n calls ↔ Expects around (!·.onFirstUse) n' calls
  /-- They do not even differ in that when both leave the same loaded and open. -/
  exactly : ∀ {r r' trace trace' n n'},
    (analyze query (.bool b)).Arrives (.recorded around) (m, []) r (n, trace) →
    (analyze query .null).Arrives (.recorded around) (m, []) r' (n', trace') → n.unaccounted = n'.unaccounted →
    ∀ calls, (∃ k, Consults around n calls k) ↔ ∃ k, Consults around n' calls k

theorem Expects.of_outline (obliging : Obliging around) {n n' : Memory} (same : n.outline = n'.outline) {calls : List Consultation}
    (expects : Expects around (!·.onFirstUse) n calls) : Expects around (!·.onFirstUse) n' calls := by
  obtain ⟨made, k, consults, rfl⟩ := expects
  have concord : Concord around (fun m m' : Memory => m.outline = m'.outline) (!·.onFirstUse) :=
    Memory.outline_concord obliging fun e opening => by simp [opening]
  obtain ⟨made', k', consults', _, alike⟩ := concord.consults Memory.outline_repopulates
    (fun same => (congrArg Memory.facade same :)) same consults
  exact ⟨made', k', consults', alike⟩

theorem Consults.of_unaccounted {n n' k : Memory} {calls : List Consultation} (consults : Consults around n calls k)
    (same : n.unaccounted = n'.unaccounted) : ∃ k, Consults around n' calls k := by
  have concord : Concord around (fun m m' : Memory => m.unaccounted = m'.unaccounted) fun _ => true :=
    Memory.unaccounted_lockstep.concord
  have populates : Repopulates fun m m' : Memory => m.unaccounted = m'.unaccounted :=
    fun i classes methods same => congrArg (Memory.onRegistry i (Registry.load classes methods)) same
  obtain ⟨made, k', consults', _, alike⟩ := concord.consults populates
    (fun same => (congrArg Memory.facade same :)) same consults
  have all : Consultation.keeping (fun _ => true) = id := by
    funext c
    have whole : c.trace.filter (fun _ => true) = c.trace := List.filter_eq_self.mpr fun _ _ => rfl
    simp only [Consultation.keeping, whole, id]
  rw [all, List.map_id, List.map_id] at alike
  exact ⟨k', alike ▸ consults'⟩

theorem Consults.facade {m n : Memory} {calls : List Consultation} (consults : Consults around m calls n) :
    n.facade = m.facade := by
  induction consults with
  | nil => rfl
  | cons arrives _ ih => exact ih.trans (analyze_facade arrives)

/-- An override is local and equivalent, whatever analyses the facade made before. -/
theorem analyze_override {m₀ m : Memory} {past : List Consultation} (serves : m₀.facade.Serves)
    (history : Consults around m₀ past m) (query : Value) (b : Bool) : Override around m query b where
  equivalent := analyze_switched (history.facade ▸ serves) query b
  stays := analyze_facade
  later obliging r r' trace trace' n n' overriding plain population calls := by
    have populations : n.registries = n'.registries := by
      rcases population with loaded | same
      · rw [analyze_population loaded overriding, analyze_population loaded plain]
      · exact same
    have same : n.outline = n'.outline := by
      rw [analyze_outline overriding, analyze_outline plain, populations]
    exact ⟨.of_outline obliging same, .of_outline obliging same.symm⟩
  exactly _ _ same calls := by
    constructor
    · rintro ⟨k, consults⟩
      exact consults.of_unaccounted same
    · rintro ⟨k, consults⟩
      exact consults.of_unaccounted same.symm

end Facade

/-- A connected facade over an empty population that was read. There is no key for the language model, and the
embedding model may be loaded or not. -/
def Memory.cold (loaded : Bool) : Memory :=
  { (default : Memory) with
    completions := [default]
    registries := [{ graph := none, classes := [], methods := [], loaded := true }]
    embeddings := [{ modelName := .str "tiny", device := .str "cpu", batchSize := 4, normalize := true,
                     queryPrefix := .str "query: ", documentPrefix := .str "passage: ", loaded }]
    facade := { (default : Facade) with
      embedding := some 0, completion := some 0, registry := some 0, connected := true
      funnel := some ⟨.bool true, .float 0.65, .int 30, .int 50, .int 50, .int 100, .int 20⟩ } }

/-- What is used for the first time can be opened, and everything else is answered in any way. -/
def willing (question : Ask) (reply : Except Fault question.Reply) : Prop :=
  question.onFirstUse = true → ∃ answer, reply = .ok answer

theorem willing_obliging : Obliging willing := fun _ _ opening => ⟨fun admitted => admitted opening, fun opened _ => opened⟩

theorem Memory.cold_serves (loaded : Bool) : (Memory.cold loaded).facade.Serves := fun _ => ⟨_, rfl, rfl⟩

namespace Facade

/-- An analysis that is told not to pre-filter needs no model. -/
def untouching : Consultation := ⟨.str "orders", .bool false, .ok .empty, []⟩

/-- An analysis that loads the model, which then cannot encode. -/
def warming : Consultation where
  query := .str "orders"
  usePrefilter := .null
  result := .ok .empty
  trace := [.hears (.loadModel (.str "tiny") (.str "cpu")) (.ok ()), .hears (.encode "query: orders" true) (.error .overflow)]

theorem untouching_arrives : (analyze untouching.query untouching.usePrefilter).Arrives (.recorded willing)
    (.cold false, []) untouching.result (.cold false, untouching.trace) :=
  ⟨_, rfl, _, rfl, _, rfl, _, rfl, _, rfl, rfl, rfl⟩

theorem warming_arrives : (analyze warming.query warming.usePrefilter).Arrives (.recorded willing)
    (.cold false, []) warming.result (.cold true, warming.trace) :=
  ⟨_, rfl, _, rfl, _, rfl, _, rfl, _, rfl, .ok (), _, ⟨fun _ => ⟨_, rfl⟩, rfl⟩, _, rfl, _, rfl,
    .error .overflow, _, ⟨nofun, rfl⟩, _, rfl, rfl, rfl⟩

/-- It is so of a facade whose model is not loaded yet, after an analysis that needed none. -/
theorem analyze_override_cold : (Memory.cold false).facade.Serves ∧ Consults willing (.cold false) [untouching] (.cold false) ∧
    Override willing (.cold false) (.str "orders") false ∧
    ∀ calls, Expects willing (!·.onFirstUse) (.cold false) calls ↔ Expects willing (!·.onFirstUse) (.cold true) calls := by
  have history : Consults willing (.cold false) [untouching] (.cold false) := .cons untouching_arrives .nil
  have override := analyze_override (Memory.cold_serves false) history (.str "orders") false
  exact ⟨Memory.cold_serves false, history, override, override.later willing_obliging untouching_arrives warming_arrives (.inl rfl)⟩

/-- The later analyses are not the same in every event: after the override the next one has to load the model, and
after the plain analysis, which loaded it, none can. -/
theorem analyze_override_warms : (Memory.cold false).facade.Serves ∧
    (analyze (.str "orders") (.bool false)).Arrives (.recorded willing) (.cold false, []) (.ok .empty) (.cold false, []) ∧
    (analyze (.str "orders") .null).Arrives (.recorded willing) (.cold false, []) (.ok .empty) (.cold true, warming.trace) ∧
    ((∃ k, Consults willing (.cold false) [warming] k) ∧ ¬∃ k, Consults willing (.cold true) [warming] k) := by
  refine ⟨Memory.cold_serves false, untouching_arrives, warming_arrives, ⟨_, .cons warming_arrives .nil⟩, ?_⟩
  rintro ⟨k, consults⟩
  cases consults with
  | cons arrives later =>
    -- The model is loaded, so the first event is the encoding; the recorded one is the loading.
    obtain ⟨_, rfl, _, rfl, _, rfl, _, rfl, _, rfl, _, rfl, reply, _, ⟨_, rfl⟩, rest⟩ := arrives
    obtain ⟨more, grown⟩ := rest.grows
    cases grown

end Facade

end CodeAtlas
