import CodeAtlas.Proofs.Turns.Runs

namespace CodeAtlas

/-- What everybody holds to: what they find in the memory and leave there, what they ask, and what they
request of the loop. -/
structure Charter where
  keeps : Memory → Prop
  asks : Ask → Prop
  requests : Control → Prop

namespace Routine

variable {α β : Type} {ch : Charter}

/-- A routine holds to a charter, whatever it is answered, as long as the memory is found as it should be. -/
def Abides (ch : Charter) : Routine α → Prop
  | .done _ => True
  | .look next => ∀ m, ch.keeps m → Abides ch (next m)
  | .store m next => ch.keeps m ∧ Abides ch next
  | .ask question next => ch.asks question ∧ ∀ reply, Abides ch (next reply)
  | .control request next => ch.requests request ∧ ∀ reply, Abides ch (next reply)

namespace Abides

theorem done (result : Except Fault α) : (Routine.done result).Abides ch := trivial

theorem pure (a : α) : (Pure.pure a : Routine α).Abides ch := trivial

theorem fail (fault : Fault) : (Routine.fail fault : Routine α).Abides ch := trivial

theorem ofExcept (result : Except Fault α) : (Routine.ofExcept result).Abides ch := trivial

theorem andThen {p : Routine α} {f : Except Fault α → Routine β} (abides : p.Abides ch)
    (rest : ∀ result, (f result).Abides ch) : (p.andThen f).Abides ch := by
  induction p with
  | done result => exact rest result
  | look next ih => exact fun m kept => ih m (abides m kept)
  | store m next ih => exact ⟨abides.1, ih abides.2⟩
  | ask question next ih => exact ⟨abides.1, fun reply => ih reply (abides.2 reply)⟩
  | control request next ih => exact ⟨abides.1, fun reply => ih reply (abides.2 reply)⟩

theorem composes : Composes fun _ p => p.Abides ch := ⟨done, andThen⟩

theorem bind {p : Routine α} {f : α → Routine β} (abides : p.Abides ch) (rest : ∀ a, (f a).Abides ch) :
    (p >>= f).Abides ch :=
  composes.bind abides rest

/-- What is computed on the way may be relied on. -/
theorem compute {result : Except Fault α} {f : α → Routine β} (rest : ∀ a, result = .ok a → (f a).Abides ch) :
    (Routine.ofExcept result >>= f).Abides ch := by
  cases result with
  | ok a => exact rest a rfl
  | error => exact done _

theorem rescue {p : Routine α} {handler : Fault → Routine α} (abides : p.Abides ch)
    (handles : ∀ fault, (handler fault).Abides ch) : (p.rescue handler).Abides ch :=
  composes.rescue abides handles

theorem ensuring {p : Routine α} {last : Routine Unit} (abides : p.Abides ch) (ends : last.Abides ch) :
    (p.ensuring last).Abides ch :=
  composes.ensuring abides ends

/-- What is seen of a memory may be relied on. -/
theorem view {f : Memory → α} {g : α → Routine β} (rest : ∀ m, ch.keeps m → (g (f m)).Abides ch) :
    (Routine.view f >>= g).Abides ch := rest

theorem change {f : Memory → Memory} (kept : ∀ m, ch.keeps m → ch.keeps (f m)) : (Routine.change f).Abides ch :=
  fun m holds => ⟨kept m holds, trivial⟩

theorem query {question : Ask} (allowed : ch.asks question) : (Routine.query question).Abides ch :=
  ⟨allowed, fun _ => trivial⟩

theorem request {c : Control} (allowed : ch.requests c) : (Routine.request c).Abides ch :=
  ⟨allowed, fun _ => trivial⟩

theorem ite {p q : Routine α} {b : Prop} [Decidable b] (yes : b → p.Abides ch) (no : ¬b → q.Abides ch) :
    (if b then p else q).Abides ch := by
  split
  next holds => exact yes holds
  next fails => exact no fails

end Abides

/-- In a run that finds the memory as it should be, only what is allowed is asked. -/
theorem Runs.asked {p : Routine α} {log : List Event} {result : Except Fault α} (runs : p.Runs log result)
    (abides : p.Abides ch) (kept : ∀ m, .sees m ∈ log → ch.keeps m) {question : Ask}
    {reply : Except Fault question.Reply} (heard : .hears question reply ∈ log) : ch.asks question := by
  induction p generalizing log with
  | done =>
    obtain ⟨rfl, _⟩ := runs_done.mp runs
    cases heard
  | look next ih =>
    cases runs with
    | look runs =>
      have abides' := abides _ (kept _ (List.mem_cons_self ..))
      exact ih _ runs abides' (fun m seen => kept m (List.mem_cons_of_mem _ seen)) ((List.mem_cons.mp heard).resolve_left nofun)
  | store m next ih =>
    cases runs with
    | store runs =>
      exact ih runs abides.2 (fun m seen => kept m (List.mem_cons_of_mem _ seen)) ((List.mem_cons.mp heard).resolve_left nofun)
  | ask asked next ih =>
    cases runs with
    | ask runs =>
      rcases List.mem_cons.mp heard with ⟨⟨⟩⟩ | later
      · exact abides.1
      · exact ih _ runs (abides.2 _) (fun m seen => kept m (List.mem_cons_of_mem _ seen)) later
  | control request next ih =>
    cases runs with
    | control _ runs =>
      exact ih _ runs (abides.2 _) (fun m seen => kept m (List.mem_cons_of_mem _ seen))
        ((List.mem_cons.mp heard).resolve_left nofun)

end Routine

end CodeAtlas
