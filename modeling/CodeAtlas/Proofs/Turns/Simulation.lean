import CodeAtlas.Proofs.Turns.Regime
import CodeAtlas.Proofs.Turns.Runs

namespace CodeAtlas

/-- A routine that is alone with a memory, as in `Regime.alone`, with a record of what it is answered and granted. -/
def Regime.recorded (around : (question : Ask) → Except Fault question.Reply → Prop) : Regime (Memory × List Event) where
  sees s m := m = s.1
  stores m s := (m, s.2)
  answers question reply s s' := around question reply ∧ s' = (s.1, s.2 ++ [.hears question reply])
  grants request reply s s' := Control.Answers request reply ∧ s' = (s.1, s.2 ++ [.granted request reply])

/-- Memories that are alike, with records that are the same apart from what is left out. -/
def Abreast (alike : Memory → Memory → Prop) (kept : Event → Bool) (s s' : Memory × List Event) : Prop :=
  alike s.1 s'.1 ∧ s.2.filter kept = s'.2.filter kept

/-- For every way through the one routine there is one through the other that keeps abreast of it and has the same
result. -/
def Routine.Matched {α : Type} (around : (question : Ask) → Except Fault question.Reply → Prop)
    (alike : Memory → Memory → Prop) (kept : Event → Bool) (p p' : Routine α) : Prop :=
  ∀ ⦃s s'⦄, Abreast alike kept s s' → ∀ r t, p.Arrives (.recorded around) s r t →
    ∃ t', p'.Arrives (.recorded around) s' r t' ∧ Abreast alike kept t t'

variable {α β : Type} {around : (question : Ask) → Except Fault question.Reply → Prop} {alike : Memory → Memory → Prop}
  {kept : Event → Bool} {s s' : Memory × List Event}

theorem Abreast.note (abreast : Abreast alike kept s s') (e : Event) :
    Abreast alike kept (s.1, s.2 ++ [e]) (s'.1, s'.2 ++ [e]) := by
  refine ⟨abreast.1, ?_⟩
  simp only [List.filter_append, abreast.2]

namespace Routine

namespace Matched

theorem done (result : Except Fault α) : Matched around alike kept (.done result) (.done result) := by
  rintro s s' abreast _ _ ⟨rfl, rfl⟩
  exact ⟨s', ⟨rfl, rfl⟩, abreast⟩

theorem pure (a : α) : Matched around alike kept (Pure.pure a) (Pure.pure a) := done _

theorem fail (fault : Fault) : Matched around alike kept (Routine.fail fault : Routine α) (Routine.fail fault) := done _

theorem ofExcept (result : Except Fault α) : Matched around alike kept (Routine.ofExcept result) (Routine.ofExcept result) :=
  done result

theorem look {next next' : Memory → Routine α} (rest : ∀ m m', alike m m' → Matched around alike kept (next m) (next' m')) :
    Matched around alike kept (.look next) (.look next') := by
  rintro s s' abreast r t ⟨_, rfl, arrives⟩
  obtain ⟨t', arrives', abreast'⟩ := rest _ _ abreast.1 abreast r t arrives
  exact ⟨t', ⟨_, rfl, arrives'⟩, abreast'⟩

theorem andThen {p p' : Routine α} {f f' : Except Fault α → Routine β} (matched : Matched around alike kept p p')
    (rest : ∀ result, Matched around alike kept (f result) (f' result)) :
    Matched around alike kept (p.andThen f) (p'.andThen f') := by
  intro s s' abreast r t arrives
  obtain ⟨mid, u, first, second⟩ := arrives_andThen.mp arrives
  obtain ⟨u', first', abreast'⟩ := matched abreast mid u first
  obtain ⟨t', second', abreast''⟩ := rest mid abreast' r t second
  exact ⟨t', arrives_andThen.mpr ⟨mid, u', first', second'⟩, abreast''⟩

theorem bind {p p' : Routine α} {f f' : α → Routine β} (matched : Matched around alike kept p p')
    (rest : ∀ a, Matched around alike kept (f a) (f' a)) : Matched around alike kept (p >>= f) (p' >>= f') := by
  refine matched.andThen fun result => ?_
  cases result with
  | ok a => exact rest a
  | error => exact done _

theorem rescue {p p' : Routine α} {handler handler' : Fault → Routine α} (matched : Matched around alike kept p p')
    (handles : ∀ fault, Matched around alike kept (handler fault) (handler' fault)) :
    Matched around alike kept (p.rescue handler) (p'.rescue handler') := by
  refine matched.andThen fun result => ?_
  cases result with
  | ok => exact done _
  | error fault =>
    dsimp only
    split
    · exact handles fault
    · exact done _

/-- What is seen of alike memories may differ, as long as what is made of it is matched. -/
theorem view {γ : Type} {f : Memory → α} {f' : Memory → γ} {next : α → Routine β} {next' : γ → Routine β}
    (rest : ∀ m m', alike m m' → Matched around alike kept (next (f m)) (next' (f' m'))) :
    Matched around alike kept (Routine.view f >>= next) (Routine.view f' >>= next') := look rest

/-- What is seen of alike memories is the same, where it is the same of each two of them. -/
theorem viewed {f : Memory → α} (same : ∀ m m', alike m m' → f m = f m') :
    Matched around alike kept (Routine.view f) (Routine.view f) :=
  look fun m m' seen => same m m' seen ▸ done _

theorem change {f f' : Memory → Memory} (still : ∀ m m', alike m m' → alike (f m) (f' m')) :
    Matched around alike kept (Routine.change f) (Routine.change f') := by
  rintro s s' abreast _ _ ⟨_, rfl, rfl, rfl⟩
  exact ⟨_, ⟨_, rfl, rfl, rfl⟩, still _ _ abreast.1, abreast.2⟩

theorem query (question : Ask) : Matched around alike kept (Routine.query question) (Routine.query question) := by
  rintro s s' abreast _ _ ⟨reply, _, ⟨admitted, rfl⟩, rfl, rfl⟩
  exact ⟨_, ⟨_, _, ⟨admitted, rfl⟩, rfl, rfl⟩, abreast.note _⟩

theorem request (asked : Control) : Matched around alike kept (Routine.request asked) (Routine.request asked) := by
  rintro s s' abreast _ _ ⟨reply, _, ⟨answers, rfl⟩, rfl, rfl⟩
  exact ⟨_, ⟨_, _, ⟨answers, rfl⟩, rfl, rfl⟩, abreast.note _⟩

theorem ite {p q p' q' : Routine α} {b : Prop} [Decidable b] (yes : b → Matched around alike kept p p')
    (no : ¬b → Matched around alike kept q q') :
    Matched around alike kept (if b then p else q) (if b then p' else q') := by
  split
  next holds => exact yes holds
  next fails => exact no fails

/-- Where nothing that is kept happens, only what becomes of the memory matters. -/
theorem quiet {p : Routine α} {a : α} {f : Memory → Memory}
    (quiet : ∀ s, p.Comes (.recorded around) s fun r t => r = .ok a ∧ t.1 = f s.1 ∧ t.2.filter kept = s.2.filter kept)
    (still : ∀ m m', alike m m' → alike (f m) (f m')) : Matched around alike kept p p := by
  intro s s' abreast r t arrives
  obtain ⟨rfl, changed, silent⟩ := (quiet s).2 r t arrives
  obtain ⟨⟨r', t', arrives'⟩, ends⟩ := quiet s'
  obtain ⟨rfl, changed', silent'⟩ := ends r' t' arrives'
  refine ⟨t', arrives', ?_, ?_⟩
  · rw [changed, changed']
    exact still _ _ abreast.1
  · rw [silent, silent', abreast.2]

/-- Where all that happens is kept, the records are the same. -/
theorem whole {p p' : Routine α} {m m' n : Memory} {log log' : List Event} {r : Except Fault α}
    (matched : Matched around alike (fun _ => true) p p') (same : alike m m')
    (arrives : p.Arrives (.recorded around) (m, log) r (n, log')) :
    ∃ n', p'.Arrives (.recorded around) (m', log) r (n', log') ∧ alike n n' := by
  have abreast : Abreast alike (fun _ => true) (m, log) (m', log) := ⟨same, rfl⟩
  obtain ⟨⟨n', log''⟩, arrives', same', logs⟩ := matched abreast r _ arrives
  have all (log : List Event) : log.filter (fun _ => true) = log := List.filter_eq_self.mpr fun _ _ => rfl
  obtain rfl : log' = log'' := (all log').symm.trans (logs.trans (all log''))
  exact ⟨n', arrives', same'⟩

end Matched

/-- What everybody keeps to is found at the end, too. -/
theorem Abides.arrives {ch : Charter} {p : Routine α} {r : Except Fault α} {t : Memory × List Event} (abides : p.Abides ch)
    (kept : ch.keeps s.1) (arrives : p.Arrives (.recorded around) s r t) : ch.keeps t.1 := by
  induction p generalizing s with
  | done =>
    obtain ⟨_, rfl⟩ := arrives
    exact kept
  | look next ih =>
    obtain ⟨_, rfl, arrives⟩ := arrives
    exact ih _ (abides _ kept) kept arrives
  | store m next ih => exact ih abides.2 abides.1 arrives
  | ask question next ih | control request next ih =>
    obtain ⟨reply, _, ⟨_, rfl⟩, arrives⟩ := arrives
    refine ih reply (abides.2 reply) ?_ arrives
    exact kept

/-- Nothing is struck from the record. -/
theorem Arrives.grows {p : Routine α} {r : Except Fault α} {t : Memory × List Event}
    (arrives : p.Arrives (.recorded around) s r t) : ∃ more, t.2 = s.2 ++ more := by
  induction p generalizing s with
  | done =>
    obtain ⟨_, rfl⟩ := arrives
    exact ⟨[], (List.append_nil _).symm⟩
  | look next ih =>
    obtain ⟨_, _, arrives⟩ := arrives
    exact ih _ arrives
  | store m next ih => exact ih (s := (m, s.2)) arrives
  | ask question next ih | control request next ih =>
    obtain ⟨reply, _, ⟨_, rfl⟩, arrives⟩ := arrives
    obtain ⟨more, grown⟩ := ih reply arrives
    exact ⟨_ :: more, by rw [grown, List.append_assoc, List.singleton_append]⟩

/-- Whatever is heard on a way is an answer that is admitted. -/
theorem Arrives.admitted {p : Routine α} {r : Except Fault α} {t : Memory × List Event}
    (arrives : p.Arrives (.recorded around) s r t) (question : Ask) (reply : Except Fault question.Reply)
    (heard : .hears question reply ∈ t.2) : .hears question reply ∈ s.2 ∨ around question reply := by
  induction p generalizing s with
  | done =>
    obtain ⟨_, rfl⟩ := arrives
    exact .inl heard
  | look next ih =>
    obtain ⟨_, _, arrives⟩ := arrives
    exact ih _ arrives
  | store m next ih => exact ih (s := (m, s.2)) arrives
  | ask question' next ih =>
    obtain ⟨reply', _, ⟨admitted, rfl⟩, arrives⟩ := arrives
    refine (ih reply' arrives).elim (fun old => ?_) .inr
    rcases List.mem_append.mp old with old | new
    · exact .inl old
    · cases List.mem_singleton.mp new
      exact .inr admitted
  | control request next ih =>
    obtain ⟨reply', _, ⟨_, rfl⟩, arrives⟩ := arrives
    refine (ih reply' arrives).imp (fun old => ?_) id
    rcases List.mem_append.mp old with old | new
    · exact old
    · cases List.mem_singleton.mp new

section

variable {q : Ask} {m : Memory} {log : List Event} {t : Memory × List Event}

theorem arrives_view_bind {f : Memory → α} {next : α → Routine β} {r : Except Fault β}
    (arrives : (view f >>= next).Arrives (.recorded around) (m, log) r t) :
    (next (f m)).Arrives (.recorded around) (m, log) r t := by
  obtain ⟨_, rfl, arrives⟩ := arrives
  exact arrives

theorem arrives_query_bind {question : Ask} {f : question.Reply → Routine α} {r : Except Fault α}
    (arrives : (query question >>= f).Arrives (.recorded around) (m, log) r t) :
    (∃ fault, around question (.error fault) ∧ r = .error fault ∧ t = (m, log ++ [.hears question (.error fault)])) ∨
    ∃ a, around question (.ok a) ∧ (f a).Arrives (.recorded around) (m, log ++ [.hears question (.ok a)]) r t := by
  obtain ⟨reply, _, ⟨admitted, rfl⟩, arrives⟩ := arrives
  cases reply with
  | error fault =>
    obtain ⟨rfl, rfl⟩ := arrives
    exact .inl ⟨fault, admitted, rfl, rfl⟩
  | ok a => exact .inr ⟨a, admitted, arrives⟩

end

end Routine

/-- Reading the clock does not fail. -/
def Control.Timely : (request : Control) → Except Fault request.Reply → Prop
  | .now, .error _ => False
  | _, _ => True

/-- The same regime, with a clock that can always be read. -/
def Regime.clocked {σ : Type} (g : Regime σ) : Regime σ :=
  { g with grants := fun request reply s s' => g.grants request reply s s' ∧ request.Timely reply }

theorem Control.exists_timely (request : Control) : ∃ reply, Control.Answers request reply ∧ request.Timely reply := by
  cases request with
  | now => exact ⟨.ok (0 : Float), .alone (by simp), trivial⟩
  | gather permits jobs => exact ⟨.error .cancelled, .stopped, trivial⟩
  | _ => exact ⟨.error .cancelled, .alone (by simp), trivial⟩

namespace Routine

theorem Arrives.of_clocked {σ : Type} {g : Regime σ} {p : Routine α} {s t : σ} {r : Except Fault α}
    (arrives : p.Arrives g.clocked s r t) : p.Arrives g s r t := by
  induction p generalizing s with
  | done => exact arrives
  | look next ih =>
    obtain ⟨m, seen, arrives⟩ := arrives
    exact ⟨m, seen, ih m arrives⟩
  | store m next ih => exact ih arrives
  | ask question next ih =>
    obtain ⟨reply, u, answered, arrives⟩ := arrives
    exact ⟨reply, u, answered, ih reply arrives⟩
  | control request next ih =>
    obtain ⟨reply, u, ⟨granted, _⟩, arrives⟩ := arrives
    exact ⟨reply, u, granted, ih reply arrives⟩

/-- Where every question gets some answer, there is a way through every routine. -/
theorem exists_arrives (answers : ∀ question, ∃ reply, around question reply) (p : Routine α) (s : Memory × List Event) :
    ∃ r t, p.Arrives (Regime.recorded around).clocked s r t := by
  induction p generalizing s with
  | done result => exact ⟨result, s, rfl, rfl⟩
  | look next ih =>
    obtain ⟨r, t, arrives⟩ := ih s.1 s
    exact ⟨r, t, s.1, rfl, arrives⟩
  | store m next ih => exact ih _
  | ask question next ih =>
    obtain ⟨reply, admitted⟩ := answers question
    obtain ⟨r, t, arrives⟩ := ih reply (s.1, s.2 ++ [.hears question reply])
    exact ⟨r, t, reply, _, ⟨admitted, rfl⟩, arrives⟩
  | control request next ih =>
    obtain ⟨reply, granted, timely⟩ := request.exists_timely
    obtain ⟨r, t, arrives⟩ := ih reply (s.1, s.2 ++ [.granted request reply])
    exact ⟨r, t, reply, _, ⟨⟨granted, rfl⟩, timely⟩, arrives⟩

end Routine

end CodeAtlas
