import CodeAtlas.Ingestion
import CodeAtlas.Proofs.Turns.Charter

namespace CodeAtlas

/-- What a routine meets that nobody else disturbs: what it sees, what becomes of what it stores, and how it
is answered. -/
structure Regime (σ : Type) where
  sees : σ → Memory → Prop
  stores : Memory → σ → σ
  answers : (question : Ask) → Except Fault question.Reply → σ → σ → Prop
  grants : (request : Control) → Except Fault request.Reply → σ → σ → Prop

/-- One way through a routine: where it sets out, what it comes to, and where it arrives. -/
def Routine.Arrives {σ α : Type} (g : Regime σ) : Routine α → σ → Except Fault α → σ → Prop
  | .done result, s, r, s' => r = result ∧ s' = s
  | .look next, s, r, s' => ∃ m, g.sees s m ∧ (next m).Arrives g s r s'
  | .store m next, s, r, s' => next.Arrives g (g.stores m s) r s'
  | .ask question next, s, r, s' => ∃ reply t, g.answers question reply s t ∧ (next reply).Arrives g t r s'
  | .control request next, s, r, s' => ∃ reply t, g.grants request reply s t ∧ (next reply).Arrives g t r s'

/-- On one way through a routine a question is posed: where it sets out, the question, and where it is posed. -/
def Routine.Poses {σ α : Type} (g : Regime σ) : Routine α → σ → Ask → σ → Prop
  | .done _, _, _, _ => False
  | .look next, s, q, s' => ∃ m, g.sees s m ∧ (next m).Poses g s q s'
  | .store m next, s, q, s' => next.Poses g (g.stores m s) q s'
  | .ask question next, s, q, s' =>
    (question = q ∧ s = s') ∨ ∃ reply t, g.answers question reply s t ∧ (next reply).Poses g t q s'
  | .control request next, s, q, s' => ∃ reply t, g.grants request reply s t ∧ (next reply).Poses g t q s'

/-- There is a way through a routine, and every way through it ends as `post` says. -/
def Routine.Comes {σ α : Type} (g : Regime σ) (p : Routine α) (s : σ) (post : Except Fault α → σ → Prop) : Prop :=
  (∃ r s', p.Arrives g s r s') ∧ ∀ r s', p.Arrives g s r s' → post r s'

namespace Routine

variable {σ α β : Type} {g : Regime σ} {s s' : σ}

theorem Arrives.split {p : Routine α} {f : Except Fault α → Routine β} {r : Except Fault β}
    (arrives : (p.andThen f).Arrives g s r s') : ∃ mid t, p.Arrives g s mid t ∧ (f mid).Arrives g t r s' := by
  induction p generalizing s with
  | done result => exact ⟨result, s, ⟨rfl, rfl⟩, arrives⟩
  | look next ih =>
    obtain ⟨m, seen, arrives⟩ := arrives
    obtain ⟨mid, t, first, second⟩ := ih m arrives
    exact ⟨mid, t, ⟨m, seen, first⟩, second⟩
  | store m next ih => exact ih arrives
  | ask question next ih | control request next ih =>
    obtain ⟨reply, between, answered, arrives⟩ := arrives
    obtain ⟨mid, t, first, second⟩ := ih reply arrives
    exact ⟨mid, t, ⟨reply, between, answered, first⟩, second⟩

theorem Arrives.continues {p : Routine α} {f : Except Fault α → Routine β} {mid : Except Fault α} {t : σ}
    {r : Except Fault β} (first : p.Arrives g s mid t) (second : (f mid).Arrives g t r s') :
    (p.andThen f).Arrives g s r s' := by
  induction p generalizing s with
  | done =>
    obtain ⟨rfl, rfl⟩ := first
    exact second
  | look next ih =>
    obtain ⟨m, seen, first⟩ := first
    exact ⟨m, seen, ih m first⟩
  | store m next ih => exact ih first
  | ask question next ih | control request next ih =>
    obtain ⟨reply, between, answered, first⟩ := first
    exact ⟨reply, between, answered, ih reply first⟩

theorem arrives_andThen {p : Routine α} {f : Except Fault α → Routine β} {r : Except Fault β} :
    (p.andThen f).Arrives g s r s' ↔ ∃ mid t, p.Arrives g s mid t ∧ (f mid).Arrives g t r s' :=
  ⟨Arrives.split, fun ⟨_, _, first, second⟩ => first.continues second⟩

theorem poses_andThen {p : Routine α} {f : Except Fault α → Routine β} {q : Ask} :
    (p.andThen f).Poses g s q s' ↔ p.Poses g s q s' ∨ ∃ mid t, p.Arrives g s mid t ∧ (f mid).Poses g t q s' := by
  induction p generalizing s with
  | done result =>
    constructor
    · exact fun posed => .inr ⟨result, s, ⟨rfl, rfl⟩, posed⟩
    · rintro (posed | ⟨_, _, ⟨rfl, rfl⟩, posed⟩)
      · exact posed.elim
      · exact posed
  | look next ih =>
    simp only [andThen, Arrives, Poses, ih]
    constructor
    · rintro ⟨m, seen, first | ⟨mid, t, first, second⟩⟩
      · exact .inl ⟨m, seen, first⟩
      · exact .inr ⟨mid, t, ⟨m, seen, first⟩, second⟩
    · rintro (⟨m, seen, first⟩ | ⟨mid, t, ⟨m, seen, first⟩, second⟩)
      · exact ⟨m, seen, .inl first⟩
      · exact ⟨m, seen, .inr ⟨mid, t, first, second⟩⟩
  | store m next ih => simp only [andThen, Arrives, Poses, ih]
  | ask question next ih =>
    simp only [andThen, Arrives, Poses, ih]
    constructor
    · rintro (now | ⟨reply, t, answered, first | ⟨mid, u, first, second⟩⟩)
      · exact .inl (.inl now)
      · exact .inl (.inr ⟨reply, t, answered, first⟩)
      · exact .inr ⟨mid, u, ⟨reply, t, answered, first⟩, second⟩
    · rintro ((now | ⟨reply, t, answered, first⟩) | ⟨mid, u, ⟨reply, t, answered, first⟩, second⟩)
      · exact .inl now
      · exact .inr ⟨reply, t, answered, .inl first⟩
      · exact .inr ⟨reply, t, answered, .inr ⟨mid, u, first, second⟩⟩
  | control request next ih =>
    simp only [andThen, Arrives, Poses, ih]
    constructor
    · rintro ⟨reply, t, granted, first | ⟨mid, u, first, second⟩⟩
      · exact .inl ⟨reply, t, granted, first⟩
      · exact .inr ⟨mid, u, ⟨reply, t, granted, first⟩, second⟩
    · rintro (⟨reply, t, granted, first⟩ | ⟨mid, u, ⟨reply, t, granted, first⟩, second⟩)
      · exact ⟨reply, t, granted, .inl first⟩
      · exact ⟨reply, t, granted, .inr ⟨mid, u, first, second⟩⟩

/-- What is done in two steps ends with the fault of the first one, or as the second one does. -/
theorem arrives_bind {p : Routine α} {f : α → Routine β} {r : Except Fault β} :
    (p >>= f).Arrives g s r s' ↔ (∃ fault, p.Arrives g s (.error fault) s' ∧ r = .error fault) ∨
      ∃ a t, p.Arrives g s (.ok a) t ∧ (f a).Arrives g t r s' := by
  refine arrives_andThen.trans ⟨?_, ?_⟩
  · rintro ⟨mid, t, first, second⟩
    cases mid with
    | ok a => exact .inr ⟨a, t, first, second⟩
    | error fault =>
      obtain ⟨rfl, rfl⟩ := second
      exact .inl ⟨fault, first, rfl⟩
  · rintro (⟨fault, first, rfl⟩ | ⟨a, t, first, second⟩)
    · exact ⟨.error fault, s', first, rfl, rfl⟩
    · exact ⟨.ok a, t, first, second⟩

/-- What is done in two steps and ends well did so in both. -/
theorem Arrives.bind_ok {p : Routine α} {f : α → Routine β} {b : β} (arrives : (p >>= f).Arrives g s (.ok b) s') :
    ∃ a t, p.Arrives g s (.ok a) t ∧ (f a).Arrives g t (.ok b) s' := by
  rcases arrives_bind.mp arrives with ⟨_, _, ⟨⟩⟩ | steps
  exact steps

theorem Poses.bind {p : Routine α} {f : α → Routine β} {q : Ask} (poses : (p >>= f).Poses g s q s') :
    p.Poses g s q s' ∨ ∃ a t, p.Arrives g s (.ok a) t ∧ (f a).Poses g t q s' := by
  rcases poses_andThen.mp poses with first | ⟨r, t, first, second⟩
  · exact .inl first
  · cases r with
    | ok a => exact .inr ⟨a, t, first, second⟩
    | error => exact second.elim

/-- What is posed is allowed. -/
theorem Abides.poses {ch : Charter} {p : Routine α} {q : Ask} (abides : p.Abides ch) (keeps : ∀ m, ch.keeps m)
    (poses : p.Poses g s q s') : ch.asks q := by
  induction p generalizing s with
  | done => exact poses.elim
  | look next ih =>
    obtain ⟨m, _, later⟩ := poses
    exact ih m (abides m (keeps m)) later
  | store m next ih => exact ih abides.2 poses
  | ask question next ih =>
    rcases poses with ⟨rfl, _⟩ | ⟨reply, _, _, later⟩
    · exact abides.1
    · exact ih reply (abides.2 reply) later
  | control request next ih =>
    obtain ⟨reply, _, _, later⟩ := poses
    exact ih reply (abides.2 reply) later

theorem Arrives.seq {p : Routine α} {f : α → Routine β} {t : σ} {a : α} {r : Except Fault β}
    (first : p.Arrives g s (.ok a) t) (second : (f a).Arrives g t r s') : (p >>= f).Arrives g s r s' :=
  arrives_andThen.mpr ⟨.ok a, t, first, second⟩

theorem Arrives.stop {p : Routine α} (f : α → Routine β) {fault : Fault} (first : p.Arrives g s (.error fault) s') :
    (p >>= f).Arrives g s (.error fault) s' :=
  arrives_andThen.mpr ⟨.error fault, s', first, rfl, rfl⟩

theorem comes_done {result : Except Fault α} {post : Except Fault α → σ → Prop} (holds : post result s) :
    (done result).Comes g s post := by
  refine ⟨⟨result, s, rfl, rfl⟩, ?_⟩
  rintro r s' ⟨rfl, rfl⟩
  exact holds

theorem Comes.andThen {p : Routine α} {f : Except Fault α → Routine β} {mid : Except Fault α → σ → Prop}
    {post : Except Fault β → σ → Prop} (comes : p.Comes g s mid) (rest : ∀ r t, mid r t → (f r).Comes g t post) :
    (p.andThen f).Comes g s post := by
  obtain ⟨⟨r, t, first⟩, ends⟩ := comes
  obtain ⟨r', t', second⟩ := (rest r t (ends r t first)).1
  refine ⟨⟨r', t', arrives_andThen.mpr ⟨r, t, first, second⟩⟩, fun r s' arrives => ?_⟩
  obtain ⟨r, t, first, second⟩ := arrives_andThen.mp arrives
  exact (rest r t (ends r t first)).2 _ _ second

theorem Comes.bind {p : Routine α} {f : α → Routine β} {mid : Except Fault α → σ → Prop}
    {post : Except Fault β → σ → Prop} (comes : p.Comes g s mid) (value : ∀ a t, mid (.ok a) t → (f a).Comes g t post)
    (fault : ∀ e t, mid (.error e) t → post (.error e) t) : (p >>= f).Comes g s post := by
  refine comes.andThen fun r t holds => ?_
  cases r with
  | ok a => exact value a t holds
  | error e => exact comes_done (fault e t holds)

theorem Comes.imp {p : Routine α} {post post' : Except Fault α → σ → Prop} (comes : p.Comes g s post)
    (weaker : ∀ r t, post r t → post' r t) : p.Comes g s post' :=
  ⟨comes.1, fun r t arrives => weaker r t (comes.2 r t arrives)⟩

/-- What is computed on the way may be relied on. -/
theorem comes_compute {result : Except Fault α} {f : α → Routine β} {post : Except Fault β → σ → Prop}
    (value : ∀ a, result = .ok a → (f a).Comes g s post) (fault : ∀ e, result = .error e → post (.error e) s) :
    ((liftM result : Routine α) >>= f).Comes g s post := by
  cases result with
  | ok a => exact value a rfl
  | error e => exact comes_done (fault e rfl)

end Routine

/-- A routine that is alone with a memory: it sees what it stored, and gets answers that `around` admits. -/
def Regime.alone (around : (question : Ask) → Except Fault question.Reply → Prop) : Regime Memory where
  sees m m' := m' = m
  stores m _ := m
  answers question reply m m' := around question reply ∧ m' = m
  grants _ _ m m' := m' = m

namespace Routine

variable {α β : Type} {around : (question : Ask) → Except Fault question.Reply → Prop} {m : Memory}

theorem comes_look {next : Memory → Routine α} {post : Except Fault α → Memory → Prop}
    (rest : (next m).Comes (.alone around) m post) : (look next).Comes (.alone around) m post := by
  refine ⟨?_, ?_⟩
  · obtain ⟨r, m', arrives⟩ := rest.1
    exact ⟨r, m', m, rfl, arrives⟩
  · rintro r m' ⟨_, rfl, arrives⟩
    exact rest.2 r m' arrives

theorem comes_view_bind {f : Memory → α} {next : α → Routine β} {post : Except Fault β → Memory → Prop}
    (rest : (next (f m)).Comes (.alone around) m post) : (view f >>= next).Comes (.alone around) m post :=
  comes_look rest

theorem comes_change {f : Memory → Memory} {post : Except Fault Unit → Memory → Prop} (holds : post (.ok ()) (f m)) :
    (change f).Comes (.alone around) m post := comes_look (comes_done (g := .alone around) holds)

theorem comes_change_bind {f : Memory → Memory} {next : Unit → Routine β} {post : Except Fault β → Memory → Prop}
    (rest : (next ()).Comes (.alone around) (f m) post) : (change f >>= next).Comes (.alone around) m post :=
  comes_look rest

theorem comes_query_bind {question : Ask} {next : question.Reply → Routine β} {post : Except Fault β → Memory → Prop}
    (answered : ∃ reply, around question reply) (rest : ∀ reply, around question (.ok reply) → (next reply).Comes (.alone around) m post)
    (fault : ∀ e, around question (.error e) → post (.error e) m) :
    (query question >>= next).Comes (.alone around) m post := by
  have asked : (query question).Comes (.alone around) m fun reply m' => around question reply ∧ m' = m := by
    obtain ⟨reply, admitted⟩ := answered
    refine ⟨⟨reply, m, reply, m, ⟨admitted, rfl⟩, rfl, rfl⟩, ?_⟩
    rintro r m' ⟨reply, _, ⟨admitted, rfl⟩, rfl, rfl⟩
    exact ⟨admitted, rfl⟩
  refine asked.bind ?_ ?_
  · rintro reply _ ⟨admitted, rfl⟩
    exact rest reply admitted
  · rintro e _ ⟨admitted, rfl⟩
    exact fault e admitted

end Routine

end CodeAtlas
