import CodeAtlas.Proofs.Crew.Diary

namespace CodeAtlas

/-- A question with its answer. -/
structure Exchange where
  question : Ask
  reply : Except Fault question.Reply

/-- What is asked. -/
def Deed.question? : Deed → Option Ask
  | .asks question => some question
  | _ => none

/-- What is answered, and to which question. -/
def Deed.exchange? : Deed → Option Exchange
  | .hears question reply => some ⟨question, reply⟩
  | _ => none

namespace Diary

def asked (d : Diary) : List Ask := d.filterMap fun entry => entry.2.question?

def heard (d : Diary) : List Exchange := d.filterMap fun entry => entry.2.exchange?

theorem asked_append (d d' : Diary) : Diary.asked (d ++ d') = d.asked ++ d'.asked := List.filterMap_append ..

theorem heard_append (d d' : Diary) : Diary.heard (d ++ d') = d.heard ++ d'.heard := List.filterMap_append ..

/-- No question is left without an answer. -/
def Answered (d : Diary) : Prop := d.asked = d.heard.map Exchange.question

theorem Answered.append {d d' : Diary} (first : d.Answered) (second : d'.Answered) : Diary.Answered (d ++ d') := by
  unfold Answered at first second ⊢
  rw [asked_append, heard_append, List.map_append, first, second]

end Diary

/-- For a request nothing is asked. -/
theorem Control.Goes.answered {cut : Prop} {s later : Moment} {request : Control} {reply : Except Fault request.Reply}
    {noted : Diary} (goes : request.Goes cut s reply noted later) : noted.Answered := by
  have nothing : Diary.Answered [] := rfl
  cases request with
  | now => exact goes.2.1 ▸ nothing
  | spawn | dispatch =>
    obtain ⟨n, _, rfl, _⟩ := goes
    rfl
  | join | shield | joinWorker | takePermit | gather => exact (show noted = [] from goes) ▸ nothing
  | pause | hasLoop | ended | cancel | givePermit => exact goes.1 ▸ nothing

/-- One who goes on has been answered. -/
theorem Routine.Path.answered {ω α : Type} {w : World ω} {cut : Prop} {p q : Routine α} {s s' : Moment} {log : Diary}
    (path : p.Path w cut s log q s') : log.Answered := by
  induction path with
  | refl => rfl
  | look _ ih => exact ih
  | store _ ih => exact Diary.Answered.append (d := [_]) rfl ih
  | ask _ _ ih => exact Diary.Answered.append (d := [_, _]) rfl ih
  | control goes _ ih => exact goes.answered.append ih

/-- Whoever is over has been answered. -/
theorem Shift.Reach.answered {ω : Type} {w : World ω} {callers : Routine Yield → Prop} {m : Memory} {world : ω} {hasLoop : Bool}
    {a : Shift ω} {k : Who} {h : Hand} {result : Except Fault Yield} (reach : Shift.Reach w callers m world hasLoop a)
    (found : a.crew.hand? k = some h) (isOver : h.station = .over result) : (a.crew.diary k).Answered := by
  obtain ⟨past, rounds, stands⟩ := reach.written.hands k h found
  have before : past.Answered := by
    clear stands
    induction rounds with
    | none => rfl
    | round _ _ path ih => exact ih.append (Diary.Answered.append (d := [_]) rfl path.answered)
  simp only [isOver] at stands
  rcases stands with ⟨_, _, same⟩ | ⟨_, _, _, _, log, _, _, diary, path⟩
  · exact same ▸ before
  · rw [diary, List.append_nil]
    exact before.append (Diary.Answered.append (d := [_]) rfl path.answered)

/-- What is relied on while others take their turns: how the memory stays, and how questions may be answered. -/
structure Terms where
  keeps : Memory → Prop
  answers : (question : Ask) → Except Fault question.Reply → Prop

/-- Whatever is answered, it is as may be relied on. -/
def World.Answers {ω : Type} (w : World ω) (t : Terms) : Prop :=
  ∀ question clock world, t.answers question (w.answer question clock world).reply

namespace Routine

variable {α β : Type} {t : Terms}

/-- However the memory changes and questions are answered on these terms, a routine ends with a result that suits what it
has heard. It asks only while it holds a permit. -/
def Hears (t : Terms) (ends : Prop) : (holds : Prop) → (List Exchange → Except Fault α → Prop) → Routine α → Prop
  | holds, post, .done result => (holds ↔ ends) ∧ post [] result
  | holds, post, .look next => ∀ m, t.keeps m → (next m).Hears t ends holds post
  | holds, post, .store m next => t.keeps m ∧ next.Hears t ends holds post
  | holds, post, .ask question next => holds ∧ ∀ reply, t.answers question reply →
      (next reply).Hears t ends holds fun heard => post (⟨question, reply⟩ :: heard)
  | holds, post, .control .takePermit next => ¬holds ∧ (next (.ok ())).Hears t ends True post
  | holds, post, .control .givePermit next => holds ∧ (next (.ok ())).Hears t ends False post
  | _, _, .control _ _ => False

/-- Nothing but the time is looked at before the end. -/
def Reads (ends : Except Fault Yield → Prop) : Routine Yield → Prop
  | .done result => ends result
  | .control .now next => ∀ time, (next (.ok time)).Reads ends
  | _ => False

namespace Hears

variable {holds mid ends : Prop} {post : List Exchange → Except Fault α → Prop} {post' : List Exchange → Except Fault β → Prop}

theorem andThen {p : Routine α} {f : Except Fault α → Routine β} (first : p.Hears t mid holds post)
    (rest : ∀ heard result, post heard result → (f result).Hears t ends mid fun later => post' (heard ++ later)) :
    (p.andThen f).Hears t ends holds post' := by
  induction p generalizing holds post post' with
  | done result =>
    obtain ⟨same, comes⟩ := first
    exact (propext same) ▸ rest [] result comes
  | look next ih => exact fun m kept => ih m (first m kept) rest
  | store m next ih => exact ⟨first.1, ih first.2 rest⟩
  | ask question next ih =>
    exact ⟨first.1, fun reply answered => ih reply (first.2 reply answered) fun heard result => rest (_ :: heard) result⟩
  | control request next ih =>
    cases request with
    | takePermit | givePermit => exact ⟨first.1, ih _ first.2 rest⟩
    | _ => exact first.elim

/-- What is at its end has heard all that it hears. -/
theorem ended {heard : List Exchange} {result : Except Fault α} (suits : post heard result) :
    (Routine.done result).Hears t ends ends fun later => post (heard ++ later) := by
  refine ⟨Iff.rfl, ?_⟩
  simpa only [List.append_nil] using suits

theorem imp {p : Routine α} {weaker : List Exchange → Except Fault α → Prop} (hears : p.Hears t ends holds post)
    (implies : ∀ heard result, post heard result → weaker heard result) : p.Hears t ends holds weaker := by
  rw [← andThen_done p]
  exact hears.andThen fun heard result suits => ended (implies heard result suits)

theorem bind {p : Routine α} {f : α → Routine β} (first : p.Hears t ends holds post)
    (value : ∀ heard a, post heard (.ok a) → (f a).Hears t ends ends fun later => post' (heard ++ later))
    (fault : ∀ heard fault, post heard (.error fault) → post' heard (.error fault)) :
    (p >>= f).Hears t ends holds post' := by
  refine first.andThen fun heard result suits => ?_
  cases result with
  | ok a => exact value heard a suits
  | error e => exact ended (fault heard e suits)

/-- What fails does so by an ordinary fault, and is dealt with. -/
theorem rescue {p : Routine α} {handler : Fault → Routine α} {suits : List Exchange → Except Fault α → Prop}
    (first : p.Hears t ends holds post) (value : ∀ heard a, post heard (.ok a) → suits heard (.ok a))
    (civil : ∀ heard fault, post heard (.error fault) → fault.ordinary = true)
    (handles : ∀ heard fault, post heard (.error fault) → (handler fault).Hears t ends ends fun later => suits (heard ++ later)) :
    (p.rescue handler).Hears t ends holds suits := by
  refine first.andThen fun heard result came => ?_
  cases result with
  | ok a => exact ended (value heard a came)
  | error fault =>
    dsimp only
    rw [if_pos (civil heard fault came)]
    exact handles heard fault came

/-- What follows a question. -/
theorem query_bind {question : Ask} {f : question.Reply → Routine β}
    (value : ∀ a, t.answers question (.ok a) → (f a).Hears t True True fun later => post' (⟨question, .ok a⟩ :: later))
    (fault : ∀ e, t.answers question (.error e) → post' [⟨question, .error e⟩] (.error e)) :
    (query question >>= f).Hears t True True post' := by
  refine ⟨trivial, fun reply answered => ?_⟩
  cases reply with
  | ok a => exact value a answered
  | error e => exact ⟨Iff.rfl, fault e answered⟩

theorem view_bind {f : Memory → α} {g : α → Routine β} (seen : ∀ m, t.keeps m → (g (f m)).Hears t ends holds post') :
    (view f >>= g).Hears t ends holds post' := seen

theorem change_bind {f : Memory → Memory} {g : Unit → Routine β} (kept : ∀ m, t.keeps m → t.keeps (f m))
    (rest : (g ()).Hears t ends holds post') : (change f >>= g).Hears t ends holds post' := fun m found => ⟨kept m found, rest⟩

/-- What is computed on the way asks nothing. -/
theorem compute_bind {result : Except Fault α} {f : α → Routine β} (value : ∀ a, result = .ok a → (f a).Hears t True True post')
    (fault : ∀ e, result = .error e → post' [] (.error e)) : ((liftM result : Routine α) >>= f).Hears t True True post' := by
  cases result with
  | ok a => exact value a rfl
  | error e => exact ⟨Iff.rfl, fault e rfl⟩

theorem ite {p q : Routine α} {b : Prop} [Decidable b] (yes : b → p.Hears t ends holds post) (no : ¬b → q.Hears t ends holds post) :
    (if b then p else q).Hears t ends holds post := by
  split
  next isSo => exact yes isSo
  next isNot => exact no isNot

end Hears

end Routine

end CodeAtlas
