import CodeAtlas.Ask
import CodeAtlas.Memory

namespace CodeAtlas

/-- A description of what the program does: it looks at its memory and changes it, asks what
surrounds it and the loop, and goes on with the answers until it is done. -/
inductive Routine (α : Type) where
  | done (result : Except Fault α)
  | look (next : Memory → Routine α)
  | store (memory : Memory) (next : Routine α)
  | ask (question : Ask) (next : Except Fault question.Reply → Routine α)
  | control (request : Control) (next : Except Fault request.Reply → Routine α)

namespace Routine

variable {α β : Type}

instance : Inhabited (Routine α) := ⟨.done (.error .cancelled)⟩

/-- Goes on with the result, be it a value or a fault. -/
def andThen : Routine α → (Except Fault α → Routine β) → Routine β
  | .done result, f => f result
  | .look next, f => .look fun m => (next m).andThen f
  | .store m next, f => .store m (next.andThen f)
  | .ask question next, f => .ask question fun r => (next r).andThen f
  | .control request next, f => .control request fun r => (next r).andThen f

def bind (p : Routine α) (f : α → Routine β) : Routine β :=
  p.andThen fun
    | .ok a => f a
    | .error fault => .done (.error fault)

instance : Monad Routine where
  pure a := .done (.ok a)
  bind := Routine.bind

/-- A fault ends a routine; what catches it is said where it is caught. -/
def fail (fault : Fault) : Routine α := .done (.error fault)

def ofExcept (result : Except Fault α) : Routine α := .done result

instance : MonadLift (Except Fault) Routine := ⟨ofExcept⟩

/-- The result of a routine, whatever it is. -/
def attempt (p : Routine α) : Routine (Except Fault α) :=
  p.andThen fun result => .done (.ok result)

/-- Goes on with the handler after an ordinary fault. Being cancelled or interrupted passes through. -/
def rescue (p : Routine α) (handler : Fault → Routine α) : Routine α :=
  p.andThen fun
    | .ok a => .done (.ok a)
    | .error fault => if fault.ordinary then handler fault else .done (.error fault)

/-- Does the last steps in any case; their own fault takes precedence. -/
def ensuring (p : Routine α) (last : Routine Unit) : Routine α :=
  p.andThen fun result => last.bind fun _ => .done result

/-- Asks what surrounds the program. -/
def query (question : Ask) : Routine question.Reply :=
  .ask question .done

/-- Asks the loop. -/
def request (c : Control) : Routine c.Reply :=
  .control c .done

/-- The time on the clock. -/
def now : Routine Float := request .now

def memory : Routine Memory := .look fun m => .done (.ok m)

/-- Looks at a part of the memory. -/
def view (f : Memory → α) : Routine α := .look fun m => .done (.ok (f m))

/-- Changes the memory. -/
def change (f : Memory → Memory) : Routine Unit := .look fun m => .store (f m) (.done (.ok ()))

theorem andThen_done (p : Routine α) : p.andThen .done = p := by
  induction p with
  | done result => rfl
  | look next ih => simp only [andThen, ih]
  | store m next ih => simp only [andThen, ih]
  | ask question next ih => simp only [andThen, ih]
  | control request next ih => simp only [andThen, ih]

theorem andThen_assoc {γ : Type} (p : Routine α) (f : Except Fault α → Routine β)
    (g : Except Fault β → Routine γ) :
    (p.andThen f).andThen g = p.andThen fun r => (f r).andThen g := by
  induction p with
  | done result => rfl
  | look next ih => simp only [andThen, ih]
  | store m next ih => simp only [andThen, ih]
  | ask question next ih => simp only [andThen, ih]
  | control request next ih => simp only [andThen, ih]

/-- A property that a routine has when it is over, and when each of the two has it that are done in turn. -/
structure Composes (P : (α : Type) → Routine α → Prop) : Prop where
  done {α : Type} (result : Except Fault α) : P α (.done result)
  andThen {α β : Type} {p : Routine α} {f : Except Fault α → Routine β} :
    P α p → (∀ result, P β (f result)) → P β (p.andThen f)

namespace Composes

variable {P : (α : Type) → Routine α → Prop} {p : Routine α}

theorem bind {f : α → Routine β} (composes : Composes P) (first : P α p) (rest : ∀ a, P β (f a)) : P β (p >>= f) := by
  refine composes.andThen first fun result => ?_
  cases result with
  | ok a => exact rest a
  | error => exact composes.done _

theorem rescue {handler : Fault → Routine α} (composes : Composes P) (first : P α p)
    (handles : ∀ fault, P α (handler fault)) : P α (p.rescue handler) := by
  refine composes.andThen first fun result => ?_
  cases result with
  | ok => exact composes.done _
  | error fault =>
    dsimp only
    split
    · exact handles fault
    · exact composes.done _

theorem ensuring {last : Routine Unit} (composes : Composes P) (first : P α p) (ends : P Unit last) :
    P α (p.ensuring last) :=
  composes.andThen first fun result => composes.bind ends fun _ => composes.done result

end Composes

end Routine

end CodeAtlas
