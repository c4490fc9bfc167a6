import CodeAtlas.Proofs.Turns.Guarded

namespace CodeAtlas

/-- What a routine may do: what it finds in the memory and leaves there, how it changes the memory, and
what it asks. -/
structure Bounds where
  keeps : Memory → Prop
  writes : Memory → Memory → Prop
  asks : Ask → Prop

namespace Routine

variable {α β : Type} {b : Bounds} {m : Memory}

/-- From a memory on, a routine keeps to its bounds as long as the others leave the memory as they should. -/
def KeepsTo (b : Bounds) : Routine α → Memory → Prop
  | .done _, _ => True
  | .look next, m => KeepsTo b (next m) m
  | .store m' next, m => b.keeps m' ∧ b.writes m m' ∧ KeepsTo b next m'
  | .ask question next, _ => b.asks question ∧ ∀ reply m', b.keeps m' → KeepsTo b (next reply) m'
  | .control _ next, _ => ∀ reply m', b.keeps m' → KeepsTo b (next reply) m'

def Within (b : Bounds) (p : Routine α) : Prop := ∀ m, b.keeps m → p.KeepsTo b m

theorem KeepsTo.andThen {p : Routine α} {f : Except Fault α → Routine β} (keepsTo : p.KeepsTo b m) (kept : b.keeps m)
    (rest : ∀ result, (f result).Within b) : (p.andThen f).KeepsTo b m := by
  induction p generalizing m with
  | done result => exact rest result m kept
  | look next ih => exact ih m keepsTo kept
  | store m' next ih => exact ⟨keepsTo.1, keepsTo.2.1, ih keepsTo.2.2 keepsTo.1⟩
  | ask question next ih => exact ⟨keepsTo.1, fun reply m' kept' => ih reply (keepsTo.2 reply m' kept') kept'⟩
  | control request next ih => exact fun reply m' kept' => ih reply (keepsTo reply m' kept') kept'

namespace Within

theorem andThen {p : Routine α} {f : Except Fault α → Routine β} (within : p.Within b)
    (rest : ∀ result, (f result).Within b) : (p.andThen f).Within b :=
  fun m kept => (within m kept).andThen kept rest

theorem done (result : Except Fault α) : (Routine.done result).Within b := fun _ _ => trivial

theorem composes : Composes fun _ p => p.Within b := ⟨done, andThen⟩

theorem bind {p : Routine α} {f : α → Routine β} (within : p.Within b) (rest : ∀ a, (f a).Within b) :
    (p >>= f).Within b :=
  composes.bind within rest

theorem rescue {p : Routine α} {handler : Fault → Routine α} (within : p.Within b)
    (handles : ∀ fault, (handler fault).Within b) : (p.rescue handler).Within b :=
  composes.rescue within handles

theorem look {next : Memory → Routine α} (rest : ∀ m, b.keeps m → (next m).Within b) :
    (Routine.look next).Within b := fun m kept => rest m kept m kept

theorem view (f : Memory → α) : (view f).Within b := fun _ _ => trivial

theorem change {f : Memory → Memory} (kept : ∀ m, b.keeps m → b.keeps (f m))
    (writes : ∀ m, b.keeps m → b.writes m (f m)) : (change f).Within b :=
  fun m holds => ⟨kept m holds, writes m holds, trivial⟩

theorem query {question : Ask} (allowed : b.asks question) : (query question).Within b :=
  fun _ _ => ⟨allowed, fun _ _ _ => trivial⟩

theorem request (c : Control) : (request c).Within b := fun _ _ _ _ _ => trivial

end Within

end Routine

/-- Besides an invariant, what holds of all tasks (`ours`) and of one that is on its turn (`mine`) is kept
by each step of a routine that keeps to its bounds. -/
structure Frame (k : Who) (b : Bounds) (mine ours : Scene → Prop) : Prop where
  leaves : ∀ {s}, mine s → b.keeps s.memory
  shares : ∀ {s}, mine s → ours s
  store : ∀ {s memory}, mine s → b.keeps memory → b.writes s.memory memory → mine (s.store k memory)
  exchange : ∀ {s question} reply, mine s → b.asks question → question.prompt = true → mine (s.exchange k question reply)
  ask : ∀ {s question} rest, mine s → b.asks question → question.prompt = false → ours (s.ask k question rest)
  hear : ∀ {s t s' question} reply, mine s → s.task? k = some t → ours s' → s'.Carries k t.origin →
    s'.Asks k question → b.asks question → question.prompt = false → mine (s'.hear k question reply)
  grant : ∀ {s request reply s'}, mine s → s.Grants k request reply s' → mine s'
  wait : ∀ {s} request rest, mine s → ours (s.wait k request rest)
  resume : ∀ {s t s' request}, mine s → s.task? k = some t → ours s' → s'.Carries k t.origin → s'.Waits k request →
    mine (s'.resume k)

/-- What a routine does not touch holds beside what it obeys. -/
theorem Routine.Obeys.frame {α : Type} {inv mine ours : Scene → Prop} {k : Who} {b : Bounds}
    {p : Routine α} {post : Except Fault α → Scene → Prop} {s : Scene}
    (obeys : p.Obeys inv k post s) (frame : Frame k b mine ours) (within : p.Within b) (own : mine s) :
    p.Obeys (fun s => inv s ∧ ours s) k (fun result s' => post result s' ∧ mine s') s := by
  replace within := within s.memory (frame.leaves own)
  induction p generalizing s with
  | done result => exact ⟨obeys, own⟩
  | look next ih => exact ih _ obeys own within
  | store memory next ih =>
    have own' := frame.store own within.1 within.2.1
    exact ⟨⟨obeys.1, frame.shares own'⟩, ih obeys.2 own' within.2.2⟩
  | ask question next ih =>
    obtain ⟨allowed, rest⟩ := within
    refine ⟨fun prompt reply admitted => ?_, fun slow => ⟨fun next => ?_, ?_⟩⟩
    · have step := obeys.1 prompt reply admitted
      have own' := frame.exchange reply own allowed prompt
      exact ⟨⟨step.1, frame.shares own'⟩, ih reply step.2 own' (rest reply _ (frame.leaves own'))⟩
    · exact ⟨(obeys.2 slow).1 next, frame.ask next own allowed slow⟩
    · intro t reply s' found holds single same asks admitted
      have step := (obeys.2 slow).2 t reply s' found holds.1 single same asks admitted
      have own' := frame.hear reply own found holds.2 same asks allowed slow
      exact ⟨⟨step.1, frame.shares own'⟩, ih reply step.2 own' (rest reply _ (frame.leaves own'))⟩
  | control request next ih =>
    obtain ⟨plain, grants, waits⟩ := obeys
    refine ⟨plain, fun reply s' granted => ?_, fun isWait => ⟨fun next => ?_, ?_⟩⟩
    · have step := grants reply s' granted
      have own' := frame.grant own granted
      exact ⟨⟨step.1, frame.shares own'⟩, ih reply step.2 own' (within reply _ (frame.leaves own'))⟩
    · exact ⟨(waits isWait).1 next, frame.wait request next own⟩
    · intro t reply s' found holds single same still
      have step := (waits isWait).2 t reply s' found holds.1 single same still
      have own' := frame.resume own found holds.2 same still
      exact ⟨⟨step.1, frame.shares own'⟩, ih reply step.2 own' (within reply _ (frame.leaves own'))⟩

end CodeAtlas
