import CodeAtlas.Proofs.Crew.Keeps

namespace CodeAtlas

/-- What a routine may do: what it asks, how it changes the memory, and what it asks of the loop. What it finds
in the memory is left so. -/
structure Remit where
  asks : Ask → Prop
  writes : Memory → Memory → Prop
  requests : Control → Prop
  finds : Memory → Prop := fun _ => True
  leaves : ∀ {m m'}, finds m → writes m m' → finds m' := by exact fun _ _ => trivial

namespace Routine

variable {α β : Type} {r : Remit} {m : Memory}

/-- From a memory on, each step of a routine is within its remit, whatever it sees and is answered. -/
def StaysIn (r : Remit) : Routine α → Memory → Prop
  | .done _, _ => True
  | .look next, m => StaysIn r (next m) m
  | .store m' next, m => r.writes m m' ∧ StaysIn r next m'
  | .ask question next, _ => r.asks question ∧ ∀ reply m', r.finds m' → StaysIn r (next reply) m'
  | .control request next, _ => r.requests request ∧ ∀ reply m', r.finds m' → StaysIn r (next reply) m'

def Minds (r : Remit) (p : Routine α) : Prop := ∀ m, r.finds m → p.StaysIn r m

theorem StaysIn.andThen {p : Routine α} {f : Except Fault α → Routine β} (stays : p.StaysIn r m) (found : r.finds m)
    (rest : ∀ result, (f result).Minds r) : (p.andThen f).StaysIn r m := by
  induction p generalizing m with
  | done result => exact rest result m found
  | look next ih => exact ih m stays found
  | store m' next ih => exact ⟨stays.1, ih stays.2 (r.leaves found stays.1)⟩
  | ask question next ih => exact ⟨stays.1, fun reply m' found' => ih reply (stays.2 reply m' found') found'⟩
  | control request next ih => exact ⟨stays.1, fun reply m' found' => ih reply (stays.2 reply m' found') found'⟩

namespace Minds

theorem andThen {p : Routine α} {f : Except Fault α → Routine β} (minds : p.Minds r)
    (rest : ∀ result, (f result).Minds r) : (p.andThen f).Minds r :=
  fun m found => (minds m found).andThen found rest

theorem done (result : Except Fault α) : (Routine.done result).Minds r := fun _ _ => trivial

theorem pure (a : α) : (Pure.pure a : Routine α).Minds r := fun _ _ => trivial

theorem fail (fault : Fault) : (Routine.fail fault : Routine α).Minds r := fun _ _ => trivial

theorem ofExcept (result : Except Fault α) : (Routine.ofExcept result).Minds r := fun _ _ => trivial

theorem composes : Composes fun _ p => p.Minds r := ⟨done, andThen⟩

theorem bind {p : Routine α} {f : α → Routine β} (minds : p.Minds r) (rest : ∀ a, (f a).Minds r) :
    (p >>= f).Minds r :=
  composes.bind minds rest

/-- What is computed on the way may be relied on. -/
theorem compute {result : Except Fault α} {f : α → Routine β} (rest : ∀ a, result = .ok a → (f a).Minds r) :
    (Routine.ofExcept result >>= f).Minds r := by
  cases result with
  | ok a => exact rest a rfl
  | error => exact done _

theorem rescue {p : Routine α} {handler : Fault → Routine α} (minds : p.Minds r)
    (handles : ∀ fault, (handler fault).Minds r) : (p.rescue handler).Minds r :=
  composes.rescue minds handles

theorem ensuring {p : Routine α} {last : Routine Unit} (minds : p.Minds r) (ends : last.Minds r) :
    (p.ensuring last).Minds r :=
  composes.ensuring minds ends

theorem view (f : Memory → α) : (view f).Minds r := fun _ _ => trivial

/-- What is seen of a memory may be relied on. -/
theorem look {f : Memory → α} {g : α → Routine β} (rest : ∀ m, r.finds m → (g (f m)).Minds r) :
    (Routine.view f >>= g).Minds r :=
  fun m found => rest m found m found

theorem change {f : Memory → Memory} (writes : ∀ m, r.writes m (f m)) : (change f).Minds r :=
  fun m _ => ⟨writes m, trivial⟩

theorem query {q : Ask} (allowed : r.asks q) : (query q).Minds r :=
  fun _ _ => ⟨allowed, fun _ _ _ => trivial⟩

theorem request {c : Control} (allowed : r.requests c) : (request c).Minds r :=
  fun _ _ => ⟨allowed, fun _ _ _ => trivial⟩

theorem ite {p q : Routine α} {b : Prop} [Decidable b] (yes : b → p.Minds r) (no : ¬b → q.Minds r) :
    (if b then p else q).Minds r := by
  split
  next holds => exact yes holds
  next fails => exact no fails

end Minds

/-- A wider remit, of one who finds no less. -/
theorem Minds.mono {p : Routine α} {r' : Remit} (minds : p.Minds r) (asks : ∀ question, r.asks question → r'.asks question)
    (writes : ∀ m m', r.writes m m' → r'.writes m m') (requests : ∀ request, r.requests request → r'.requests request)
    (finds : ∀ m, r'.finds m → r.finds m := by exact fun _ _ => trivial) : p.Minds r' := by
  have stays : ∀ m, r'.finds m → p.StaysIn r m → p.StaysIn r' m := by
    intro m found stays
    clear minds
    induction p generalizing m with
    | done => trivial
    | look next ih => exact ih m m found stays
    | store m' next ih =>
      have allowed := writes _ _ stays.1
      exact ⟨allowed, ih m' (r'.leaves found allowed) stays.2⟩
    | ask question next ih => exact ⟨asks _ stays.1, fun reply m' found' => ih reply m' found' (stays.2 reply m' (finds m' found'))⟩
    | control request next ih =>
      exact ⟨requests _ stays.1, fun reply m' found' => ih reply m' found' (stays.2 reply m' (finds m' found'))⟩
  exact fun m found => stays m found (minds m (finds m found))

end Routine

variable {ω : Type}

/-- What holds of a crew while somebody is on turn, and is kept by each step within a remit. -/
structure Upkeep (w : World ω) (R : Rules ω) (k : Who) (r : Remit) (holds : Crew ω → Prop) : Prop where
  finds : ∀ {c}, holds c → r.finds c.memory
  may : ∀ {c question}, holds c → r.asks question → R.may k question c
  store : ∀ {c m}, holds c → r.writes c.memory m → R.After (c.store k m) (holds (c.store k m))
  exchange : ∀ {c question}, holds c → r.asks question → ¬0 < (c.reaction w question).delay →
    R.After (c.exchange k question (c.reaction w question)) (holds (c.exchange k question (c.reaction w question)))
  ask : ∀ {c question} rest, holds c → r.asks question → 0 < (c.reaction w question).delay →
    R.After (c.ask k question (c.reaction w question) rest) (∀ c' h, R.known c' → R.inv c' → c'.Still →
      (c.ask k question (c.reaction w question) rest).Since k c' → c'.hand? k = some h →
      h.station = .asking question (c.reaction w question).reply (c.clock + (c.reaction w question).delay) rest →
      R.After (c'.hear k question (h.heard (c.reaction w question).reply))
        (holds (c'.hear k question (h.heard (c.reaction w question).reply))))
  grant : ∀ {c request reply c'}, holds c → r.requests request → c.Grants k request reply c' → R.After c' (holds c')
  wait : ∀ {c request await read c'} rest, holds c → r.requests request → c.Waits request await read c' →
    R.After (c'.rest k await rest) (∀ d h waited d', R.known d → R.inv d → d.Still → (c'.rest k await rest).Since k d →
      d.hand? k = some h → h.station = .waiting await rest → d.Wakes k h await waited d' →
      R.After (d'.goOn k) (holds (d'.goOn k)))

/-- A routine within its remit keeps to the rules, and to what its steps leave alone. -/
theorem Routine.StaysIn.keeps {α : Type} {w : World ω} {R : Rules ω} {k : Who} {r : Remit} {holds : Crew ω → Prop}
    {p : Routine α} {c : Crew ω} (stays : p.StaysIn r c.memory) (frame : Upkeep w R k r holds) (own : holds c) :
    p.Keeps w R k (fun _ c' => holds c') c := by
  induction p generalizing c with
  | done => exact own
  | look next ih => exact ih c.memory stays own
  | store m next ih =>
    intro known
    obtain ⟨inv, own'⟩ := frame.store own stays.1 known
    exact ⟨inv, ih stays.2 own'⟩
  | ask question next ih =>
    refine ⟨frame.may own stays.1, fun soon known => ?_, fun slow rest known => ?_⟩
    · obtain ⟨inv, own'⟩ := frame.exchange own stays.1 soon known
      exact ⟨inv, ih _ (stays.2 _ _ (frame.finds own')) own'⟩
    · obtain ⟨inv, goesOn⟩ := frame.ask rest own stays.1 slow known
      refine ⟨inv, fun c' h known' inv' still since found asking known'' => ?_⟩
      obtain ⟨inv'', own'⟩ := goesOn c' h known' inv' still since found asking known''
      exact ⟨inv'', ih _ (stays.2 _ _ (frame.finds own')) own'⟩
  | control request next ih =>
    refine ⟨fun reply c' granted known => ?_, fun await read c' rest waits known => ?_⟩
    · obtain ⟨inv, own'⟩ := frame.grant own stays.1 granted known
      exact ⟨inv, ih _ (stays.2 _ _ (frame.finds own')) own'⟩
    · obtain ⟨inv, goesOn⟩ := frame.wait rest own stays.1 waits known
      refine ⟨inv, fun d h waited d' known' inv' still since found waiting wakes known'' => ?_⟩
      obtain ⟨inv'', own'⟩ := goesOn d h waited d' known' inv' still since found waiting wakes known''
      exact ⟨inv'', ih _ (stays.2 _ _ (frame.finds own')) own'⟩

namespace Routine

variable {α β : Type} {w : World ω} {R : Rules ω} {k : Who} {c : Crew ω}

theorem Minds.keeps {r : Remit} {holds : Crew ω → Prop} {p : Routine α} (minds : p.Minds r) (frame : Upkeep w R k r holds)
    (own : holds c) : p.Keeps w R k (fun _ c' => holds c') c :=
  (minds c.memory (frame.finds own)).keeps frame own

/-- What holds of a value, and what holds after a fault. -/
def Ends (value : α → Crew ω → Prop) (fault : Crew ω → Prop) : Except Fault α → Crew ω → Prop
  | .ok a, c => value a c
  | .error _, c => fault c

theorem Keeps.seq {p : Routine α} {f : α → Routine β} {value : α → Crew ω → Prop} {post : Crew ω → Prop}
    (keeps : p.Keeps w R k (Ends value post) c)
    (rest : ∀ a c', value a c' → (f a).Keeps w R k (fun _ c'' => post c'') c') :
    (p >>= f).Keeps w R k (fun _ c' => post c') c :=
  keeps.bind rest fun _ _ after => after

theorem Keeps.rescue {p : Routine α} {handler : Fault → Routine α} {post : Crew ω → Prop}
    (keeps : p.Keeps w R k (fun _ c' => post c') c)
    (handles : ∀ fault c', post c' → (handler fault).Keeps w R k (fun _ c'' => post c'') c') :
    (p.rescue handler).Keeps w R k (fun _ c' => post c') c := by
  refine keeps.andThen fun result c' after => ?_
  cases result with
  | ok => exact after
  | error fault =>
    dsimp only
    split
    · exact handles fault c' after
    · exact after

theorem Keeps.ensuring {p : Routine α} {last : Routine Unit} {mid post : Crew ω → Prop}
    (keeps : p.Keeps w R k (fun _ c' => mid c') c) (ends : ∀ c', mid c' → last.Keeps w R k (fun _ c'' => post c'') c') :
    (p.ensuring last).Keeps w R k (fun _ c' => post c') c :=
  keeps.andThen fun _ c' after => (ends c' after).bind (fun _ _ after => after) fun _ _ after => after

theorem keeps_view_bind {f : Memory → α} {g : α → Routine β} {post : Except Fault β → Crew ω → Prop} :
    (view f >>= g).Keeps w R k post c ↔ (g (f c.memory)).Keeps w R k post c := Iff.rfl

theorem keeps_change {f : Memory → Memory} {post : Except Fault Unit → Crew ω → Prop} :
    (change f).Keeps w R k post c ↔
      R.After (c.store k (f c.memory)) (post (.ok ()) (c.store k (f c.memory))) := Iff.rfl

theorem keeps_change_bind {f : Memory → Memory} {g : Unit → Routine β} {post : Except Fault β → Crew ω → Prop} :
    (change f >>= g).Keeps w R k post c ↔
      R.After (c.store k (f c.memory)) ((g ()).Keeps w R k post (c.store k (f c.memory))) := Iff.rfl

/-- What is computed on the way may be relied on. -/
theorem keeps_compute {result : Except Fault α} {f : α → Routine β} {post : Except Fault β → Crew ω → Prop}
    (value : ∀ a, result = .ok a → (f a).Keeps w R k post c) (fault : ∀ e, result = .error e → post (.error e) c) :
    ((liftM result : Routine α) >>= f).Keeps w R k post c := by
  cases result with
  | ok a => exact value a rfl
  | error e => exact fault e rfl

theorem keeps_lift_bind {result : Except Fault α} {f : α → Routine β} {post : Except Fault β → Crew ω → Prop}
    (value : ∀ a, (f a).Keeps w R k post c) (fault : ∀ e, post (.error e) c) :
    ((liftM result : Routine α) >>= f).Keeps w R k post c :=
  keeps_compute (fun a _ => value a) fun e _ => fault e

theorem keeps_now_bind {f : Float → Routine β} {post : Except Fault β → Crew ω → Prop}
    (rest : R.After c ((f c.clock).Keeps w R k post c)) : (now >>= f).Keeps w R k post c := by
  refine ⟨?_, fun _ _ _ _ waits => waits.elim⟩
  rintro _ _ ⟨rfl, rfl⟩
  exact rest

theorem keeps_hasLoop_bind {f : Bool → Routine β} {post : Except Fault β → Crew ω → Prop}
    (rest : R.After c ((f c.hasLoop).Keeps w R k post c)) : (request .hasLoop >>= f).Keeps w R k post c := by
  refine ⟨?_, fun _ _ _ _ waits => waits.elim⟩
  rintro _ _ ⟨rfl, rfl⟩
  exact rest

theorem keeps_ended_bind {j : Nat} {f : Bool → Routine β} {post : Except Fault β → Crew ω → Prop}
    (rest : R.After c ((f (c.ended j)).Keeps w R k post c)) : (request (.ended j) >>= f).Keeps w R k post c := by
  refine ⟨?_, fun _ _ _ _ waits => waits.elim⟩
  rintro _ _ ⟨rfl, rfl⟩
  exact rest

theorem keeps_spawn_bind {job : Job} {f : Nat → Routine β} {post : Except Fault β → Crew ω → Prop}
    (rest : R.After (c.spawn k job) ((f c.jobs.length).Keeps w R k post (c.spawn k job))) :
    (request (.spawn job) >>= f).Keeps w R k post c := by
  refine ⟨?_, fun _ _ _ _ waits => waits.elim⟩
  rintro _ _ ⟨rfl, rfl⟩
  exact rest

theorem keeps_dispatch_bind {job : Job} {f : Nat → Routine β} {post : Except Fault β → Crew ω → Prop}
    (rest : R.After (c.spawn k job) ((f c.jobs.length).Keeps w R k post (c.spawn k job))) :
    (request (.dispatch job) >>= f).Keeps w R k post c := by
  refine ⟨?_, fun _ _ _ _ waits => waits.elim⟩
  rintro _ _ ⟨rfl, rfl⟩
  exact rest

theorem keeps_cancel_bind {j : Nat} {f : Unit → Routine β} {post : Except Fault β → Crew ω → Prop}
    (rest : ∀ numbers, c.Halts j numbers → R.After (c.halt numbers) ((f ()).Keeps w R k post (c.halt numbers))) :
    (request (.cancel j) >>= f).Keeps w R k post c := by
  refine ⟨?_, fun _ _ _ _ waits => waits.elim⟩
  rintro _ _ ⟨rfl, numbers, halts, rfl⟩
  exact rest numbers halts

end Routine

/-- Looking at the clock, and waiting for others or for a time to come. -/
def Remit.patient : Remit where
  asks _ := False
  writes _ _ := False
  requests
    | .now | .hasLoop | .pause _ | .ended _ | .join _ | .shield _ | .joinWorker _ => True
    | _ => False

end CodeAtlas
