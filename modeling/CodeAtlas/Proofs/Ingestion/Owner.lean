import CodeAtlas.Proofs.Crew.Keeps

namespace CodeAtlas

/-- Who has the lock of a coordinator after somebody has done something. A run that was given to a job
belongs to the job. -/
def Deed.passes (n : Nat) (k : Who) (owner : Option Who) : Deed → Option Who
  | .stores before after =>
    match (before.coordinator n).run.locked, (after.coordinator n).run.locked with
    | false, true => some k
    | true, false => none
    | _, _ => owner
  | .starts (.ingest m _) j => if m = n ∧ owner = some k then some (.job j) else owner
  | _ => owner

/-- Only its owner changes a run, and shows no stage when letting go of it; a free lock may be taken. -/
def Deed.Allowed (n : Nat) (k : Who) (owner : Option Who) : Deed → Prop
  | .stores before after => (after.coordinator n).run = (before.coordinator n).run ∨
    (owner = some k ∧ ((after.coordinator n).run.locked = false → (after.coordinator n).run.stage = none)) ∨
    (owner = none ∧ (after.coordinator n).run = (before.coordinator n).run.acquire)
  | _ => True

/-- No coordinator is ever taken away. -/
def Deed.Grows : Deed → Prop
  | .stores before after => before.coordinators.length ≤ after.coordinators.length
  | _ => True

/-- Deeds that leave the memory and the locks alone. -/
def Deed.isQuiet : Deed → Bool
  | .stores _ _ => false
  | .starts (.ingest _ _) _ => false
  | _ => true

namespace Log

def ownerFrom (n : Nat) (owner : Option Who) (log : List Noted) : Option Who :=
  log.foldl (fun owner noted => noted.2.2.passes n noted.2.1 owner) owner

def memoryFrom (m : Memory) (log : List Noted) : Memory :=
  log.foldl (fun m noted => match noted.2.2 with
    | .stores _ after => after
    | _ => m) m

/-- What is stored takes the place of what was there. -/
def Chained : Memory → List Noted → Prop
  | _, [] => True
  | m, (_, _, .stores before after) :: rest => before = m ∧ Chained after rest
  | m, _ :: rest => Chained m rest

def Lawful (n : Nat) : Option Who → List Noted → Prop
  | _, [] => True
  | owner, (_, k, deed) :: rest => deed.Allowed n k owner ∧ Lawful n (deed.passes n k owner) rest

theorem ownerFrom_append (n : Nat) (owner : Option Who) (log log' : List Noted) :
    ownerFrom n owner (log ++ log') = ownerFrom n (ownerFrom n owner log) log' := List.foldl_append

theorem memoryFrom_append (m : Memory) (log log' : List Noted) :
    memoryFrom m (log ++ log') = memoryFrom (memoryFrom m log) log' := List.foldl_append

theorem chained_append (m : Memory) (log log' : List Noted) :
    Chained m (log ++ log') ↔ Chained m log ∧ Chained (memoryFrom m log) log' := by
  induction log generalizing m with
  | nil => simp [Chained, memoryFrom]
  | cons noted rest ih =>
    obtain ⟨time, k, deed⟩ := noted
    cases deed with
    | stores before after =>
      have same : memoryFrom m ((time, k, .stores before after) :: rest) = memoryFrom after rest := rfl
      simp only [List.cons_append, Chained, ih, same, and_assoc]
    | _ => exact ih m

theorem lawful_append (n : Nat) (owner : Option Who) (log log' : List Noted) :
    Lawful n owner (log ++ log') ↔ Lawful n owner log ∧ Lawful n (ownerFrom n owner log) log' := by
  induction log generalizing owner with
  | nil => simp [Lawful, ownerFrom]
  | cons noted rest ih =>
    simp only [List.cons_append, Lawful, ih, and_assoc]
    rfl

theorem ownerFrom_quiet (n : Nat) (owner : Option Who) {log : List Noted}
    (quiet : ∀ noted ∈ log, noted.2.2.isQuiet = true) : ownerFrom n owner log = owner := by
  induction log with
  | nil => rfl
  | cons noted rest ih =>
    have later := ih fun other inside => quiet other (List.mem_cons_of_mem _ inside)
    obtain ⟨time, k, deed⟩ := noted
    have same : deed.passes n k owner = owner := by
      have first := quiet _ (List.mem_cons_self ..)
      cases deed with
      | stores => cases first
      | starts job => cases job <;> first | rfl | cases first
      | _ => rfl
    calc ownerFrom n owner ((time, k, deed) :: rest) = ownerFrom n (deed.passes n k owner) rest := rfl
      _ = ownerFrom n owner rest := by rw [same]
      _ = owner := later

theorem lawful_quiet (n : Nat) (owner : Option Who) {log : List Noted}
    (quiet : ∀ noted ∈ log, noted.2.2.isQuiet = true) : Lawful n owner log := by
  induction log generalizing owner with
  | nil => trivial
  | cons noted rest ih =>
    obtain ⟨time, k, deed⟩ := noted
    refine ⟨?_, ih _ fun other inside => quiet other (List.mem_cons_of_mem _ inside)⟩
    have first := quiet _ (List.mem_cons_self ..)
    cases deed with
    | stores => cases first
    | _ => trivial

theorem chained_quiet (m : Memory) {log : List Noted} (quiet : ∀ noted ∈ log, noted.2.2.isQuiet = true) :
    Chained m log ∧ memoryFrom m log = m := by
  induction log with
  | nil => exact ⟨trivial, rfl⟩
  | cons noted rest ih =>
    have later := ih fun other inside => quiet other (List.mem_cons_of_mem _ inside)
    have first := quiet _ (List.mem_cons_self ..)
    obtain ⟨time, k, deed⟩ := noted
    cases deed with
    | stores => cases first
    | _ => exact later

theorem grows_quiet {deed : Deed} (quiet : deed.isQuiet = true) : deed.Grows := by
  cases deed with
  | stores => cases quiet
  | _ => trivial

theorem grown {m : Memory} {log : List Noted} (chained : Chained m log) (grows : ∀ noted ∈ log, noted.2.2.Grows) :
    m.coordinators.length ≤ (memoryFrom m log).coordinators.length := by
  induction log generalizing m with
  | nil => exact Nat.le_refl _
  | cons noted rest ih =>
    obtain ⟨time, k, deed⟩ := noted
    have later : ∀ noted ∈ rest, noted.2.2.Grows := fun noted inside => grows noted (List.mem_cons_of_mem _ inside)
    cases deed with
    | stores before after =>
      obtain ⟨rfl, chained⟩ := chained
      have first : (Deed.stores before after).Grows := grows _ (List.mem_cons_self ..)
      exact Nat.le_trans first (ih chained later)
    | _ => exact ih chained later

/-- Nobody but the owner changes a run. -/
theorem allowed_others {n : Nat} {j k : Who} {before after : Memory}
    (allowed : (Deed.stores before after).Allowed n j (some k)) (other : j ≠ k) :
    (after.coordinator n).run = (before.coordinator n).run := by
  rcases allowed with same | ⟨own, _⟩ | ⟨free, _⟩
  · exact same
  · exact absurd (Option.some.inj own).symm other
  · cases free

/-- What the others do leaves a run to its owner, and as it is. -/
theorem kept {n : Nat} {k : Who} {m : Memory} {log : List Noted} (lawful : Lawful n (some k) log)
    (chained : Chained m log) (others : ∀ noted ∈ log, noted.2.1 ≠ k) :
    ownerFrom n (some k) log = some k ∧ ((memoryFrom m log).coordinator n).run = (m.coordinator n).run := by
  induction log generalizing m with
  | nil => exact ⟨rfl, rfl⟩
  | cons noted rest ih =>
    obtain ⟨time, j, deed⟩ := noted
    obtain ⟨allowed, lawful⟩ := lawful
    have other : j ≠ k := others _ (List.mem_cons_self ..)
    have later : ∀ noted ∈ rest, noted.2.1 ≠ k := fun noted inside => others noted (List.mem_cons_of_mem _ inside)
    have goesOn : ∀ {m'}, deed.passes n j (some k) = some k → (m'.coordinator n).run = (m.coordinator n).run →
        Chained m' rest → memoryFrom m ((time, j, deed) :: rest) = memoryFrom m' rest →
        ownerFrom n (some k) ((time, j, deed) :: rest) = some k ∧
          ((memoryFrom m ((time, j, deed) :: rest)).coordinator n).run = (m.coordinator n).run := by
      intro m' owner run chained memory
      rw [owner] at lawful
      obtain ⟨stays, same⟩ := ih lawful chained later
      refine ⟨?_, memory ▸ same.trans run⟩
      show ownerFrom n (deed.passes n j (some k)) rest = some k
      rw [owner, stays]
    cases deed with
    | stores before after =>
      obtain ⟨rfl, chained⟩ := chained
      have same := allowed_others allowed other
      refine goesOn ?_ same chained rfl
      simp only [Deed.passes, same]
      cases (before.coordinator n).run.locked <;> rfl
    | starts job number =>
      refine goesOn ?_ rfl chained rfl
      cases job with
      | ingest i id => exact if_neg fun both => other (Option.some.inj both.2).symm
      | _ => rfl
    | _ => exact goesOn rfl rfl chained rfl

end Log

namespace Crew

variable {ω : Type}

/-- Who has the lock of a coordinator. -/
def owner (c : Crew ω) (n : Nat) : Option Who := Log.ownerFrom n none c.log

/-- The log tells how the memory came about. -/
structure Recalls (m : Memory) (c : Crew ω) : Prop where
  chained : Log.Chained m c.log
  memory : c.memory = Log.memoryFrom m c.log

/-- It tells who has the locks, too. -/
structure Recorded (m : Memory) (c : Crew ω) : Prop extends c.Recalls m where
  locked : ∀ n, (c.memory.coordinator n).run.locked = (c.owner n).isSome

namespace Recalls

variable {m : Memory} {c c' : Crew ω}

/-- A step that leaves the memory alone. -/
theorem quiet (recalls : c.Recalls m) {new : List Noted} (log : c'.log = c.log ++ new) (memory : c'.memory = c.memory)
    (quiet : ∀ noted ∈ new, noted.2.2.isQuiet = true) : c'.Recalls m where
  chained := by
    rw [log, Log.chained_append]
    exact ⟨recalls.chained, (Log.chained_quiet _ quiet).1⟩
  memory := by rw [log, Log.memoryFrom_append, (Log.chained_quiet _ quiet).2, memory, recalls.memory]

theorem store (recalls : c.Recalls m) (k : Who) (memory : Memory) : (c.store k memory).Recalls m where
  chained := (Log.chained_append ..).mpr ⟨recalls.chained, recalls.memory, trivial⟩
  memory := by
    show memory = Log.memoryFrom m (c.log ++ [_])
    rw [Log.memoryFrom_append]
    rfl

theorem spawn (recalls : c.Recalls m) (k : Who) (job : Job) : (c.spawn k job).Recalls m where
  chained := (Log.chained_append ..).mpr ⟨recalls.chained, trivial⟩
  memory := by
    show c.memory = Log.memoryFrom m (c.log ++ [_])
    rw [Log.memoryFrom_append, ← recalls.memory]
    rfl

end Recalls

namespace Recorded

variable {m : Memory} {c c' : Crew ω} {k : Who}

/-- A step that leaves the memory and the locks alone. -/
theorem quiet (recorded : c.Recorded m) {new : List Noted} (log : c'.log = c.log ++ new) (memory : c'.memory = c.memory)
    (quiet : ∀ noted ∈ new, noted.2.2.isQuiet = true) : c'.Recorded m where
  toRecalls := recorded.toRecalls.quiet log memory quiet
  locked := by
    intro n
    have same : c'.owner n = c.owner n := by
      rw [owner, log, Log.ownerFrom_append, Log.ownerFrom_quiet n _ quiet]
      rfl
    rw [memory, same]
    exact recorded.locked n

theorem free (recorded : c.Recorded m) {n : Nat} (unlocked : (c.memory.coordinator n).run.locked = false) :
    c.owner n = none := by
  have locked := recorded.locked n
  rw [unlocked] at locked
  exact Option.isNone_iff_eq_none.mp (by simpa using locked.symm)

theorem owner_snoc (c : Crew ω) (n : Nat) (time : Float) (k : Who) (deed : Deed) :
    Log.ownerFrom n none (c.log ++ [(time, k, deed)]) = deed.passes n k (c.owner n) := List.foldl_append

theorem store (recorded : c.Recorded m) (k : Who) (memory : Memory) : (c.store k memory).Recorded m where
  toRecalls := recorded.toRecalls.store k memory
  locked := by
    intro n
    have before := recorded.locked n
    show (memory.coordinator n).run.locked = (Log.ownerFrom n none (c.log ++ [_])).isSome
    rw [owner_snoc, Deed.passes]
    split
    next free taken => rw [taken]; rfl
    next held freed => rw [freed]; rfl
    next sameFree sameHeld =>
      rw [← before]
      cases old : (c.memory.coordinator n).run.locked <;> cases new : (memory.coordinator n).run.locked
      · rfl
      · exact absurd new (sameFree old)
      · exact absurd new (sameHeld old)
      · rfl

theorem spawn (recorded : c.Recorded m) (k : Who) (job : Job) : (c.spawn k job).Recorded m where
  toRecalls := recorded.toRecalls.spawn k job
  locked := by
    intro n
    have before := recorded.locked n
    show (c.memory.coordinator n).run.locked = (Log.ownerFrom n none (c.log ++ [_])).isSome
    rw [owner_snoc, before]
    cases job with
    | ingest i id =>
      simp only [Deed.passes]
      split
      next both => rw [both.2]; rfl
      next => rfl
    | _ => rfl

end Recorded

/-- What a request that is granted at once does to the memory and the log. -/
theorem Grants.noted {c c' : Crew ω} {k : Who} {request : Control} {reply : Except Fault request.Reply}
    (granted : c.Grants k request reply c') :
    (c'.memory = c.memory ∧ c'.log = c.log) ∨ ∃ job, c' = c.spawn k job := by
  cases request with
  | now | hasLoop | ended | join | shield | joinWorker => obtain ⟨_, rfl⟩ := granted; exact .inl ⟨rfl, rfl⟩
  | pause => exact granted.elim
  | spawn job | dispatch job => obtain ⟨_, rfl⟩ := granted; exact .inr ⟨job, rfl⟩
  | cancel => obtain ⟨_, _, _, rfl⟩ := granted; exact .inl ⟨rfl, rfl⟩
  | gather => obtain ⟨_, _, rfl⟩ := granted; exact .inl ⟨rfl, rfl⟩
  | takePermit => obtain ⟨_, _, rfl⟩ := granted; exact .inl ⟨c.onGroup_memory k _, c.onGroup_log k _⟩
  | givePermit => obtain ⟨_, rfl⟩ := granted; exact .inl ⟨c.onGroup_memory k _, c.onGroup_log k _⟩

theorem Waits.noted {c c' : Crew ω} {request : Control} {await : Await} {read : Waited → Except Fault request.Reply}
    (waits : c.Waits request await read c') : c'.memory = c.memory ∧ c'.log = c.log := by
  cases request with
  | gather | pause | join | shield | joinWorker | takePermit => obtain ⟨_, _, rfl⟩ := waits; exact ⟨rfl, rfl⟩
  | _ => exact waits.elim

theorem Wakes.noted {c c' : Crew ω} {k : Who} {h : Hand} {await : Await} {waited : Waited}
    (wakes : c.Wakes k h await waited c') : c'.memory = c.memory ∧ c'.log = c.log := by
  rcases wakes.changes with rfl | rfl
  · exact ⟨rfl, rfl⟩
  · exact ⟨c.onGroup_memory k _, c.onGroup_log k _⟩

end Crew

variable {ω : Type}

/-- A step leaves the memory and the locks alone, or stores something, or adds a job. -/
theorem Shift.Step.notes {w : World ω} {callers : Routine Yield → Prop} {a b : Shift ω} (step : Shift.Step w callers a b) :
    (∃ new, b.crew.log = a.crew.log ++ new ∧ b.crew.memory = a.crew.memory ∧ ∀ noted ∈ new, noted.2.2.isQuiet = true) ∨
      (∃ k m, b.crew = a.crew.store k m) ∨ ∃ k job, b.crew = a.crew.spawn k job := by
  have one : ∀ {c c' : Crew ω} k deed, deed.isQuiet = true → c'.log = c.log ++ [(c.clock, k, deed)] ∧ c'.memory = c.memory →
      ∃ new, c'.log = c.log ++ new ∧ c'.memory = c.memory ∧ ∀ noted ∈ new, noted.2.2.isQuiet = true :=
    fun _ _ quiet noted => ⟨_, noted.1, noted.2, List.forall_mem_singleton.mpr quiet⟩
  have nothing : ∀ {c c' : Crew ω}, c'.memory = c.memory ∧ c'.log = c.log →
      ∃ new, c'.log = c.log ++ new ∧ c'.memory = c.memory ∧ ∀ noted ∈ new, noted.2.2.isQuiet = true :=
    fun same => ⟨[], same.2.trans (List.append_nil _).symm, same.1, List.forall_mem_nil _⟩
  cases step with
  | look => exact .inl (nothing ⟨rfl, rfl⟩)
  | store => exact .inr (.inl ⟨_, _, rfl⟩)
  | exchange =>
    refine .inl ⟨_, List.append_assoc .., rfl, ?_⟩
    simp [Deed.isQuiet]
  | @ask c k question => exact .inl (one k (.asks question) rfl ⟨rfl, rfl⟩)
  | grant granted =>
    rcases granted.noted with same | ⟨job, rfl⟩
    · exact .inl (nothing same)
    · exact .inr (.inr ⟨_, job, rfl⟩)
  | wait waits => exact .inl (nothing waits.noted)
  | close | drop | call | pass => exact .inl (nothing ⟨rfl, rfl⟩)
  | @begin c k h => exact .inl (one k (.begins h.origin) rfl ⟨rfl, rfl⟩)
  | @hear c k h question reply => exact .inl (one k (.hears question (h.heard reply)) rfl ⟨rfl, rfl⟩)
  | resume _ _ wakes => exact .inl (nothing wakes.noted)

theorem Shift.Step.recorded {w : World ω} {callers : Routine Yield → Prop} {m : Memory} {a b : Shift ω}
    (step : Shift.Step w callers a b) (recorded : a.crew.Recorded m) : b.crew.Recorded m := by
  rcases step.notes with ⟨new, log, memory, quiet⟩ | ⟨k, m', same⟩ | ⟨k, job, same⟩
  · exact recorded.quiet log memory quiet
  · exact same ▸ recorded.store k m'
  · exact same ▸ recorded.spawn k job

theorem Shift.Step.recalls {w : World ω} {callers : Routine Yield → Prop} {m : Memory} {a b : Shift ω}
    (step : Shift.Step w callers a b) (recalls : a.crew.Recalls m) : b.crew.Recalls m := by
  rcases step.notes with ⟨new, log, memory, quiet⟩ | ⟨k, m', same⟩ | ⟨k, job, same⟩
  · exact recalls.quiet log memory quiet
  · exact same ▸ recalls.store k m'
  · exact same ▸ recalls.spawn k job

theorem Shift.Reach.recorded {w : World ω} {callers : Routine Yield → Prop} {m : Memory} {world : ω} {hasLoop : Bool}
    {a : Shift ω} (free : ∀ n, (m.coordinator n).run.locked = false) (reach : Shift.Reach w callers m world hasLoop a) :
    a.crew.Recorded m := by
  induction reach with
  | start => exact ⟨⟨trivial, rfl⟩, free⟩
  | next _ step ih => exact step.recorded ih

end CodeAtlas
