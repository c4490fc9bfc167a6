import CodeAtlas.Proofs.Crew.Holding
import CodeAtlas.Proofs.Crew.Terms

namespace CodeAtlas

variable {ω : Type}

/-- Of all permits so many are lent, and the others free. -/
def Permits.Lends : (all : Permits) → (lent : Nat) → (free : Permits) → Prop
  | .limited all, lent, .limited free => free + lent = all
  | .unlimited, _, .unlimited => True
  | _, _, _ => False

namespace Permits.Lends

variable {all free : Permits} {lent : Nat}

theorem none (all : Permits) : all.Lends 0 all := by
  cases all with
  | limited => exact Nat.add_zero _
  | unlimited => trivial

theorem less (lends : all.Lends lent free) (some : free.available = true) : all.Lends (lent + 1) free.less := by
  cases all <;> cases free
  case limited.limited all free =>
    have positive : 0 < free := of_decide_eq_true some
    change free + lent = all at lends
    change free - 1 + (lent + 1) = all
    omega
  all_goals exact lends

theorem more (lends : all.Lends (lent + 1) free) : all.Lends lent free.more := by
  cases all <;> cases free
  case limited.limited all free =>
    change free + (lent + 1) = all at lends
    change free + 1 + lent = all
    omega
  all_goals exact lends

/-- No more are lent than there are. -/
theorem bounded {limit : Nat} (lends : (Permits.limited limit).Lends lent free) : lent ≤ limit := by
  cases free with
  | limited free =>
    change free + lent = limit at lends
    omega
  | unlimited => exact lends.elim

/-- While none is lent, one is free. -/
theorem available (lends : all.Lends 0 free) (some : all.available = true) : free.available = true := by
  cases all <;> cases free
  case limited.limited all free =>
    cases (show free = all from lends)
    exact some
  all_goals first | exact some | exact lends.elim

end Permits.Lends

/-- What somebody sets out to do who has jobs done beside each other: on which terms and with how many permits, how it may
end before there are jobs, which jobs there are after what was heard, what each of them comes to, and what is made of what
they leave behind. -/
structure Errand where
  terms : Terms
  permits : Permits
  idle : List Exchange → Except Fault Yield → Prop
  opens : List Exchange → List Job → Prop
  comes : Job → List Exchange → Except Fault Yield → Prop
  closes : List Job → Waited → Except Fault Yield → Prop

namespace Errand

variable (errand : Errand) (held : List Who)

/-- A job is done once, while it holds a permit, and comes to what it is to come to. -/
def Employs (job : Job) : Prop :=
  job.repeats = false ∧ job.routine.Hears errand.terms False False (errand.comes job)

/-- After what was heard, a routine has the jobs done that there are, or ends before that. -/
def Prepares : List Exchange → Routine Yield → Prop
  | heard, .done result => errand.idle heard result
  | heard, .look next => ∀ m, errand.terms.keeps m → Prepares heard (next m)
  | heard, .store m next => errand.terms.keeps m ∧ Prepares heard next
  | heard, .ask question next => ∀ reply, errand.terms.answers question reply →
      Prepares (heard ++ [⟨question, reply⟩]) (next reply)
  | heard, .control .now next => ∀ time, Prepares heard (next (.ok time))
  | heard, .control (.gather permits jobs) next => permits = errand.permits ∧ jobs ≠ [] ∧ errand.opens heard jobs ∧
      (∀ job ∈ jobs, errand.Employs job) ∧ ∀ waited, (next waited).Reads (errand.closes jobs waited)
  | _, .control _ _ => False

/-- The jobs are there, as they are to be after what the caller has heard. -/
structure Opened (c : Crew ω) (i : Nat) (jobs : List Job) : Prop where
  some : jobs ≠ []
  opens : errand.opens (c.diary (.caller i)).heard jobs
  origins : c.jobs.map Hand.origin = jobs.map Origin.job

/-- What is left to be done. -/
def Owes (c : Crew ω) : Who → Origin → Routine Yield → Prop
  | .job j, .job job, p => p.Hears errand.terms False (.job j ∈ held) fun later => errand.comes job ((c.diary (.job j)).heard ++ later)
  | .job _, .caller _, _ => False
  | .caller i, _, p => c.jobs = [] ∧ errand.Prepares (c.diary (.caller i)).heard p ∨
      ∃ jobs waited, errand.Opened c i jobs ∧ c.Leaves (List.range jobs.length) waited ∧ p.Reads (errand.closes jobs waited)

/-- What is waited for: a permit, or that all jobs are done. -/
def Waits (c : Crew ω) (origin : Origin) : Who → Await → (Waited → Routine Yield) → Prop
  | .job j, await, resume => await = .permit ∧ errand.Owes held c (.job j) origin (.control .takePermit fun _ => resume (.ok []))
  | .caller i, await, resume => ∃ jobs, errand.Opened c i jobs ∧ await = .members (List.range jobs.length) ∧
      ∀ waited, (resume waited).Reads (errand.closes jobs waited)

/-- Where somebody stands who is still to carry out what they owe. -/
def Stands (a : Shift ω) (k : Who) (h : Hand) : Prop :=
  match h.station with
  | .fresh => errand.Owes held a.crew k h.origin h.origin.routine
  | .running => ∀ p, a.turn = some (k, p) → errand.Owes held a.crew k h.origin p
  | .asking question reply _ next => errand.terms.answers question reply ∧ errand.Owes held a.crew k h.origin (.ask question next)
  | .waiting await resume => errand.Waits held a.crew h.origin k await resume
  | .over result => errand.Owes held a.crew k h.origin (.done result)

/-- There are no jobs yet, or permits that are free and permits that jobs hold. -/
structure Permitted (c : Crew ω) : Prop where
  nodup : held.Nodup
  jobs : ∀ k ∈ held, ∃ j h, k = .job j ∧ c.hand? (.job j) = some h
  lends : c.jobs = [] ∧ c.groups = [] ∨ c.jobs ≠ [] ∧ ∃ free, c.groups = [free] ∧ errand.permits.Lends held.length free

/-- The errand goes as it is to go. -/
structure Goes (a : Shift ω) : Prop where
  memory : errand.terms.keeps a.crew.memory
  going : ∀ k h, a.crew.hand? k = some h → h.stopped = false
  once : ∀ k h, a.crew.hand? k = some h → h.origin.repeats = false
  grouped : ∀ j h, a.crew.hand? (.job j) = some h → h.group = some 0
  stands : ∀ k h, a.crew.hand? k = some h → errand.Stands held a k h
  permitted : errand.Permitted held a.crew

end Errand

namespace Crew

variable {c c' : Crew ω} {k : Who} {f : Hand → Hand} {new : List Deed}

theorem Moved.origins (moved : Moved k f c c') (same : ∀ h, c.hand? k = some h → (f h).origin = h.origin) :
    c'.jobs.map Hand.origin = c.jobs.map Hand.origin := by
  refine List.ext_getElem? fun i => ?_
  rw [List.getElem?_map, List.getElem?_map]
  change (c'.hand? (.job i)).map _ = (c.hand? (.job i)).map _
  by_cases own : Who.job i = k
  · rw [own, moved.own]
    cases found : c.hand? k with
    | none => rfl
    | some h => exact congrArg some (same h found)
  · rw [moved.others _ own]

theorem Moved.found (moved : Moved k f c c') {j : Who} {h : Hand} (found : c.hand? j = some h) : ∃ h', c'.hand? j = some h' := by
  by_cases own : j = k
  · exact ⟨f h, own ▸ moved.own.trans (congrArg _ (own ▸ found))⟩
  · exact ⟨h, (moved.others _ own).trans found⟩

theorem Adds.heard (adds : Adds k new c c') : (c'.diary k).heard = (c.diary k).heard ++ new.filterMap Deed.exchange? := by
  have own : c'.diary k = c.diary k ++ new.map fun deed => (c.clock, deed) :=
    diary_own (adds.trans (by rw [pages, List.map_map]; rfl))
  rw [own, Diary.heard_append]
  exact congrArg _ (List.filterMap_map ..)

theorem Adds.elsewhere (adds : Adds k new c c') {j : Who} (other : j ≠ k) : c'.diary j = c.diary j := by
  refine diary_other adds fun noted inside => ?_
  obtain ⟨deed, _, rfl⟩ := List.mem_map.mp inside
  exact other.symm

end Crew

namespace Errand

open Crew

variable {errand : Errand} {held held' : List Who} {c c' : Crew ω} {k : Who} {p : Routine Yield} {origin : Origin}

theorem Opened.kept {i : Nat} {jobs : List Job} (opened : errand.Opened c i jobs)
    (heard : (c'.diary (.caller i)).heard = (c.diary (.caller i)).heard) (origins : c'.jobs.map Hand.origin = c.jobs.map Hand.origin) : errand.Opened c' i jobs :=
  ⟨opened.some, heard ▸ opened.opens, origins.trans opened.origins⟩

theorem nobody_iff (origins : c'.jobs.map Hand.origin = c.jobs.map Hand.origin) : c'.jobs = [] ↔ c.jobs = [] := by
  rw [← List.map_eq_nil_iff (f := Hand.origin), origins, List.map_eq_nil_iff]

theorem owes_job {j : Nat} {job : Job} : errand.Owes held c (.job j) (.job job) p ↔
    p.Hears errand.terms False (.job j ∈ held) fun later => errand.comes job ((c.diary (.job j)).heard ++ later) := Iff.rfl

theorem Owes.kept (owes : errand.Owes held c k origin p) (heard : (c'.diary k).heard = (c.diary k).heard) (permit : k ∈ held' ↔ k ∈ held)
    (origins : c'.jobs.map Hand.origin = c.jobs.map Hand.origin)
    (leaves : ∀ numbers waited, c.Leaves numbers waited → c'.Leaves numbers waited) : errand.Owes held' c' k origin p := by
  cases k with
  | job j =>
    cases origin with
    | caller => exact owes
    | job job =>
      rw [owes_job] at owes ⊢
      rwa [heard, propext permit]
  | caller i =>
    rcases owes with ⟨nobody, prepares⟩ | ⟨jobs, waited, opened, left, reads⟩
    · exact .inl ⟨(nobody_iff origins).mpr nobody, heard ▸ prepares⟩
    · exact .inr ⟨jobs, waited, opened.kept heard origins, leaves _ _ left, reads⟩

theorem Waits.kept {await : Await} {resume : Waited → Routine Yield} (waits : errand.Waits held c origin k await resume)
    (heard : (c'.diary k).heard = (c.diary k).heard) (permit : k ∈ held' ↔ k ∈ held)
    (origins : c'.jobs.map Hand.origin = c.jobs.map Hand.origin)
    (leaves : ∀ numbers waited, c.Leaves numbers waited → c'.Leaves numbers waited) :
    errand.Waits held' c' origin k await resume := by
  cases k with
  | job j => exact ⟨waits.1, waits.2.kept heard permit origins leaves⟩
  | caller i =>
    obtain ⟨jobs, opened, waits⟩ := waits
    exact ⟨jobs, opened.kept heard origins, waits⟩

theorem Owes.look {next : Memory → Routine Yield} {m : Memory} (owes : errand.Owes held c k origin (.look next))
    (kept : errand.terms.keeps m) : errand.Owes held c k origin (next m) := by
  cases k with
  | job j =>
    cases origin with
    | caller => exact owes
    | job job => exact owes m kept
  | caller i =>
    rcases owes with ⟨nobody, prepares⟩ | ⟨_, _, _, _, reads⟩
    · exact .inl ⟨nobody, prepares m kept⟩
    · exact reads.elim

theorem Owes.store {m : Memory} (owes : errand.Owes held c k origin (.store m p)) :
    errand.terms.keeps m ∧ errand.Owes held c k origin p := by
  cases k with
  | job j =>
    cases origin with
    | caller => exact owes.elim
    | job job => exact owes
  | caller i =>
    rcases owes with ⟨nobody, kept, prepares⟩ | ⟨_, _, _, _, reads⟩
    · exact ⟨kept, .inl ⟨nobody, prepares⟩⟩
    · exact reads.elim

theorem active_of {h : Hand} (found : c.hand? k = some h) (active : ∀ result, h.station ≠ .over result) : c.Active k := by
  intro h' result found'
  cases Option.some.inj (found.symm.trans found')
  exact active result

/-- As long as nothing is heard, the same is owed. -/
theorem Owes.silent {f : Hand → Hand} {new : List Deed} (owes : errand.Owes held c k origin p) (moved : Moved k f c c')
    (same : ∀ h, (f h).origin = h.origin) (adds : Adds k new c c') (nothing : new.filterMap Deed.exchange? = [])
    (active : c.Active k) : errand.Owes held c' k origin p := by
  refine owes.kept ?_ Iff.rfl (moved.origins fun h _ => same h) fun _ _ left => left.moved moved active
  rw [adds.heard, nothing, List.append_nil]

/-- A job asks only while it holds a permit. -/
theorem Owes.asks {question : Ask} {next : Except Fault question.Reply → Routine Yield} {j : Nat}
    (owes : errand.Owes held c (.job j) origin (.ask question next)) : .job j ∈ held := by
  cases origin with
  | caller => exact owes.elim
  | job job => exact owes.1

/-- With the answer, what is heard grows. -/
theorem Owes.hears {question : Ask} {next : Except Fault question.Reply → Routine Yield} {reply : Except Fault question.Reply}
    (owes : errand.Owes held c k origin (.ask question next)) (answered : errand.terms.answers question reply)
    (heard : (c'.diary k).heard = (c.diary k).heard ++ [⟨question, reply⟩])
    (origins : c'.jobs.map Hand.origin = c.jobs.map Hand.origin) : errand.Owes held c' k origin (next reply) := by
  cases k with
  | job j =>
    cases origin with
    | caller => exact owes
    | job job =>
      have goesOn := owes.2 reply answered
      simp only [owes_job, heard, List.append_assoc, List.singleton_append]
      exact goesOn
  | caller i =>
    rcases owes with ⟨nobody, prepares⟩ | ⟨_, _, _, _, reads⟩
    · exact .inl ⟨(nobody_iff origins).mpr nobody, heard ▸ prepares reply answered⟩
    · exact reads.elim

theorem Permitted.same (permitted : errand.Permitted held c)
    (hands : ∀ j h, c.hand? (.job j) = some h → ∃ h', c'.hand? (.job j) = some h')
    (origins : c'.jobs.map Hand.origin = c.jobs.map Hand.origin) (groups : c'.groups = c.groups) : errand.Permitted held c' where
  nodup := permitted.nodup
  jobs k inside := by
    obtain ⟨j, h, rfl, found⟩ := permitted.jobs k inside
    obtain ⟨h', found'⟩ := hands j h found
    exact ⟨j, h', rfl, found'⟩
  lends := by
    rw [groups, Ne, nobody_iff origins]
    exact permitted.lends

/-- Where there is a job, there are permits. -/
theorem Permitted.single {j : Nat} {h : Hand} (permitted : errand.Permitted held c) (found : c.hand? (.job j) = some h) :
    c.jobs ≠ [] ∧ ∃ free, c.groups = [free] ∧ errand.permits.Lends held.length free :=
  permitted.lends.resolve_left fun ⟨nobody, _⟩ => by simp [Crew.hand?, nobody] at found

/-- A job can only do with permits what their number allows. -/
theorem Permitted.onGroup {j : Nat} {h : Hand} {f : Permits → Permits} (permitted : errand.Permitted held c)
    (found : c.hand? (.job j) = some h) (member : h.group = some 0) (nodup : held'.Nodup)
    (only : ∀ k ∈ held', k = .job j ∨ k ∈ held)
    (lends : ∀ free, c.isFree (.job j) = free.available → errand.permits.Lends held.length free →
      errand.permits.Lends held'.length (f free)) :
    errand.Permitted held' (c.onGroup (.job j) f) where
  nodup
  jobs k inside := by
    rcases only k inside with rfl | before
    · exact ⟨j, h, rfl, (c.hand?_onGroup _ f _).trans found⟩
    · obtain ⟨i, h', rfl, found'⟩ := permitted.jobs k before
      exact ⟨i, h', rfl, (c.hand?_onGroup _ f _).trans found'⟩
  lends := by
    obtain ⟨some, free, single, lent⟩ := permitted.single found
    have origins := (Moved.onGroup (.job j) f c).origins fun _ _ => rfl
    refine .inr ⟨fun none => some ((nobody_iff origins).mp none), f free, groups_onGroup found member single f, ?_⟩
    exact lends free (isFree_single found member single) lent

theorem Permitted.takes {j : Nat} {h : Hand} (permitted : errand.Permitted held c) (found : c.hand? (.job j) = some h)
    (member : h.group = some 0) (free : c.isFree (.job j) = true) (idle : .job j ∉ held) :
    errand.Permitted (.job j :: held) (c.onGroup (.job j) Permits.less) :=
  permitted.onGroup found member (List.nodup_cons.mpr ⟨idle, permitted.nodup⟩) (fun _ => List.mem_cons.mp)
    fun _ left lends => lends.less (left.symm.trans free)

theorem Permitted.gives {j : Nat} {h : Hand} (permitted : errand.Permitted held c) (found : c.hand? (.job j) = some h)
    (member : h.group = some 0) (holds : .job j ∈ held) :
    errand.Permitted (held.erase (.job j)) (c.onGroup (.job j) Permits.more) := by
  refine permitted.onGroup found member (permitted.nodup.erase _) (fun _ inside => .inr (List.mem_of_mem_erase inside))
    fun free _ lends => ?_
  have some := List.length_pos_of_mem holds
  rw [List.length_erase_of_mem holds]
  refine .more ?_
  rwa [Nat.sub_add_cancel some]

namespace Goes

variable {w : World ω} {turn turn' : Option (Who × Routine Yield)} {h : Hand} {f : Hand → Hand} {new : List Deed}

/-- Somebody does something, and the others stay where they are. -/
theorem moves (goes : errand.Goes held ⟨c, turn⟩) (moved : Moved k f c c') (adds : Adds k new c c')
    (found : c.hand? k = some h) (active : ∀ result, h.station ≠ .over result)
    (quiet : ∀ j h, j ≠ k → c.hand? j = some h → h.station ≠ .running)
    (origin : (f h).origin = h.origin) (group : (f h).group = h.group) (going : (f h).stopped = false)
    (memory : errand.terms.keeps c'.memory) (permits : ∀ j, j ≠ k → (j ∈ held' ↔ j ∈ held)) (permitted : errand.Permitted held' c')
    (stands : errand.Stands held' ⟨c', turn'⟩ k (f h)) : errand.Goes held' ⟨c', turn'⟩ := by
  have own : c'.hand? k = some (f h) := moved.own.trans (congrArg _ found)
  have hands : ∀ j h', c'.hand? j = some h' → j = k ∧ h' = f h ∨ j ≠ k ∧ c.hand? j = some h' := by
    intro j h' found'
    by_cases same : j = k
    · exact .inl ⟨same, Option.some.inj ((same ▸ found').symm.trans own)⟩
    · exact .inr ⟨same, (moved.others j same).symm.trans found'⟩
  have origins : c'.jobs.map Hand.origin = c.jobs.map Hand.origin := moved.origins fun h' found' => by
    cases Option.some.inj (found.symm.trans found')
    exact origin
  have leaves : ∀ numbers waited, c.Leaves numbers waited → c'.Leaves numbers waited := by
    refine fun _ _ left => left.moved moved fun h' result found' => ?_
    cases Option.some.inj (found.symm.trans found')
    exact active result
  refine ⟨memory, fun j h' found' => ?_, fun j h' found' => ?_, fun j h' found' => ?_, fun j h' found' => ?_, permitted⟩
  · rcases hands j h' found' with ⟨_, rfl⟩ | ⟨_, before⟩
    · exact going
    · exact goes.going j h' before
  · rcases hands j h' found' with ⟨rfl, rfl⟩ | ⟨_, before⟩
    · rw [origin]
      exact goes.once j h found
    · exact goes.once j h' before
  · rcases hands _ h' found' with ⟨rfl, rfl⟩ | ⟨_, before⟩
    · exact group.trans (goes.grouped j h found)
    · exact goes.grouped j h' before
  · rcases hands j h' found' with ⟨rfl, rfl⟩ | ⟨other, before⟩
    · exact stands
    · have owes : ∀ {q}, errand.Owes held c j h'.origin q → errand.Owes held' c' j h'.origin q :=
        fun owes => owes.kept (congrArg _ (adds.elsewhere other)) (permits j other) origins leaves
      have stood := goes.stands j h' before
      have waiting := quiet j h' other before
      unfold Stands at stood ⊢
      split at stood
      · exact owes stood
      next running => exact absurd running waiting
      · exact ⟨stood.1, owes stood.2⟩
      · exact stood.kept (congrArg _ (adds.elsewhere other)) (permits j other) origins leaves
      · exact owes stood

/-- What is owed by the one on turn. -/
theorem owes (goes : errand.Goes held ⟨c, some (k, p)⟩) (found : c.hand? k = some h) (running : h.station = .running) :
    errand.Owes held c k h.origin p := by
  have stood := goes.stands k h found
  simp only [Stands, running] at stood
  exact stood p rfl

theorem permitted_moved (goes : errand.Goes held ⟨c, turn⟩) (moved : Moved k f c c')
    (same : ∀ h, (f h).origin = h.origin) (groups : c'.groups = c.groups) : errand.Permitted held c' :=
  goes.permitted.same (fun _ _ => moved.found) (moved.origins fun h _ => same h) groups

/-- The one on turn does something, and stays on turn. -/
theorem turns {q : Routine Yield} (goes : errand.Goes held ⟨c, some (k, p)⟩) (proper : Shift.Proper ⟨c, some (k, p)⟩)
    (found : c.hand? k = some h) (running : h.station = .running) (moved : Moved k id c c') (adds : Adds k new c c')
    (memory : errand.terms.keeps c'.memory) (permits : ∀ j, j ≠ k → (j ∈ held' ↔ j ∈ held)) (permitted : errand.Permitted held' c')
    (owes : errand.Owes held' c' k h.origin q) : errand.Goes held' ⟨c', some (k, q)⟩ := by
  refine goes.moves moved adds found (by simp [running]) (proper.quiet (by rintro _ _ ⟨⟩; rfl)) rfl rfl (goes.going k h found) memory
    permits permitted ?_
  simp only [Stands, id, running]
  rintro _ ⟨⟩
  exact owes

theorem look {next : Memory → Routine Yield} (goes : errand.Goes held ⟨c, some (k, .look next)⟩)
    (proper : Shift.Proper ⟨c, some (k, .look next)⟩) : errand.Goes held ⟨c, some (k, next c.memory)⟩ := by
  obtain ⟨h, found, running⟩ := proper.runs k _ rfl
  exact goes.turns proper found running (.refl k c) (.none rfl) goes.memory (fun _ _ => Iff.rfl) goes.permitted
    ((goes.owes found running).look goes.memory)

theorem store {m : Memory} (goes : errand.Goes held ⟨c, some (k, .store m p)⟩)
    (proper : Shift.Proper ⟨c, some (k, .store m p)⟩) : errand.Goes held ⟨c.store k m, some (k, p)⟩ := by
  obtain ⟨h, found, running⟩ := proper.runs k _ rfl
  obtain ⟨kept, owes⟩ := (goes.owes found running).store
  have moved := Moved.store k m c
  have adds : Adds k [.stores c.memory m] c (c.store k m) := rfl
  exact goes.turns proper found running moved adds kept (fun _ _ => Iff.rfl) (goes.permitted_moved moved (fun _ => rfl) rfl)
    (owes.silent moved (fun _ => rfl) adds rfl proper.active)

theorem exchange {question : Ask} {next : Except Fault question.Reply → Routine Yield} (answers : w.Answers errand.terms)
    (goes : errand.Goes held ⟨c, some (k, .ask question next)⟩) (proper : Shift.Proper ⟨c, some (k, .ask question next)⟩) :
    errand.Goes held ⟨c.exchange k question (c.reaction w question), some (k, next (c.reaction w question).reply)⟩ := by
  obtain ⟨h, found, running⟩ := proper.runs k _ rfl
  have moved := Moved.exchange k question (c.reaction w question) c
  have adds : Adds k [.asks question, .hears question (c.reaction w question).reply] c
      (c.exchange k question (c.reaction w question)) := by
    simp [Adds, Crew.exchange, note]
  exact goes.turns proper found running moved adds goes.memory (fun _ _ => Iff.rfl) (goes.permitted_moved moved (fun _ => rfl) rfl)
    ((goes.owes found running).hears (answers question c.clock c.world) adds.heard (moved.origins fun _ _ => rfl))

theorem ask {question : Ask} {next : Except Fault question.Reply → Routine Yield} (answers : w.Answers errand.terms)
    (goes : errand.Goes held ⟨c, some (k, .ask question next)⟩) (proper : Shift.Proper ⟨c, some (k, .ask question next)⟩) :
    errand.Goes held ⟨c.ask k question (c.reaction w question) next, none⟩ := by
  obtain ⟨h, found, running⟩ := proper.runs k _ rfl
  have moved := Moved.ask k question (c.reaction w question) next c
  have adds : Adds k [.asks question] c (c.ask k question (c.reaction w question) next) := rfl
  refine goes.moves moved adds found (by simp [running]) (proper.quiet (by rintro _ _ ⟨⟩; rfl)) rfl rfl (goes.going k h found) goes.memory
    (fun _ _ => Iff.rfl) (goes.permitted_moved moved (fun _ => rfl) rfl) ⟨answers question c.clock c.world, ?_⟩
  exact (goes.owes found running).silent moved (fun _ => rfl) adds rfl proper.active

theorem close {result : Except Fault Yield} (goes : errand.Goes held ⟨c, some (k, .done result)⟩)
    (proper : Shift.Proper ⟨c, some (k, .done result)⟩) : errand.Goes held ⟨c.close k result, none⟩ := by
  obtain ⟨h, found, running⟩ := proper.runs k _ rfl
  have moved := Moved.close k result c
  have adds : Adds k [] c (c.close k result) := (List.append_nil _).symm
  have isOver : (h.closed result).station = .over result := by
    cases result with
    | ok last => simp [Hand.closed, goes.once k h found]
    | error => rfl
  refine goes.moves moved adds found (by simp [running]) (proper.quiet (by rintro _ _ ⟨⟩; rfl)) (Hand.closed_origin ..)
    (Hand.closed_group ..) ((Hand.closed_stopped ..).trans (goes.going k h found)) goes.memory (fun _ _ => Iff.rfl)
    (goes.permitted_moved moved (Hand.closed_origin result) rfl) ?_
  simp only [Stands, isOver, Hand.closed_origin]
  exact (goes.owes found running).silent moved (Hand.closed_origin result) adds rfl proper.active

/-- Somebody comes on turn who did not run. -/
theorem comes {q : Routine Yield} (goes : errand.Goes held ⟨c, none⟩) (proper : Shift.Proper ⟨c, none⟩)
    (found : c.hand? k = some h) (active : ∀ result, h.station ≠ .over result) (moved : Moved k f c c') (adds : Adds k new c c')
    (origin : (f h).origin = h.origin) (group : (f h).group = h.group) (going : (f h).stopped = false)
    (runs : (f h).station = .running) (memory : errand.terms.keeps c'.memory) (permits : ∀ j, j ≠ k → (j ∈ held' ↔ j ∈ held))
    (permitted : errand.Permitted held' c') (owes : errand.Owes held' c' k h.origin q) : errand.Goes held' ⟨c', some (k, q)⟩ := by
  refine goes.moves moved adds found active (proper.quiet nofun) origin group going memory permits permitted ?_
  simp only [Stands, runs, origin]
  rintro _ ⟨⟩
  exact owes

theorem begin (goes : errand.Goes held ⟨c, none⟩) (proper : Shift.Proper ⟨c, none⟩) (found : c.hand? k = some h)
    (fresh : h.station = .fresh) : errand.Goes held ⟨c.begin k h.origin, some (k, h.origin.routine)⟩ := by
  have moved := Moved.begin k h.origin c
  have adds : Adds k [.begins h.origin] c (c.begin k h.origin) := rfl
  have owes := goes.stands k h found
  simp only [Stands, fresh] at owes
  refine goes.comes proper found (by simp [fresh]) moved adds rfl rfl (goes.going k h found) rfl goes.memory (fun _ _ => Iff.rfl)
    (goes.permitted_moved moved (fun _ => rfl) rfl) ?_
  exact owes.silent moved (fun _ => rfl) adds rfl (active_of found (by simp [fresh]))

theorem hear {question : Ask} {reply : Except Fault question.Reply} {due : Float} {next : Except Fault question.Reply → Routine Yield}
    (goes : errand.Goes held ⟨c, none⟩) (proper : Shift.Proper ⟨c, none⟩) (found : c.hand? k = some h)
    (asking : h.station = .asking question reply due next) :
    errand.Goes held ⟨c.hear k question (h.heard reply), some (k, next (h.heard reply))⟩ := by
  have heard : h.heard reply = reply := if_neg (by simp [goes.going k h found])
  rw [heard]
  have moved := Moved.hear k question reply c
  have adds : Adds k [.hears question reply] c (c.hear k question reply) := rfl
  have stood := goes.stands k h found
  simp only [Stands, asking] at stood
  refine goes.comes proper found (by simp [asking]) moved adds rfl rfl rfl rfl goes.memory (fun _ _ => Iff.rfl)
    (goes.permitted_moved moved (fun _ => rfl) rfl) ?_
  exact stood.2.hears stood.1 adds.heard (moved.origins fun _ _ => rfl)

theorem pass (goes : errand.Goes held ⟨c, none⟩) (time : Float) : errand.Goes held ⟨{ c with clock := time }, none⟩ := by
  have hands : ∀ k, Crew.hand? { c with clock := time } k = c.hand? k := by
    intro k
    cases k <;> rfl
  refine ⟨goes.memory, fun k h found => goes.going k h ((hands k).symm.trans found),
    fun k h found => goes.once k h ((hands k).symm.trans found),
    fun j h found => goes.grouped j h found, fun k h found => ?_, ⟨goes.permitted.nodup, goes.permitted.jobs, goes.permitted.lends⟩⟩
  have stood := goes.stands k h ((hands k).symm.trans found)
  unfold Stands at stood ⊢
  split at stood
  · exact stood.kept rfl Iff.rfl rfl fun _ _ => id
  · exact nofun
  · exact ⟨stood.1, stood.2.kept rfl Iff.rfl rfl fun _ _ => id⟩
  · exact stood.kept rfl Iff.rfl rfl fun _ _ => id
  · exact stood.kept rfl Iff.rfl rfl fun _ _ => id

/-- A job on turn takes a permit or hands one back. -/
theorem permits {j : Nat} {job : Job} {q : Routine Yield} {g : Permits → Permits} (goes : errand.Goes held ⟨c, some (.job j, p)⟩)
    (proper : Shift.Proper ⟨c, some (.job j, p)⟩) (found : c.hand? (.job j) = some h) (running : h.station = .running)
    (origin : h.origin = .job job) (others : ∀ i, i ≠ Who.job j → (i ∈ held' ↔ i ∈ held))
    (permitted : errand.Permitted held' (c.onGroup (.job j) g))
    (hears : q.Hears errand.terms False (.job j ∈ held') fun later => errand.comes job ((c.diary (.job j)).heard ++ later)) :
    errand.Goes held' ⟨c.onGroup (.job j) g, some (.job j, q)⟩ := by
  have adds : Adds (.job j) [] c (c.onGroup (.job j) g) := (c.onGroup_log _ g).trans (List.append_nil _).symm
  have heard : ((c.onGroup (.job j) g).diary (.job j)).heard = (c.diary (.job j)).heard := adds.heard.trans (List.append_nil _)
  have memory : errand.terms.keeps (c.onGroup (.job j) g).memory := by
    rw [c.onGroup_memory]
    exact goes.memory
  refine goes.turns proper found running (.onGroup _ g c) adds memory others permitted ?_
  rw [origin, owes_job, heard]
  exact hears

theorem grant {request : Control} {reply : Except Fault request.Reply} {next : Except Fault request.Reply → Routine Yield}
    (goes : errand.Goes held ⟨c, some (k, .control request next)⟩)
    (proper : Shift.Proper ⟨c, some (k, .control request next)⟩) (granted : c.Grants k request reply c') :
    errand.Goes (Shift.holders ⟨c, some (k, .control request next)⟩ ⟨c', some (k, next reply)⟩ held) ⟨c', some (k, next reply)⟩ := by
  obtain ⟨h, found, running⟩ := proper.runs k _ rfl
  have owes := goes.owes found running
  have stays : ∀ {q}, errand.Owes held c k h.origin q → errand.Goes held ⟨c, some (k, q)⟩ :=
    goes.turns proper found running (.refl k c) (.none rfl) goes.memory (fun _ _ => Iff.rfl) goes.permitted
  cases k with
  | job j =>
    cases origin : h.origin with
    | caller => rw [origin] at owes; exact owes.elim
    | job job =>
      rw [origin, owes_job] at owes
      cases request with
      | takePermit =>
        obtain ⟨free, rfl, rfl⟩ := granted
        obtain ⟨idle, hears⟩ := owes
        have mine : (.job j ∈ Who.job j :: held) = True := eq_true (List.mem_cons_self ..)
        have others : ∀ i, i ≠ Who.job j → (i ∈ Who.job j :: held ↔ i ∈ held) := fun i other => by
          rw [List.mem_cons, or_iff_right other]
        have permitted := goes.permitted.takes found (goes.grouped j h found) free idle
        exact goes.permits proper found running origin others permitted (mine ▸ hears)
      | givePermit =>
        obtain ⟨rfl, rfl⟩ := granted
        obtain ⟨holds, hears⟩ := owes
        have handed : (.job j ∈ held.erase (.job j)) = False := eq_false goes.permitted.nodup.not_mem_erase
        have others : ∀ i, i ≠ Who.job j → (i ∈ held.erase (.job j) ↔ i ∈ held) := fun i other => List.mem_erase_of_ne other
        have permitted := goes.permitted.gives found (goes.grouped j h found) holds
        exact goes.permits proper found running origin others permitted (handed ▸ hears)
      | _ => exact owes.elim
  | caller i =>
    rcases owes with ⟨nobody, prepares⟩ | ⟨jobs, waited, opened, left, reads⟩
    · cases request with
      | now =>
        obtain ⟨rfl, rfl⟩ := granted
        exact stays (.inl ⟨nobody, prepares _⟩)
      | gather permits jobs => exact absurd granted.1 prepares.2.1
      | _ => exact prepares.elim
    · cases request with
      | now =>
        obtain ⟨rfl, rfl⟩ := granted
        exact stays (.inr ⟨jobs, waited, opened, left, reads _⟩)
      | _ => exact reads.elim

/-- A job waits for a permit. -/
theorem queue {j : Nat} {next : Except Fault Unit → Routine Yield} (goes : errand.Goes held ⟨c, some (.job j, .control .takePermit next)⟩)
    (proper : Shift.Proper ⟨c, some (.job j, .control .takePermit next)⟩) :
    errand.Goes held ⟨c.rest (.job j) .permit fun waited => next (Agenda.overOnly waited), none⟩ := by
  obtain ⟨h, found, running⟩ := proper.runs _ _ rfl
  have moved := Moved.rest (.job j) .permit (fun waited => next (Agenda.overOnly waited)) c
  have adds : Adds (.job j) [] c (c.rest (.job j) .permit fun waited => next (Agenda.overOnly waited)) := (List.append_nil _).symm
  refine goes.moves moved adds found (by simp [running]) (proper.quiet (by rintro _ _ ⟨⟩; rfl)) rfl rfl (goes.going _ h found) goes.memory
    (fun _ _ => Iff.rfl) (goes.permitted_moved moved (fun _ => rfl) rfl) ⟨rfl, ?_⟩
  have owes := (goes.owes found running).silent moved (fun _ => rfl) adds rfl proper.active
  rw [Hand.moved_origin]
  cases origin : h.origin with
  | caller =>
    rw [origin] at owes
    exact owes.elim
  | job job =>
    rw [origin] at owes
    exact owes

/-- All jobs are added together, with all permits free. -/
theorem gather {i : Nat} {permits : Permits} {jobs : List Job} {next : Waited → Routine Yield} (solo : c.Solo)
    (absent : ∀ k, c.hand? k = none → c.diary k = [])
    (goes : errand.Goes held ⟨c, some (.caller i, .control (.gather permits jobs) next)⟩)
    (proper : Shift.Proper ⟨c, some (.caller i, .control (.gather permits jobs) next)⟩) :
    errand.Goes held ⟨(c.gather permits jobs).rest (.caller i) (.members (c.numbers jobs)) next, none⟩ := by
  obtain ⟨h, found, running⟩ := proper.runs _ _ rfl
  obtain ⟨nobody, rfl, some, opens, employs, reads⟩ := (goes.owes found running).resolve_right fun ⟨_, _, _, _, reads⟩ => reads
  let c' := (c.gather errand.permits jobs).rest (.caller i) (.members (c.numbers jobs)) next
  have nowhere : ∀ j, c.hand? (.job j) = none := fun j => by simp [hand?, nobody]
  have idle : held = [] := by
    refine List.eq_nil_iff_forall_not_mem.mpr fun k inside => ?_
    obtain ⟨j, h', _, found'⟩ := goes.permitted.jobs k inside
    cases (nowhere j).symm.trans found'
  subst idle
  have ungrouped : c.groups = [] := (goes.permitted.lends.resolve_right fun already => already.1 nobody).2
  have hands : ∀ k h', c'.hand? k = Option.some h' → k = .caller i ∧ h' = h.moved (.waiting (.members (c.numbers jobs)) next) ∨
      ∃ j job, k = .job j ∧ jobs[j]? = Option.some job ∧ h' = .new (.job job) (Option.some 0) := by
    intro k h' found'
    rcases gathering_cases found found' with own | ⟨other, old⟩ | ⟨j, job, rfl, inside, rfl⟩
    · exact .inl own
    · cases k with
      | job j => cases (nowhere j).symm.trans old
      | caller i' => exact absurd ((solo.only old).trans (solo.only found).symm) fun same => other (congrArg _ same)
    · have first : c.jobs.length + j = j := by simp [nobody]
      exact .inr ⟨j, job, congrArg _ first, inside, by rw [ungrouped]; rfl⟩
  have origins : c'.jobs.map Hand.origin = jobs.map Origin.job := by
    simp only [c', Crew.rest, Crew.onHand, Crew.gather, nobody, List.nil_append, List.map_map]
    rfl
  have diary : ∀ k, c'.diary k = c.diary k := fun _ => rfl
  refine ⟨goes.memory, fun k h' found' => ?_, fun k h' found' => ?_, fun j h' found' => ?_, fun k h' found' => ?_,
    List.nodup_nil, fun k inside => absurd inside List.not_mem_nil, .inr ⟨?_, errand.permits, ?_, .none _⟩⟩
  · rcases hands k h' found' with ⟨rfl, rfl⟩ | ⟨j, job, rfl, inside, rfl⟩
    · exact goes.going _ h found
    · rfl
  · rcases hands k h' found' with ⟨rfl, rfl⟩ | ⟨j, job, rfl, inside, rfl⟩
    · exact goes.once _ h found
    · exact (employs job (List.mem_of_getElem? inside)).1
  · rcases hands _ h' found' with ⟨same, _⟩ | ⟨_, _, _, _, rfl⟩
    · cases same
    · rfl
  · rcases hands k h' found' with ⟨rfl, rfl⟩ | ⟨j, job, rfl, inside, rfl⟩
    · have numbers : c.numbers jobs = List.range jobs.length := by simp [Crew.numbers, nobody]
      exact ⟨jobs, ⟨some, opens, origins⟩, congrArg _ numbers, reads⟩
    · change errand.Owes [] c' (.job j) (.job job) job.routine
      have unheard : (c'.diary (.job j)).heard = [] := by
        rw [diary, absent _ (nowhere j)]
        rfl
      rw [owes_job, unheard, eq_false (List.not_mem_nil (a := Who.job j))]
      exact (employs job (List.mem_of_getElem? inside)).2
  · exact fun none => some (List.map_eq_nil_iff.mp (origins.symm.trans (congrArg _ none)))
  · simp [Crew.rest, Crew.onHand, Crew.gather, ungrouped]

theorem resume {await : Await} {resume : Waited → Routine Yield} {waited : Waited} (goes : errand.Goes held ⟨c, none⟩)
    (proper : Shift.Proper ⟨c, none⟩) (found : c.hand? k = some h) (waiting : h.station = .waiting await resume)
    (wakes : c.Wakes k h await waited c') :
    errand.Goes (Shift.holders ⟨c, none⟩ ⟨c'.goOn k, some (k, resume waited)⟩ held) ⟨c'.goOn k, some (k, resume waited)⟩ := by
  have going := goes.going k h found
  have moved := Moved.after_waking wakes
  have stood := goes.stands k h found
  simp only [Stands, waiting] at stood
  rw [Wakes, if_neg (by simp [going])] at wakes
  cases k with
  | job j =>
    obtain ⟨rfl, owes⟩ := stood
    obtain ⟨free, rfl, rfl⟩ := wakes
    have queues : c.queues (.job j) = true := by simp [Crew.queues, found, waiting, going]
    have adds : Adds (.job j) [] c ((c.onGroup (.job j) Permits.less).goOn (.job j)) := (c.onGroup_log _ _).trans (List.append_nil _).symm
    have heard := adds.heard.trans (List.append_nil _)
    have memory : errand.terms.keeps ((c.onGroup (.job j) Permits.less).goOn (.job j)).memory := by
      change errand.terms.keeps (c.onGroup (.job j) Permits.less).memory
      rw [c.onGroup_memory]
      exact goes.memory
    simp only [Shift.holders, queues, if_true]
    cases origin : h.origin with
    | caller => rw [origin] at owes; exact owes.elim
    | job job =>
      rw [origin, owes_job] at owes
      obtain ⟨idle, hears⟩ := owes
      have permitted := goes.permitted.takes found (goes.grouped j h found) free idle
      have mine : (.job j ∈ Who.job j :: held) = True := eq_true (List.mem_cons_self ..)
      refine goes.comes proper found (by simp [waiting]) moved adds rfl rfl rfl rfl memory (fun i other => ?_) ?_ ?_
      · rw [List.mem_cons, or_iff_right other]
      · exact permitted.same (fun i h' found' => (Moved.goOn (.job j) _).found found') ((Moved.goOn (.job j) _).origins fun _ _ => rfl) rfl
      · rw [origin, owes_job, heard, mine]
        exact hears
  | caller i =>
    obtain ⟨jobs, opened, rfl, reads⟩ := stood
    have queues : c.queues (.caller i) = false := by simp [Crew.queues, found, waiting]
    have active : c.Active (.caller i) := active_of found (by simp [waiting])
    obtain ⟨left, rfl⟩ := wakes
    simp only [Shift.holders, queues]
    refine goes.comes proper found (by simp [waiting]) moved (.none rfl) rfl rfl rfl rfl goes.memory (fun _ _ => Iff.rfl)
      (goes.permitted_moved moved (fun _ => rfl) rfl) (.inr ⟨jobs, waited, ?_, left.moved moved active, reads waited⟩)
    exact opened.kept rfl (moved.origins fun _ _ => rfl)

theorem wait {request : Control} {await : Await} {read : Waited → Except Fault request.Reply}
    {next : Except Fault request.Reply → Routine Yield} (solo : c.Solo) (absent : ∀ k, c.hand? k = none → c.diary k = [])
    (goes : errand.Goes held ⟨c, some (k, .control request next)⟩)
    (proper : Shift.Proper ⟨c, some (k, .control request next)⟩) (waits : c.Waits request await read c') :
    errand.Goes (Shift.holders ⟨c, some (k, .control request next)⟩
      ⟨c'.rest k await fun waited => next (read waited), none⟩ held) ⟨c'.rest k await fun waited => next (read waited), none⟩ := by
  obtain ⟨h, found, running⟩ := proper.runs k _ rfl
  have owes := goes.owes found running
  cases k with
  | job j =>
    cases origin : h.origin with
    | caller => rw [origin] at owes; exact owes.elim
    | job job =>
      rw [origin, owes_job] at owes
      cases request with
      | takePermit =>
        obtain ⟨rfl, rfl, rfl⟩ := waits
        exact goes.queue proper
      | givePermit => exact waits.elim
      | _ => exact owes.elim
  | caller i =>
    rcases owes with ⟨nobody, prepares⟩ | ⟨_, _, _, _, reads⟩
    · cases request with
      | gather permits jobs =>
        obtain ⟨rfl, rfl, rfl⟩ := waits
        exact goes.gather solo absent proper
      | now => exact waits.elim
      | _ => exact prepares.elim
    · cases request with
      | now => exact waits.elim
      | _ => exact reads.elim

theorem step {a b : Shift ω} (answers : w.Answers errand.terms) (solo : a.crew.Solo)
    (absent : ∀ k, a.crew.hand? k = none → a.crew.diary k = []) (proper : a.Proper) (goes : errand.Goes held a)
    (step : Shift.Step w (fun _ => False) a b) : errand.Goes (a.holders b held) b := by
  cases step with
  | look => exact goes.look proper
  | store => exact goes.store proper
  | exchange => exact goes.exchange answers proper
  | ask => exact goes.ask answers proper
  | grant granted => exact goes.grant proper granted
  | wait waits => exact goes.wait solo absent proper waits
  | close => exact goes.close proper
  | @begin c k h found fresh =>
    have idle : c.queues k = false := by simp [Crew.queues, found, fresh]
    simp only [Shift.holders, idle]
    exact goes.begin proper found fresh
  | drop found _ stopped => cases (goes.going _ _ found).symm.trans stopped
  | @hear c k h question reply due next found asking =>
    have idle : c.queues k = false := by simp [Crew.queues, found, asking]
    simp only [Shift.holders, idle]
    exact goes.hear proper found asking
  | resume found waiting wakes => exact goes.resume proper found waiting wakes
  | call calls => exact calls.elim
  | pass time => exact goes.pass time

/-- No more jobs hold permits than there are permits. -/
theorem bounded {a : Shift ω} {limit : Nat} (limited : errand.permits = .limited limit) (goes : errand.Goes held a) : held.length ≤ limit := by
  rcases goes.permitted.lends with ⟨nobody, _⟩ | ⟨_, free, _, lends⟩
  · have idle : held = [] := by
      refine List.eq_nil_iff_forall_not_mem.mpr fun k inside => ?_
      obtain ⟨j, h, _, found⟩ := goes.permitted.jobs k inside
      simp [Crew.hand?, nobody] at found
    exact idle ▸ Nat.zero_le _
  · rw [limited] at lends
    exact lends.bounded

/-- A job that has asked something holds a permit. -/
theorem job_asking {a : Shift ω} {j : Nat} {question : Ask} {reply : Except Fault question.Reply} {due : Float}
    {next : Except Fault question.Reply → Routine Yield} (goes : errand.Goes held a) (found : a.crew.hand? (.job j) = some h)
    (asking : h.station = .asking question reply due next) : .job j ∈ held := by
  have stood := goes.stands _ h found
  simp only [Stands, asking] at stood
  exact stood.2.asks

/-- What a job that is over has come to is what it is to come to. -/
theorem job_over {a : Shift ω} {j : Nat} {result : Except Fault Yield} (goes : errand.Goes held a)
    (ended : a.crew.result? j = some result) : ∃ h job, a.crew.hand? (.job j) = some h ∧ h.origin = .job job ∧ h.station = .over result ∧
      errand.comes job (a.crew.diary (.job j)).heard result := by
  obtain ⟨h, found, isOver⟩ := result?_of_found ended
  have stood := goes.stands _ h found
  simp only [Stands, isOver] at stood
  cases origin : h.origin with
  | caller => rw [origin] at stood; exact stood.elim
  | job job =>
    rw [origin, owes_job] at stood
    have came : errand.comes job ((a.crew.diary (.job j)).heard ++ []) result := stood.2
    rw [List.append_nil] at came
    exact ⟨h, job, found, origin, isOver, came⟩

/-- A caller who is over had nothing to have done, or has made of what the jobs left behind what is to be made of it. -/
theorem caller_over {a : Shift ω} {i : Nat} {result : Except Fault Yield} (goes : errand.Goes held a)
    (found : a.crew.hand? (.caller i) = some h) (isOver : h.station = .over result) :
    a.crew.jobs = [] ∧ errand.idle (a.crew.diary (.caller i)).heard result ∨ ∃ jobs waited, errand.Opened a.crew i jobs ∧
      a.crew.Leaves (List.range jobs.length) waited ∧ errand.closes jobs waited result := by
  have stood := goes.stands _ h found
  simp only [Stands, isOver] at stood
  exact stood

end Goes

/-- Whatever the order, an errand goes as it is to go. -/
theorem goes {w : World ω} {program : Routine Yield} {m : Memory} {world : ω} {hasLoop : Bool} {a : Shift ω}
    (answers : w.Answers errand.terms) (kept : errand.terms.keeps m) (prepares : errand.Prepares [] program)
    (holding : Shift.Holding w (Shift.solo program m world hasLoop) held a) : errand.Goes held a := by
  induction holding with
  | start =>
    have alone : ∀ k h, (Shift.solo program m world hasLoop).crew.hand? k = some h → k = .caller 0 ∧
        h = (Hand.new (.caller program) none).moved .running := by
      intro k h found
      cases k with
      | job j => simp [Crew.hand?, Shift.solo, Crew.begin, Crew.onHand, Crew.note, Crew.call, Crew.start] at found
      | caller i =>
        cases i with
        | zero =>
          cases found
          exact ⟨rfl, rfl⟩
        | succ i => simp [Crew.hand?, Shift.solo, Crew.begin, Crew.onHand, Crew.note, Crew.call, Crew.start] at found
    refine ⟨kept, fun k h found => ?_, fun k h found => ?_, fun j h found => ?_, fun k h found => ?_,
      List.nodup_nil, fun k inside => absurd inside List.not_mem_nil, .inl ⟨rfl, rfl⟩⟩
    · exact (alone k h found).2 ▸ rfl
    · exact (alone k h found).2 ▸ rfl
    · cases (alone _ h found).1
    · obtain ⟨rfl, rfl⟩ := alone k h found
      rintro _ ⟨⟩
      exact .inl ⟨rfl, prepares⟩
  | next holding step ih =>
    have reach := holding.leads.reach
    exact ih.step answers holding.leads.solo reach.written.absent reach.proper step

end Errand

end CodeAtlas
