import CodeAtlas.Proofs.Crew.Errand

namespace CodeAtlas

open Crew

variable {ω : Type}

theorem Permits.available_more (p : Permits) : p.more.available = true := by
  cases p with
  | limited n => exact decide_eq_true (Nat.succ_pos n)
  | unlimited => rfl

namespace Crew

variable {c c' c'' : Crew ω} {k : Who} {f g : Hand → Hand}

theorem Moved.trans (first : Moved k f c c') (second : Moved k g c' c'') : Moved k (g ∘ f) c c'' where
  others i other := (second.others i other).trans (first.others i other)
  own := by rw [second.own, first.own, Option.map_map]

theorem ended_of_over {n : Nat} {h : Hand} {result : Except Fault Yield} (found : c.hand? (.job n) = some h)
    (isOver : h.station = .over result) : c.ended n = true := by
  rw [ended, result?_of_over found isOver]
  rfl

/-- Once all jobs are over, there is something that they leave behind. -/
theorem leaves_of_ended {numbers : List Nat} (all : ∀ n ∈ numbers, c.ended n = true) : ∃ waited, c.Leaves numbers waited := by
  induction numbers with
  | nil => exact ⟨.ok [], .inl ⟨[], rfl, rfl⟩⟩
  | cons n rest ih =>
    obtain ⟨result, own⟩ := Option.isSome_iff_exists.mp (all n (List.mem_cons_self ..))
    obtain ⟨waited, left⟩ := ih fun i inside => all i (List.mem_cons_of_mem _ inside)
    cases result with
    | error fault => exact ⟨.error fault, .inr ⟨n, List.mem_cons_self .., fault, own, rfl⟩⟩
    | ok y =>
      rcases left with ⟨yields, ended, rfl⟩ | ⟨i, inside, fault, failed, rfl⟩
      · exact ⟨.ok (y :: yields), .inl ⟨y :: yields, by rw [List.map_cons, List.map_cons, own, ended], rfl⟩⟩
      · exact ⟨.error fault, .inr ⟨i, List.mem_cons_of_mem _ inside, fault, failed, rfl⟩⟩

end Crew

/-- What comes of a shift on the way, along with those who hold a permit then. -/
structure Shift.Onward (w : World ω) (start a : Shift ω) (held : List Who) (b : Shift ω) : Prop where
  holding : Holding w start held b
  leads : Leads w a b

namespace Shift.Onward

variable {w : World ω} {start a b d : Shift ω} {held : List Who}

theorem refl (holding : Holding w start held a) : Onward w start a held a := ⟨holding, .refl⟩

theorem first (step : Step w (fun _ => False) a b) (rest : Onward w start b held d) : Onward w start a held d :=
  ⟨rest.holding, .head step rest.leads⟩

theorem trans {held' : List Who} (earlier : Onward w start a held' b) (rest : Onward w start b held d) : Onward w start a held d :=
  ⟨rest.holding, earlier.leads.trans rest.leads⟩

end Shift.Onward

/-- From the start on an errand goes as it is to go, and nobody else calls. -/
structure Errand.Underway (errand : Errand) (w : World ω) (start : Shift ω) : Prop where
  goes : ∀ {held a}, Shift.Holding w start held a → errand.Goes held a
  proper : ∀ {a}, Shift.Leads w start a → a.Proper
  solo : ∀ {a}, Shift.Leads w start a → a.crew.Solo

/-- Whatever the order, an errand is under way from where it starts. -/
theorem Errand.underway {errand : Errand} {w : World ω} {program : Routine Yield} {m : Memory} {world : ω} {hasLoop : Bool}
    (answers : w.Answers errand.terms) (kept : errand.terms.keeps m) (prepares : errand.Prepares [] program) :
    errand.Underway w (Shift.solo program m world hasLoop) :=
  ⟨errand.goes answers kept prepares, fun leads => leads.reach.proper, Shift.Leads.solo⟩

namespace Errand.Underway

open Shift

variable {errand : Errand} {w : World ω} {start : Shift ω} {c : Crew ω} {held : List Who} {k : Who} {j : Nat} {h : Hand}

/-- Who asks hears the answer in the end. -/
theorem answered (under : errand.Underway w start) {question : Ask} {reply : Except Fault question.Reply} {due : Float}
    {next : Except Fault question.Reply → Routine Yield} (holding : Holding w start held ⟨c, none⟩) (found : c.hand? k = some h)
    (asking : h.station = .asking question reply due next) :
    ∃ held' d f, Onward w start ⟨c, none⟩ held' ⟨d, some (k, next reply)⟩ ∧ Moved k f c d ∧ (k ∈ held → k ∈ held') := by
  let late : Crew ω := { c with clock := due }
  have there : late.hand? k = some h := by cases k <;> exact found
  have heard : h.heard reply = reply := if_neg (by simp [(under.goes holding).going k h found])
  have passes : Step w (fun _ => False) ⟨c, none⟩ ⟨late, none⟩ := .pass due
  have hears : Step w (fun _ => False) ⟨late, none⟩ ⟨late.hear k question (h.heard reply), some (k, next (h.heard reply))⟩ :=
    .hear there asking fun _ => rfl
  rw [heard] at hears
  have moved : Moved k Hand.resumed c (late.hear k question reply) := (Moved.onHand k _ c).of_same fun i => by cases i <;> rfl
  refine ⟨_, _, _, .first passes (.first hears (.refl ((holding.next passes).next hears))), moved, fun inside => ?_⟩
  simp only [holders]
  split
  · exact List.mem_cons_of_mem _ inside
  · exact inside

/-- Who is to ask something asks it, and hears the answer. -/
theorem asks (under : errand.Underway w start) {question : Ask} {next : Except Fault question.Reply → Routine Yield}
    (holding : Holding w start held ⟨c, some (k, .ask question next)⟩) : ∃ reply held' d f,
      Onward w start ⟨c, some (k, .ask question next)⟩ held' ⟨d, some (k, next reply)⟩ ∧ Moved k f c d ∧ (k ∈ held → k ∈ held') := by
  by_cases slow : 0 < (c.reaction w question).delay
  · have step : Step w (fun _ => False) ⟨c, some (k, .ask question next)⟩
        ⟨c.ask k question (c.reaction w question) next, none⟩ := .ask slow
    have moved := Moved.ask k question (c.reaction w question) next c
    obtain ⟨h, found, running⟩ := (under.proper holding.leads).runs k _ rfl
    obtain ⟨held', d, f, onward, moved', keeps⟩ := under.answered (holding.next step) (moved.own.trans (congrArg _ found)) rfl
    exact ⟨_, held', d, _, .first step onward, moved.trans moved', keeps⟩
  · have step : Step w (fun _ => False) ⟨c, some (k, .ask question next)⟩ _ := .exchange slow
    exact ⟨_, held, _, _, .first step (.refl (holding.next step)), Moved.exchange k question _ c, id⟩

/-- Who is done is over. -/
theorem closes (under : errand.Underway w start) {result : Except Fault Yield}
    (holding : Holding w start held ⟨c, some (k, .done result)⟩) :
    ∃ h, Onward w start ⟨c, some (k, .done result)⟩ held ⟨c.close k result, none⟩ ∧
      (c.close k result).hand? k = some h ∧ h.station = .over result := by
  obtain ⟨h, found, _⟩ := (under.proper holding.leads).runs _ _ rfl
  have step : Step w (fun _ => False) ⟨c, some (k, .done result)⟩ ⟨c.close k result, none⟩ := .close
  refine ⟨h.closed result, .first step (.refl (holding.next step)), (Moved.close k result c).own.trans (congrArg _ found), ?_⟩
  cases result with
  | ok last => simp [Hand.closed, (under.goes holding).once _ h found]
  | error => rfl

/-- A job on turn that holds a permit, or finds one, comes to its end. -/
theorem job_ends (under : errand.Underway w start) (p : Routine Yield) (holding : Holding w start held ⟨c, some (.job j, p)⟩)
    (may : .job j ∈ held ∨ c.isFree (.job j) = true) : ∃ held' d f,
      Onward w start ⟨c, some (.job j, p)⟩ held' ⟨d, none⟩ ∧ d.ended j = true ∧ Moved (.job j) f c d := by
  induction p generalizing c held with
  | done result =>
    obtain ⟨h, onward, found, isOver⟩ := under.closes holding
    exact ⟨held, _, _, onward, ended_of_over found isOver, Moved.close (.job j) result c⟩
  | look next ih =>
    have step : Step w (fun _ => False) ⟨c, some (.job j, .look next)⟩ ⟨c, some (.job j, next c.memory)⟩ := .look
    obtain ⟨held', d, f, onward, ended, moved⟩ := ih c.memory (holding.next step) may
    exact ⟨held', d, f, .first step onward, ended, moved⟩
  | store m next ih =>
    have step : Step w (fun _ => False) ⟨c, some (.job j, .store m next)⟩ ⟨c.store (.job j) m, some (.job j, next)⟩ := .store
    obtain ⟨held', d, f, onward, ended, moved⟩ := ih (holding.next step) may
    exact ⟨held', d, _, .first step onward, ended, (Moved.store (.job j) m c).trans moved⟩
  | ask question next ih =>
    obtain ⟨h, found, running⟩ := (under.proper holding.leads).runs _ _ rfl
    have holds := ((under.goes holding).owes found running).asks
    obtain ⟨reply, held', d, f, onward, moved, keeps⟩ := under.asks holding
    obtain ⟨held'', d', f', onward', ended, moved'⟩ := ih reply onward.holding (.inl (keeps holds))
    exact ⟨held'', d', _, onward.trans onward', ended, moved.trans moved'⟩
  | control request next ih =>
    obtain ⟨h, found, running⟩ := (under.proper holding.leads).runs _ _ rfl
    have goes := under.goes holding
    have owes := goes.owes found running
    cases origin : h.origin with
    | caller => rw [origin] at owes; exact owes.elim
    | job job =>
      rw [origin, owes_job] at owes
      cases request with
      | takePermit =>
        have free := may.resolve_left owes.1
        have step : Step w (fun _ => False) ⟨c, some (.job j, .control .takePermit next)⟩
            ⟨c.onGroup (.job j) Permits.less, some (.job j, next (.ok ()))⟩ := .grant ⟨free, rfl, rfl⟩
        obtain ⟨held', d, f, onward, ended, moved⟩ := ih _ (holding.next step) (.inl (List.mem_cons_self ..))
        exact ⟨held', d, _, .first step onward, ended, (Moved.onGroup (.job j) Permits.less c).trans moved⟩
      | givePermit =>
        have step : Step w (fun _ => False) ⟨c, some (.job j, .control .givePermit next)⟩
            ⟨c.onGroup (.job j) Permits.more, some (.job j, next (.ok ()))⟩ := .grant ⟨rfl, rfl⟩
        have handed : (c.onGroup (.job j) Permits.more).isFree (.job j) = true := by
          have member := goes.grouped j h found
          obtain ⟨_, free, single, _⟩ := goes.permitted.single found
          rw [isFree_single ((c.hand?_onGroup _ _ _).trans found) member (groups_onGroup found member single _)]
          exact free.available_more
        obtain ⟨held', d, f, onward, ended, moved⟩ := ih _ (holding.next step) (.inr handed)
        exact ⟨held', d, _, .first step onward, ended, (Moved.onGroup (.job j) Permits.more c).trans moved⟩
      | _ => exact owes.elim

/-- A job that is not over comes to its end, as long as it holds a permit or finds one. -/
theorem job_finishes (under : errand.Underway w start) (holding : Holding w start held ⟨c, none⟩) (found : c.hand? (.job j) = some h)
    (active : ∀ result, h.station ≠ .over result) (may : .job j ∈ held ∨ c.isFree (.job j) = true) : ∃ held' d f,
      Onward w start ⟨c, none⟩ held' ⟨d, none⟩ ∧ d.ended j = true ∧ Moved (.job j) f c d := by
  have goes := under.goes holding
  have going := goes.going _ h found
  have stood := goes.stands _ h found
  cases station : h.station with
  | fresh =>
    have step : Step w (fun _ => False) ⟨c, none⟩ ⟨c.begin (.job j) h.origin, some (.job j, h.origin.routine)⟩ :=
      .begin found station going
    have moved := Moved.begin (.job j) h.origin c
    have may' : .job j ∈ holders ⟨c, none⟩ ⟨c.begin (.job j) h.origin, some (.job j, h.origin.routine)⟩ held ∨
        (c.begin (.job j) h.origin).isFree (.job j) = true := by
      refine may.imp (fun inside => ?_) fun free => ?_
      · simp only [holders]
        split
        · exact List.mem_cons_self ..
        · exact inside
      · rw [isFree, groupOf, moved.own, Option.bind_map]
        exact free
    obtain ⟨held', d, f, onward, ended, moved'⟩ := under.job_ends _ (holding.next step) may'
    exact ⟨held', d, _, .first step onward, ended, moved.trans moved'⟩
  | running =>
    obtain ⟨_, ⟨⟩⟩ := (under.proper holding.leads).alone _ h found station
  | asking question reply due next =>
    simp only [Stands, station] at stood
    obtain ⟨held', d, f, onward, moved, keeps⟩ := under.answered holding found station
    obtain ⟨held'', d', f', onward', ended, moved'⟩ := under.job_ends _ onward.holding (.inl (keeps stood.2.asks))
    exact ⟨held'', d', _, onward.trans onward', ended, moved.trans moved'⟩
  | waiting await resume =>
    simp only [Stands, station] at stood
    obtain ⟨rfl, owes⟩ := stood
    have idle : .job j ∉ held := by
      cases origin : h.origin with
      | caller => rw [origin] at owes; exact owes.elim
      | job job =>
        rw [origin, owes_job] at owes
        exact owes.1
    have wakes : c.Wakes (.job j) h .permit (.ok []) (c.onGroup (.job j) Permits.less) := by
      rw [Wakes, if_neg (by simp [going])]
      exact ⟨may.resolve_left idle, rfl, rfl⟩
    have step : Step w (fun _ => False) ⟨c, none⟩ _ := .resume found station wakes
    have queues : c.queues (.job j) = true := by simp [Crew.queues, found, station, going]
    have taken : .job j ∈
        holders ⟨c, none⟩ ⟨(c.onGroup (.job j) Permits.less).goOn (.job j), some (.job j, resume (.ok []))⟩ held := by
      simp only [holders, queues, if_true]
      exact List.mem_cons_self ..
    obtain ⟨held', d, f, onward, ended, moved⟩ := under.job_ends _ (holding.next step) (.inl taken)
    exact ⟨held', d, _, .first step onward, ended, (Moved.after_waking wakes).trans moved⟩
  | _ result => exact absurd station (active result)

/-- As long as a job is not over, one of them can come to its end. -/
theorem next_finishes (under : errand.Underway w start) (available : errand.permits.available = true)
    (holding : Holding w start held ⟨c, none⟩) (found : c.hand? (.job j) = some h) (active : ∀ result, h.station ≠ .over result) :
    ∃ i held' d f, c.ended i = false ∧ Onward w start ⟨c, none⟩ held' ⟨d, none⟩ ∧ d.ended i = true ∧ Moved (.job i) f c d := by
  have goes := under.goes holding
  have unfinished : ∀ {i h'}, c.hand? (.job i) = some h' → (∀ result, h'.station ≠ .over result) → c.ended i = false := by
    intro i h' found' active'
    rw [ended, Option.isSome_eq_false_iff, Option.isNone_iff_eq_none]
    refine Option.eq_none_iff_forall_ne_some.mpr fun result isOver => ?_
    obtain ⟨h'', found'', isOver⟩ := result?_of_found isOver
    cases Option.some.inj (found'.symm.trans found'')
    exact active' result isOver
  cases held with
  | nil =>
    obtain ⟨_, free, single, lends⟩ := goes.permitted.single found
    have free : c.isFree (.job j) = true := (isFree_single found (goes.grouped j h found) single).trans (lends.available available)
    obtain ⟨held', d, f, onward, ended, moved⟩ := under.job_finishes holding found active (.inr free)
    exact ⟨j, held', d, f, unfinished found active, onward, ended, moved⟩
  | cons k rest =>
    -- Whoever holds a permit can go on, whether or not one is free.
    obtain ⟨i, h', rfl, found'⟩ := goes.permitted.jobs k (List.mem_cons_self ..)
    have active' : ∀ result, h'.station ≠ .over result := by
      intro result isOver
      have stood := goes.stands _ h' found'
      simp only [Stands, isOver] at stood
      cases origin : h'.origin with
      | caller => rw [origin] at stood; exact stood.elim
      | job job =>
        rw [origin, owes_job] at stood
        exact stood.1.mp (List.mem_cons_self ..)
    obtain ⟨held', d, f, onward, ended, moved⟩ := under.job_finishes holding found' active' (.inl (List.mem_cons_self ..))
    exact ⟨i, held', d, f, unfinished found' active', onward, ended, moved⟩

/-- All jobs come to their end, one after the other. -/
theorem jobs_finish (under : errand.Underway w start) (available : errand.permits.available = true) (todo : List Nat)
    (holding : Holding w start held ⟨c, none⟩) (rest : ∀ i, i < c.jobs.length → i ∉ todo → c.ended i = true) :
    ∃ held' d, Onward w start ⟨c, none⟩ held' ⟨d, none⟩ ∧ (∀ i, i < d.jobs.length → d.ended i = true) ∧
      ∀ i, d.hand? (.caller i) = c.hand? (.caller i) := by
  induction many : todo.length generalizing todo c held with
  | zero =>
    obtain rfl := List.length_eq_zero_iff.mp many
    exact ⟨held, c, .refl holding, fun i inside => rest i inside List.not_mem_nil, fun _ => rfl⟩
  | succ n ih =>
    by_cases all : ∀ i, i < c.jobs.length → c.ended i = true
    · exact ⟨held, c, .refl holding, all, fun _ => rfl⟩
    obtain ⟨j, unfinished⟩ := Classical.not_forall.mp all
    obtain ⟨inside, going⟩ := Classical.not_imp.mp unfinished
    have found : c.hand? (.job j) = some c.jobs[j] := List.getElem?_eq_getElem inside
    obtain ⟨i, held', d, f, before, onward, ended, moved⟩ :=
      under.next_finishes available holding found fun result isOver => going (ended_of_over found isOver)
    have there : i < c.jobs.length := by
      obtain ⟨result, own⟩ := Option.isSome_iff_exists.mp ended
      obtain ⟨h', found', _⟩ := result?_of_found own
      exact moved.jobs ▸ (List.getElem?_eq_some_iff.mp found').1
    have member : i ∈ todo := Classical.byContradiction fun other => Bool.false_ne_true (before.symm.trans (rest i there other))
    have fewer : (todo.erase i).length = n := by rw [List.length_erase_of_mem member, many, Nat.add_sub_cancel]
    have rest' : ∀ i', i' < d.jobs.length → i' ∉ todo.erase i → d.ended i' = true := by
      intro i' inside' others
      by_cases same : i' = i
      · exact same ▸ ended
      · have old := rest i' (moved.jobs ▸ inside') fun member' => others ((List.mem_erase_of_ne same).mpr member')
        obtain ⟨result, own⟩ := Option.isSome_iff_exists.mp old
        obtain ⟨h', found', isOver⟩ := result?_of_found own
        exact ended_of_over ((moved.others _ fun own => same (Who.job.inj own)).trans found') isOver
    obtain ⟨held'', d', onward', all', callers⟩ := ih (todo.erase i) onward.holding rest' fewer
    exact ⟨held'', d', onward.trans onward', all', fun i' => (callers i').trans (moved.others _ nofun)⟩

/-- A caller on turn who only reads the clock comes to the end. -/
theorem reads_ends {i : Nat} {ends : Except Fault Yield → Prop} (under : errand.Underway w start) (p : Routine Yield)
    (reads : p.Reads ends) (holding : Holding w start held ⟨c, some (.caller i, p)⟩) : ∃ held' d h result,
      Onward w start ⟨c, some (.caller i, p)⟩ held' ⟨d, none⟩ ∧ d.hand? (.caller i) = some h ∧ h.station = .over result := by
  induction p generalizing c held with
  | done result =>
    obtain ⟨h, onward, isOver⟩ := under.closes holding
    exact ⟨held, _, h, result, onward, isOver⟩
  | control request next ih =>
    cases request with
    | now =>
      have step : Step w (fun _ => False) ⟨c, some (.caller i, .control .now next)⟩ ⟨c, some (.caller i, next (.ok c.clock))⟩ :=
        .grant ⟨rfl, rfl⟩
      obtain ⟨held', d, h, result, onward, isOver⟩ := ih _ (reads _) (holding.next step)
      exact ⟨held', d, h, result, .first step onward, isOver⟩
    | _ => exact reads.elim
  | _ => exact reads.elim

/-- A caller on turn comes to the end, or waits for the jobs. -/
theorem caller_rests {i : Nat} (under : errand.Underway w start) (p : Routine Yield)
    (holding : Holding w start held ⟨c, some (.caller i, p)⟩) : ∃ held' d h, Onward w start ⟨c, some (.caller i, p)⟩ held' ⟨d, none⟩ ∧
      d.hand? (.caller i) = some h ∧ ((∃ result, h.station = .over result) ∨ ∃ await resume, h.station = .waiting await resume) := by
  induction p generalizing c held with
  | done result =>
    obtain ⟨h, onward, found, isOver⟩ := under.closes holding
    exact ⟨held, _, h, onward, found, .inl ⟨result, isOver⟩⟩
  | look next ih =>
    have step : Step w (fun _ => False) ⟨c, some (.caller i, .look next)⟩ ⟨c, some (.caller i, next c.memory)⟩ := .look
    obtain ⟨held', d, h, onward, rests⟩ := ih c.memory (holding.next step)
    exact ⟨held', d, h, .first step onward, rests⟩
  | store m next ih =>
    have step : Step w (fun _ => False) ⟨c, some (.caller i, .store m next)⟩ ⟨c.store (.caller i) m, some (.caller i, next)⟩ := .store
    obtain ⟨held', d, h, onward, rests⟩ := ih (holding.next step)
    exact ⟨held', d, h, .first step onward, rests⟩
  | ask question next ih =>
    obtain ⟨reply, held', d, f, onward, _, _⟩ := under.asks holding
    obtain ⟨held'', d', h, onward', rests⟩ := ih reply onward.holding
    exact ⟨held'', d', h, onward.trans onward', rests⟩
  | control request next ih =>
    obtain ⟨h, found, running⟩ := (under.proper holding.leads).runs _ _ rfl
    have goes := under.goes holding
    rcases goes.owes found running with ⟨nobody, prepares⟩ | ⟨_, _, _, _, reads⟩
    · cases request with
      | now =>
        have step : Step w (fun _ => False) ⟨c, some (.caller i, .control .now next)⟩ ⟨c, some (.caller i, next (.ok c.clock))⟩ :=
          .grant ⟨rfl, rfl⟩
        obtain ⟨held', d, h, onward, rests⟩ := ih _ (holding.next step)
        exact ⟨held', d, h, .first step onward, rests⟩
      | gather permits jobs =>
        have step : Step w (fun _ => False) ⟨c, some (.caller i, .control (.gather permits jobs) next)⟩
            ⟨(c.gather permits jobs).rest (.caller i) (.members (c.numbers jobs)) next, none⟩ := .wait ⟨rfl, rfl, rfl⟩
        have rests := (Moved.rest (.caller i) (.members (c.numbers jobs)) next (c.gather permits jobs)).own.trans
          (congrArg _ (gather_found found))
        exact ⟨_, _, _, .first step (.refl (holding.next step)), rests, .inr ⟨_, _, rfl⟩⟩
      | _ => exact prepares.elim
    · obtain ⟨held', d, h, result, onward, found', isOver⟩ := under.reads_ends _ reads holding
      exact ⟨held', d, h, onward, found', .inl ⟨result, isOver⟩⟩

/-- A job on turn comes to its end, or waits for a permit. -/
theorem job_rests (under : errand.Underway w start) (p : Routine Yield) (holding : Holding w start held ⟨c, some (.job j, p)⟩) :
    ∃ held' d, Onward w start ⟨c, some (.job j, p)⟩ held' ⟨d, none⟩ := by
  induction p generalizing c held with
  | done result =>
    obtain ⟨_, onward, _⟩ := under.closes holding
    exact ⟨held, _, onward⟩
  | look next ih =>
    have step : Step w (fun _ => False) ⟨c, some (.job j, .look next)⟩ ⟨c, some (.job j, next c.memory)⟩ := .look
    obtain ⟨held', d, onward⟩ := ih c.memory (holding.next step)
    exact ⟨held', d, .first step onward⟩
  | store m next ih =>
    have step : Step w (fun _ => False) ⟨c, some (.job j, .store m next)⟩ ⟨c.store (.job j) m, some (.job j, next)⟩ := .store
    obtain ⟨held', d, onward⟩ := ih (holding.next step)
    exact ⟨held', d, .first step onward⟩
  | ask question next ih =>
    obtain ⟨reply, held', d, f, onward, _, _⟩ := under.asks holding
    obtain ⟨held'', d', onward'⟩ := ih reply onward.holding
    exact ⟨held'', d', onward.trans onward'⟩
  | control request next ih =>
    obtain ⟨h, found, running⟩ := (under.proper holding.leads).runs _ _ rfl
    have owes := (under.goes holding).owes found running
    cases origin : h.origin with
    | caller => rw [origin] at owes; exact owes.elim
    | job job =>
      rw [origin, owes_job] at owes
      have onwards : ∀ {c' : Crew ω} {reply}, c.Grants (.job j) request reply c' →
          ∃ held' d, Onward w start ⟨c, some (.job j, .control request next)⟩ held' ⟨d, none⟩ := fun {c' reply} granted => by
        have step : Step w (fun _ => False) ⟨c, some (.job j, .control request next)⟩ ⟨c', some (.job j, next reply)⟩ := .grant granted
        obtain ⟨held', d, onward⟩ := ih reply (holding.next step)
        exact ⟨held', d, .first step onward⟩
      cases request with
      | takePermit =>
        by_cases free : c.isFree (.job j) = true
        · exact onwards ⟨free, rfl, rfl⟩
        · have step : Step w (fun _ => False) ⟨c, some (.job j, .control .takePermit next)⟩ _ := .wait ⟨rfl, rfl, rfl⟩
          exact ⟨_, _, .first step (.refl (holding.next step))⟩
      | givePermit => exact onwards ⟨rfl, rfl⟩
      | _ => exact owes.elim

/-- A turn comes to an end. -/
theorem turn_ends (under : errand.Underway w start) {a : Shift ω} (holding : Holding w start held a) :
    ∃ held' d, Onward w start a held' ⟨d, none⟩ := by
  obtain ⟨c, turn⟩ := a
  rcases turn with _ | ⟨_ | i, p⟩
  · exact ⟨held, c, .refl holding⟩
  · exact under.job_rests p holding
  · obtain ⟨held', d, _, onward, _⟩ := under.caller_rests p holding
    exact ⟨held', d, onward⟩

/-- A caller who waits for the jobs comes to the end. -/
theorem waiting_finishes {i : Nat} (under : errand.Underway w start) (available : errand.permits.available = true)
    (holding : Holding w start held ⟨c, none⟩) (found : c.hand? (.caller i) = some h) {await : Await} {resume : Waited → Routine Yield}
    (waiting : h.station = .waiting await resume) :
    ∃ b h result, Leads w ⟨c, none⟩ b ∧ b.crew.hand? (.caller i) = some h ∧ h.station = .over result := by
  obtain ⟨held', d, onward, all, callers⟩ := under.jobs_finish available (List.range c.jobs.length) holding fun j inside outside =>
    absurd (List.mem_range.mpr inside) outside
  have found' : d.hand? (.caller i) = some h := (callers i).trans found
  have goes := under.goes onward.holding
  have stood := goes.stands _ h found'
  simp only [Stands, waiting] at stood
  obtain ⟨jobs, opened, rfl, reads⟩ := stood
  have count : d.jobs.length = jobs.length := by
    have same := congrArg List.length opened.origins
    rwa [List.length_map, List.length_map] at same
  obtain ⟨waited, left⟩ := leaves_of_ended fun j inside => all j (count ▸ List.mem_range.mp inside)
  have wakes : d.Wakes (.caller i) h (.members (List.range jobs.length)) waited d := by
    rw [Wakes, if_neg (by simp [goes.going _ h found'])]
    exact ⟨left, rfl⟩
  have step : Step w (fun _ => False) ⟨d, none⟩ _ := .resume found' waiting wakes
  obtain ⟨_, d', h', result, onward', found'', isOver⟩ := under.reads_ends _ (reads waited) (onward.holding.next step)
  exact ⟨_, h', result, onward.leads.trans (.head step onward'.leads), found'', isOver⟩

/-- The caller comes to the end, whatever has come about so far. -/
theorem finishes (under : errand.Underway w start) (available : errand.permits.available = true) {a : Shift ω}
    (leads : Leads w start a) :
    ∃ b h result, Leads w a b ∧ b.crew.hand? (.caller 0) = some h ∧ h.station = .over result := by
  obtain ⟨held, holding⟩ := leads.holding
  obtain ⟨held', c, onward⟩ := under.turn_ends holding
  have solo := under.solo onward.holding.leads
  obtain ⟨h, _, alone, _⟩ := id solo
  have found : c.hand? (.caller 0) = some h := congrArg (·[0]?) alone
  cases station : h.station with
  | fresh => exact absurd station (solo.begun found)
  | running =>
    obtain ⟨_, ⟨⟩⟩ := (under.proper onward.holding.leads).alone _ h found station
  | asking question reply due next =>
    obtain ⟨_, d, _, onward', _, _⟩ := under.answered onward.holding found station
    obtain ⟨_, d', h', onward'', found', rests⟩ := under.caller_rests _ onward'.holding
    have leads := onward.leads.trans (onward'.leads.trans onward''.leads)
    rcases rests with ⟨result, isOver⟩ | ⟨await, resume, waiting⟩
    · exact ⟨_, h', result, leads, found', isOver⟩
    · obtain ⟨b, h'', result, leads', isOver⟩ := under.waiting_finishes available onward''.holding found' waiting
      exact ⟨b, h'', result, leads.trans leads', isOver⟩
  | waiting await resume =>
    obtain ⟨b, h', result, leads, isOver⟩ := under.waiting_finishes available onward.holding found station
    exact ⟨b, h', result, onward.leads.trans leads, isOver⟩
  | _ result => exact ⟨_, h, result, onward.leads, found, station⟩

end Errand.Underway

end CodeAtlas
