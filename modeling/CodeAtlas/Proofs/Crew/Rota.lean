import CodeAtlas.Proofs.Crew.Solo

namespace CodeAtlas

open Agenda (overOnly)

variable {ω : Type} {w : World ω} {callers : Routine Yield → Prop}

namespace Crew

/-- What is left behind by jobs that work beside each other: the fault of one as soon as there is one. -/
def left? (c : Crew ω) : List Nat → Option Waited
  | [] => some (.ok [])
  | n :: rest =>
    match c.result? n with
    | some (.error fault) => some (.error fault)
    | some (.ok y) => (c.left? rest).map (Except.map (y :: ·))
    | none => (c.left? rest).filter fun waited => !waited.isOk

theorem leaves_of_left? {c : Crew ω} {members : List Nat} {waited : Waited} (left : c.left? members = some waited) :
    c.Leaves members waited := by
  induction members generalizing waited with
  | nil =>
    cases left
    exact .inl ⟨[], rfl, rfl⟩
  | cons n rest ih =>
    have later : ∀ {fault}, c.left? rest = some (.error fault) → c.Leaves (n :: rest) (.error fault) := by
      intro fault after
      rcases ih after with ⟨_, _, other⟩ | ⟨m, inside, fault', result, same⟩
      · cases other
      · exact .inr ⟨m, List.mem_cons_of_mem _ inside, fault', result, same⟩
    unfold left? at left
    split at left
    next fault result =>
      cases left
      exact .inr ⟨n, List.mem_cons_self .., fault, result, rfl⟩
    next y result =>
      obtain ⟨waited', after, rfl⟩ := Option.map_eq_some_iff.mp left
      cases waited' with
      | error fault => exact later after
      | ok yields =>
        rcases ih after with ⟨yields', all, same⟩ | ⟨_, _, _, _, other⟩
        · cases same
          exact .inl ⟨y :: yields, by rw [List.map_cons, List.map_cons, result, all], rfl⟩
        · cases other
    next =>
      obtain ⟨after, failed⟩ := Option.filter_eq_some_iff.mp left
      cases waited with
      | error fault => exact later after
      | ok => cases failed

/-- Who is stopped along with a job. -/
def halted? (c : Crew ω) (n : Nat) : Option (List Nat) :=
  match (c.jobs[n]?).map Hand.station with
  | some (.waiting (.members numbers) _) =>
    if numbers.all c.ended = false then some numbers
    else (c.left? numbers).map fun _ => [n]
  | _ => some [n]

theorem halts_of_halted? {c : Crew ω} {n : Nat} {numbers : List Nat} (halted : c.halted? n = some numbers) :
    c.Halts n numbers := by
  unfold halted? at halted
  split at halted
  next members resume standing =>
    obtain ⟨h, found, waiting⟩ := Option.map_eq_some_iff.mp standing
    split at halted
    next under =>
      cases halted
      exact .inl ⟨h, resume, found, waiting, under⟩
    next =>
      obtain ⟨waited, left, rfl⟩ := Option.map_eq_some_iff.mp halted
      refine .inr ⟨rfl, fun h' members' resume' found' waiting' => ?_⟩
      cases Option.some.inj (found.symm.trans found')
      cases waiting.symm.trans waiting'
      exact ⟨waited, leaves_of_left? left⟩
  next other =>
    cases halted
    refine .inr ⟨rfl, fun h members resume found waiting => ?_⟩
    exact absurd (by rw [found, Option.map_some, waiting]) (other members resume)

/-- What a request comes to that can be granted at once. -/
def grant? (c : Crew ω) (k : Who) : (request : Control) → Option (Except Fault request.Reply × Crew ω)
  | .now => some (.ok c.clock, c)
  | .hasLoop => some (.ok c.hasLoop, c)
  | .spawn job | .dispatch job => some (.ok c.jobs.length, c.spawn k job)
  | .ended n => some (.ok (c.ended n), c)
  | .join n => (c.result? n).map fun result => (overOnly (Watch.direct.news result), c)
  | .shield n => (c.result? n).map fun result => (overOnly (Watch.shielded.news result), c)
  | .joinWorker n => (c.result? n).map fun result => (overOnly (Watch.regardless.news result), c)
  | .cancel n => (c.halted? n).map fun numbers => (.ok (), c.halt numbers)
  | .takePermit => if c.isFree k = true then some (.ok (), c.onGroup k Permits.less) else none
  | .givePermit => some (.ok (), c.onGroup k Permits.more)
  | .pause _ | .gather .. => none

theorem grants_of_grant? {c c' : Crew ω} {k : Who} {request : Control} {reply : Except Fault request.Reply}
    (granted : c.grant? k request = some (reply, c')) : c.Grants k request reply c' := by
  cases request with
  | now | hasLoop | spawn | dispatch | ended => cases granted; exact ⟨rfl, rfl⟩
  | givePermit => cases granted; exact ⟨rfl, rfl⟩
  | join | shield | joinWorker =>
    obtain ⟨result, isOver, same⟩ := Option.map_eq_some_iff.mp granted
    cases same
    exact ⟨⟨result, isOver, rfl⟩, rfl⟩
  | cancel =>
    obtain ⟨numbers, halted, same⟩ := Option.map_eq_some_iff.mp granted
    cases same
    exact ⟨rfl, numbers, halts_of_halted? halted, rfl⟩
  | takePermit =>
    simp only [grant?] at granted
    split at granted
    next free =>
      cases granted
      exact ⟨free, rfl, rfl⟩
    next => cases granted
  | pause | gather => cases granted

/-- How a request is put off. -/
def put? (c : Crew ω) : (request : Control) → Option (Await × (Waited → Except Fault request.Reply) × Crew ω)
  | .pause seconds => some (.time (if seconds ≤ 0 then c.clock else c.clock + seconds), overOnly, c)
  | .join n => some (.job n .direct, overOnly, c)
  | .shield n => some (.job n .shielded, overOnly, c)
  | .joinWorker n => some (.job n .regardless, overOnly, c)
  | .gather permits jobs => some (.members (c.numbers jobs), id, c.gather permits jobs)
  | .takePermit => some (.permit, overOnly, c)
  | _ => none

theorem waits_of_put? {c c' : Crew ω} {request : Control} {await : Await} {read : Waited → Except Fault request.Reply}
    (put : c.put? request = some (await, read, c')) : c.Waits request await read c' := by
  cases request with
  | pause | join | shield | joinWorker | gather | takePermit => cases put; exact ⟨rfl, rfl, rfl⟩
  | _ => cases put

/-- What ends a wait now. -/
def news? (c : Crew ω) (k : Who) : Await → Option (Waited × Crew ω)
  | .time _ => some (.ok [], c)
  | .permit => if c.isFree k = true then some (.ok [], c.onGroup k Permits.less) else none
  | .members numbers => (c.left? numbers).map fun waited => (waited, c)
  | .job n watch => (c.result? n).map fun result => (watch.news result, c)

theorem news_of_news? {c c' : Crew ω} {k : Who} {await : Await} {waited : Waited} (news : c.news? k await = some (waited, c'))
    (due : ∀ time, await = .time time → c.clock = time) : c.News k await waited c' := by
  cases await with
  | time time => cases news; exact ⟨due time rfl, rfl, rfl⟩
  | permit =>
    simp only [news?] at news
    split at news
    next free =>
      cases news
      exact ⟨free, rfl, rfl⟩
    next => cases news
  | members =>
    obtain ⟨_, left, same⟩ := Option.map_eq_some_iff.mp news
    cases same
    exact ⟨leaves_of_left? left, rfl⟩
  | job =>
    obtain ⟨result, isOver, same⟩ := Option.map_eq_some_iff.mp news
    cases same
    exact ⟨⟨result, isOver, rfl⟩, rfl⟩

/-- How somebody has failed. -/
def failed? (c : Crew ω) (k : Who) : Option Fault :=
  match (c.hand? k).map Hand.station with
  | some (.over (.error fault)) => some fault
  | _ => none

theorem over_of_failed? {c : Crew ω} {k : Who} {fault : Fault} (failed : c.failed? k = some fault) :
    ∃ h, c.hand? k = some h ∧ h.station = .over (.error fault) := by
  unfold failed? at failed
  split at failed
  next fault' standing =>
    cases failed
    exact Option.map_eq_some_iff.mp standing
  next => cases failed

/-- The time at which a wait ends, if it is for a time. -/
def upTo (c : Crew ω) : Await → Crew ω
  | .time due => { c with clock := due }
  | _ => c

end Crew

namespace Shift

/-- A turn goes on for so many steps, or until it ends. -/
def onward (w : World ω) : Nat → Shift ω → Shift ω
  | 0, a => a
  | _, ⟨c, none⟩ => ⟨c, none⟩
  | fuel + 1, ⟨c, some (k, p)⟩ =>
    match p with
    | .done result => ⟨c.close k result, none⟩
    | .look next => onward w fuel ⟨c, some (k, next c.memory)⟩
    | .store m next => onward w fuel ⟨c.store k m, some (k, next)⟩
    | .ask question next =>
      if 0 < (c.reaction w question).delay then ⟨c.ask k question (c.reaction w question) next, none⟩
      else onward w fuel ⟨c.exchange k question (c.reaction w question), some (k, next (c.reaction w question).reply)⟩
    | .control request next =>
      match c.grant? k request with
      | some (reply, c') => onward w fuel ⟨c', some (k, next reply)⟩
      | none =>
        match c.put? request with
        | some (await, read, c') => ⟨c'.rest k await fun waited => next (read waited), none⟩
        | none => ⟨c, some (k, .control request next)⟩

/-- Somebody takes a turn, at the time that they wait for. -/
def takes (k : Who) (a : Shift ω) : Shift ω :=
  match a.turn, a.crew.hand? k with
  | none, some h =>
    match h.station with
    | .fresh =>
      if h.stopped = true then ⟨a.crew.close k (.error .cancelled), none⟩
      else ⟨a.crew.begin k h.origin, some (k, h.origin.routine)⟩
    | .asking question reply due next =>
      ⟨Crew.hear k question (h.heard reply) { a.crew with clock := due }, some (k, next (h.heard reply))⟩
    | .waiting await resume =>
      if h.stopped = true then ⟨a.crew.goOn k, some (k, resume (.error .cancelled))⟩
      else match (a.crew.upTo await).news? k await with
        | some (waited, c) => ⟨c.goOn k, some (k, resume waited)⟩
        | none => a
    | _ => a
  | _, _ => a

/-- The turns of several, one after the other, with the number of steps that each may take. -/
def rota (w : World ω) (a : Shift ω) (turns : List (Who × Nat)) : Shift ω :=
  turns.foldl (fun a turn => (a.takes turn.1).onward w turn.2) a

theorem onward_leads (fuel : Nat) (a : Shift ω) : Relation.ReflTransGen (Shift.Step w callers) a (a.onward w fuel) := by
  induction fuel generalizing a with
  | zero => exact .refl
  | succ fuel ih =>
    obtain ⟨c, turn⟩ := a
    cases turn with
    | none => exact .refl
    | some own =>
      obtain ⟨k, p⟩ := own
      cases p with
      | done result => exact .single .close
      | look next => exact .head .look (ih _)
      | store m next => exact .head .store (ih _)
      | ask question next =>
        unfold onward
        dsimp only
        split
        next slow => exact .single (.ask slow)
        next soon => exact .head (.exchange soon) (ih _)
      | control request next =>
        unfold onward
        dsimp only
        split
        next reply c' granted => exact .head (.grant (Crew.grants_of_grant? granted)) (ih _)
        next =>
          split
          next await read c' put => exact .single (.wait (Crew.waits_of_put? put))
          next => exact .refl

theorem takes_leads (k : Who) (a : Shift ω) : Relation.ReflTransGen (Shift.Step w callers) a (a.takes k) := by
  unfold takes
  split
  next h idle found =>
    obtain ⟨c, turn⟩ := a
    cases idle
    have later : ∀ time, Relation.ReflTransGen (Shift.Step w callers) ⟨c, none⟩ ⟨{ c with clock := time }, none⟩ :=
      fun time => .single (.pass time)
    have same : ∀ time, Crew.hand? { c with clock := time } k = some h := by
      intro time
      cases k <;> exact found
    split
    next fresh =>
      split
      next stopped => exact .single (.drop found fresh stopped)
      next going => exact .single (.begin found fresh (Bool.eq_false_iff.mpr going))
    next question reply due next asking => exact (later due).tail (.hear (same due) asking fun _ => rfl)
    next await resume waiting =>
      split
      next stopped => exact .single (.resume found waiting (by rw [Crew.Wakes, if_pos stopped]; exact ⟨rfl, rfl⟩))
      next going =>
        have waits : Relation.ReflTransGen (Shift.Step w callers) ⟨c, none⟩ ⟨c.upTo await, none⟩ := by
          cases await <;> exact later _
        have there : (c.upTo await).hand? k = some h := by
          cases await <;> exact same _
        split
        next waited c' news =>
          have due : ∀ time, await = .time time → (c.upTo await).clock = time := by rintro time rfl; rfl
          refine waits.tail (.resume there waiting ?_)
          rw [Crew.Wakes, if_neg going]
          exact Crew.news_of_news? news due
        next => exact .refl
    next => exact .refl
  next => exact .refl

theorem rota_leads (turns : List (Who × Nat)) (a : Shift ω) :
    Relation.ReflTransGen (Shift.Step w callers) a (a.rota w turns) := by
  induction turns generalizing a with
  | nil => exact .refl
  | cons turn rest ih => exact ((takes_leads turn.1 a).trans (onward_leads turn.2 _)).trans (ih _)

theorem Reach.leads {memory : Memory} {world : ω} {hasLoop : Bool} {a b : Shift ω}
    (reach : Reach w callers memory world hasLoop a) (leads : Relation.ReflTransGen (Shift.Step w callers) a b) :
    Reach w callers memory world hasLoop b := by
  induction leads with
  | refl => exact reach
  | tail _ step ih => exact ih.next step

end Shift

end CodeAtlas
