import CodeAtlas.Proofs.Crew.Keeps

namespace CodeAtlas.Crew

variable {ω : Type} {P : Who → Origin → Prop} {c c' : Crew ω} {k : Who}

/-- All that is carried out is of a certain kind. -/
def Staffed (P : Who → Origin → Prop) (c : Crew ω) : Prop := ∀ k h, c.hand? k = some h → P k h.origin

theorem jobs_onHand (c : Crew ω) (k : Who) (f : Hand → Hand) : (c.onHand k f).jobs.length = c.jobs.length := by
  cases k <;> simp [onHand]

theorem jobs_onGroup (c : Crew ω) (k : Who) (f : Permits → Permits) : (c.onGroup k f).jobs = c.jobs := by
  unfold onGroup
  split <;> rfl

namespace Staffed

/-- Nobody is added. -/
theorem follows (staffed : c.Staffed P) (follows : Follows k c c') (jobs : c'.jobs.length = c.jobs.length)
    (callers : c'.callers.length = c.callers.length) : c'.Staffed P := by
  intro j h' found'
  have old : ∃ h, c.hand? j = some h := by
    cases j with
    | job i => exact ⟨_, List.getElem?_eq_getElem (jobs ▸ (List.getElem?_eq_some_iff.mp found').1)⟩
    | caller i => exact ⟨_, List.getElem?_eq_getElem (callers ▸ (List.getElem?_eq_some_iff.mp found').1)⟩
  obtain ⟨h, found⟩ := old
  obtain ⟨h'', found'', origin, _⟩ := follows.hands j h found
  cases Option.some.inj (found'.symm.trans found'')
  exact origin ▸ staffed j h found

theorem store (staffed : c.Staffed P) (k : Who) (memory : Memory) : (c.store k memory).Staffed P :=
  staffed.follows (.store k memory c) rfl rfl

theorem exchange (staffed : c.Staffed P) (k : Who) (question : Ask) (r : Reaction ω question) :
    (c.exchange k question r).Staffed P :=
  staffed.follows (.exchange k question r c) rfl rfl

theorem ask (staffed : c.Staffed P) (k : Who) (question : Ask) (r : Reaction ω question)
    (next : Except Fault question.Reply → Routine Yield) : (c.ask k question r next).Staffed P :=
  staffed.follows (.ask k question r next c) (jobs_onHand _ _ _) (callers_onHand _ _ _)

theorem begin (staffed : c.Staffed P) (k : Who) (origin : Origin) : (c.begin k origin).Staffed P :=
  staffed.follows (.begin k origin c) (jobs_onHand _ _ _) (callers_onHand _ _ _)

theorem hear (staffed : c.Staffed P) (k : Who) (question : Ask) (heard : Except Fault question.Reply) :
    (c.hear k question heard).Staffed P :=
  staffed.follows (.hear k question heard c) (jobs_onHand _ _ _) (callers_onHand _ _ _)

theorem rest (staffed : c.Staffed P) (k : Who) (await : Await) (resume : Waited → Routine Yield) :
    (c.rest k await resume).Staffed P :=
  staffed.follows (.rest k await resume c) (jobs_onHand _ _ _) (callers_onHand _ _ _)

theorem goOn (staffed : c.Staffed P) (k : Who) : (c.goOn k).Staffed P :=
  staffed.follows (.goOn k c) (jobs_onHand _ _ _) (callers_onHand _ _ _)

theorem close (staffed : c.Staffed P) (k : Who) (result : Except Fault Yield) : (c.close k result).Staffed P :=
  staffed.follows (.close k result c) (jobs_onHand _ _ _) (callers_onHand _ _ _)

theorem onGroup (staffed : c.Staffed P) (k : Who) (f : Permits → Permits) : (c.onGroup k f).Staffed P :=
  staffed.follows (.onGroup k f c) (by rw [jobs_onGroup]) (by rw [callers_onGroup])

theorem halt (staffed : c.Staffed P) (numbers : List Nat) : (c.halt numbers).Staffed P :=
  staffed.follows (.halt (.job 0) numbers c) (by simp [Crew.halt]) rfl

theorem woken {h : Hand} {await : Await} {waited : Waited} (staffed : c.Staffed P) (wakes : c.Wakes k h await waited c') :
    c'.Staffed P :=
  fun j h found => staffed j h ((wakes.hands j).symm.trans found)

theorem spawn (staffed : c.Staffed P) (k : Who) {job : Job} (kind : P (.job c.jobs.length) (.job job)) :
    (c.spawn k job).Staffed P := by
  intro j h found
  rcases spawn_cases found with old | ⟨rfl, rfl⟩
  · exact staffed j h old
  · exact kind

theorem call (staffed : c.Staffed P) {program : Routine Yield} (kind : P (.caller c.callers.length) (.caller program)) :
    (c.call program).Staffed P := by
  intro j h found
  rcases call_cases found with old | ⟨rfl, rfl⟩
  · exact staffed j h old
  · exact kind

theorem gather (staffed : c.Staffed P) {permits : Permits} {jobs : List Job}
    (kind : ∀ i, ∀ job ∈ jobs, P (.job (c.jobs.length + i)) (.job job)) : (c.gather permits jobs).Staffed P := by
  intro j h found
  rcases gather_cases found with old | ⟨i, job, rfl, at_i, rfl⟩
  · exact staffed j h old
  · exact kind i job (List.mem_of_getElem? at_i)

theorem start (memory : Memory) (world : ω) (hasLoop : Bool) : (Crew.start memory world hasLoop).Staffed P := by
  intro j h found
  cases j <;> simp [hand?, Crew.start] at found

end Staffed

end CodeAtlas.Crew
