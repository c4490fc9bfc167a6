import CodeAtlas.Proofs.Crew.Keeps

namespace CodeAtlas.Crew

variable {ω : Type} {c c' d : Crew ω} {k : Who} {f : Hand → Hand}

/-- One hand is changed, and the others stay. -/
structure Moved (k : Who) (f : Hand → Hand) (c c' : Crew ω) : Prop where
  others : ∀ i, i ≠ k → c'.hand? i = c.hand? i
  own : c'.hand? k = (c.hand? k).map f

namespace Moved

theorem refl (k : Who) (c : Crew ω) : Moved k id c c := ⟨fun _ _ => rfl, by simp⟩

theorem of_same {g : Crew ω} (moved : Moved k f c c') (hands : ∀ i, g.hand? i = c'.hand? i) : Moved k f c g :=
  ⟨fun i other => (hands i).trans (moved.others i other), (hands k).trans moved.own⟩

theorem onHand (k : Who) (f : Hand → Hand) (c : Crew ω) : Moved k f c (c.onHand k f) :=
  ⟨fun _ other => hand?_other (Ne.symm other) f, by rw [hand?_onHand, if_pos rfl]⟩

theorem store (k : Who) (m : Memory) (c : Crew ω) : Moved k id c (c.store k m) :=
  (refl k c).of_same fun i => by cases i <;> rfl

theorem exchange (k : Who) (question : Ask) (r : Reaction ω question) (c : Crew ω) :
    Moved k id c (c.exchange k question r) :=
  (refl k c).of_same fun i => by cases i <;> rfl

theorem ask (k : Who) (question : Ask) (r : Reaction ω question) (next : Except Fault question.Reply → Routine Yield)
    (c : Crew ω) : Moved k (Hand.moved (.asking question r.reply (c.clock + r.delay) next)) c (c.ask k question r next) :=
  (onHand k _ c).of_same fun i => by cases i <;> rfl

theorem begin (k : Who) (origin : Origin) (c : Crew ω) : Moved k (Hand.moved .running) c (c.begin k origin) :=
  (onHand k _ c).of_same fun i => by cases i <;> rfl

theorem hear (k : Who) (question : Ask) (heard : Except Fault question.Reply) (c : Crew ω) :
    Moved k Hand.resumed c (c.hear k question heard) :=
  (onHand k _ c).of_same fun i => by cases i <;> rfl

theorem rest (k : Who) (await : Await) (resume : Waited → Routine Yield) (c : Crew ω) :
    Moved k (Hand.moved (.waiting await resume)) c (c.rest k await resume) := onHand k _ c

theorem goOn (k : Who) (c : Crew ω) : Moved k Hand.resumed c (c.goOn k) := onHand k _ c

theorem close (k : Who) (result : Except Fault Yield) (c : Crew ω) : Moved k (Hand.closed result) c (c.close k result) :=
  onHand k _ c

theorem onGroup (k : Who) (f : Permits → Permits) (c : Crew ω) : Moved k id c (c.onGroup k f) :=
  (refl k c).of_same fun i => c.hand?_onGroup k f i

/-- When a wait is over, only the one who waited has moved. -/
theorem after_waking {h : Hand} {await : Await} {waited : Waited} (wakes : c.Wakes k h await waited c') :
    Moved k Hand.resumed c (c'.goOn k) := by
  have moved := goOn k c'
  exact ⟨fun i other => (moved.others i other).trans (wakes.hands i), moved.own.trans (congrArg _ (wakes.hands k))⟩

end Moved

theorem Wakes.world {h : Hand} {await : Await} {waited : Waited} (wakes : c.Wakes k h await waited c') :
    c'.world = c.world := by
  rcases wakes.changes with rfl | rfl
  · rfl
  · exact c.onGroup_world k _

/-- Who waits for anything but jobs beside each other changes nothing. -/
theorem Waits.alone {request : Control} {await : Await} {read : Waited → Except Fault request.Reply}
    (waits : c.Waits request await read c') (alone : ∀ permits jobs, request ≠ .gather permits jobs) :
    c' = c ∧ ∀ numbers, await ≠ .members numbers := by
  cases request with
  | gather permits jobs => exact absurd rfl (alone permits jobs)
  | pause | join | shield | joinWorker | takePermit => obtain ⟨rfl, _, rfl⟩ := waits; exact ⟨rfl, nofun⟩
  | _ => exact waits.elim

end CodeAtlas.Crew
