import CodeAtlas.Proofs.Crew.Diary

namespace CodeAtlas

variable {ω : Type}

/-- As long as somebody is to begin again, no time passes. -/
def Shift.Timely (a b : Shift ω) : Prop :=
  ∀ k h, a.crew.hand? k = some h → h.station = .fresh → a.crew.diary k ≠ [] → b.crew.clock = a.crew.clock

namespace Shift

variable {w : World ω} {callers : Routine Yield → Prop} {memory : Memory} {world : ω} {hasLoop : Bool} {a : Shift ω}

/-- What can become of a crew whose members begin again, if their jobs repeat, as soon as they have ended. -/
inductive Prompt (w : World ω) (callers : Routine Yield → Prop) (memory : Memory) (world : ω) (hasLoop : Bool) :
    Shift ω → Prop
  | start : Prompt w callers memory world hasLoop ⟨.start memory world hasLoop, none⟩
  | next {a b} : Prompt w callers memory world hasLoop a → Step w callers a b → a.Timely b →
      Prompt w callers memory world hasLoop b

theorem Prompt.reach (prompt : Prompt w callers memory world hasLoop a) : Reach w callers memory world hasLoop a := by
  induction prompt with
  | start => exact .start
  | next _ step _ ih => exact ih.next step

/-- Whatever is done takes no time. -/
theorem Prompt.goesOn {b : Shift ω} (prompt : Prompt w callers memory world hasLoop a) (step : Step w callers a b)
    (now : b.crew.clock = a.crew.clock) : Prompt w callers memory world hasLoop b :=
  prompt.next step fun _ _ _ _ _ => now

/-- Time may pass when all have begun. -/
theorem Prompt.later {c : Crew ω} (prompt : Prompt w callers memory world hasLoop ⟨c, none⟩) (time : Float)
    (begun : ∀ h ∈ c.jobs ++ c.callers, h.station ≠ .fresh) :
    Prompt w callers memory world hasLoop ⟨{ c with clock := time }, none⟩ := by
  refine prompt.next (.pass time) fun k h found fresh _ => absurd fresh (begun h ?_)
  cases k with
  | job => exact List.mem_append_left _ (List.mem_of_getElem? found)
  | caller => exact List.mem_append_right _ (List.mem_of_getElem? found)

/-- What keeps to the rules while time passes only where nobody is to begin again. -/
theorem Prompt.sound {R : Rules ω} (opens : R.Opens w callers)
    (passes : ∀ {c : Crew ω} {time}, R.inv c → Timely ⟨c, none⟩ ⟨{ c with clock := time }, none⟩ →
      R.inv { c with clock := time })
    (known : ∀ {a}, Prompt w callers memory world hasLoop a → R.known a.crew)
    (initially : R.inv (.start memory world hasLoop)) (prompt : Prompt w callers memory world hasLoop a) : a.Sound w R := by
  induction prompt with
  | start =>
    refine ⟨initially, fun k h found => ?_, by rintro _ _ ⟨⟩⟩
    cases k <;> simp [Crew.hand?, Crew.start] at found
  | @next a b prompt step timely ih =>
    have passes : ∀ {c : Crew ω} {time}, a = ⟨c, none⟩ → b = ⟨{ c with clock := time }, none⟩ →
        R.inv { c with clock := time } := by
      rintro c time rfl rfl
      exact passes ih.holds timely
    exact ih.step opens passes prompt.reach.proper prompt.reach.knows (known prompt) (known (prompt.next step timely)) step

end Shift

end CodeAtlas
