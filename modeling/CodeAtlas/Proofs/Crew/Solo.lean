import Mathlib.Logic.Relation
import CodeAtlas.Proofs.Crew.Keeps

namespace CodeAtlas

variable {ω : Type} {w : World ω}

/-- A caller who is alone, and has begun with a program. -/
def Shift.solo (program : Routine Yield) (memory : Memory) (world : ω) (hasLoop : Bool) : Shift ω :=
  ⟨((Crew.start memory world hasLoop).call program).begin (.caller 0) (.caller program), some (.caller 0, program)⟩

/-- What comes of a shift as long as nobody else calls. -/
def Shift.Leads (w : World ω) : Shift ω → Shift ω → Prop := Relation.ReflTransGen (Shift.Step w fun _ => False)

/-- There is one caller, who has begun and does not begin again. -/
def Crew.Solo (c : Crew ω) : Prop :=
  ∃ h program, c.callers = [h] ∧ h.origin = .caller program ∧ h.station ≠ .fresh

namespace Crew.Solo

variable {c c' : Crew ω} {k : Who}

theorem same (solo : c.Solo) (callers : c'.callers = c.callers) : c'.Solo := by
  unfold Solo at solo ⊢
  rwa [callers]

theorem onHand (solo : c.Solo) {f : Hand → Hand} (origin : ∀ h, (f h).origin = h.origin)
    (begun : ∀ h, h.origin.repeats = false → h.station ≠ .fresh → (f h).station ≠ .fresh) : (c.onHand k f).Solo := by
  obtain ⟨h, program, alone, calls, old⟩ := solo
  have again : h.origin.repeats = false := by rw [calls]; rfl
  cases k with
  | job j => exact ⟨h, program, alone, calls, old⟩
  | caller j =>
    cases j with
    | zero => exact ⟨f h, program, by simp [Crew.onHand, alone], (origin h).trans calls, begun h again old⟩
    | succ j => exact ⟨h, program, by simp [Crew.onHand, alone], calls, old⟩

theorem moved (solo : c.Solo) {station : Station} (other : station ≠ .fresh) : (c.onHand k (Hand.moved station)).Solo :=
  solo.onHand (fun _ => rfl) fun _ _ _ => other

theorem resumed (solo : c.Solo) : (c.onHand k Hand.resumed).Solo := solo.onHand (fun _ => rfl) fun _ _ _ => nofun

theorem close (solo : c.Solo) (result : Except Fault Yield) : (c.close k result).Solo := by
  refine solo.onHand (Hand.closed_origin result) fun h once _ => ?_
  cases result with
  | ok => simp [Hand.closed, once]
  | error => simp [Hand.closed]

/-- No caller is about to begin. -/
theorem begun (solo : c.Solo) {i : Nat} {h : Hand} (found : c.hand? (.caller i) = some h) : h.station ≠ .fresh := by
  obtain ⟨_, _, alone, _, old⟩ := solo
  simp only [hand?, alone, List.getElem?_singleton] at found
  split at found
  · cases found
    exact old
  · cases found

theorem only (solo : c.Solo) {i : Nat} {h : Hand} (found : c.hand? (.caller i) = some h) : i = 0 := by
  obtain ⟨_, _, alone, _, _⟩ := solo
  simp only [hand?, alone, List.getElem?_singleton] at found
  split at found
  next first => exact first
  · cases found

theorem not_call (program : Routine Yield) (solo : c.Solo) : ¬(c.call program).Solo := by
  rintro ⟨_, _, both, _⟩
  obtain ⟨_, _, alone, _⟩ := solo
  simp [Crew.call, alone] at both

end Crew.Solo

namespace Shift

variable {program : Routine Yield} {memory : Memory} {world : ω} {hasLoop : Bool} {a b : Shift ω}

theorem Step.mono {callers callers' : Routine Yield → Prop} (more : ∀ program, callers program → callers' program)
    (step : Step w callers a b) : Step w callers' a b := by
  cases step with
  | look => exact .look
  | store => exact .store
  | exchange soon => exact .exchange soon
  | ask slow => exact .ask slow
  | grant granted => exact .grant granted
  | wait waits => exact .wait waits
  | close => exact .close
  | begin found fresh going => exact .begin found fresh going
  | drop found fresh stopped => exact .drop found fresh stopped
  | hear found asking due => exact .hear found asking due
  | resume found waiting wakes => exact .resume found waiting wakes
  | call calls => exact .call (more _ calls)
  | pass => exact .pass _

theorem Step.solo (step : Step w (fun _ => False) a b) (solo : a.crew.Solo) : b.crew.Solo := by
  cases step with
  | look | store | exchange | pass => exact solo
  | ask => exact Crew.Solo.moved (c := { Crew.note .. with world := _ }) solo nofun
  | grant granted => exact solo.same (Crew.callers_of_grants granted)
  | wait waits => exact (solo.same (Crew.callers_of_waits waits)).moved nofun
  | close | drop => exact solo.close _
  | begin => exact Crew.Solo.moved (c := Crew.note ..) solo nofun
  | hear => exact Crew.Solo.resumed (c := Crew.note ..) solo
  | resume _ _ wakes => exact (solo.same (Crew.callers_of_wakes wakes)).resumed
  | call calls => exact calls.elim

theorem Leads.reach (leads : Leads w (solo program memory world hasLoop) a) :
    Reach w (· = program) memory world hasLoop a := by
  induction leads with
  | refl =>
    have called : Reach w (· = program) memory world hasLoop ⟨(Crew.start memory world hasLoop).call program, none⟩ :=
      .next .start (.call rfl)
    exact called.next (.begin (k := .caller 0) (h := .new (.caller program) none) rfl rfl rfl)
  | tail _ step ih => exact ih.next (step.mono nofun)

theorem Leads.solo (leads : Leads w (solo program memory world hasLoop) a) : a.crew.Solo := by
  induction leads with
  | refl => exact ⟨_, program, rfl, rfl, nofun⟩
  | tail _ step ih => exact step.solo ih

/-- All that comes of one caller keeps to the rules that the caller and the jobs keep to. -/
theorem Leads.sound {R : Rules ω} (guards : R.Guards w (· = program))
    (known : ∀ {a}, Leads w (Shift.solo program memory world hasLoop) a → R.known a.crew)
    (initially : R.inv (Shift.solo program memory world hasLoop).crew)
    (keeps : program.Keeps w R (.caller 0) (R.Closes (.caller 0)) (Shift.solo program memory world hasLoop).crew)
    (leads : Leads w (Shift.solo program memory world hasLoop) a) : a.Sound w R := by
  induction leads with
  | refl =>
    have start : Leads w (Shift.solo program memory world hasLoop) (Shift.solo program memory world hasLoop) := .refl
    refine ⟨initially, fun k h found => ?_, by rintro _ _ ⟨⟩; exact keeps⟩
    cases k with
    | job => cases found
    | caller i =>
      obtain rfl := start.solo.only found
      exact start.reach.proper.able h found
  | tail earlier step ih =>
    have reach := Leads.reach earlier
    exact ih.step guards.toOpens (ih.passes guards (known earlier)) reach.proper reach.knows (known earlier)
      (known (earlier.tail step)) (step.mono nofun)

end Shift

end CodeAtlas
