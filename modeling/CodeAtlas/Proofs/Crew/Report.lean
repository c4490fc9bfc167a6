import CodeAtlas.Proofs.Crew.Founding

namespace CodeAtlas

open Routine Crew

variable {ω : Type} {w : World ω} {keeps : Memory → Prop} {out : Nat → List Noted → Except Fault Yield → Prop}
  {c c' : Crew ω} {k : Who}

/-- What was told once stays told. -/
def Lasting (told : List Noted → Prop) : Prop := ∀ log new, told log → told (log ++ new)

/-- The memory is as it is to be, and what was done tells what each caller who is over has ended with. -/
structure Crew.Reported (keeps : Memory → Prop) (out : Nat → List Noted → Except Fault Yield → Prop) (c : Crew ω) : Prop where
  keeps : keeps c.memory
  ends : ∀ i h result, c.callers[i]? = some h → h.station = .over result → out i c.log result

namespace Crew.Reported

theorem grown (reported : c.Reported keeps out) (lasts : ∀ i result, Lasting (out i · result)) (memory : keeps c'.memory)
    (log : ∃ new, c'.log = c.log ++ new) (callers : c'.callers = c.callers) : c'.Reported keeps out := by
  refine ⟨memory, fun i h result found isOver => ?_⟩
  obtain ⟨new, log⟩ := log
  rw [callers] at found
  rw [log]
  exact lasts i result _ _ (reported.ends i h result found isOver)

/-- One who goes on, or comes to wait, is not over. -/
theorem moved (reported : c.Reported keeps out) (lasts : ∀ i result, Lasting (out i · result)) (memory : keeps c'.memory)
    (log : ∃ new, c'.log = c.log ++ new) {f : Hand → Hand} (goes : ∀ h result, (f h).station ≠ .over result)
    (callers : c'.callers = (c.onHand k f).callers) : c'.Reported keeps out := by
  refine ⟨memory, fun i h result found isOver => ?_⟩
  obtain ⟨new, log⟩ := log
  rw [callers] at found
  rw [log]
  refine lasts i result _ _ ?_
  cases k with
  | job j => exact reported.ends i h result found isOver
  | caller j =>
    simp only [onHand, List.getElem?_modify] at found
    obtain ⟨old, there, rfl⟩ := Option.map_eq_some_iff.mp found
    by_cases same : j = i
    · simp only [same, if_true] at isOver
      exact absurd isOver (goes _ _)
    · simp only [same, if_false] at isOver
      exact reported.ends i old result there isOver

/-- Whoever ends is reported, or is no caller. -/
theorem close (reported : c.Reported keeps out) {result : Except Fault Yield} (ends : ∀ i, k = .caller i → out i c.log result)
    (fits : ∀ h, (c.close k result).hand? k = some h → h.origin.Fits k) : (c.close k result).Reported keeps out := by
  refine ⟨reported.keeps, fun i h result' found isOver => ?_⟩
  cases k with
  | job j => exact reported.ends i h result' found isOver
  | caller j =>
    simp only [Crew.close, onHand, List.getElem?_modify] at found
    obtain ⟨old, there, rfl⟩ := Option.map_eq_some_iff.mp found
    by_cases same : j = i
    · subst same
      have single : old.origin.repeats = false := by
        have fits := fits _ (hand?_self (show c.hand? (.caller j) = some old from there) (Hand.closed result))
        rw [Hand.closed_origin] at fits
        exact fits.once
      simp only [if_true] at isOver
      cases result <;> simp [Hand.closed, single] at isOver <;> exact isOver ▸ ends j rfl
    · simp only [same, if_false] at isOver
      exact reported.ends i old result' there isOver

end Crew.Reported

/-- The rules that keep a memory as it is to be, and report on the callers. -/
def reporting (known : Crew ω → Prop) (keeps : Memory → Prop) (out : Nat → List Noted → Except Fault Yield → Prop) : Rules ω where
  known
  inv := Reported keeps out
  may _ _ _ := True

/-- Whoever keeps to a charter leaves the reports as they are. -/
theorem reporting_upkeep (w : World ω) (known : Crew ω → Prop) (k : Who) (ch : Charter) (told : List Noted → Prop)
    (lasts : ∀ i result, Lasting (out i · result)) (lasting : Lasting told) : Upkeep w (reporting known ch.keeps out) k ch.remit fun c => c.Reported ch.keeps out ∧ told c.log where
  finds holds := holds.1.keeps
  may _ _ := trivial
  store := by
    intro c m holds writes _
    have reported : (c.store k m).Reported ch.keeps out := holds.1.grown lasts (writes holds.1.keeps) ⟨_, rfl⟩ rfl
    exact ⟨reported, reported, lasting _ _ holds.2⟩
  exchange := by
    intro c question holds _ _ _
    have asked : (c.note k (.asks question)).Reported ch.keeps out := holds.1.grown lasts holds.1.keeps ⟨_, rfl⟩ rfl
    have reported : (c.exchange k question (c.reaction w question)).Reported ch.keeps out :=
      asked.grown lasts asked.keeps ⟨_, rfl⟩ rfl
    exact ⟨reported, reported, lasting _ _ (lasting _ _ holds.2)⟩
  ask := by
    intro c question rest holds _ _ _
    have reported : (c.ask k question (c.reaction w question) rest).Reported ch.keeps out :=
      holds.1.moved lasts holds.1.keeps ⟨_, rfl⟩ (by simp) rfl
    refine ⟨reported, fun c' h _ reported' _ since _ _ _ => ?_⟩
    obtain ⟨new, log, _⟩ := since.log
    have heard : (c'.hear k question (h.heard (c.reaction w question).reply)).Reported ch.keeps out :=
      reported'.moved lasts reported'.keeps ⟨_, rfl⟩ (by simp) rfl
    refine ⟨heard, heard, lasting _ _ ?_⟩
    rw [log]
    exact lasting _ _ (lasting _ _ holds.2)
  grant := by
    intro c request reply c' holds _ granted _
    obtain ⟨new, log, _⟩ := (Follows.of_grants granted).log
    have memory : c'.memory = c.memory := by
      rcases granted.noted with ⟨memory, _⟩ | ⟨job, rfl⟩
      · exact memory
      · rfl
    have reported : c'.Reported ch.keeps out :=
      holds.1.grown lasts (memory ▸ holds.1.keeps) ⟨new, log⟩ (callers_of_grants granted)
    exact ⟨reported, reported, log ▸ lasting _ _ holds.2⟩
  wait := by
    intro c request await read c' rest holds _ waits _
    have added : c'.Reported ch.keeps out := holds.1.grown lasts (waits.noted.1 ▸ holds.1.keeps)
      ⟨[], waits.noted.2.trans (List.append_nil _).symm⟩ (callers_of_waits waits)
    have reported : (c'.rest k await rest).Reported ch.keeps out :=
      added.moved lasts added.keeps ⟨[], (List.append_nil _).symm⟩ (by simp) rfl
    refine ⟨reported, fun d h waited d' _ reported' _ since _ _ wakes _ => ?_⟩
    obtain ⟨new, log, _⟩ := since.log
    have woken : d'.Reported ch.keeps out := reported'.grown lasts (wakes.noted.1 ▸ reported'.keeps)
      ⟨[], wakes.noted.2.trans (List.append_nil _).symm⟩ (callers_of_wakes wakes)
    have goes : (d'.goOn k).Reported ch.keeps out :=
      woken.moved lasts woken.keeps ⟨[], (List.append_nil _).symm⟩ (by simp) rfl
    refine ⟨goes, goes, ?_⟩
    have later : told d'.log := by
      rw [wakes.noted.2, log]
      exact lasting _ _ (waits.noted.2 ▸ holds.2)
    exact later

/-- A question is answered by what surrounds the program, or with a cancellation; what is heard is noted. -/
theorem Routine.query_keeps {R : Rules ω} {r : Remit} {holds : Crew ω → Prop} {question : Ask} (frame : Upkeep w R k r holds)
    (own : holds c) (allowed : r.asks question) : (query question).Keeps w R k (fun reply c' => holds c' ∧
      ((∃ time world, reply = (w.answer question time world).reply) ∨ reply = .error .cancelled) ∧
      ∃ time, (time, k, .hears question reply) ∈ c'.log) c := by
  refine ⟨frame.may own allowed, fun soon known => ?_, fun slow rest known => ?_⟩
  · obtain ⟨inv, own'⟩ := frame.exchange own allowed soon known
    exact ⟨inv, own', .inl ⟨_, _, rfl⟩, _, List.mem_append_right _ (List.mem_singleton_self _)⟩
  · obtain ⟨inv, goesOn⟩ := frame.ask rest own allowed slow known
    refine ⟨inv, fun c' h known' inv' still since found asking known'' => ?_⟩
    obtain ⟨inv'', own'⟩ := goesOn c' h known' inv' still since found asking known''
    refine ⟨inv'', own', ?_, _, List.mem_append_right _ (List.mem_singleton_self _)⟩
    unfold Hand.heard
    split
    · exact .inr rfl
    · exact .inl ⟨_, _, rfl⟩

end CodeAtlas
