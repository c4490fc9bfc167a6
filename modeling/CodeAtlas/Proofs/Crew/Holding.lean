import CodeAtlas.Proofs.Crew.Moved
import CodeAtlas.Proofs.Crew.Solo

namespace CodeAtlas

variable {ω : Type}

/-- Whether somebody waits for a permit, and was not stopped. -/
def Crew.queues (c : Crew ω) (k : Who) : Bool :=
  match c.hand? k with
  | some h => match h.station with
    | .waiting .permit _ => !h.stopped
    | _ => false
  | none => false

/-- Who holds a permit after a step: those who did before, with one who is given a permit, or without one who hands it
back. -/
def Shift.holders (a b : Shift ω) (held : List Who) : List Who :=
  match a.turn, b.turn with
  | some (k, .control .takePermit _), some _ => k :: held
  | some (k, .control .givePermit _), _ => held.erase k
  | none, some (k, _) => if a.crew.queues k then k :: held else held
  | _, _ => held

/-- What can come of a shift, along with those who hold a permit. -/
inductive Shift.Holding (w : World ω) (start : Shift ω) : List Who → Shift ω → Prop
  | start : Holding w start [] start
  | next {held a b} : Holding w start held a → Step w (fun _ => False) a b → Holding w start (a.holders b held) b

theorem Shift.Holding.leads {w : World ω} {start a : Shift ω} {held : List Who} (holding : Holding w start held a) :
    Leads w start a := by
  induction holding with
  | start => exact .refl
  | next _ step ih => exact ih.tail step

theorem Shift.Leads.holding {w : World ω} {start a : Shift ω} (leads : Leads w start a) : ∃ held, Holding w start held a := by
  induction leads with
  | refl => exact ⟨[], .start⟩
  | tail _ step ih =>
    obtain ⟨held, holding⟩ := ih
    exact ⟨_, holding.next step⟩

namespace Crew

variable {c c' : Crew ω} {h : Hand} {k : Who} {f : Hand → Hand}

theorem result?_of_over {n : Nat} {result : Except Fault Yield} (found : c.hand? (.job n) = some h) (isOver : h.station = .over result) :
    c.result? n = some result := by
  simp only [hand?] at found
  simp only [result?, found, isOver]

theorem Moved.jobs (moved : Moved k f c c') : c'.jobs.length = c.jobs.length := by
  have beyond : ∀ i, c'.jobs.length ≤ i ↔ c.jobs.length ≤ i := by
    intro i
    rw [← List.getElem?_eq_none_iff, ← List.getElem?_eq_none_iff]
    change c'.hand? (.job i) = none ↔ c.hand? (.job i) = none
    by_cases own : Who.job i = k
    · rw [own, moved.own, Option.map_eq_none_iff]
    · rw [moved.others _ own]
  exact Nat.le_antisymm ((beyond _).mpr (Nat.le_refl _)) ((beyond _).mp (Nat.le_refl _))

/-- What jobs leave behind stays as long as only somebody moves who is not over. -/
theorem Leaves.moved {numbers : List Nat} {waited : Waited} (leaves : c.Leaves numbers waited) (moved : Moved k f c c')
    (active : c.Active k) : c'.Leaves numbers waited := by
  have kept : ∀ n result, c.result? n = some result → c'.result? n = some result := by
    intro n result before
    obtain ⟨h, found, isOver⟩ := result?_of_found before
    have other : Who.job n ≠ k := fun own => active h result (own ▸ found) isOver
    exact result?_of_over ((moved.others _ other).trans found) isOver
  rcases leaves with ⟨yields, all, rfl⟩ | ⟨n, inside, fault, failed, rfl⟩
  · refine .inl ⟨yields, ?_, rfl⟩
    rw [← all]
    refine List.map_congr_left fun n inside => ?_
    have member : c.result? n ∈ yields.map fun y => some (.ok y) := all ▸ List.mem_map_of_mem inside
    obtain ⟨y, _, same⟩ := List.mem_map.mp member
    rw [← same, kept n _ same.symm]
  · exact .inr ⟨n, inside, fault, kept n _ failed, rfl⟩

theorem groups_onGroup {p : Permits} (found : c.hand? k = some h) (member : h.group = some 0) (single : c.groups = [p])
    (f : Permits → Permits) : (c.onGroup k f).groups = [f p] := by
  have group : c.groupOf k = some 0 := by rw [groupOf, found, Option.bind_some, member]
  simp [onGroup, group, single]

theorem isFree_single {p : Permits} (found : c.hand? k = some h) (member : h.group = some 0) (single : c.groups = [p]) :
    c.isFree k = p.available := by
  have group : c.groupOf k = some 0 := by rw [groupOf, found, Option.bind_some, member]
  simp [isFree, group, single]

end Crew

theorem Shift.Proper.quiet {c : Crew ω} {turn : Option (Who × Routine Yield)} {k : Who} (proper : Shift.Proper ⟨c, turn⟩)
    (own : ∀ j q, turn = some (j, q) → j = k) : ∀ j h, j ≠ k → c.hand? j = some h → h.station ≠ .running := by
  intro j h other found running
  obtain ⟨q, same⟩ := proper.alone j h found running
  exact other (own j q same)

/-- What somebody does is noted under the name. -/
def Crew.Adds (k : Who) (new : List Deed) (c c' : Crew ω) : Prop :=
  c'.log = c.log ++ new.map fun deed => (c.clock, k, deed)

/-- Nothing is added where nothing was done. -/
theorem Crew.Adds.none {c c' : Crew ω} {k : Who} (log : c'.log = c.log) : Adds k [] c c' := log.trans (List.append_nil _).symm

end CodeAtlas
