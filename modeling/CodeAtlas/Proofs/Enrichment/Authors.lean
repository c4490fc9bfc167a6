import Mathlib.Data.List.Perm.Basic
import CodeAtlas.Proofs.Crew.Solo
import CodeAtlas.Proofs.Crew.Terms
import CodeAtlas.Proofs.Enrichment.Settled

namespace CodeAtlas

variable {ω : Type}

/-- The descriptions that were written with it. -/
def Exchange.entries (x : Exchange) : List Written := x.question.entries x.reply

def Deed.entries : Deed → List Written
  | .hears question reply => question.entries reply
  | _ => []

namespace Crew

variable {c : Crew ω} {n : Nat}

/-- All descriptions that were written. -/
def entries (c : Crew ω) : List Written := c.log.flatMap fun noted => noted.2.2.entries

/-- The descriptions that somebody has written. -/
def entriesBy (c : Crew ω) (k : Who) : List Written := c.log.flatMap fun noted => if noted.2.1 = k then noted.2.2.entries else []

/-- What somebody has written is what those exchanges wrote that were heard. -/
theorem entriesBy_eq (c : Crew ω) (k : Who) : c.entriesBy k = (c.diary k).heard.flatMap Exchange.entries := by
  unfold entriesBy diary Diary.heard
  induction c.log with
  | nil => rfl
  | cons noted rest ih =>
    obtain ⟨time, who, deed⟩ := noted
    rw [List.flatMap_cons, ih, List.filterMap_cons]
    by_cases own : who = k
    · simp only [own, if_true, List.filterMap_cons]
      cases deed <;> rfl
    · simp only [own, if_false, List.nil_append]

/-- What one of several has done is all that is gathered from them. -/
theorem flatMap_author {α : Type} {i : Nat} (inside : i < n) (own : List α) :
    ((List.range n).flatMap fun j => if Who.job i = .job j then own else []) = own := by
  induction n with
  | zero => omega
  | succ n ih =>
    rw [List.range_succ, List.flatMap_append, List.flatMap_singleton]
    by_cases last : i = n
    · have before : ((List.range n).flatMap fun j => if Who.job i = .job j then own else []) = [] := by
        refine List.flatMap_eq_nil_iff.mpr fun j earlier => if_neg fun same => ?_
        have := List.mem_range.mp earlier
        cases same
        omega
      rw [before, List.nil_append, last, if_pos rfl]
    · rw [ih (by omega), if_neg fun same => last (Who.job.inj same), List.append_nil]

/-- What was written was written by the jobs, each its part. -/
theorem entries_perm (authors : ∀ noted ∈ c.log, noted.2.2.entries ≠ [] → ∃ j, j < n ∧ noted.2.1 = .job j) :
    c.entries.Perm ((List.range n).flatMap fun j => c.entriesBy (.job j)) := by
  unfold entries entriesBy
  generalize c.log = log at authors
  induction log with
  | nil => simp
  | cons noted rest ih =>
    have first : noted.2.2.entries = (List.range n).flatMap fun j => if noted.2.1 = .job j then noted.2.2.entries else [] := by
      by_cases silent : noted.2.2.entries = []
      · simp [silent]
      · obtain ⟨i, inside, author⟩ := authors noted (List.mem_cons_self ..) silent
        rw [author, flatMap_author inside]
    have later := ih fun noted' inside => authors noted' (List.mem_cons_of_mem _ inside)
    simp only [List.flatMap_cons]
    exact ((List.Perm.of_eq first).append later).trans (List.flatMap_append_perm _ _ _)

end Crew

namespace Shift.Leads

variable {w : World ω} {program : Routine Yield} {m : Memory} {world : ω} {hasLoop : Bool} {a : Shift ω}

/-- As long as the caller writes nothing, only the jobs write. -/
theorem authors (leads : Leads w (Shift.solo program m world hasLoop) a)
    (silent : (a.crew.diary (.caller 0)).heard.flatMap Exchange.entries = []) :
    ∀ noted ∈ a.crew.log, noted.2.2.entries ≠ [] → ∃ j, j < a.crew.jobs.length ∧ noted.2.1 = .job j := by
  rintro ⟨time, k, deed⟩ inside wrote
  have known : ∃ h, a.crew.hand? k = some h := by
    refine Option.ne_none_iff_exists'.mp fun absent => ?_
    have own : (time, deed) ∈ a.crew.diary k := Crew.mem_diary.mpr inside
    rw [leads.reach.written.absent k absent] at own
    exact List.not_mem_nil own
  obtain ⟨h, found⟩ := known
  cases k with
  | job j => exact ⟨j, (List.getElem?_eq_some_iff.mp found).1, rfl⟩
  | caller i =>
    obtain rfl := leads.solo.only found
    have nothing : a.crew.entriesBy (.caller 0) = [] := (a.crew.entriesBy_eq _).trans silent
    exact absurd (List.flatMap_eq_nil_iff.mp nothing _ inside) (by simpa using wrote)

end Shift.Leads

end CodeAtlas
