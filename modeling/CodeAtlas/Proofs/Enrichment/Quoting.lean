import CodeAtlas.Proofs.Enrichment.Alike
import CodeAtlas.Proofs.Enrichment.Single
import CodeAtlas.Proofs.Texts

namespace CodeAtlas

section Excerpts

variable {α : Type} {text : List Char}

/-- The lines that are numbered from `first` to `last`, both included, where the first line has the number one; all lines from
`first` on where `last` is not positive. -/
def linesNumbered (first last : Int) (lines : List α) : List α :=
  let stop : Int := if last ≤ 0 then lines.length else min lines.length last
  ((lines.zipIdx 1).filter fun line => max 1 first ≤ line.2 ∧ line.2 ≤ stop).map Prod.fst

/-- Numbered from `start` on, the lines from `low` to `high` are what is left of those up to `high` without those before `low`. -/
theorem filter_zipIdx (low high start : Nat) (lines : List α) :
    ((lines.zipIdx start).filter fun line => low ≤ line.2 ∧ line.2 ≤ high).map Prod.fst =
      (lines.take (high + 1 - start)).drop (low - start) := by
  induction lines generalizing start with
  | nil => simp
  | cons line rest ih =>
    rw [List.zipIdx_cons, List.filter_cons]
    by_cases late : high < start
    · have outside : ¬(low ≤ start ∧ start ≤ high) := by omega
      rw [if_neg (by simpa using outside), ih, show high + 1 - start = 0 by omega, show high + 1 - (start + 1) = 0 by omega]
      simp
    · have taken : high + 1 - start = high + 1 - (start + 1) + 1 := by omega
      by_cases early : start < low
      · have outside : ¬(low ≤ start ∧ start ≤ high) := by omega
        rw [if_neg (by simpa using outside), ih, taken, show low - start = low - (start + 1) + 1 by omega]
        rfl
      · have inside : low ≤ start ∧ start ≤ high := by omega
        rw [if_pos (by simpa using inside), List.map_cons, ih, taken, show low - start = 0 by omega, show low - (start + 1) = 0 by omega]
        rfl

theorem sourceLines_eq (first last : Int) (lines : List (List Char)) : sourceLines first last lines = linesNumbered first last lines := by
  have bounds : ∀ line : List Char × Nat,
      decide (max 1 first ≤ line.2 ∧ (line.2 : Int) ≤ if last ≤ 0 then (lines.length : Int) else min lines.length last) =
        decide ((first - 1).toNat + 1 ≤ line.2 ∧ line.2 ≤ if 0 < last then min lines.length last.toNat else lines.length) := by
    intro line
    refine decide_eq_decide.mpr ?_
    split
    · rw [if_neg (by omega)]
      omega
    · rw [if_pos (by omega)]
      omega
  rw [linesNumbered, List.filter_congr fun line _ => bounds line, filter_zipIdx, sourceLines, Nat.add_sub_cancel, Nat.add_sub_cancel]

/-- The lines of a text by their numbers, one below the other. -/
def excerpt (ends : Char → Bool) (first last : Int) (text : List Char) : String :=
  "\n".intercalate ((linesNumbered first last (linesEndedBy ends text)).map String.ofList)

theorem codeOf_eq (m : PendingMethod) (content : List Nat) :
    codeOf m content = excerpt endsLine m.startLine m.endLine (decodeUtf8 content) := by
  rw [codeOf, linesOf_unifyNewlines, sourceLines_eq, excerpt]

theorem linesNumbered_all (lines : List (List Char)) : linesNumbered 1 0 lines = lines := by
  rw [← sourceLines_eq]
  exact List.take_length

theorem mem_joined {c : Char} (other : c ≠ '\n') (lines : List (List Char)) :
    c ∈ ("\n".intercalate (lines.map String.ofList)).toList ↔ c ∈ lines.flatten := by
  induction lines with
  | nil => simp
  | cons line rest ih =>
    cases rest with
    | nil => simp
    | cons next later =>
      rw [List.flatten_cons, List.mem_append, ← ih]
      simp [String.intercalate_cons_cons, other]

/-- The whole text as an excerpt has all characters that end no line. -/
theorem mem_excerpt {ends : Char → Bool} (feeds : ends '\n' = true) (returns : ends '\r' = true) {c : Char} (other : c ≠ '\n') :
    c ∈ (excerpt ends 1 0 text).toList ↔ c ∈ text ∧ ends c = false := by
  rw [excerpt, linesNumbered_all, mem_joined other, mem_linesEndedBy feeds returns]

theorem endsLine_of_isNewline {c : Char} (newline : isNewline c = true) : endsLine c = true := by
  rw [isNewline, Bool.or_eq_true, beq_iff_eq, beq_iff_eq] at newline
  rcases newline with rfl | rfl <;> rfl

/-- All excerpts of a text are those by its newlines just when no other character of it ends a line. -/
theorem excerpt_eq_iff : (∀ first last, excerpt endsLine first last text = excerpt isNewline first last text) ↔
    ∀ c ∈ text, endsLine c = true → isNewline c = true := by
  constructor
  · intro same c inside ended
    by_contra other
    have apart : c ≠ '\n' := fun feed => other (feed ▸ rfl)
    have shown := (mem_excerpt rfl rfl apart).mpr ⟨inside, Bool.eq_false_iff.mpr other⟩
    rw [← same] at shown
    exact Bool.false_ne_true (((mem_excerpt rfl rfl apart).mp shown).2.symm.trans ended)
  · intro fewer first last
    have ends : ∀ c ∈ text, endsLine c = isNewline c :=
      fun c inside => Bool.eq_iff_iff.mpr ⟨fewer c inside, endsLine_of_isNewline⟩
    rw [excerpt, excerpt, linesEndedBy_congr ends]

end Excerpts

section Quotes

variable {e : Enricher} {m : PendingMethod} {path : String} {log : List Event}

open Routine

theorem readCode_runs {read : Except Fault String} (placed : m.filePath = .str path) (named : path ≠ "")
    (runs : (readCode e m).Runs log read) : ∃ reply, log = [.hears (.contentAt (Path.below e.sourceRoot path)) reply] ∧
      ∀ content, reply = .ok (.bytes content) → read = .ok (codeOf m content) := by
  have given : (!m.filePath.truthy) = false := by
    rw [placed, Value.truthy, String.isEmpty_eq_false_iff.mpr named]
    rfl
  rw [readCode, given, placed] at runs
  change (Routine.ask (.contentAt (Path.below e.sourceRoot path)) _).Runs log read at runs
  obtain ⟨reply, _, rfl, answered⟩ := runs_ask.mp runs
  cases reply with
  | error fault =>
    obtain ⟨rfl, rfl⟩ := runs_done.mp answered
    refine ⟨_, rfl, ?_⟩
    rintro _ ⟨⟩
  | ok found =>
    cases found with
    | bytes content =>
      obtain ⟨rfl, rfl⟩ := runs_done.mp answered
      refine ⟨_, rfl, ?_⟩
      rintro _ ⟨⟩
      rfl
    | missing | directory =>
      obtain ⟨rfl, rfl⟩ := runs_done.mp answered
      refine ⟨_, rfl, ?_⟩
      rintro _ ⟨⟩

/-- A method is described from the lines of its file that go by its numbers. What ends a line there is more than newlines, which
makes a difference just for a file in which such characters stand. -/
theorem enrichOne_quotes {result : Except Fault Outcome} (placed : m.filePath = .str path) (named : path ≠ "")
    (runs : (enrichOne e m).Runs log result) :
    ∃ reply rest, log = .hears (.contentAt (Path.below e.sourceRoot path)) reply :: rest ∧ ∀ content, reply = .ok (.bytes content) →
      (∃ asking last answer, rest = asking ++ last ∧ (e.completion.complete
        (enrichmentPrompt m (excerpt endsLine m.startLine m.endLine (decodeUtf8 content))) (some enrichmentSystem)).Runs asking answer) ∧
      ((∀ first last, excerpt endsLine first last (decodeUtf8 content) = excerpt isNewline first last (decodeUtf8 content)) ↔
        ∀ c ∈ decodeUtf8 content, endsLine c = true → isNewline c = true) := by
  obtain ⟨reading, rest, read, rfl, reads, asks⟩ := enrichOne_asks runs
  obtain ⟨reply, rfl, found⟩ := readCode_runs placed named reads
  refine ⟨reply, rest, rfl, fun content bytes => ⟨?_, excerpt_eq_iff⟩⟩
  rw [← codeOf_eq]
  exact asks _ (found content bytes)

/-- A form feed stands in the first line of this file, of three lines for its newlines alone. -/
def pagedSource : List Nat := "a\x0cb\nc\nd\n".toList.map Char.toNat

def PendingMethod.paged : PendingMethod := { (default : PendingMethod) with filePath := .str "A", startLine := 2, endLine := 2 }

theorem PendingMethod.paged_quoted : excerpt endsLine paged.startLine paged.endLine (decodeUtf8 pagedSource) = "b" := by decide +kernel

/-- A method on the second line of this file is described from what follows the form feed. -/
theorem enrichOne_quotes_paged : (∃ asking last answer,
    [Event.hears (.complete (enrichmentPrompt .paged "b") (some enrichmentSystem)) (.error (.foreign .connection none)),
      .hears .drawId (.error (.foreign .os none))] = asking ++ last ∧
    (Enricher.helped.completion.complete (enrichmentPrompt .paged "b") (some enrichmentSystem)).Runs asking answer) ∧
    excerpt isNewline 2 2 (decodeUtf8 pagedSource) = "c" := by
  have reads : (readCode .helped .paged).Runs [.hears (.contentAt (Path.below none "A")) (.ok (.bytes pagedSource))]
      (.ok (codeOf .paged pagedSource)) := .ask .done
  rw [codeOf_eq, PendingMethod.paged_quoted] at reads
  have asks : (Enricher.helped.completion.complete (enrichmentPrompt .paged "b") (some enrichmentSystem)).Runs
      [.hears (.complete (enrichmentPrompt .paged "b") (some enrichmentSystem)) (.error (.foreign .connection none))]
      (.error (.foreign .connection none)) := .ask .done
  have describes := describe_runs asks (.error rfl)
  have run : (enrichOne .helped .paged).Runs ([.hears (.contentAt (Path.below none "A")) (.ok (.bytes pagedSource))] ++
      ([.hears (.complete (enrichmentPrompt .paged "b") (some enrichmentSystem)) (.error (.foreign .connection none))] ++
        [.hears .drawId (.error (.foreign .os none))])) _ := (enrichOne_runs_iff reads describes).mpr .undrawn
  obtain ⟨_, _, ⟨⟩, quoted⟩ := enrichOne_quotes rfl (by decide) run
  obtain ⟨asked, _⟩ := quoted pagedSource rfl
  rw [PendingMethod.paged_quoted] at asked
  exact ⟨asked, by decide +kernel⟩

end Quotes

end CodeAtlas
