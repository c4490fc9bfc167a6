import CodeAtlas.Proofs.Enrichment.Alike
import CodeAtlas.Proofs.Enrichment.Single
import CodeAtlas.Proofs.Texts

namespace CodeAtlas

section Fences

variable {word rest : List Char}

theorem dropFront_append (word rest : List Char) : dropFront word (word ++ rest) = rest := by
  rw [dropFront, if_pos (List.isPrefixOf_iff_prefix.mpr (List.prefix_append _ _)), List.drop_left]

theorem dropFront_of_not_prefix (other : ¬word <+: rest) : dropFront word rest = rest :=
  if_neg (mt List.isPrefixOf_iff_prefix.mp other)

theorem dropBack_append (word rest : List Char) : dropBack word (rest ++ word) = rest := by
  rw [dropBack, List.reverse_append, dropFront_append, List.reverse_reverse]

theorem dropBack_of_not_suffix (other : ¬word <:+ rest) : dropBack word rest = rest := by
  rw [dropBack, dropFront_of_not_prefix (mt List.reverse_prefix.mp other), List.reverse_reverse]

/-- A text as it stands alone: no blanks around it, and no fence at either end. -/
structure Bare (t : List Char) : Prop where
  trimmed : trimBy isBlank t = t
  unopened : ¬fence <+: t
  unclosed : ¬fence <:+ t

/-- What a text may look like in an answer: as it stands, or in a fence, with any blanks outside and inside. -/
inductive Wrapped (t : List Char) : List Char → Prop
  | alone {before after : List Char} : Blanks before → Blanks after → Wrapped t (before ++ (t ++ after))
  | tagged {before first last after : List Char} : Blanks before → Blanks first → Blanks last → Blanks after →
      Wrapped t (before ++ (openingFence ++ (first ++ (t ++ last)) ++ fence ++ after))
  | plain {before first last after : List Char} : Blanks before → Blanks first → first ≠ [] → Blanks last → Blanks after →
      Wrapped t (before ++ (fence ++ (first ++ (t ++ last)) ++ fence ++ after))

variable {t cs before after : List Char}

/-- A fence is not blank at its ends, so only what is around it is taken off. -/
theorem trimBy_fenced {opening : List Char} (opens : fence <+: opening) (front : Blanks before) (back : Blanks after) :
    trimBy isBlank (before ++ (opening ++ cs ++ fence ++ after)) = opening ++ (cs ++ fence) := by
  obtain ⟨tag, rfl⟩ := opens
  rw [trimBy_surrounded front back, trimBy_of_ends, List.append_assoc (fence ++ tag)]
  · rintro c ⟨⟩
    rfl
  · intro c ends
    rw [List.getLast?_append] at ends
    cases ends
    rfl

theorem stripFences_of_wrapped (bare : Bare t) (wrapped : Wrapped t cs) : stripFences (.ofList cs) = .ofList t := by
  have inside : ∀ {first last}, Blanks first → Blanks last → trimBy isBlank (dropBack fence (first ++ (t ++ last) ++ fence)) = t := by
    intro first last front back
    rw [dropBack_append, trimBy_surrounded front back, bare.trimmed]
  rw [stripFences, String.toList_ofList]
  refine congrArg String.ofList ?_
  cases wrapped with
  | alone front back =>
    have untagged : ¬openingFence <+: t := fun opens => bare.unopened ((List.prefix_append fence _).trans opens)
    rw [trimBy_surrounded front back, bare.trimmed, if_neg (mt List.isPrefixOf_iff_prefix.mp untagged),
      dropFront_of_not_prefix bare.unopened, dropBack_of_not_suffix bare.unclosed, bare.trimmed]
  | tagged front first last back =>
    have opens : fence <+: openingFence := List.prefix_append _ _
    rw [trimBy_fenced opens front back, if_pos (List.isPrefixOf_iff_prefix.mpr (List.prefix_append _ _)),
      List.drop_left, inside first last]
  | @plain _ blanks ending _ front first some last back =>
    -- A tag would stand where there is a blank.
    have untagged : ¬openingFence <+: fence ++ (blanks ++ (t ++ ending) ++ fence) := by
      intro opens
      obtain ⟨blank, more, rfl⟩ := List.exists_cons_of_ne_nil some
      have same := (List.cons_prefix_cons.mp ((List.prefix_append_right_inj fence).mp opens)).1
      have white : isBlank blank = true := first blank (.head _)
      rw [← same] at white
      exact absurd white (by decide)
    rw [trimBy_fenced (List.prefix_refl fence) front back, if_neg (mt List.isPrefixOf_iff_prefix.mp untagged), dropFront_append,
      inside first last]

end Fences

section Answers

/-- An answer that gives the content in an object, around which there may be a fence. -/
inductive Tells (content : String) : Except Fault Value → Prop
  | told {t cs entries} : Bare t → Wrapped t cs → readData (.ofList t) = some (.dict entries) →
      (Value.dict entries).field? "content" = some (.str content) → Tells content (.ok (.str (.ofList cs)))

/-- An answer of which nothing can be made: there is none, it is no text, or it does not hold an object with a content. -/
inductive Unusable : Except Fault Value → Prop
  | raised {fault} : fault.ordinary = true → Unusable (.error fault)
  | textless {answer} : (∀ text, answer ≠ .str text) → Unusable (.ok answer)
  | garbled {text} : readData (stripFences text) = none → Unusable (.ok (.str text))
  | shapeless {text payload} : readData (stripFences text) = some payload → (∀ entries, payload ≠ .dict entries) →
      Unusable (.ok (.str text))
  | missing {text entries} : readData (stripFences text) = some (.dict entries) →
      (Value.dict entries).field? "content" = none → Unusable (.ok (.str text))
  | falsy {text entries content} : readData (stripFences text) = some (.dict entries) →
      (Value.dict entries).field? "content" = some content → content.truthy = false → Unusable (.ok (.str text))
  | blank {text entries content} : readData (stripFences text) = some (.dict entries) →
      (Value.dict entries).field? "content" = some (.str content) → strip content = "" → Unusable (.ok (.str text))

variable {answer : Except Fault Value} {content : String}

theorem Value.field_of_field? {v w : Value} {key : String} (given : v.field? key = some w) : v.field key = w := by
  rw [Value.field, given]
  rfl

theorem readDescription_of_unread {text : String} (unread : readData (stripFences text) = none) :
    readDescription (.str text) = .error (.invalid .notData) := by
  unfold readDescription
  dsimp only [Value.text, bind, Except.bind]
  rw [unread]

section Payload

variable {text : String} {payload : Value} (read : readData (stripFences text) = some payload)
include read

/-- What can be read has to hold a content that is given. -/
theorem readDescription_of_read :
    readDescription (.str text) = if (payload.field "content").truthy && !(strip (payload.field "content").display).isEmpty then
      .ok (strip (payload.field "content").display) else .error (.invalid .noContent) := by
  unfold readDescription
  dsimp only [Value.text, bind, Except.bind]
  rw [read]
  rfl

theorem readDescription_of_given {content : String} (given : payload.field "content" = .str content) (shown : strip content ≠ "") :
    readDescription (.str text) = .ok (strip content) := by
  have some : content.isEmpty = false := by
    rw [String.isEmpty_eq_false_iff]
    rintro rfl
    exact shown rfl
  have visible : (strip content).isEmpty = false := String.isEmpty_eq_false_iff.mpr shown
  rw [readDescription_of_read read, given, if_pos]
  · rfl
  · rw [Value.truthy, Value.display, some, visible]
    rfl

theorem readDescription_of_falsy (falsy : (payload.field "content").truthy = false) :
    readDescription (.str text) = .error (.invalid .noContent) := by
  rw [readDescription_of_read read, falsy]
  rfl

theorem readDescription_of_blank {content : String} (given : payload.field "content" = .str content) (blank : strip content = "") :
    readDescription (.str text) = .error (.invalid .noContent) := by
  rw [readDescription_of_read read, given, Value.display, blank, if_neg]
  rw [Bool.and_eq_true]
  exact fun both => absurd both.2 (by decide)

end Payload

theorem Tells.read (tells : Tells content answer) (shown : strip content ≠ "") : answer >>= readDescription = .ok (strip content) := by
  obtain ⟨bare, wrapped, read, given⟩ := tells
  rw [← stripFences_of_wrapped bare wrapped] at read
  dsimp only [bind, Except.bind]
  exact readDescription_of_given read (Value.field_of_field? given) shown

theorem Unusable.read (unusable : Unusable answer) : (answer >>= readDescription).toOption = none := by
  dsimp only [bind, Except.bind]
  cases unusable with
  | raised => rfl
  | @textless value none =>
    cases value with
    | str text => exact absurd rfl (none text)
    | _ => rfl
  | garbled unread =>
    dsimp only
    rw [readDescription_of_unread unread]
    rfl
  | @shapeless text payload read shape =>
    have falsy : (payload.field "content").truthy = false := by
      cases payload with
      | dict entries => exact absurd rfl (shape entries)
      | _ => rfl
    dsimp only
    rw [readDescription_of_falsy read falsy]
    rfl
  | @missing text entries read absent =>
    have falsy : ((Value.dict entries).field "content").truthy = false := by
      rw [Value.field, absent]
      rfl
    dsimp only
    rw [readDescription_of_falsy read falsy]
    rfl
  | falsy read given falsy =>
    dsimp only
    rw [readDescription_of_falsy read (by rw [Value.field_of_field? given, falsy])]
    rfl
  | blank read given blank =>
    dsimp only
    rw [readDescription_of_blank read (Value.field_of_field? given) blank]
    rfl

theorem Tells.civil (tells : Tells content answer) : Civil answer := by
  cases tells
  exact .ok _

theorem Unusable.civil (unusable : Unusable answer) : Civil answer := by
  cases unusable with
  | raised ordinary => exact .error ordinary
  | _ => exact .ok _

variable {e : Enricher} {m : PendingMethod} {code : String} {reading : List Event}

/-- An answer is read through any fence. Once the code of a method is read, what is told is written without the blanks around it,
and the method counts as enriched; where nothing can be made of the answer, the placeholder is written. -/
theorem enrichOne_decodes (read : (readCode e m).Runs reading (.ok code)) :
    (∀ t cs, Bare t → Wrapped t cs → stripFences (.ofList cs) = .ofList t) ∧
    ∀ asking answer, (e.completion.complete (enrichmentPrompt m code) (some enrichmentSystem)).Runs asking answer →
      (∀ content, Tells content answer → strip content ≠ "" → ∀ rest result,
        (enrichOne e m).Runs (reading ++ (asking ++ rest)) result ↔ Concludes e m (strip content) .enriched rest result) ∧
      (Unusable answer → ∀ rest result,
        (enrichOne e m).Runs (reading ++ (asking ++ rest)) result ↔ Concludes e m m.placeholder .placeholder rest result) := by
  refine ⟨fun t cs => stripFences_of_wrapped, fun asking answer answers => ⟨fun content tells shown rest result => ?_,
    fun unusable rest result => ?_⟩⟩
  · have told := tells.read shown
    have describes := describe_runs answers tells.civil
    rw [told] at describes
    exact enrichOne_runs_iff read describes
  · have describes := describe_runs answers unusable.civil
    rw [unusable.read] at describes
    exact enrichOne_runs_iff read describes

end Answers

section Example

def adding : List Char := "\x7b\"content\": \" Adds up. \"\x7d".toList

/-- An answer on lines of its own in a fence. -/
def fencedAdding : List Char := "\n".toList ++ (openingFence ++ ("\n".toList ++ (adding ++ "\n".toList)) ++ fence ++ " ".toList)

theorem fencedAdding_tells : Tells " Adds up. " (.ok (.str (.ofList fencedAdding))) := by
  have bare : Bare adding := ⟨by decide +kernel, by decide, by decide⟩
  have wrapped : Wrapped adding fencedAdding := .tagged (by decide) (by decide) (by decide) (by decide)
  have read : readData (.ofList adding) = some (.dict [(.str "content", .str " Adds up. ")]) := by
    rw [readData, String.toList_ofList]
    cbv
  exact .told bare wrapped read rfl

/-- Of a method without a file the description is written that was told in a fence, and where no answer comes the placeholder. -/
theorem enrichOne_decodes_fenced :
    (enrichOne .helped default).Runs [
      .hears (.complete (enrichmentPrompt default sourceUnavailable) (some enrichmentSystem)) (.ok (.str (.ofList fencedAdding))),
      .hears .drawId (.ok Nat.zero), .sees .linked,
      .hears (.query .createDescription (PendingMethod.parameters default Nat.zero "Adds up."))
        (.ok ⟨.list [.list [.int 1, .str "created"]], [.cells [.plain (.int 1)]]⟩)] (.ok .enriched) ∧
    (enrichOne .helped default).Runs [
      .hears (.complete (enrichmentPrompt default sourceUnavailable) (some enrichmentSystem)) (.error (.foreign .connection none)),
      .hears .drawId (.ok Nat.zero), .sees .linked,
      .hears (.query .createDescription (PendingMethod.parameters default Nat.zero (PendingMethod.placeholder default)))
        (.ok ⟨.list [.list [.int 1, .str "created"]], [.cells [.plain (.int 1)]]⟩)] (.ok .placeholder) := by
  have read : (readCode .helped default).Runs [] (.ok sourceUnavailable) := .done
  have shown : strip " Adds up. " = "Adds up." := by decide +kernel
  have asks : ∀ answer, (Enricher.helped.completion.complete (enrichmentPrompt default sourceUnavailable) (some enrichmentSystem)).Runs
      [.hears (.complete (enrichmentPrompt default sourceUnavailable) (some enrichmentSystem)) answer] answer := fun _ => .ask .done
  have told := ((enrichOne_decodes read).2 _ _ (asks _)).1 _ fencedAdding_tells (by rw [shown]; decide)
  have raised := ((enrichOne_decodes read).2 _ _ (asks (.error (.foreign .connection none)))).2 (.raised rfl)
  rw [shown] at told
  exact ⟨(told _ _).mpr (.created rfl rfl), (raised _ _).mpr (.created rfl rfl)⟩

end Example

end CodeAtlas
