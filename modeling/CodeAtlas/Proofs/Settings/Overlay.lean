import CodeAtlas.Proofs.Settings.Usable

namespace CodeAtlas

theorem Value.mem_of_lookup {key : String} {v : Value} {entries : List (Value × Value)}
    (found : lookup key entries = some v) : (.str key, v) ∈ entries := by
  fun_induction lookup key entries with
  | case1 => cases found
  | case2 => simp_all
  | case3 _ _ _ _ ih => exact List.mem_cons_of_mem _ (ih found)
  | case4 _ _ _ ih => exact List.mem_cons_of_mem _ (ih found)

/-- The faults of a value that is not admitted, or that cannot even be judged. -/
inductive Fault.Refusal : Fault → Prop
  | invalid (why : Invalid) : Refusal (.invalid why)
  | mismatch (why : Mismatch) : Refusal (.mismatch why)

/-- A fault of two steps is one of theirs. -/
theorem Fault.Refusal.of_bind {α β : Type} {first : Except Fault α} {rest : α → Except Fault β} {fault : Fault}
    (refused : first >>= rest = .error fault) (before : ∀ fault, first = .error fault → fault.Refusal)
    (after : ∀ a, rest a = .error fault → fault.Refusal) : fault.Refusal := by
  cases done : first with
  | error other =>
    rw [done] at refused
    cases refused
    exact before _ done
  | ok a =>
    rw [done] at refused
    exact after a refused

/-- A number is compared with other numbers, and with nothing else. -/
theorem Value.compare_refusal {c : Comparison} {v w : Value} {fault : Fault}
    (number : v.magnitude?.isSome = true ∨ w.magnitude?.isSome = true) (refused : Value.compare c v w = .error fault) :
    fault.Refusal := by
  cases v <;> cases w <;> simp [Value.compare, Value.magnitude?] at number refused <;>
    exact refused ▸ .mismatch _

theorem atLeastOne_refusal {field : String} {v : Value} {fault : Fault} (refused : atLeastOne field v = .error fault) :
    fault.Refusal := by
  refine .of_bind refused (fun _ => Value.compare_refusal (.inr rfl)) fun below refused => ?_
  cases below <;> cases refused
  exact .invalid _

theorem withinUnit_refusal {field : String} {low high v : Value} {shown : Nat} {fault : Fault}
    (lower : low.magnitude?.isSome = true) (upper : high.magnitude?.isSome = true)
    (refused : withinUnit field low high shown v = .error fault) : fault.Refusal := by
  refine .of_bind refused (fun _ => Value.compare_refusal (.inl lower)) fun above refused => ?_
  cases above with
  | false =>
    cases refused
    exact .invalid _
  | true =>
    refine .of_bind refused (fun _ => Value.compare_refusal (.inr upper)) fun below refused => ?_
    cases below <;> cases refused
    exact .invalid _

namespace Section

variable {σ : Type} (c : Section σ) (given : List (Value × Value)) (x : σ)

/-- Every key is the key of an entry. -/
def Known : Prop := ∀ k v, (k, v) ∈ given → ∃ e ∈ c.entries, k = .str e.key

/-- Each entry holds what it is given, and what it held before when it is given nothing. -/
def Overlaid (y : σ) : Prop := ∀ e ∈ c.entries, e.get y = (Value.lookup e.key given).getD (e.get x)

def laid : σ := c.entries.foldl (fun y e => e.put ((Value.lookup e.key given).getD (e.get x)) y) x

/-- The entries are all that a section has, and none is in another's place. -/
structure Lawful : Prop where
  laid : ∀ given x, c.Overlaid given x (c.laid given x)
  ext : ∀ x y, (∀ e ∈ c.entries, e.get x = e.get y) → x = y
  refusal : ∀ y fault, c.check y = .error fault → fault.Refusal

variable {c given x}

theorem Lawful.laid_eq {y : σ} (lawful : c.Lawful) (overlaid : c.Overlaid given x y) : y = c.laid given x :=
  lawful.ext y _ fun e inside => (overlaid e inside).trans (lawful.laid given x e inside).symm

theorem checkKeys_eq_ok : c.checkKeys given = .ok () ↔ c.Known given := by
  constructor
  · intro done k v inside
    unfold checkKeys at done
    split at done
    next texts =>
      split at done
      next sound =>
        have text := List.all_eq_true.mp texts _ inside
        have known := List.find?_eq_none.mp (Option.map_eq_none_iff.mp sound) _ inside
        cases k <;> simp at text known ⊢
        exact known.imp fun e has => ⟨has.1, has.2.symm⟩
      · cases done
    · cases done
  · intro known
    have sound : c.strayKey? given = none :=
      Option.map_eq_none_iff.mpr <| List.find?_eq_none.mpr fun entry inside => by
        obtain ⟨k, v⟩ := entry
        obtain ⟨e, member, rfl⟩ := known k v inside
        simp only [Bool.not_eq_true, Bool.not_eq_false', List.any_eq_true, beq_iff_eq]
        exact ⟨e, member, rfl⟩
    unfold checkKeys
    split
    · rw [sound]
    next mixed =>
      refine absurd (List.all_eq_true.mpr fun entry inside => ?_) mixed
      obtain ⟨k, v⟩ := entry
      obtain ⟨e, _, rfl⟩ := known k v inside
      rfl

theorem checkKeys_refusal {fault : Fault} (refused : c.checkKeys given = .error fault) : fault.Refusal := by
  unfold checkKeys at refused
  split at refused
  · split at refused <;> cases refused
    exact .mismatch _
  · cases refused
    exact .mismatch _

theorem fill_eq (f : Entry σ → Value) (entries : List (Entry σ)) (y : σ) :
    fill given (fun e => .ok (f e)) entries y =
      .ok (entries.foldl (fun y e => e.put ((Value.lookup e.key given).getD (f e)) y) y) := by
  induction entries generalizing y with
  | nil => rfl
  | cons e rest ih =>
    rw [fill, List.foldl_cons]
    cases Value.lookup e.key given <;> exact ih _

theorem replace_eq : c.replace x given = do
    c.checkKeys given
    c.check (c.laid given x)
    return c.laid given x := by
  simp only [replace, fill_eq]
  rfl

theorem replace_eq_ok {y : σ} :
    c.replace x given = .ok y ↔ c.Known given ∧ y = c.laid given x ∧ c.check y = .ok () := by
  rw [replace_eq, ← checkKeys_eq_ok]
  constructor
  · intro done
    obtain ⟨_, known, done⟩ := exists_of_bind_ok done
    obtain ⟨_, checked, done⟩ := exists_of_bind_ok done
    cases done
    exact ⟨known, rfl, checked⟩
  · rintro ⟨known, rfl, checked⟩
    rw [known, checked]
    rfl

theorem Lawful.replace_refusal {fault : Fault} (lawful : c.Lawful) (refused : c.replace x given = .error fault) :
    fault.Refusal := by
  rw [replace_eq] at refused
  exact .of_bind refused (fun _ => checkKeys_refusal) fun _ refused =>
    .of_bind refused (lawful.refusal _) nofun

end Section

theorem FunnelSettings.check_refusal {s : FunnelSettings} {fault : Fault} (refused : s.check = .error fault) : fault.Refusal := by
  refine .of_bind refused (fun _ => withinUnit_refusal rfl rfl) fun _ refused => ?_
  refine .of_bind refused (fun _ => atLeastOne_refusal) fun _ refused => ?_
  refine .of_bind refused (fun _ => atLeastOne_refusal) fun _ refused => ?_
  refine .of_bind refused (fun _ => atLeastOne_refusal) fun _ refused => ?_
  exact .of_bind refused (fun _ => atLeastOne_refusal) fun _ => atLeastOne_refusal

theorem IngestionSettings.check_refusal {s : IngestionSettings} {fault : Fault} (refused : s.check = .error fault) :
    fault.Refusal := by
  unfold check at refused
  cases given : s.endpoint.truthy with
  | false =>
    rw [given] at refused
    cases refused
    exact .invalid _
  | true =>
    rw [given] at refused
    refine .of_bind refused (fun _ => Value.compare_refusal (.inr rfl)) fun never refused => ?_
    cases never with
    | true =>
      cases refused
      exact .invalid _
    | false =>
      refine .of_bind refused (fun _ => atLeastOne_refusal) fun _ refused => ?_
      refine .of_bind refused (fun _ => atLeastOne_refusal) fun _ refused => ?_
      exact .of_bind refused (fun _ => atLeastOne_refusal) fun _ => atLeastOne_refusal

theorem CompletionSettings.check_refusal {s : CompletionSettings} {fault : Fault} (refused : s.check = .error fault) :
    fault.Refusal :=
  .of_bind refused (fun _ => withinUnit_refusal rfl rfl) fun _ => atLeastOne_refusal

theorem graphSection_lawful : graphSection.Lawful where
  laid := by simp [Section.Overlaid, Section.laid, graphSection]
  ext := by rintro ⟨⟩ ⟨⟩ same; simpa [graphSection] using same
  refusal := nofun

theorem vectorSection_lawful : vectorSection.Lawful where
  laid := by simp [Section.Overlaid, Section.laid, vectorSection]
  ext := by rintro ⟨⟩ ⟨⟩ same; simpa [vectorSection] using same
  refusal := fun _ _ => atLeastOne_refusal

theorem funnelSection_lawful : funnelSection.Lawful where
  laid := by simp [Section.Overlaid, Section.laid, funnelSection]
  ext := by rintro ⟨⟩ ⟨⟩ same; simpa [funnelSection] using same
  refusal := fun _ _ => FunnelSettings.check_refusal

theorem ingestionSection_lawful : ingestionSection.Lawful where
  laid := by simp [Section.Overlaid, Section.laid, ingestionSection]
  ext := by rintro ⟨⟩ ⟨⟩ same; simpa [ingestionSection] using same
  refusal := fun _ _ => IngestionSettings.check_refusal

theorem completionSection_lawful : completionSection.Lawful where
  laid := by simp [Section.Overlaid, Section.laid, completionSection]
  ext := by rintro ⟨⟩ ⟨⟩ same; simpa [completionSection] using same
  refusal := fun _ _ => CompletionSettings.check_refusal

theorem embeddingSection_lawful : embeddingSection.Lawful where
  laid := by simp [Section.Overlaid, Section.laid, embeddingSection]
  ext := by rintro ⟨⟩ ⟨⟩ same; simpa [embeddingSection] using same
  refusal := nofun

namespace SectionName

/-- What holds the values of a section. -/
def Part : SectionName → Type
  | .graph => GraphSettings
  | .vectors => VectorSettings
  | .funnel => FunnelSettings
  | .ingestion => IngestionSettings
  | .completion => CompletionSettings
  | .embedding => EmbeddingSettings

def layout : (n : SectionName) → Section n.Part
  | .graph => graphSection
  | .vectors => vectorSection
  | .funnel => funnelSection
  | .ingestion => ingestionSection
  | .completion => completionSection
  | .embedding => embeddingSection

theorem ofKey?_eq_some {k : Value} {n : SectionName} : ofKey? k = some n ↔ k = .str n.key := by
  constructor
  · intro found
    cases k with
    | str s =>
      have same := List.find?_some found
      rw [beq_iff_eq.mp same]
    | _ => cases found
  · rintro rfl
    exact ofKey?_key n

theorem key_injective {n n' : SectionName} (same : n.key = n'.key) : n = n' := by
  have found := ofKey?_key n
  rw [same, ofKey?_key] at found
  exact (Option.some.inj found).symm

theorem lawful (n : SectionName) : n.layout.Lawful := by
  cases n with
  | graph => exact graphSection_lawful
  | vectors => exact vectorSection_lawful
  | funnel => exact funnelSection_lawful
  | ingestion => exact ingestionSection_lawful
  | completion => exact completionSection_lawful
  | embedding => exact embeddingSection_lawful

end SectionName

namespace SectionName

/-- What a dictionary of sections gives for one of them. -/
def given (n : SectionName) (sections : List (Value × Value)) : List (Value × Value) :=
  match Value.lookup n.key sections with
  | some (.dict given) => given
  | _ => []

variable {n : SectionName} {k v : Value} {rest : List (Value × Value)}

theorem given_of_absent (absent : ∀ v, (.str n.key, v) ∉ rest) : n.given rest = [] := by
  unfold given
  cases found : Value.lookup n.key rest with
  | none => rfl
  | some v => exact absurd (Value.mem_of_lookup found) (absent v)

theorem given_cons_self : n.given ((.str n.key, v) :: rest) = n.given [(.str n.key, v)] := by
  simp [given, Value.lookup]

theorem given_cons_ne (ne : k ≠ .str n.key) : n.given ((k, v) :: rest) = n.given rest := by
  cases k <;> simp_all [given, Value.lookup]

end SectionName

namespace Settings

def part (s : Settings) : (n : SectionName) → n.Part
  | .graph => s.graph
  | .vectors => s.vectors
  | .funnel => s.funnel
  | .ingestion => s.ingestion
  | .completion => s.completion
  | .embedding => s.embedding

def withPart (s : Settings) : (n : SectionName) → n.Part → Settings
  | .graph, x => { s with graph := x }
  | .vectors, x => { s with vectors := x }
  | .funnel, x => { s with funnel := x }
  | .ingestion, x => { s with ingestion := x }
  | .completion, x => { s with completion := x }
  | .embedding, x => { s with embedding := x }

variable {env : Environment} {s t u base : Settings} {sections rest : List (Value × Value)} {entry : Value × Value}

theorem part_withPart (n : SectionName) (x : n.Part) : (s.withPart n x).part n = x := by
  cases n <;> rfl

theorem part_withPart_ne {n n' : SectionName} (ne : n' ≠ n) (x : n.Part) : (s.withPart n x).part n' = s.part n' := by
  cases n <;> cases n' <;> first | rfl | exact absurd rfl ne

theorem replace_eq (n : SectionName) (given : List (Value × Value)) :
    s.replace n given = (n.layout.replace (s.part n) given).map (s.withPart n) := by
  cases n <;> rfl

/-- Every entry of every section holds what it is given, and what it held before when it is given nothing. -/
def LaidOver (base : Settings) (sections : List (Value × Value)) (s : Settings) : Prop :=
  ∀ n : SectionName, n.layout.Overlaid (n.given sections) (base.part n) (s.part n)

/-- Why an entry of a dictionary of sections cannot be laid over settings. -/
inductive Refuses (base : Settings) (entry : Value × Value) : Prop
  | unknownSection (unknown : ∀ n : SectionName, entry.1 ≠ .str n.key)
  | notMapping (present : entry.2 ≠ .null) (other : ∀ given, entry.2 ≠ .dict given)
  | unknownKey {n : SectionName} {given : List (Value × Value)} (name : entry.1 = .str n.key) (gives : entry.2 = .dict given)
      (unknown : ¬n.layout.Known given)
  | unfit {n : SectionName} {given : List (Value × Value)} {y : n.Part} (name : entry.1 = .str n.key)
      (gives : entry.2 = .dict given) (overlaid : n.layout.Overlaid given (base.part n) y) (fails : n.layout.check y ≠ .ok ())

/-- Lays one section over the settings. -/
def lay (s : Settings) (entry : Value × Value) : Except Fault Settings := s.overlay [entry]

theorem overlay_cons : s.overlay (entry :: rest) = (s.lay entry).bind fun t => t.overlay rest := by
  obtain ⟨k, v⟩ := entry
  simp only [lay, overlay]
  split
  · rfl
  · split
    · rfl
    · split <;> rfl
    · rfl

/-- What is not named stays. -/
theorem LaidOver.part_eq {n : SectionName} (laid : LaidOver s sections t) (unnamed : n.given sections = []) :
    t.part n = s.part n := by
  refine n.lawful.ext _ _ fun e inside => ?_
  have held := laid n e inside
  rwa [unnamed] at held

theorem Refuses.of_part_eq (refuses : s.Refuses entry) (same : ∀ n : SectionName, entry.1 = .str n.key → t.part n = s.part n) :
    t.Refuses entry := by
  cases refuses with
  | unknownSection unknown => exact .unknownSection unknown
  | notMapping present other => exact .notMapping present other
  | unknownKey name gives unknown => exact .unknownKey name gives unknown
  | unfit name gives overlaid fails => exact .unfit name gives (same _ name ▸ overlaid) fails

/-- A section whose keys are known and that passes its check is laid over the settings. -/
theorem laidOver_withPart {n : SectionName} {given : List (Value × Value)} :
    LaidOver s [(.str n.key, .dict given)] (s.withPart n (n.layout.laid given (s.part n))) := by
  intro n'
  by_cases same : n' = n
  · subst same
    have gives : n'.given [(.str n'.key, .dict given)] = given := by simp [SectionName.given, Value.lookup]
    rw [part_withPart, gives]
    exact n'.lawful.laid given _
  · have other : Value.str n.key ≠ .str n'.key := fun eq => same (SectionName.key_injective (Value.str.inj eq)).symm
    rw [part_withPart_ne same, SectionName.given_cons_ne other]
    exact fun _ _ => rfl

theorem refuses_dict {n : SectionName} {given : List (Value × Value)} : s.Refuses (.str n.key, .dict given) ↔
    ¬(n.layout.Known given ∧ n.layout.check (n.layout.laid given (s.part n)) = .ok ()) := by
  constructor
  · rintro refuses ⟨known, checked⟩
    cases refuses with
    | unknownSection unknown => exact unknown n rfl
    | notMapping _ other => exact other given rfl
    | @unknownKey n' _ name gives unknown =>
      obtain rfl := SectionName.key_injective (Value.str.inj name)
      cases gives
      exact unknown known
    | @unfit n' _ y name gives overlaid fails =>
      obtain rfl := SectionName.key_injective (Value.str.inj name)
      cases gives
      exact fails (n.lawful.laid_eq overlaid ▸ checked)
  · intro misfit
    by_cases known : n.layout.Known given
    · exact .unfit rfl rfl (n.lawful.laid given (s.part n)) fun checked => misfit ⟨known, checked⟩
    · exact .unknownKey rfl rfl known

/-- A refusal in a section is told as an invalid value. -/
theorem sectionFault_invalid {n : SectionName} {fault : Fault} (refusal : fault.Refusal) :
    ∃ why, sectionFault n fault = .invalid why := by
  cases refusal with
  | invalid why => exact ⟨why, rfl⟩
  | mismatch why => exact ⟨_, rfl⟩

theorem lay_section (n : SectionName) (v : Value) : s.lay (.str n.key, v) = match v with
    | .null => .ok s
    | .dict given => (s.replace n given).mapError (sectionFault n)
    | _ => .error (.invalid (.sectionNotMapping n.key)) := by
  simp only [lay, overlay, SectionName.ofKey?_key]
  cases v with
  | dict given => cases replaced : s.replace n given <;> simp only [replaced] <;> rfl
  | _ => rfl

/-- An entry is refused for one of the reasons, or else it is laid over the settings. -/
theorem lay_exact (s : Settings) (entry : Value × Value) :
    (s.Refuses entry ∧ ∃ why, s.lay entry = .error (.invalid why)) ∨
      (¬s.Refuses entry ∧ ∃ t, s.lay entry = .ok t ∧ LaidOver s [entry] t) := by
  obtain ⟨k, v⟩ := entry
  cases named : SectionName.ofKey? k with
  | none =>
    refine .inl ⟨.unknownSection fun n same => ?_, .unknownSection k, by simp only [lay, overlay, named]⟩
    cases named.symm.trans (SectionName.ofKey?_eq_some.mpr same)
  | some n =>
    obtain rfl := SectionName.ofKey?_eq_some.mp named
    rw [lay_section]
    cases v with
    | null =>
      refine .inr ⟨fun refuses => ?_, s, rfl, fun n' => ?_⟩
      · cases refuses with
        | unknownSection unknown => exact unknown n rfl
        | notMapping present => exact present rfl
        | unknownKey _ gives => cases gives
        | unfit _ gives => cases gives
      · have gives : n'.given [(.str n.key, .null)] = [] := by
          by_cases same : n'.key = n.key <;> simp [SectionName.given, Value.lookup, same]
        rw [gives]
        exact fun _ _ => rfl
    | dict given =>
      simp only [refuses_dict, Classical.not_not, replace_eq]
      cases replaced : n.layout.replace (s.part n) given with
      | ok x =>
        obtain ⟨known, rfl, checked⟩ := Section.replace_eq_ok.mp replaced
        exact .inr ⟨⟨known, checked⟩, _, rfl, laidOver_withPart⟩
      | error fault =>
        obtain ⟨why, told⟩ := sectionFault_invalid (n := n) (n.lawful.replace_refusal replaced)
        refine .inl ⟨fun fits => ?_, why, congrArg _ told⟩
        cases replaced.symm.trans (Section.replace_eq_ok.mpr ⟨fits.1, rfl, fits.2⟩)
    | _ =>
      refine .inl ⟨.notMapping (fun same => ?_) fun given same => ?_, _, rfl⟩
      · cases same
      · cases same

/-- Sections with other names may be laid over what one section was laid over. -/
theorem LaidOver.cons (laid : LaidOver s [entry] t) (apart : ∀ other ∈ rest, entry.1.same other.1 = false)
    (laidRest : LaidOver t rest u) : LaidOver s (entry :: rest) u := by
  intro n
  by_cases name : entry.1 = .str n.key
  · obtain ⟨_, v⟩ := entry
    obtain rfl := name
    have absent : n.given rest = [] := SectionName.given_of_absent fun w inside => by
      simpa [Value.same] using apart _ inside
    rw [laidRest.part_eq absent, SectionName.given_cons_self]
    exact laid n
  · rw [SectionName.given_cons_ne name, ← laid.part_eq (SectionName.given_cons_ne name)]
    exact laidRest n

/-- The sections of a dictionary with different keys are laid over the settings, or the first that is refused is told. -/
theorem overlay_exact (distinct : sections.Pairwise fun entry other => entry.1.same other.1 = false) (s : Settings) :
    ((∃ entry ∈ sections, s.Refuses entry) ∧ ∃ why, s.overlay sections = .error (.invalid why)) ∨
      ((∀ entry ∈ sections, ¬s.Refuses entry) ∧ ∃ t, s.overlay sections = .ok t ∧ LaidOver s sections t) := by
  induction sections generalizing s with
  | nil => exact .inr ⟨by simp, s, rfl, fun _ _ _ => rfl⟩
  | cons entry rest ih =>
    obtain ⟨apart, distinct⟩ := List.pairwise_cons.mp distinct
    rw [overlay_cons]
    rcases lay_exact s entry with ⟨refuses, why, told⟩ | ⟨accepts, t, told, laid⟩
    · exact .inl ⟨⟨entry, List.mem_cons_self .., refuses⟩, why, by rw [told]; rfl⟩
    · rw [told]
      -- A later entry names another section, which is still as it was.
      have same : ∀ other ∈ rest, ∀ n : SectionName, other.1 = .str n.key → t.part n = s.part n := by
        intro other inside n name
        refine laid.part_eq (SectionName.given_cons_ne fun named => ?_)
        simpa [named, name, Value.same] using apart other inside
      rcases ih distinct t with ⟨⟨other, inside, refuses⟩, failed⟩ | ⟨accept, u, done, laidRest⟩
      · refine .inl ⟨⟨other, List.mem_cons_of_mem _ inside, ?_⟩, failed⟩
        exact refuses.of_part_eq fun n name => (same other inside n name).symm
      · refine .inr ⟨fun other inside => ?_, u, done, fun n => ?_⟩
        · rcases List.mem_cons.mp inside with rfl | inside
          · exact accepts
          · exact fun refuses => accept other inside (refuses.of_part_eq (same other inside))
        · exact laid.cons apart laidRest n

/-- Where the variables give settings, a dictionary is laid over them exactly, or it is refused as an invalid value,
and that just when one of its sections cannot be laid over them. -/
theorem ofData_exact (plain : ofEnvironment env = .ok base)
    (distinct : sections.Pairwise fun entry other => entry.1.same other.1 = false) :
    ((∃ entry ∈ sections, base.Refuses entry) ∧ ∃ why, ofData env (.dict sections) = .error (.invalid why)) ∨
      ((∀ entry ∈ sections, ¬base.Refuses entry) ∧ ∃ s, ofData env (.dict sections) = .ok s ∧ LaidOver base sections s) := by
  have laid : ofData env (.dict sections) = base.overlay sections := by
    simp only [ofData, plain]
    cases sections <;> rfl
  rw [laid]
  exact overlay_exact distinct base

/-- A settings file that names some of the values of two sections. -/
def someNamed : List (Value × Value) := [
  (.str "falkordb", .dict [(.str "host", .str "graph.internal"), (.str "password", .null)]), (.str "llm", .null),
  (.str "ingestion", .dict [(.str "enrich_concurrency", .int 4)])]

/-- A settings file with a key that its section does not have. -/
def strayNamed : List (Value × Value) := [
  (.str "llm", .null), (.str "qdrant", .dict [(.str "hostname", .str "vectors.internal")])]

theorem ofData_exact_named : ∃ base, ofEnvironment ⟨[]⟩ = .ok base ∧
    (∃ s, ofData ⟨[]⟩ (.dict someNamed) = .ok s ∧ LaidOver base someNamed s) ∧
    ∃ why, ofData ⟨[]⟩ (.dict strayNamed) = .error (.invalid why) := by
  have present : (ofEnvironment ⟨[]⟩).toOption.isSome = true := by decide +kernel
  have accepted : (ofData ⟨[]⟩ (.dict someNamed)).toOption.isSome = true := by decide +kernel
  have apart : someNamed.Pairwise fun entry other => entry.1.same other.1 = false := by decide
  have apart' : strayNamed.Pairwise fun entry other => entry.1.same other.1 = false := by decide
  cases plain : ofEnvironment ⟨[]⟩ with
  | error => simp [plain, Except.toOption] at present
  | ok base =>
    refine ⟨base, rfl, ?_, ?_⟩
    · rcases ofData_exact plain apart with ⟨_, why, failed⟩ | ⟨_, s, made, laid⟩
      · simp [failed, Except.toOption] at accepted
      · exact ⟨s, made, laid⟩
    · rcases ofData_exact plain apart' with ⟨_, failed⟩ | ⟨accepts, _⟩
      · exact failed
      · have absent : ∀ e ∈ vectorSection.entries, e.key ≠ "hostname" := by simp [vectorSection]
        refine absurd (.unknownKey (n := .vectors) rfl rfl fun known => ?_) (accepts _ (List.mem_cons_of_mem _ (List.mem_cons_self ..)))
        obtain ⟨e, inside, same⟩ := known _ _ (List.mem_cons_self ..)
        exact absent e inside (Value.str.inj same).symm

end Settings

end CodeAtlas
