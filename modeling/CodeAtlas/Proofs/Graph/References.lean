import CodeAtlas.Graph.Build
import CodeAtlas.Proofs.Keys
import Mathlib.Data.List.TakeWhile

namespace CodeAtlas

/-- A class goes by its full name and by its simple name. An empty name is none. -/
def SourceClass.goesBy (name : Value) (c : SourceClass) : Bool :=
  (c.fullName.truthy && c.fullName.same name) || (c.name.truthy && c.name.same name)

/-- The first class of a list that goes by a name, with its place. -/
def bearer? (classes : List SourceClass) (name : Value) : Option (SourceClass × Nat) :=
  classes.zipIdx.find? (·.1.goesBy name)

/-- The names of a class can be looked up, or are none. -/
structure SourceClass.Named (c : SourceClass) : Prop where
  fullName : c.fullName.truthy → c.fullName.isKey
  name : c.name.truthy → c.name.isKey

theorem Value.same_text {v : Value} {text : String} : v.same (.str text) ↔ v = .str text := by
  cases v <;> simp [Value.same, Value.magnitude?]

theorem SourceClass.goesBy_text {c : SourceClass} {text : String} :
    c.goesBy (.str text) ↔ text ≠ "" ∧ (c.fullName = .str text ∨ c.name = .str text) := by
  have given : ∀ v : Value, v.truthy = true ∧ v = .str text ↔ text ≠ "" ∧ v = .str text := by
    intro v
    constructor
    all_goals
      rintro ⟨holds, rfl⟩
      exact ⟨by simpa [Value.truthy] using holds, rfl⟩
  simp only [goesBy, Bool.or_eq_true, Bool.and_eq_true, Value.same_text, given, and_or_left]

theorem SourceClass.not_goesBy_text {c : SourceClass} {text : String} (nonempty : text ≠ "") :
    c.goesBy (.str text) = false ↔ c.fullName ≠ .str text ∧ c.name ≠ .str text := by
  rw [← Bool.not_eq_true, goesBy_text, not_and, not_or]
  exact ⟨fun apart => apart nonempty, fun apart _ => apart⟩

section Bearer

variable {classes : List SourceClass} {name : Value} {c : SourceClass} {k : Nat}

/-- Who bears a name is the first who goes by it. -/
theorem bearer?_eq_some :
    bearer? classes name = some (c, k) ↔
      classes[k]? = some c ∧ c.goesBy name ∧ ∀ other ∈ classes.take k, other.goesBy name = false := by
  rw [bearer?, List.find?_eq_some_iff_getElem]
  constructor
  · rintro ⟨goes, i, bound, at_i, earlier⟩
    rw [List.length_zipIdx] at bound
    rw [List.getElem_zipIdx, Nat.zero_add, Prod.mk.injEq] at at_i
    obtain ⟨rfl, rfl⟩ := at_i
    refine ⟨List.getElem?_eq_getElem bound, goes, fun other inside => ?_⟩
    obtain ⟨j, before, rfl⟩ := List.mem_take_iff_getElem.mp inside
    simpa [List.getElem_zipIdx] using earlier j (by omega)
  · rintro ⟨stands, goes, first⟩
    obtain ⟨bound, rfl⟩ := List.getElem?_eq_some_iff.mp stands
    refine ⟨goes, k, by simpa using bound, by simp [List.getElem_zipIdx], fun j before => ?_⟩
    have inside : classes[j] ∈ classes.take k := List.mem_take_iff_getElem.mpr ⟨j, by omega, rfl⟩
    simp [List.getElem_zipIdx, first _ inside]

theorem bearer?_eq_none : bearer? classes name = none ↔ ∀ c ∈ classes, c.goesBy name = false := by
  rw [bearer?, List.find?_eq_none]
  constructor
  · intro nobody c inside
    obtain ⟨k, stands⟩ := List.mem_iff_getElem?.mp inside
    simpa using nobody (c, k) (List.mem_zipIdx_iff_getElem?.mpr stands)
  · intro nobody entry inside
    simpa using nobody entry.1 (List.fst_mem_of_mem_zipIdx inside)

/-- A class that goes by a name, and before which nobody does, bears it; who bears it otherwise stands before. -/
theorem bearer?_of_goesBy (stands : classes[k]? = some c) (goes : c.goesBy name) :
    ∃ other i, bearer? classes name = some (other, i) ∧ i ≤ k := by
  cases borne : bearer? classes name with
  | none =>
    rw [bearer?_eq_none.mp borne c (List.mem_of_getElem? stands)] at goes
    cases goes
  | some entry =>
    refine ⟨entry.1, entry.2, rfl, Nat.le_of_not_lt fun later => ?_⟩
    have first := (bearer?_eq_some.mp borne).2.2 c
    obtain ⟨bound, rfl⟩ := List.getElem?_eq_some_iff.mp stands
    rw [first (List.mem_take_iff_getElem.mpr ⟨k, by omega, rfl⟩)] at goes
    cases goes

end Bearer

namespace ClassIndex

variable {index entered : ClassIndex} {classes : List SourceClass}

/-- A class can be entered under a name that can be looked up, and under one that is none. -/
theorem enter_of_usable (index : ClassIndex) {key : Value} (c : SourceClass × Nat) (usable : key.truthy → key.isKey) :
    ∃ entered, index.enter key c = .ok entered := by
  unfold enter
  cases given : key.truthy with
  | false => exact ⟨index, rfl⟩
  | true =>
    simp only [Value.asKey_of_isKey (usable given), bind, Except.bind, Bool.not_true, Bool.false_eq_true, if_false]
    split <;> exact ⟨_, rfl⟩

theorem find?_snoc (index : ClassIndex) (key name : Value) (c : SourceClass × Nat) :
    find? (index ++ [(key, c)]) name = (index.find? name).or (if key.same name then some c else none) := by
  rw [find?, List.find?_append, Option.map_or]
  congr 1
  by_cases same : key.same name <;> simp [same]

/-- The first class with a name holds it. -/
theorem find?_enter {key : Value} {c : SourceClass × Nat} (done : index.enter key c = .ok entered) (name : Value) :
    entered.find? name = (index.find? name).or (if key.truthy && key.same name then some c else none) := by
  unfold enter at done
  cases given : key.truthy with
  | false =>
    simp only [given, Bool.not_false, if_true] at done
    cases done
    simp
  | true =>
    cases usable : key.isKey with
    | false => simp [given, Value.asKey, usable, bind, Except.bind] at done
    | true =>
      simp only [given, Value.asKey_of_isKey usable, bind, Except.bind, Bool.not_true, Bool.false_eq_true,
        if_false] at done
      split at done
      next held =>
        cases done
        obtain ⟨entry, inside, same⟩ := List.any_eq_true.mp held
        by_cases same' : key.same name
        · -- whoever holds the key holds what equals it
          have sought : (List.find? (·.1.same name) index).isSome :=
            List.find?_isSome.mpr ⟨entry, inside, Value.same_trans usable same same'⟩
          obtain ⟨first, found⟩ := Option.isSome_iff_exists.mp sought
          simp [find?, found]
        · simp [same']
      next =>
        cases done
        rw [find?_snoc, Bool.true_and]

theorem find?_enterAll {entries : List (SourceClass × Nat)} (done : index.enterAll entries = .ok entered) (name : Value) :
    entered.find? name = (index.find? name).or (entries.find? (·.1.goesBy name)) := by
  induction entries generalizing index with
  | nil =>
    cases done
    simp
  | cons c rest ih =>
    simp only [enterAll, bind, Except.bind] at done
    split at done
    next => cases done
    next first underFull =>
      split at done
      next => cases done
      next second underName =>
        rw [ih done, find?_enter underName, find?_enter underFull, Option.or_assoc, Option.or_assoc, List.find?_cons]
        congr 1
        cases full : c.1.fullName.truthy && c.1.fullName.same name <;>
          cases simple : c.1.name.truthy && c.1.name.same name <;> simp [SourceClass.goesBy, full, simple]

theorem enterAll_of_named (index : ClassIndex) {entries : List (SourceClass × Nat)} (named : ∀ c ∈ entries, c.1.Named) :
    ∃ entered, index.enterAll entries = .ok entered := by
  induction entries generalizing index with
  | nil => exact ⟨index, rfl⟩
  | cons c rest ih =>
    have own := named c (List.mem_cons_self ..)
    obtain ⟨first, underFull⟩ := index.enter_of_usable c own.fullName
    obtain ⟨second, underName⟩ := first.enter_of_usable c own.name
    obtain ⟨entered, done⟩ := ih second fun c' inside => named c' (List.mem_cons_of_mem _ inside)
    exact ⟨entered, by simp only [enterAll, underFull, underName, done, bind, Except.bind]⟩

/-- What is found under a name is who bears it. -/
theorem find?_eq_bearer? (indexed : ofClasses classes = .ok index) (name : Value) :
    index.find? name = bearer? classes name := find?_enterAll indexed name

theorem resolve_text (indexed : ofClasses classes = .ok index) {text : String} (nonempty : text ≠ "") :
    index.resolve (.str text) =
      .ok ((bearer? classes (.str text)).or (bearer? classes (.str (afterLastPoint text)))) := by
  have given : (Value.str text).truthy = true := by simpa [Value.truthy] using nonempty
  simp only [resolve, given, Value.asKey, Value.isKey, Value.text, find?_eq_bearer? indexed, bind, Except.bind,
    Bool.not_true, Bool.false_eq_true, if_false, if_true]
  cases bearer? classes (.str text) <;> rfl

/-- What a reference means bears it, or bears what follows the last point of it where nobody bears it. -/
theorem resolve_eq_some (indexed : ofClasses classes = .ok index) {reference : Value} {c : SourceClass × Nat} :
    index.resolve reference = .ok (some c) ↔ reference.truthy ∧ reference.isKey ∧
      (bearer? classes reference = some c ∨ bearer? classes reference = none ∧
        ∃ text, reference = .str text ∧ bearer? classes (.str (afterLastPoint text)) = some c) := by
  unfold resolve
  cases given : reference.truthy with
  | false => simp [pure, Except.pure]
  | true =>
    cases usable : reference.isKey with
    | false => simp [Value.asKey, usable, bind, Except.bind]
    | true =>
      simp only [Value.asKey_of_isKey usable, find?_eq_bearer? indexed, bind, Except.bind, Bool.not_true,
        Bool.false_eq_true, if_false, true_and]
      cases borne : bearer? classes reference with
      | some other => simp [pure, Except.pure]
      | none => cases reference <;> simp [Value.text, pure, Except.pure]

theorem resolveClass_eq_some {reference : Value} {c : SourceClass}
    (meant : index.resolveClass reference = .ok (some c)) : ∃ k, index.resolve reference = .ok (some (c, k)) := by
  unfold resolveClass at meant
  cases resolved : index.resolve reference with
  | error fault => simp only [resolved, bind, Except.bind] at meant; cases meant
  | ok found =>
    cases found with
    | none => simp only [resolved, bind, Except.bind] at meant; cases meant
    | some entry =>
      simp only [resolved, bind, Except.bind] at meant
      cases meant
      exact ⟨entry.2, rfl⟩

theorem mem_of_resolve (indexed : ofClasses classes = .ok index) {reference : Value} {c : SourceClass × Nat}
    (meant : index.resolve reference = .ok (some c)) : classes[c.2]? = some c.1 := by
  obtain ⟨_, _, borne | ⟨_, _, _, borne⟩⟩ := (resolve_eq_some indexed).mp meant <;> exact (bearer?_eq_some.mp borne).1

end ClassIndex

theorem afterLastPoint_idem (text : String) : afterLastPoint (afterLastPoint text) = afterLastPoint text := by
  simp only [afterLastPoint, String.toList_ofList, List.reverse_reverse, List.takeWhile_idem]

/-- The first class of a list that goes by a text, with its place. -/
structure FirstBy (classes : List SourceClass) (text : String) (c : SourceClass) (k : Nat) : Prop where
  stands : classes[k]? = some c
  goes : c.fullName = .str text ∨ c.name = .str text
  first : ∀ other ∈ classes.take k, other.fullName ≠ .str text ∧ other.name ≠ .str text

theorem bearer?_text {classes : List SourceClass} {text : String} {c : SourceClass} {k : Nat} :
    bearer? classes (.str text) = some (c, k) ↔ text ≠ "" ∧ FirstBy classes text c k := by
  rw [bearer?_eq_some]
  constructor
  · rintro ⟨stands, goes, first⟩
    obtain ⟨nonempty, named⟩ := SourceClass.goesBy_text.mp goes
    exact ⟨nonempty, stands, named, fun other inside => (SourceClass.not_goesBy_text nonempty).mp (first other inside)⟩
  · rintro ⟨nonempty, stands, named, first⟩
    exact ⟨stands, SourceClass.goesBy_text.mpr ⟨nonempty, named⟩,
      fun other inside => (SourceClass.not_goesBy_text nonempty).mpr (first other inside)⟩

theorem bearer?_text_none {classes : List SourceClass} {text : String} :
    bearer? classes (.str text) = none ↔
      text = "" ∨ ∀ c ∈ classes, c.fullName ≠ .str text ∧ c.name ≠ .str text := by
  rw [bearer?_eq_none]
  by_cases empty : text = ""
  · subst empty
    refine iff_of_true (fun c _ => Bool.eq_false_iff.mpr fun goes => ?_) (.inl rfl)
    exact absurd rfl (SourceClass.goesBy_text.mp goes).1
  · rw [or_iff_right empty]
    exact forall₂_congr fun c _ => SourceClass.not_goesBy_text empty

/-- What texts refer to among classes: full names and simple names count alike, and the first class wins. -/
structure ClassIndex.FirstWins (classes : List SourceClass) (index : ClassIndex) : Prop where
  first : ∀ {text c k}, text ≠ "" → FirstBy classes text c k → index.resolve (.str text) = .ok (some (c, k))
  /-- The first class of a full name is meant, unless one before it has that name as its simple name. -/
  qualified : ∀ {text c k}, text ≠ "" → classes[k]? = some c → c.fullName = .str text →
    (∀ other ∈ classes.take k, other.fullName ≠ .str text) →
    (index.resolve (.str text) = .ok (some (c, k)) ↔ ∀ other ∈ classes.take k, other.name ≠ .str text)
  /-- The first class of a simple name is meant where that is nobody's full name. -/
  simple : ∀ {text c k}, text ≠ "" → classes[k]? = some c → c.name = .str text →
    (∀ other ∈ classes.take k, other.name ≠ .str text) → (∀ other ∈ classes, other.fullName ≠ .str text) →
    index.resolve (.str text) = .ok (some (c, k))
  /-- Where nobody goes by a text, it means what its part after the last point means. -/
  otherwise : ∀ {text}, (∀ c ∈ classes, c.fullName ≠ .str text ∧ c.name ≠ .str text) →
    index.resolve (.str text) = index.resolve (.str (afterLastPoint text))
  nothing : ∀ {text}, (∀ c ∈ classes, c.fullName ≠ .str text ∧ c.name ≠ .str text) →
    (∀ c ∈ classes, c.fullName ≠ .str (afterLastPoint text) ∧ c.name ≠ .str (afterLastPoint text)) →
    index.resolve (.str text) = .ok none

/-- Classes whose names can be looked up are indexed, and each text refers to the first class that goes by it. -/
theorem ClassIndex.ofClasses_firstWins {classes : List SourceClass} (named : ∀ c ∈ classes, c.Named) :
    ∃ index, ofClasses classes = .ok index ∧ FirstWins classes index := by
  obtain ⟨index, indexed⟩ := enterAll_of_named [] fun c inside => named c.1 (List.fst_mem_of_mem_zipIdx inside)
  have first : ∀ {text c k}, text ≠ "" → FirstBy classes text c k → index.resolve (.str text) = .ok (some (c, k)) := by
    intro text c k nonempty first
    rw [resolve_text indexed nonempty, bearer?_text.mpr ⟨nonempty, first⟩, Option.some_or]
  refine ⟨index, indexed, first, ?_, ?_, ?_, ?_⟩
  · intro text c k nonempty stands full others
    refine ⟨fun resolved other inside simple => ?_, fun simple => ?_⟩
    · -- whoever stands before under the simple name goes by the text as well
      rw [resolve_text indexed nonempty] at resolved
      obtain ⟨i, before, rfl⟩ := List.mem_take_iff_getElem.mp inside
      have goes := SourceClass.goesBy_text.mpr ⟨nonempty, .inr simple⟩
      obtain ⟨bearer, j, borne, atMost⟩ := bearer?_of_goesBy (List.getElem?_eq_getElem (by omega)) goes
      rw [borne, Option.some_or] at resolved
      cases resolved
      omega
    · exact first nonempty ⟨stands, .inl full, fun other inside => ⟨others other inside, simple other inside⟩⟩
  · intro text c k nonempty stands simple others full
    exact first nonempty ⟨stands, .inr simple, fun other inside =>
      ⟨full other (List.mem_of_mem_take inside), others other inside⟩⟩
  · intro text nobody
    by_cases empty : text = ""
    · subst empty
      rfl
    rw [resolve_text indexed empty, bearer?_text_none.mpr (.inr nobody), Option.none_or]
    by_cases nothing : afterLastPoint text = ""
    · rw [nothing, bearer?_text_none.mpr (.inl rfl)]
      rfl
    · rw [resolve_text indexed nothing, afterLastPoint_idem, Option.or_self]
  · intro text nobody nobody'
    by_cases empty : text = ""
    · subst empty
      rfl
    · rw [resolve_text indexed empty, bearer?_text_none.mpr (.inr nobody), bearer?_text_none.mpr (.inr nobody')]
      rfl

/-- A class of a package, and after it the one of the default package whose full name is the simple name of both. -/
def twinOrders : List SourceClass :=
  [⟨.str "Order", .str "com.shop.Order", .str "com.shop", .str "", .str "CLASS", .null, .null, false, false, [], 1, 9⟩,
    ⟨.str "Order", .str "Order", .str "", .str "", .str "CLASS", .null, .null, false, false, [], 1, 9⟩]

theorem twinOrders_named : ∀ c ∈ twinOrders, c.Named := by
  intro c inside
  simp only [twinOrders, List.mem_cons, List.not_mem_nil, or_false] at inside
  rcases inside with rfl | rfl <;> exact ⟨fun _ => rfl, fun _ => rfl⟩

theorem twinOrders_firstWins : (∀ c ∈ twinOrders, c.Named) ∧
    ∃ index, ClassIndex.ofClasses twinOrders = .ok index ∧ index.FirstWins twinOrders :=
  ⟨twinOrders_named, ClassIndex.ofClasses_firstWins twinOrders_named⟩

/-- Full names do not come before simple names. -/
theorem ClassIndex.fullName_passed_over : ¬∀ (classes : List SourceClass) (index : ClassIndex) (text : String)
    (c : SourceClass) (k : Nat), (∀ c ∈ classes, c.Named) → ofClasses classes = .ok index → text ≠ "" →
    classes[k]? = some c → c.fullName = .str text → (∀ other ∈ classes.take k, other.fullName ≠ .str text) →
    index.resolve (.str text) = .ok (some (c, k)) := by
  intro holds
  obtain ⟨index, indexed⟩ : ∃ index, ofClasses twinOrders = .ok index := ⟨_, rfl⟩
  have meant := holds twinOrders index "Order" twinOrders[1] 1 twinOrders_named indexed (by decide) rfl rfl
    (by simp [twinOrders])
  cases indexed
  have places : (0 : Nat) = 1 := congrArg Prod.snd (Option.some.inj (Except.ok.inj meant))
  omega

end CodeAtlas
