import CodeAtlas.Listing
import CodeAtlas.Proofs.Retrieval.Ranking
import CodeAtlas.Proofs.Settings.Usable
import CodeAtlas.Proofs.Texts

namespace CodeAtlas

section Bounds

variable {α : Type} {field : String} {bound : Value} {l : List α} {n : Int} {fault : Fault}

theorem one_le_of_counted (counted : atLeastOne field bound = .ok ()) (whole : bound.toIndex = .ok n) : 1 ≤ n := by
  have magnitude : bound.magnitude? = some (.finite n) := by
    cases bound with
    | bool b =>
      cases whole
      cases b <;> rfl
    | int =>
      cases whole
      rfl
    | _ => cases whole
  have enough := atLeastOne_eq_ok.mp counted
  rw [Value.compare_of_magnitudes magnitude rfl, Comparison.magnitudes, Magnitude.finite_lt_finite] at enough
  exact Int.not_lt.mp (of_decide_eq_false (Except.ok.inj enough))

/-- A bound that was accepted cuts a list to that many elements. -/
theorem cutTo_counted (counted : atLeastOne field bound = .ok ()) (whole : bound.toIndex = .ok n) :
    cutTo bound l = .ok (l.take n.toNat) := by
  have positive : 0 ≤ n := Int.le_trans (by decide) (one_le_of_counted counted whole)
  have taken : takeBound n l = l.take n.toNat := if_pos positive
  cases bound with
  | bool | int =>
    cases whole
    exact congrArg Except.ok taken
  | _ => cases whole

/-- One that was accepted without being whole does not cut. -/
theorem cutTo_broken (counted : atLeastOne field bound = .ok ()) (broken : bound.toIndex = .error fault) :
    cutTo bound l = .error (.mismatch .sliceBound) := by
  have enough := atLeastOne_eq_ok.mp counted
  cases bound with
  | bool | int => cases broken
  | null => cases enough
  | _ => rfl

end Bounds

section Listings

variable {ε : Type} {entities : List ε} {bound : Value}

theorem length_flatMap_pieces (texts : List String) :
    (texts.flatMap pieces).length = texts.length + (texts.flatMap String.toList).count '\n' := by
  induction texts with
  | nil => rfl
  | cons text rest ih =>
    rw [List.flatMap_cons, List.length_append, length_pieces, ih, List.length_cons, List.flatMap_cons, List.count_append]
    omega

/-- A listing of the first entities, up to a count. Each has a line of its own that starts with its name, and there are more lines
just where line feeds stand in what is shown of an entity. -/
structure Enumerates (line name : ε → String) (OneLine : ε → Prop) (count : Nat) (entities : List ε) (text : String) : Prop where
  stacked : pieces text = (entities.take count).flatMap fun entity => pieces (line entity)
  length : (pieces text).length =
    min entities.length count + ((entities.take count).flatMap fun entity => (line entity).toList).count '\n'
  length_iff : (pieces text).length = min entities.length count ↔ ∀ entity ∈ entities.take count, OneLine entity
  starts : (∀ entity ∈ entities.take count, OneLine entity) → ∀ i entity, i < count → entities[i]? = some entity →
    ∃ rest, (pieces text)[i]? = some ("- " ++ name entity ++ rest)

theorem Enumerates.of_lines {line name : ε → String} {OneLine : ε → Prop} {count : Nat} (some : entities ≠ []) (positive : 1 ≤ count)
    (leads : ∀ entity, ∃ rest, line entity = "- " ++ name entity ++ rest)
    (whole : ∀ entity, '\n' ∉ (line entity).toList ↔ OneLine entity) :
    Enumerates line name OneLine count entities ("\n".intercalate ((entities.take count).map line)) := by
  have shown : (entities.take count).map line ≠ [] := by
    cases entities with
    | nil => exact absurd rfl some
    | cons entity rest =>
      obtain ⟨more, rfl⟩ := Nat.exists_eq_add_of_le' positive
      exact List.cons_ne_nil _ _
  have stacked : pieces ("\n".intercalate ((entities.take count).map line)) = ((entities.take count).map line).flatMap pieces :=
    pieces_intercalate shown
  have length : (pieces ("\n".intercalate ((entities.take count).map line))).length =
      min entities.length count + ((entities.take count).flatMap fun entity => (line entity).toList).count '\n' := by
    rw [stacked, length_flatMap_pieces, List.length_map, List.length_take, Nat.min_comm, List.flatMap_map]
  refine ⟨by rw [stacked, List.flatMap_map], length, ?_, fun single i entity within found => ?_⟩
  · rw [length, Nat.add_eq_left, List.count_eq_zero, List.mem_flatMap, not_exists]
    exact forall_congr' fun entity => not_and.trans (imp_congr_right fun _ => whole entity)
  · have feedless : ∀ text ∈ (entities.take count).map line, '\n' ∉ text.toList := by
      intro text inside
      obtain ⟨entity, listed, rfl⟩ := List.mem_map.mp inside
      exact (whole entity).mpr (single entity listed)
    obtain ⟨rest, led⟩ := leads entity
    refine ⟨rest, ?_⟩
    rw [pieces_lines shown feedless, List.getElem?_map, List.getElem?_take_of_lt within, found, ← led]
    rfl

/-- What a bound does to a listing: a whole number bounds the entities, anything else is a fault. -/
structure Bounded (text : List ε → Except Fault String) (bound : Value) (line name : ε → String) (OneLine : ε → Prop) : Prop where
  enumerates : ∀ n entities, bound.toIndex = .ok n → entities ≠ [] →
    ∃ listed, text entities = .ok listed ∧ Enumerates line name OneLine n.toNat entities listed
  broken : ∀ fault entities, bound.toIndex = .error fault → entities ≠ [] → text entities = .error (.mismatch .sliceBound)

theorem listing_bounded {field : String} {line name : ε → String} {OneLine : ε → Prop} (counted : atLeastOne field bound = .ok ())
    (leads : ∀ entity, ∃ rest, line entity = "- " ++ name entity ++ rest)
    (whole : ∀ entity, '\n' ∉ (line entity).toList ↔ OneLine entity) (none : String) :
    Bounded (listing line none bound) bound line name OneLine where
  enumerates n entities index some := by
    have positive : 1 ≤ n.toNat := by
      have positive := one_le_of_counted counted index
      omega
    refine ⟨_, ?_, .of_lines some positive leads whole⟩
    rw [listing, if_neg (mt List.isEmpty_iff.mp some), cutTo_counted counted index]
    rfl
  broken fault entities broken some := by
    rw [listing, if_neg (mt List.isEmpty_iff.mp some), cutTo_broken counted broken]
    rfl

end Listings

/-- What is shown of a class is on one line. -/
def ClassEntity.OneLine (c : ClassEntity) : Prop :=
  '\n' ∉ c.name.display.toList ∧ '\n' ∉ c.packageName.display.toList ∧ '\n' ∉ (c.description.orElse noDescription).display.toList

def MethodEntity.OneLine (m : MethodEntity) : Prop :=
  '\n' ∉ m.name.display.toList ∧ '\n' ∉ m.signature.display.toList ∧ '\n' ∉ (m.description.orElse noDescription).display.toList

theorem ClassEntity.oneLine_iff (c : ClassEntity) : '\n' ∉ c.line.toList ↔ c.OneLine := by
  simp only [ClassEntity.line, String.toList_append, List.mem_append, not_or]
  constructor
  · rintro ⟨⟨⟨⟨⟨⟨⟨-, name⟩, -⟩, package⟩, -⟩, -⟩, -⟩, description⟩
    exact ⟨name, package, description⟩
  · rintro ⟨name, package, description⟩
    exact ⟨⟨⟨⟨⟨⟨⟨by decide, name⟩, by decide⟩, package⟩, by decide⟩, name⟩, by decide⟩, description⟩

theorem MethodEntity.oneLine_iff (m : MethodEntity) : '\n' ∉ m.line.toList ↔ m.OneLine := by
  simp only [MethodEntity.line, String.toList_append, List.mem_append, not_or]
  constructor
  · rintro ⟨⟨⟨⟨⟨-, name⟩, -⟩, signature⟩, -⟩, description⟩
    exact ⟨name, signature, description⟩
  · rintro ⟨name, signature, description⟩
    exact ⟨⟨⟨⟨⟨by decide, name⟩, by decide⟩, signature⟩, by decide⟩, description⟩

theorem ClassEntity.line_leads (c : ClassEntity) : ∃ rest, c.line = "- " ++ c.name.display ++ rest := by
  simp only [ClassEntity.line, String.append_assoc]
  exact ⟨_, rfl⟩

theorem MethodEntity.line_leads (m : MethodEntity) : ∃ rest, m.line = "- " ++ m.name.display ++ rest := by
  simp only [MethodEntity.line, String.append_assoc]
  exact ⟨_, rfl⟩

/-- With settings that are accepted, each listing shows as many entities as its bound allows, each in lines of its own. That is one
line for each of them just when no line feed stands in what is shown. -/
theorem FunnelSettings.listings_bounded {s : FunnelSettings} (accepted : s.check = .ok ()) :
    Bounded (listClasses s) s.maxListedClasses ClassEntity.line (·.name.display) ClassEntity.OneLine ∧
      Bounded (listMethods s) s.maxListedMethods MethodEntity.line (·.name.display) MethodEntity.OneLine := by
  obtain ⟨_, _, rest⟩ := exists_of_bind_ok accepted
  obtain ⟨_, _, rest⟩ := exists_of_bind_ok rest
  obtain ⟨_, _, rest⟩ := exists_of_bind_ok rest
  obtain ⟨_, classes, rest⟩ := exists_of_bind_ok rest
  obtain ⟨_, methods, _⟩ := exists_of_bind_ok rest
  exact ⟨listing_bounded classes ClassEntity.line_leads ClassEntity.oneLine_iff _,
    listing_bounded methods MethodEntity.line_leads MethodEntity.oneLine_iff _⟩

def FunnelSettings.small : FunnelSettings := ⟨.bool true, .int 0, .int 1, .int 1, .int 2, .int 2, .int 1⟩

/-- What is said of this class takes two lines. -/
def ClassEntity.folded : ClassEntity :=
  { (default : ClassEntity) with name := .str "Order", packageName := .str "shop", description := .str "Adds up.\nNever sold." }

def MethodEntity.plain : MethodEntity := { (default : MethodEntity) with name := .str "total", signature := .str "shop.Order.total()" }

/-- Two lines are taken by one class, and one by a method of which nothing is said. -/
theorem FunnelSettings.listings_bounded_folded :
    (∃ listed, listClasses small [.folded] = .ok listed ∧ (pieces listed).length = 2) ∧
      ∃ listed, listMethods small [.plain] = .ok listed ∧ (pieces listed).length = 1 := by
  have accepted : small.check = .ok () := rfl
  obtain ⟨classes, methods⟩ := listings_bounded accepted
  obtain ⟨listed, shown, counts⟩ := classes.enumerates 2 [.folded] rfl (List.cons_ne_nil _ _)
  obtain ⟨listed', shown', counts'⟩ := methods.enumerates 2 [.plain] rfl (List.cons_ne_nil _ _)
  exact ⟨⟨listed, shown, counts.length.trans (by decide +kernel)⟩, listed', shown', counts'.length.trans (by decide +kernel)⟩

end CodeAtlas
