import CodeAtlas.Proofs.Keys
import CodeAtlas.Ranking

namespace CodeAtlas

variable {ε : Type} {nameOf : ε → Value}

/-- Members under their names, no name twice. -/
structure Indexed (nameOf : ε → Value) (index : List (Value × ε)) : Prop where
  named : ∀ entry ∈ index, entry.1 = nameOf entry.2 ∧ entry.1.isKey
  distinct : index.Pairwise fun entry other => entry.1.same other.1 = false

namespace Indexed

variable {index : List (Value × ε)}

theorem empty : Indexed nameOf [] := ⟨by simp, .nil⟩

/-- A member joins an index under a name that is not in it. -/
theorem snoc (indexed : Indexed nameOf index) {member : ε} (key : (nameOf member).isKey)
    (free : ∀ entry ∈ index, entry.1.same (nameOf member) = false) :
    Indexed nameOf (index ++ [(nameOf member, member)]) := by
  constructor
  · intro entry inside
    rcases List.mem_append.mp inside with old | new
    · exact indexed.named entry old
    · obtain rfl := List.mem_singleton.mp new
      exact ⟨rfl, key⟩
  · refine List.pairwise_append.mpr ⟨indexed.distinct, List.pairwise_singleton .., fun entry old other new => ?_⟩
    obtain rfl := List.mem_singleton.mp new
    exact free entry old

/-- A name stands at one place of an index. -/
theorem place_unique (indexed : Indexed nameOf index) {i j : Nat} {entry other : Value × ε}
    (at_i : index[i]? = some entry) (at_j : index[j]? = some other) (same : entry.1.same other.1) : i = j := by
  have apart : ∀ {i j : Nat} {entry other : Value × ε}, index[i]? = some entry → index[j]? = some other → i < j →
      entry.1.same other.1 = false := by
    intro i j entry other at_i at_j before
    obtain ⟨within, rfl⟩ := List.getElem?_eq_some_iff.mp at_i
    obtain ⟨within', rfl⟩ := List.getElem?_eq_some_iff.mp at_j
    exact List.pairwise_iff_getElem.mp indexed.distinct i j within within' before
  have key := (indexed.named entry (List.mem_of_getElem? at_i)).2
  rcases Nat.lt_trichotomy i j with before | here | after
  · exact absurd same (Bool.eq_false_iff.mp (apart at_i at_j before))
  · exact here
  · rw [Value.same_comm key] at same
    exact absurd same (Bool.eq_false_iff.mp (apart at_j at_i after))

/-- What is looked up by a name is the entry at the place of that name. -/
theorem sought_iff (indexed : Indexed nameOf index) {name : Value} (key : name.isKey) {entry : Value × ε}
    {i : Nat} :
    index.zipIdx.find? (·.1.1.same name) = some (entry, i) ↔ index[i]? = some entry ∧ entry.1.same name := by
  constructor
  · intro sought
    exact ⟨List.mem_zipIdx_iff_getElem?.mp (List.mem_of_find?_eq_some sought),
      List.find?_some (p := fun x : (Value × ε) × Nat => x.1.1.same name) sought⟩
  · rintro ⟨stands, same⟩
    cases sought : index.zipIdx.find? (·.1.1.same name) with
    | none =>
      have absent := List.find?_eq_none.mp sought (entry, i) (List.mem_zipIdx_iff_getElem?.mpr stands)
      exact absurd same absent
    | some hit =>
      obtain ⟨other, j⟩ := hit
      have stands' : index[j]? = some other := List.mem_zipIdx_iff_getElem?.mp (List.mem_of_find?_eq_some sought)
      have same' : other.1.same name = true :=
        List.find?_some (p := fun x : (Value × ε) × Nat => x.1.1.same name) sought
      rw [← Value.same_comm key] at same
      obtain rfl := indexed.place_unique stands' stands (Value.same_trans key same' same)
      rw [stands] at stands'
      cases stands'
      rfl

theorem find_iff (indexed : Indexed nameOf index) {name : Value} (key : name.isKey) {entry : Value × ε} :
    index.find? (·.1.same name) = some entry ↔ entry ∈ index ∧ entry.1.same name := by
  have places : index.find? (·.1.same name) = (index.zipIdx.find? (·.1.1.same name)).map (·.1) := by
    have mapped := List.find?_map (p := fun entry : Value × ε => entry.1.same name) (f := Prod.fst) (l := index.zipIdx)
    rwa [List.zipIdx_map_fst] at mapped
  rw [places, Option.map_eq_some_iff]
  constructor
  · rintro ⟨⟨_, i⟩, sought, rfl⟩
    obtain ⟨stands, same⟩ := (indexed.sought_iff key).mp sought
    exact ⟨List.mem_of_getElem? stands, same⟩
  · rintro ⟨inside, same⟩
    obtain ⟨i, stands⟩ := List.mem_iff_getElem?.mp inside
    exact ⟨(entry, i), (indexed.sought_iff key).mpr ⟨stands, same⟩, rfl⟩

end Indexed

/-- Indexing finds under each name what stood there before, or else the first member with that name. -/
theorem nameIndex_finds {population : List ε} {index : List (Value × ε)} (indexed : Indexed nameOf index)
    (keys : ∀ e ∈ population, (nameOf e).isKey) :
    ∃ full, nameIndex (fun e => .ok (nameOf e)) population index = .ok full ∧ Indexed nameOf full ∧
      ∀ name : Value, full.find? (·.1.same name) = (index.find? (·.1.same name)).or
        ((population.find? fun e => (nameOf e).same name).map fun e => (nameOf e, e)) := by
  induction population generalizing index with
  | nil => exact ⟨index, rfl, indexed, fun name => by simp⟩
  | cons member rest ih =>
    have key := keys member (List.mem_cons_self ..)
    have others := fun e inside => keys e (List.mem_cons_of_mem _ inside)
    simp only [nameIndex, bind, Except.bind, Value.asKey_of_isKey key]
    by_cases held : index.any (·.1.same (nameOf member)) = true
    · rw [if_pos held]
      obtain ⟨full, made, indexed', finds⟩ := ih indexed others
      refine ⟨full, made, indexed', fun name => ?_⟩
      rw [finds name, List.find?_cons]
      by_cases same : (nameOf member).same name = true
      · -- the name is held, so what is found in the index comes first
        obtain ⟨holder, inside, same'⟩ := List.any_eq_true.mp held
        have holds : ∃ entry ∈ index, entry.1.same name := ⟨holder, inside, Value.same_trans key same' same⟩
        obtain ⟨entry, found⟩ := Option.isSome_iff_exists.mp (List.find?_isSome.mpr holds)
        rw [found, Option.some_or, Option.some_or]
      · simp only [same]
    · rw [if_neg held]
      have free : ∀ entry ∈ index, entry.1.same (nameOf member) = false := fun entry inside =>
        Bool.eq_false_iff.mpr fun same => held (List.any_eq_true.mpr ⟨entry, inside, same⟩)
      obtain ⟨full, made, indexed', finds⟩ := ih (indexed.snoc key free) others
      refine ⟨full, made, indexed', fun name => ?_⟩
      rw [finds name, List.find?_append, List.find?_cons, List.find?_nil, List.find?_cons, Option.or_assoc]
      cases (nameOf member).same name <;> rfl

/-- A member stands at a place that is not yet seen, under the name of some match. -/
def Wanted (nameOf : ε → Value) (index : List (Value × ε)) (seen : List Nat) (hits : List Match) (e : ε) : Prop :=
  ∃ i, i ∉ seen ∧ index[i]? = some (nameOf e, e) ∧ ∃ m ∈ hits, (nameOf e).same m.name

section

variable {index : List (Value × ε)} {seen : List Nat} {candidate : Match} {rest : List Match} {place : Nat}
  {member e : ε}

/-- A match that names nothing new is of no account. -/
theorem wanted_passed
    (nothing : ∀ i, index[i]? = some (nameOf e, e) → (nameOf e).same candidate.name → i ∈ seen) :
    Wanted nameOf index seen rest e ↔ Wanted nameOf index seen (candidate :: rest) e := by
  constructor
  · rintro ⟨i, unseen, at_i, m, inside, same⟩
    exact ⟨i, unseen, at_i, m, List.mem_cons_of_mem _ inside, same⟩
  · rintro ⟨i, unseen, at_i, m, inside, same⟩
    rcases List.mem_cons.mp inside with rfl | later
    · exact absurd (nothing i at_i same) unseen
    · exact ⟨i, unseen, at_i, m, later, same⟩

/-- A match that names something new: its place is seen from then on. -/
theorem wanted_found (indexed : Indexed nameOf index) (stands : index[place]? = some (nameOf member, member))
    (key : candidate.name.isKey) (named : (nameOf member).same candidate.name) (unseen : place ∉ seen) :
    e = member ∨ Wanted nameOf index (place :: seen) rest e ↔ Wanted nameOf index seen (candidate :: rest) e := by
  constructor
  · rintro (rfl | ⟨i, new, at_i, m, inside, same⟩)
    · exact ⟨place, unseen, stands, candidate, List.mem_cons_self .., named⟩
    · exact ⟨i, fun old => new (List.mem_cons_of_mem _ old), at_i, m, List.mem_cons_of_mem _ inside, same⟩
  · rintro ⟨i, new, at_i, m, inside, same⟩
    by_cases here : i = place
    · subst here
      rw [stands] at at_i
      exact Or.inl (Prod.mk.inj (Option.some.inj at_i)).2.symm
    · rcases List.mem_cons.mp inside with rfl | later
      · rw [← Value.same_comm key] at named
        exact absurd (indexed.place_unique at_i stands (Value.same_trans key same named)) here
      · exact Or.inr ⟨i, List.not_mem_cons_of_ne_of_not_mem here new, at_i, m, later, same⟩

/-- Whatever is still wanted has a name of its own, other than the one at a place that is seen. -/
theorem Wanted.other_name (indexed : Indexed nameOf index)
    (stands : index[place]? = some (nameOf member, member)) (old : place ∈ seen)
    (wanted : Wanted nameOf index seen rest e) : (nameOf member).same (nameOf e) = false := by
  obtain ⟨i, unseen, at_i, _⟩ := wanted
  refine Bool.eq_false_iff.mpr fun same => unseen ?_
  obtain rfl := indexed.place_unique stands at_i same
  exact old

end

/-- Looking up matches finds, once each, the members that are wanted. -/
theorem resolveFrom_finds {index : List (Value × ε)} (indexed : Indexed nameOf index) {hits : List Match}
    (keys : ∀ m ∈ hits, m.name.isKey) (seen : List Nat) :
    ∃ found missing, resolveFrom index seen hits = .ok (found, missing) ∧
      found.Pairwise (fun e other => (nameOf e).same (nameOf other) = false) ∧
      ∀ e, e ∈ found ↔ Wanted nameOf index seen hits e := by
  induction hits generalizing seen with
  | nil => exact ⟨[], 0, rfl, .nil, by simp [Wanted]⟩
  | cons candidate rest ih =>
    have key := keys candidate (List.mem_cons_self ..)
    have others := fun m inside => keys m (List.mem_cons_of_mem _ inside)
    simp only [resolveFrom, bind, Except.bind, Value.asKey_of_isKey key]
    cases sought : index.zipIdx.find? (·.1.1.same candidate.name) with
    | none =>
      obtain ⟨found, missing, done, apart, finds⟩ := ih others seen
      refine ⟨found, missing + 1, by simp only [done]; rfl, apart, fun e => ?_⟩
      refine (finds e).trans (wanted_passed fun i at_i same => ?_)
      rw [(indexed.sought_iff key).mpr ⟨at_i, same⟩] at sought
      cases sought
    | some hit =>
      obtain ⟨⟨name, member⟩, place⟩ := hit
      obtain ⟨stands, named⟩ := (indexed.sought_iff key).mp sought
      obtain rfl : name = nameOf member := (indexed.named _ (List.mem_of_getElem? stands)).1
      simp only
      by_cases again : seen.contains place = true
      · rw [if_pos again]
        obtain ⟨found, missing, done, apart, finds⟩ := ih others seen
        refine ⟨found, missing, done, apart, fun e => ?_⟩
        refine (finds e).trans (wanted_passed fun i at_i same => ?_)
        rw [← Value.same_comm key] at same
        obtain rfl := indexed.place_unique stands at_i (Value.same_trans key named same)
        exact List.contains_iff_mem.mp again
      · rw [if_neg again]
        have unseen : place ∉ seen := fun inside => again (List.contains_iff_mem.mpr inside)
        obtain ⟨found, missing, done, apart, finds⟩ := ih others (place :: seen)
        refine ⟨member :: found, missing, by simp only [done]; rfl, ?_, fun e => ?_⟩
        · refine List.pairwise_cons.mpr ⟨fun e inside => ?_, apart⟩
          exact ((finds e).mp inside).other_name indexed stands (List.mem_cons_self ..)
        · rw [List.mem_cons, finds e]
          exact wanted_found indexed stands key named unseen

/-- Members of a population that matches name: the first one under a name, no name twice. -/
structure Resolves (nameOf : ε → Value) (hits : List Match) (population found : List ε) : Prop where
  apart : found.Pairwise fun e other => (nameOf e).same (nameOf other) = false
  finds : ∀ e, e ∈ found ↔ ∃ m ∈ hits, (population.find? fun e => (nameOf e).same m.name) = some e
  keys : ∀ m ∈ hits, m.name.isKey

/-- Matches resolve to the members that they name when all names can be keys. -/
theorem resolve_finds {population : List ε} {hits : List Match} (members : ∀ e ∈ population, (nameOf e).isKey)
    (keys : ∀ m ∈ hits, m.name.isKey) :
    ∃ found missing, resolve (fun e => .ok (nameOf e)) hits population = .ok (found, missing) ∧
      Resolves nameOf hits population found := by
  obtain ⟨index, made, indexed, first⟩ := nameIndex_finds Indexed.empty members
  obtain ⟨found, missing, done, apart, finds⟩ := resolveFrom_finds indexed keys []
  refine ⟨found, missing, by simp only [resolve, made, done, bind, Except.bind], apart, fun e => ?_, keys⟩
  have holds : ∀ m ∈ hits, (population.find? fun e => (nameOf e).same m.name) = some e ↔
      (nameOf e, e) ∈ index ∧ (nameOf e).same m.name := by
    intro m inside
    have entered : index.find? (·.1.same m.name) = some (nameOf e, e) ↔ _ := indexed.find_iff (keys m inside)
    rw [first m.name, List.find?_nil, Option.none_or, Option.map_eq_some_iff] at entered
    rw [← entered]
    constructor
    · exact fun found => ⟨e, found, rfl⟩
    · rintro ⟨other, found, same⟩
      rwa [← (Prod.mk.inj same).2]
  rw [finds e]
  constructor
  · rintro ⟨i, _, at_i, m, inside, same⟩
    exact ⟨m, inside, (holds m inside).mpr ⟨List.mem_of_getElem? at_i, same⟩⟩
  · rintro ⟨m, inside, named⟩
    obtain ⟨entered, same⟩ := (holds m inside).mp named
    obtain ⟨i, at_i⟩ := List.mem_iff_getElem?.mp entered
    exact ⟨i, List.not_mem_nil, at_i, m, inside, same⟩

theorem nameIndex_keys {population : List ε} {index full : List (Value × ε)}
    (made : nameIndex (fun e => .ok (nameOf e)) population index = .ok full) :
    ∀ e ∈ population, (nameOf e).isKey := by
  induction population generalizing index with
  | nil => simp
  | cons member rest ih =>
    simp only [nameIndex, bind, Except.bind] at made
    cases name : (nameOf member).asKey with
    | error fault => simp [name] at made
    | ok name' =>
      simp only [name] at made
      have later : ∀ e ∈ rest, (nameOf e).isKey := by
        split at made
        · exact ih made
        · exact ih made
      exact List.forall_mem_cons.mpr ⟨(Value.asKey_eq_ok.mp name).1, later⟩

/-- What becomes of one match, and what the rest comes to: it names nobody, or a member at a place that was seen before, or
one at a new place. -/
inductive LooksUp (index : List (Value × ε)) (seen : List Nat) (m : Match) (rest : List Match) : List ε → Nat → Prop
  | nobody {found missing} : index.zipIdx.find? (·.1.1.same m.name) = none → resolveFrom index seen rest = .ok (found, missing) →
      LooksUp index seen m rest found (missing + 1)
  | again {entry place found missing} : index.zipIdx.find? (·.1.1.same m.name) = some (entry, place) → place ∈ seen →
      resolveFrom index seen rest = .ok (found, missing) → LooksUp index seen m rest found missing
  | new {entry place found missing} : index.zipIdx.find? (·.1.1.same m.name) = some (entry, place) → place ∉ seen →
      resolveFrom index (place :: seen) rest = .ok (found, missing) → LooksUp index seen m rest (entry.2 :: found) missing

theorem resolveFrom_cons {index : List (Value × ε)} {m : Match} {rest : List Match} {seen : List Nat} {found : List ε} {missing : Nat}
    (done : resolveFrom index seen (m :: rest) = .ok (found, missing)) : m.name.isKey ∧ LooksUp index seen m rest found missing := by
  obtain ⟨name, named, done⟩ := exists_of_bind_ok done
  obtain ⟨key, rfl⟩ := Value.asKey_eq_ok.mp named
  refine ⟨key, ?_⟩
  split at done
  next absent =>
    obtain ⟨⟨members, others⟩, looked, done⟩ := exists_of_bind_ok done
    cases done
    exact .nobody absent looked
  next present =>
    split at done
    next old => exact .again present (List.contains_iff_mem.mp old) done
    next unseen =>
      obtain ⟨⟨members, others⟩, looked, done⟩ := exists_of_bind_ok done
      cases done
      exact .new present (fun inside => unseen (List.contains_iff_mem.mpr inside)) looked

theorem resolveFrom_keys {index : List (Value × ε)} {hits : List Match} {seen : List Nat} {found : List ε} {missing : Nat}
    (done : resolveFrom index seen hits = .ok (found, missing)) : ∀ m ∈ hits, m.name.isKey := by
  induction hits generalizing seen found missing with
  | nil => simp
  | cons candidate rest ih =>
    obtain ⟨key, looks⟩ := resolveFrom_cons done
    refine List.forall_mem_cons.mpr ⟨key, ?_⟩
    cases looks with
    | nobody _ looked | again _ _ looked | new _ _ looked => exact ih looked

/-- Whatever is resolved is looked up in an index that holds the first member under each name. -/
theorem index_of_resolve {population : List ε} {hits : List Match} {result : List ε × Nat}
    (done : resolve (fun e => .ok (nameOf e)) hits population = .ok result) :
    (∀ e ∈ population, (nameOf e).isKey) ∧ ∃ index, Indexed nameOf index ∧ resolveFrom index [] hits = .ok result ∧
      ∀ name : Value, index.find? (·.1.same name) = (population.find? fun e => (nameOf e).same name).map fun e => (nameOf e, e) := by
  obtain ⟨index, made, looked⟩ := exists_of_bind_ok done
  have keys := nameIndex_keys made
  obtain ⟨full, made', indexed, finds⟩ := nameIndex_finds Indexed.empty keys
  cases made.symm.trans made'
  exact ⟨keys, index, indexed, looked, fun name => (finds name).trans (Option.none_or ..)⟩

/-- Whatever is resolved is resolved to the members that are named. -/
theorem resolves_of_resolve {population found : List ε} {hits : List Match} {missing : Nat}
    (done : resolve (fun e => .ok (nameOf e)) hits population = .ok (found, missing)) :
    Resolves nameOf hits population found := by
  obtain ⟨members, index, _, looked, _⟩ := index_of_resolve done
  obtain ⟨found', missing', done', resolves⟩ := resolve_finds members (resolveFrom_keys looked)
  cases done.symm.trans done'
  exact resolves

/-- A match that is counted as missing has a name that is not in the index. -/
theorem resolveFrom_counts {index : List (Value × ε)} {hits : List Match} {seen : List Nat} {found : List ε} {missing : Nat}
    (done : resolveFrom index seen hits = .ok (found, missing)) :
    missing = hits.countP fun m => !index.any (·.1.same m.name) := by
  induction hits generalizing seen found missing with
  | nil =>
    cases done
    rfl
  | cons candidate rest ih =>
    have stands : index.any (·.1.same candidate.name) = (index.zipIdx.find? (·.1.1.same candidate.name)).isSome := by
      have mapped := congrArg (List.any · fun entry : Value × ε => entry.1.same candidate.name) (List.zipIdx_map_fst 0 index)
      rw [List.isSome_find?, ← mapped, List.any_map]
      rfl
    rw [List.countP_cons, stands]
    cases (resolveFrom_cons done).2 with
    | nobody absent looked =>
      rw [ih looked, absent]
      rfl
    | again present _ looked | new present _ looked =>
      rw [ih looked, present]
      rfl

/-- The matches that are counted as missing are those that name no member. -/
theorem resolve_counts {population found : List ε} {hits : List Match} {missing : Nat}
    (done : resolve (fun e => .ok (nameOf e)) hits population = .ok (found, missing)) :
    missing = hits.countP fun m => !population.any fun e => (nameOf e).same m.name := by
  obtain ⟨_, index, _, looked, finds⟩ := index_of_resolve done
  have stands : ∀ name : Value, index.any (·.1.same name) = population.any fun e => (nameOf e).same name := by
    intro name
    have same := congrArg Option.isSome (finds name)
    rw [Option.isSome_map] at same
    rwa [List.isSome_find?, List.isSome_find?] at same
  rw [resolveFrom_counts looked]
  exact List.countP_congr fun m _ => by rw [stands]

/-- Matches that all name a member are all resolved. -/
theorem resolve_named {population : List ε} {hits : List Match} (members : ∀ e ∈ population, (nameOf e).isKey)
    (named : ∀ m ∈ hits, m.name.isKey ∧ ∃ e ∈ population, (nameOf e).same m.name) :
    ∃ found, resolve (fun e => .ok (nameOf e)) hits population = .ok (found, 0) := by
  obtain ⟨found, missing, done, _⟩ := resolve_finds members fun m inside => (named m inside).1
  have counts := resolve_counts done
  have none : (hits.countP fun m => !population.any fun e => (nameOf e).same m.name) = 0 := by
    refine List.countP_eq_zero.mpr fun m inside => ?_
    obtain ⟨e, there, same⟩ := (named m inside).2
    simpa using ⟨e, there, same⟩
  exact ⟨found, by rw [done, counts, none]⟩

namespace Resolves

variable {hits : List Match} {population found : List ε}

/-- A member that is found is the first one with its own name. -/
theorem first (resolves : Resolves nameOf hits population found) {e : ε} (inside : e ∈ found) :
    (population.find? fun other => (nameOf other).same (nameOf e)) = some e := by
  obtain ⟨m, hit, found⟩ := (resolves.finds e).mp inside
  have same : (nameOf e).same m.name := List.find?_some (p := fun e => (nameOf e).same m.name) found
  simpa only [Value.same_congr (resolves.keys m hit) same] using found

theorem nodup (resolves : Resolves nameOf hits population found) : found.Nodup := by
  refine resolves.apart.imp_of_mem fun {e other} inside _ apart => ?_
  rintro rfl
  obtain ⟨m, hit, found⟩ := (resolves.finds e).mp inside
  have same : (nameOf e).same m.name := List.find?_some (p := fun e => (nameOf e).same m.name) found
  exact Bool.eq_false_iff.mp apart (Value.same_self (resolves.keys m hit) same)

end Resolves

end CodeAtlas
