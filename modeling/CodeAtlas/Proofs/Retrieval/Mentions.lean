import CodeAtlas.Proofs.Retrieval.Resolve

namespace CodeAtlas

/-- Matches, each with whether one before it has its name. -/
def mentions (earlier : List Match) : List Match → List (Match × Bool)
  | [] => []
  | m :: rest => (m, earlier.any fun other => other.name.same m.name) :: mentions (earlier ++ [m]) rest

/-- The matches that are the first with their name. -/
def firstMentions (hits : List Match) : List Match :=
  ((mentions [] hits).filter (!·.2)).map (·.1)

/-- The matches that repeat the name of one before them. -/
def repeatedMentions (hits : List Match) : List Match :=
  ((mentions [] hits).filter (·.2)).map (·.1)

theorem mentions_fst (earlier hits : List Match) : (mentions earlier hits).map (·.1) = hits := by
  induction hits generalizing earlier with
  | nil => rfl
  | cons m rest ih => rw [mentions, List.map_cons, ih]

theorem mentions_append (earlier hits later : List Match) :
    mentions earlier (hits ++ later) = mentions earlier hits ++ mentions (earlier ++ hits) later := by
  induction hits generalizing earlier with
  | nil => simp [mentions]
  | cons m rest ih => simp [mentions, ih, List.append_assoc]

/-- What comes later does not change who was the first. -/
theorem firstMentions_append (hits later : List Match) : firstMentions hits <+: firstMentions (hits ++ later) := by
  rw [firstMentions, firstMentions, mentions_append, List.filter_append, List.map_append]
  exact List.prefix_append ..

/-- Of the matches that are wanted, each is the first with its name or repeats it. -/
theorem mentions_split (wanted : Match → Bool) (hits : List Match) :
    (repeatedMentions hits).countP wanted + (firstMentions hits).countP wanted = hits.countP wanted := by
  have all := congrArg (List.countP wanted) (mentions_fst [] hits)
  rw [← all, firstMentions, repeatedMentions, List.countP_map, List.countP_map, List.countP_map]
  exact (List.countP_eq_countP_filter_add ..).symm

variable {ε : Type} {nameOf : ε → Value}

/-- The places that are seen are those of the names that earlier matches have. -/
def Marked (index : List (Value × ε)) (seen : List Nat) (earlier : List Match) : Prop :=
  ∀ place entry, index[place]? = some entry → (place ∈ seen ↔ ∃ m ∈ earlier, entry.1.same m.name)

section

variable {index : List (Value × ε)} {seen : List Nat} {earlier : List Match} {m : Match} {entry : Value × ε} {place : Nat}

/-- One more match marks the place that it names. -/
theorem Marked.next (marked : Marked index seen earlier) {seen' : List Nat}
    (sees : ∀ place entry, index[place]? = some entry → (place ∈ seen' ↔ place ∈ seen ∨ entry.1.same m.name)) :
    Marked index seen' (earlier ++ [m]) := by
  intro place entry stands
  rw [sees place entry stands, marked place entry stands]
  constructor
  · rintro (⟨other, inside, same⟩ | same)
    · exact ⟨other, List.mem_append_left _ inside, same⟩
    · exact ⟨m, List.mem_append_right _ (List.mem_singleton_self m), same⟩
  · rintro ⟨other, inside, same⟩
    rcases List.mem_append.mp inside with old | new
    · exact Or.inl ⟨other, old, same⟩
    · obtain rfl := List.mem_singleton.mp new
      exact Or.inr same

/-- The place that a match names is seen just when an earlier match has its name. -/
theorem Marked.again (marked : Marked index seen earlier) (indexed : Indexed nameOf index) (key : m.name.isKey)
    (stands : index[place]? = some entry) (named : entry.1.same m.name) :
    seen.contains place = earlier.any fun other => other.name.same m.name := by
  have key' := (indexed.named entry (List.mem_of_getElem? stands)).2
  rw [Bool.eq_iff_iff, List.contains_iff_mem, marked place entry stands, List.any_eq_true]
  refine exists_congr fun other => and_congr_right fun _ => ?_
  constructor
  · intro same
    rw [Value.same_comm key'] at same
    exact Value.same_trans key' same named
  · intro same
    rw [← Value.same_comm key] at same
    exact Value.same_trans key named same

/-- A name that can be a key stands at one place and no other. -/
theorem Indexed.names_one (indexed : Indexed nameOf index) (key : m.name.isKey) (stands : index[place]? = some entry)
    (named : entry.1.same m.name) (place' : Nat) (entry' : Value × ε) (stands' : index[place']? = some entry') :
    entry'.1.same m.name ↔ place' = place := by
  constructor
  · intro same
    have back : m.name.same entry.1 := by rwa [Value.same_comm key]
    exact indexed.place_unique stands' stands (Value.same_trans key same back)
  · rintro rfl
    cases stands.symm.trans stands'
    exact named

end

/-- Looking matches up finds what their first mentions name, in that order. -/
theorem resolveFrom_mentions {index : List (Value × ε)} (indexed : Indexed nameOf index) {hits earlier : List Match}
    {seen : List Nat} (marked : Marked index seen earlier) {found : List ε} {missing : Nat}
    (done : resolveFrom index seen hits = .ok (found, missing)) :
    found = ((mentions earlier hits).filter (!·.2)).filterMap fun pair =>
      (index.find? (·.1.same pair.1.name)).map (·.2) := by
  induction hits generalizing seen earlier found missing with
  | nil =>
    cases done
    rfl
  | cons m rest ih =>
    obtain ⟨key, looks⟩ := resolveFrom_cons done
    rw [mentions, List.filter_cons]
    cases looks with
    | nobody absent looked =>
      have unnamed : ∀ (place : Nat) (entry : Value × ε), index[place]? = some entry → ¬ entry.1.same m.name := by
        intro place entry stands same
        rw [(indexed.sought_iff key).mpr ⟨stands, same⟩] at absent
        cases absent
      have nowhere : index.find? (·.1.same m.name) = none := by
        refine List.find?_eq_none.mpr fun entry inside => ?_
        obtain ⟨place, stands⟩ := List.mem_iff_getElem?.mp inside
        exact unnamed place entry stands
      have marked' : Marked index seen (earlier ++ [m]) :=
        marked.next fun place entry stands => by simp [unnamed place entry stands]
      rw [ih marked' looked]
      split
      · rw [List.filterMap_cons_none (by rw [nowhere]; rfl)]
      · rfl
    | again present old looked =>
      obtain ⟨stands, named⟩ := (indexed.sought_iff key).mp present
      have here := indexed.names_one key stands named
      have marked' : Marked index seen (earlier ++ [m]) := marked.next fun place' entry stands' => by
        rw [here place' entry stands']
        exact ⟨Or.inl, fun either => either.elim id (· ▸ old)⟩
      rw [ih marked' looked, ← marked.again indexed key stands named, List.contains_iff_mem.mpr old]
      rfl
    | new present unseen looked =>
      obtain ⟨stands, named⟩ := (indexed.sought_iff key).mp present
      have here := indexed.names_one key stands named
      have there := (indexed.find_iff key).mpr ⟨List.mem_of_getElem? stands, named⟩
      have marked' : Marked index (_ :: seen) (earlier ++ [m]) := marked.next fun place' entry stands' => by
        rw [here place' entry stands', List.mem_cons, or_comm]
      rw [ih marked' looked, ← marked.again indexed key stands named, Bool.eq_false_iff.mpr (mt List.contains_iff_mem.mp unseen),
        Bool.not_false, if_pos rfl, List.filterMap_cons_some (by rw [there]; rfl)]

/-- What matches are resolved to: for each first mention in turn the first member with that name, nobody
twice, and how many matches name nobody. Every match is one that found a member, one that repeats a
mention of a member, or one that names nobody. -/
structure InOrder (nameOf : ε → Value) (hits : List Match) (population found : List ε) (missing : Nat) : Prop where
  ordered : found = (firstMentions hits).filterMap fun m => population.find? fun e => (nameOf e).same m.name
  apart : found.Pairwise fun e other => (nameOf e).same (nameOf other) = false
  once : found.Nodup
  unnamed : missing = hits.countP fun m => !population.any fun e => (nameOf e).same m.name
  total : found.length + missing +
    ((repeatedMentions hits).countP fun m => population.any fun e => (nameOf e).same m.name) = hits.length

theorem resolve_ordered {population found : List ε} {hits : List Match} {missing : Nat}
    (done : resolve (fun e => .ok (nameOf e)) hits population = .ok (found, missing)) :
    found = (firstMentions hits).filterMap fun m => population.find? fun e => (nameOf e).same m.name := by
  obtain ⟨_, index, indexed, looked, finds⟩ := index_of_resolve done
  have nothing : Marked index [] [] := fun place entry _ => by simp
  rw [resolveFrom_mentions indexed nothing looked, firstMentions, List.filterMap_map]
  refine congrArg (List.filterMap · _) (funext fun pair => ?_)
  rw [finds pair.1.name, Option.map_map]
  exact Option.map_id' ..

theorem inOrder_of_resolve {population found : List ε} {hits : List Match} {missing : Nat}
    (done : resolve (fun e => .ok (nameOf e)) hits population = .ok (found, missing)) :
    InOrder nameOf hits population found missing := by
  have resolves := resolves_of_resolve done
  have ordered := resolve_ordered done
  have unnamed := resolve_counts done
  refine ⟨ordered, resolves.apart, resolves.nodup, unnamed, ?_⟩
  have named : found.length = (firstMentions hits).countP fun m => population.any fun e => (nameOf e).same m.name := by
    rw [ordered, List.length_filterMap_eq_countP]
    exact List.countP_congr fun m _ => by rw [List.isSome_find?]
  have parts := mentions_split (fun m => population.any fun e => (nameOf e).same m.name) hits
  have all := List.length_eq_countP_add_countP (fun m : Match => population.any fun e => (nameOf e).same m.name) (l := hits)
  simp only [Bool.not_eq_true, Bool.decide_eq_false] at all
  omega

/-- Matches are resolved just when all names can be keys, and then in the order of their first mentions;
when more matches follow, the members of the earlier ones still come first. -/
theorem resolve_in_order (nameOf : ε → Value) (hits : List Match) (population : List ε) :
    ((∃ result, resolve (fun e => .ok (nameOf e)) hits population = .ok result) ↔
      (∀ e ∈ population, (nameOf e).isKey) ∧ ∀ m ∈ hits, m.name.isKey) ∧
    ∀ found missing, resolve (fun e => .ok (nameOf e)) hits population = .ok (found, missing) →
      InOrder nameOf hits population found missing ∧
      ∀ later found' missing', resolve (fun e => .ok (nameOf e)) (hits ++ later) population = .ok (found', missing') →
        found <+: found' := by
  refine ⟨⟨?_, ?_⟩, fun found missing done => ⟨inOrder_of_resolve done, fun later found' missing' more => ?_⟩⟩
  · rintro ⟨⟨found, missing⟩, done⟩
    exact ⟨(index_of_resolve done).1, (resolves_of_resolve done).keys⟩
  · rintro ⟨members, keys⟩
    obtain ⟨found, missing, done, _⟩ := resolve_finds members keys
    exact ⟨_, done⟩
  · rw [resolve_ordered done, resolve_ordered more]
    exact (firstMentions_append hits later).filterMap _

/-- One name is asked for twice, one is borne twice, and one is unknown. -/
theorem resolve_in_order_overlapping :
    let nameOf := fun e : String × Nat => Value.str e.1
    let hits := ["Payment", "Ghost", "Order", "Payment"].map fun name => Match.bare (.str name) (.int 1) .classes
    let population := [("Order", 1), ("Payment", 2), ("Order", 3)]
    resolve (fun e => .ok (nameOf e)) hits population = .ok ([("Payment", 2), ("Order", 1)], 1) ∧
      InOrder nameOf hits population [("Payment", 2), ("Order", 1)] 1 := by
  intro nameOf hits population
  have done : resolve (fun e => .ok (nameOf e)) hits population = .ok ([("Payment", 2), ("Order", 1)], 1) := by rfl
  exact ⟨done, ((resolve_in_order nameOf hits population).2 _ _ done).1⟩

end CodeAtlas
