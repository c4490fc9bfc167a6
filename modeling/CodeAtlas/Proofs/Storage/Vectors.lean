import CodeAtlas.Proofs.Keys
import CodeAtlas.Vectorize
import Mathlib.Data.List.Induction
import Mathlib.Data.List.Infix

namespace CodeAtlas

/-- What a vector server keeps: the names of its collections with the sizes of their vectors, in the order in which they were
created, and the points of a collection by their identifiers. -/
@[ext]
structure VectorStore where
  collections : List (Value × Value)
  points : Value → String → Option Point

namespace VectorStore

/-- Whether there is a collection of a name. -/
def lists (s : VectorStore) (name : Value) : Bool := s.collections.any (·.1.same name)

/-- A new collection has no points. -/
def create (name size : Value) (s : VectorStore) : VectorStore where
  collections := s.collections ++ [(name, size)]
  points c id := if name.same c then none else s.points c id

/-- A point takes the place of the one with its identifier. -/
def put (name : Value) (point : Point) (s : VectorStore) : VectorStore :=
  { s with points := fun c id => if name.same c ∧ id = point.id then some point else s.points c id }

/-- What an attempt to index does, in one step: it sees to it that there is a collection, or writes a point. -/
inductive Write where
  | ensure (name size : Value)
  | put (name : Value) (point : Point)

def write (s : VectorStore) : Write → VectorStore
  | .ensure name size => if s.lists name then s else s.create name size
  | .put name point => s.put name point

def writeAll (s : VectorStore) (writes : List Write) : VectorStore := writes.foldl write s

namespace Write

/-- The point that a write gives to a collection under an identifier. -/
def given (c : Value) (id : String) : Write → Option Point
  | .put name point => if name.same c ∧ id = point.id then some point else none
  | .ensure .. => none

/-- A write that sees to it that there is a collection whose name is a text. -/
def Ensures (w : Write) : Prop := ∃ name size, w = .ensure name size ∧ name.IsText

def Puts (w : Write) : Prop := ∃ name point, w = .put name point

end Write

/-- The point that the last write about it gives to a collection under an identifier. -/
def lastGiven (writes : List Write) (c : Value) (id : String) : Option Point := writes.reverse.findSome? (·.given c id)

variable {s : VectorStore} {writes ensures puts made : List Write} {w : Write} {name : Value}

@[simp] theorem writeAll_nil (s : VectorStore) : s.writeAll [] = s := rfl

theorem writeAll_append (s : VectorStore) (first second : List Write) :
    s.writeAll (first ++ second) = (s.writeAll first).writeAll second := List.foldl_append

theorem write_lists (listed : s.lists name = true) (w : Write) : (s.write w).lists name = true := by
  cases w with
  | ensure other size =>
    rw [write]
    split
    · exact listed
    · exact List.any_append.trans (Bool.or_eq_true_iff.mpr (.inl listed))
  | put => exact listed

theorem writeAll_lists (listed : s.lists name = true) (writes : List Write) : (s.writeAll writes).lists name = true := by
  induction writes generalizing s with
  | nil => exact listed
  | cons w rest ih => exact ih (write_lists listed w)

/-- Once it was seen to, there is a collection. -/
theorem lists_of_ensure {size : Value} (inside : .ensure name size ∈ writes) (text : name.IsText) :
    (s.writeAll writes).lists name = true := by
  induction writes generalizing s with
  | nil => cases inside
  | cons w rest ih =>
    rcases List.mem_cons.mp inside with rfl | later
    · refine writeAll_lists ?_ rest
      rw [write]
      split
      next listed => exact listed
      next => simp [lists, create, (text.same_iff text).mpr rfl]
    · exact ih later

/-- Nothing is to be done for collections that are there. -/
theorem writeAll_listed (listed : ∀ w ∈ ensures, ∃ name size, w = .ensure name size ∧ s.lists name = true) :
    s.writeAll ensures = s := by
  induction ensures with
  | nil => rfl
  | cons w rest ih =>
    obtain ⟨name, size, rfl, there⟩ := listed w (List.mem_cons_self ..)
    have same : s.write (.ensure name size) = s := by rw [write, if_pos there]
    show (s.write (.ensure name size)).writeAll rest = s
    rw [same]
    exact ih fun w inside => listed w (List.mem_cons_of_mem _ inside)

/-- What was seen to before need not be seen to again. -/
theorem writeAll_ensured (ensured : ∀ w ∈ made, w.Ensures) (before : ∀ w ∈ made, w ∈ writes) :
    (s.writeAll writes).writeAll made = s.writeAll writes := by
  refine writeAll_listed fun w inside => ?_
  obtain ⟨name, size, rfl, text⟩ := ensured w inside
  exact ⟨name, size, rfl, lists_of_ensure (before _ inside) text⟩

theorem writeAll_snoc (s : VectorStore) (writes : List Write) (w : Write) :
    s.writeAll (writes ++ [w]) = (s.writeAll writes).write w := by
  rw [writeAll_append]
  rfl

theorem collections_puts (only : ∀ w ∈ puts, w.Puts) : (s.writeAll puts).collections = s.collections := by
  induction puts using List.reverseRecOn with
  | nil => rfl
  | append_singleton writes w ih =>
    obtain ⟨name, point, rfl⟩ := only w (by simp)
    rw [writeAll_snoc]
    exact ih fun w inside => only w (by simp [inside])

/-- Of several points with one identifier the last one stays. -/
theorem points_puts (only : ∀ w ∈ puts, w.Puts) (c : Value) (id : String) :
    (s.writeAll puts).points c id = (lastGiven puts c id).or (s.points c id) := by
  induction puts using List.reverseRecOn with
  | nil => rfl
  | append_singleton writes w ih =>
    obtain ⟨name, point, rfl⟩ := only w (by simp)
    have before := ih fun w inside => only w (by simp [inside])
    rw [writeAll_snoc, lastGiven, List.reverse_append, List.reverse_singleton, List.singleton_append, List.findSome?_cons]
    simp only [write, put, Write.given, before, lastGiven]
    split <;> rfl

/-- Whatever is given by some of the writes is given by all of them. -/
theorem lastGiven_isSome {c : Value} {id : String} (some_of : ∀ w ∈ made, w ∈ writes) (given : (lastGiven made c id).isSome = true) :
    (lastGiven writes c id).isSome = true := by
  simp only [lastGiven, List.findSome?_isSome_iff, List.mem_reverse] at given ⊢
  obtain ⟨w, inside, gives⟩ := given
  exact ⟨w, some_of w inside, gives⟩

/-- Points that are all written anew leave nothing of what was written before. -/
theorem writeAll_overwritten (only : ∀ w ∈ puts, w.Puts) (some_of : ∀ w ∈ made, w ∈ puts) :
    (s.writeAll made).writeAll puts = s.writeAll puts := by
  have only' : ∀ w ∈ made, w.Puts := fun w inside => only w (some_of w inside)
  refine VectorStore.ext ?_ (funext fun c => funext fun id => ?_)
  · rw [collections_puts only, collections_puts only', collections_puts only]
  · rw [points_puts only, points_puts only', points_puts only]
    cases last : lastGiven puts c id with
    | some => rfl
    | none =>
      cases before : lastGiven made c id with
      | none => rfl
      | some point =>
        have given := lastGiven_isSome some_of (by rw [before]; rfl)
        rw [last] at given
        cases given

/-- What was begun can be done from the start, and comes to the same. -/
theorem writeAll_resumed (ensured : ∀ w ∈ ensures, w.Ensures) (only : ∀ w ∈ puts, w.Puts) (begun : made <+: ensures ++ puts) :
    (s.writeAll made).writeAll (ensures ++ puts) = s.writeAll (ensures ++ puts) := by
  rcases List.prefix_or_prefix_of_prefix begun (List.prefix_append ensures puts) with within | ⟨first, rfl⟩
  · -- stopped before the last collection was seen to
    obtain ⟨rest, rfl⟩ := within
    have again := writeAll_ensured (s := s) (fun w inside => ensured w (List.mem_append_left _ inside)) fun w (inside : w ∈ made) => inside
    simp only [writeAll_append, again]
  · -- stopped between two points
    have begun := (List.prefix_append_right_inj ensures).mp begun
    have again := writeAll_ensured (s := s) ensured fun w inside => List.mem_append_left first inside
    rw [writeAll_append s ensures puts, ← writeAll_overwritten (s := s.writeAll ensures) only fun w => begun.subset (a := w),
      writeAll_append _ ensures puts, again, ← writeAll_append s ensures first]

/-- Doing a part again leaves the same collections and the same identifiers. -/
theorem writeAll_again (ensured : ∀ w ∈ ensures, w.Ensures) (only : ∀ w ∈ puts, w.Puts) (begun : made <+: ensures ++ puts) :
    ((s.writeAll (ensures ++ puts)).writeAll made).collections = (s.writeAll (ensures ++ puts)).collections ∧
      ∀ c id, (((s.writeAll (ensures ++ puts)).writeAll made).points c id).isSome = ((s.writeAll (ensures ++ puts)).points c id).isSome := by
  rcases List.prefix_or_prefix_of_prefix begun (List.prefix_append ensures puts) with within | ⟨first, rfl⟩
  · rw [writeAll_ensured (fun w inside => ensured w (within.subset inside)) fun w inside => List.mem_append_left _ (within.subset inside)]
    exact ⟨rfl, fun _ _ => rfl⟩
  · have begun := (List.prefix_append_right_inj ensures).mp begun
    have only' : ∀ w ∈ first, w.Puts := fun w inside => only w (begun.subset inside)
    rw [writeAll_append _ ensures first, writeAll_ensured ensured fun w inside => List.mem_append_left _ inside]
    refine ⟨collections_puts only', fun c id => ?_⟩
    rw [points_puts only', writeAll_append s, points_puts only]
    cases given : lastGiven first c id with
    | none => rfl
    | some point =>
      have later := lastGiven_isSome (fun w => begun.subset (a := w)) (by rw [given]; rfl : (lastGiven first c id).isSome = true)
      obtain ⟨point', given'⟩ := Option.isSome_iff_exists.mp later
      rw [given']
      rfl

end VectorStore

end CodeAtlas
