import CodeAtlas.Decimal.Ratio
import CodeAtlas.Entity

namespace CodeAtlas

/-- Scores can be ranked when each one compares with the one before it. -/
def checkScores : List Match → Except Fault Unit
  | a :: b :: rest => do
    let _ ← Value.compare .below b.score a.score
    checkScores (b :: rest)
  | _ => .ok ()

/-- Whether a match may stand before another: its score is not below the other one's. -/
def Match.notBelow (a b : Match) : Bool :=
  match Value.compare .below a.score b.score with
  | .ok less => !less
  | .error _ => true

/-- Matches with the highest scores first; equal scores keep their order. -/
def rank (hits : List Match) : Except Fault (List Match) := do
  checkScores hits
  return hits.mergeSort Match.notBelow

/-- The best matches, as many as the cap says; a negative cap keeps none. -/
def rankAndCap (hits : List Match) (cap : Value) : Except Fault (List Match) := do
  let ranked ← rank hits
  let bound := if ← Value.compare .above (.int 0) cap then .int 0 else cap
  cutTo bound ranked

theorem rank_perm {hits ranked : List Match} (ranks : rank hits = .ok ranked) :
    ranked.Perm hits := by
  unfold rank at ranks
  cases scores : checkScores hits with
  | error fault => simp [scores, bind, Except.bind] at ranks
  | ok =>
    simp only [scores, bind, Except.bind, pure, Except.pure, Except.ok.injEq] at ranks
    exact ranks ▸ List.mergeSort_perm ..

/-- Matches of classes and matches of methods, each in their order. -/
def partitionByKind (hits : List Match) : List Match × List Match :=
  (hits.filter (·.kind == .classes), hits.filter (·.kind == .methods))

/-- The members of a population under their names; the first one with a name holds it. -/
def nameIndex {ε : Type} (nameOf : ε → Except Fault Value) :
    List ε → List (Value × ε) → Except Fault (List (Value × ε))
  | [], index => .ok index
  | member :: rest, index => do
    let name ← (← nameOf member).asKey
    if index.any (·.1.same name) then nameIndex nameOf rest index
    else nameIndex nameOf rest (index ++ [(name, member)])

/-- Looks up the matches one after the other: each member once, in the order of its first match, and
how many matches name no member. -/
def resolveFrom {ε : Type} (index : List (Value × ε)) :
    List Nat → List Match → Except Fault (List ε × Nat)
  | _, [] => .ok ([], 0)
  | seen, candidate :: rest => do
    let name ← candidate.name.asKey
    match index.zipIdx.find? (·.1.1.same name) with
    | none =>
      let (found, missing) ← resolveFrom index seen rest
      return (found, missing + 1)
    | some ((_, member), place) =>
      if seen.contains place then resolveFrom index seen rest
      else
        let (found, missing) ← resolveFrom index (place :: seen) rest
        return (member :: found, missing)

/-- The members of a population that the matches name, and the number of matches that name none. -/
def resolve {ε : Type} (nameOf : ε → Except Fault Value) (hits : List Match) (population : List ε) :
    Except Fault (List ε × Nat) := do
  let index ← nameIndex nameOf population []
  resolveFrom index [] hits

/-- By how many percent a population shrinks, rounded with halves upward; zero for an empty one. -/
def reduction (total kept : Int) : Float :=
  if total ≤ 0 then 0.0
  else (100.0 * (1.0 - ratio kept total) + 0.5).floor

/-- The same for totals that may be out of proportion: the result has to be finite. -/
def finiteReduction (total kept : Int) : Except Fault Float :=
  let x := reduction total kept
  match Binary.ofFloat x with
  | .finite .. => .ok x
  | _ => .error .overflow

end CodeAtlas
