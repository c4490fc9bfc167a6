import CodeAtlas.Graph.Build
import CodeAtlas.Proofs.Graph.Leaves

namespace CodeAtlas

/-- What may be left out of a description is a text or null. -/
def Value.IsReference (v : Value) : Prop := v.IsText ∨ v = .null

structure SourceClass.Textual (c : SourceClass) : Prop where
  name : c.name.IsText
  fullName : c.fullName.IsText
  kind : c.kind.IsText
  superclass : c.superclass.IsReference

structure SourceMethod.Textual (m : SourceMethod) : Prop where
  signature : m.signature.IsText
  className : m.className.IsText
  arguments : ∀ a ∈ m.arguments, a.IsText
  callees : ∀ v ∈ m.callees, v.IsText

structure SourceEndpoint.Textual (e : SourceEndpoint) : Prop where
  verb : e.verb.IsText
  controller : e.controller.IsText

/-- The fields of a snapshot that a build computes with are texts. -/
structure Snapshot.Textual (s : Snapshot) : Prop where
  classes : ∀ c ∈ s.classes, c.Textual
  methods : ∀ m ∈ s.methods, m.Textual
  endpoints : ∀ e ∈ s.endpoints, e.Textual

theorem Value.IsText.orElse {v other : Value} (text : v.IsText) (text' : other.IsText) : (v.orElse other).IsText := by
  unfold Value.orElse
  split <;> assumption

theorem Value.IsText.text {v : Value} (text : v.IsText) (member : String) : ∃ s, v.text member = .ok s := by
  obtain ⟨s, rfl⟩ := text
  exact ⟨s, rfl⟩

theorem SourceClass.Textual.id {c : SourceClass} (textual : c.Textual) : c.id.IsText :=
  textual.fullName.orElse textual.name

theorem SourceMethod.Textual.id {m : SourceMethod} (textual : m.Textual) : m.id.IsText :=
  textual.signature.orElse ⟨_, rfl⟩

/-- The nodes that a snapshot speaks of, by their labels and identities. -/
inductive Snapshot.Knows (s : Snapshot) : String → Value → Prop
  | ofClass {c : SourceClass} : c ∈ s.classes → Knows s "Class" c.id
  | ofMethod {m : SourceMethod} : m ∈ s.methods → Knows s "Method" m.id
  | ofEndpoint {e : SourceEndpoint} {id : String} : e ∈ s.endpoints → endpointId e = .ok id → Knows s "Endpoint" (.str id)

theorem Snapshot.Knows.isText {s : Snapshot} (textual : s.Textual) {label : String} {id : Value} (knows : s.Knows label id) :
    id.IsText := by
  cases knows with
  | ofClass inside => exact (textual.classes _ inside).id
  | ofMethod inside => exact (textual.methods _ inside).id
  | ofEndpoint => exact ⟨_, rfl⟩

/-- Whatever can be made of each element can be made of all of them. -/
theorem mapM_ok {α β : Type} {f : α → Except Fault β} {Q : α → β → Prop} {l : List α}
    (each : ∀ a ∈ l, ∃ b, f a = .ok b ∧ Q a b) : ∃ made, l.mapM f = .ok made ∧ ∀ b ∈ made, ∃ a ∈ l, Q a b := by
  induction l with
  | nil => exact ⟨[], rfl, by simp⟩
  | cons a rest ih =>
    obtain ⟨b, first, holds⟩ := each a (by simp)
    obtain ⟨made, others, from_rest⟩ := ih fun a' inside => each a' (by simp [inside])
    refine ⟨b :: made, by simp only [List.mapM_cons, first, others]; rfl, fun b' inside => ?_⟩
    rcases List.mem_cons.mp inside with rfl | later
    · exact ⟨a, by simp, holds⟩
    · obtain ⟨a', inside', holds'⟩ := from_rest b' later
      exact ⟨a', by simp [inside'], holds'⟩

/-- What holds of each row that may be made holds of all that are. -/
theorem mapM_rows_ok {α : Type} {f : α → Except Fault (Option Value)} {P : Value → Prop} {l : List α}
    (each : ∀ a ∈ l, ∃ row, f a = .ok row ∧ ∀ r, row = some r → P r) :
    ∃ rows, l.mapM f = .ok rows ∧ ∀ r ∈ rows.filterMap id, P r := by
  obtain ⟨rows, done, from_each⟩ := mapM_ok (Q := fun _ row => ∀ r, row = some r → P r) each
  refine ⟨rows, done, fun r inside => ?_⟩
  obtain ⟨row, made, present⟩ := List.mem_filterMap.mp inside
  obtain ⟨_, _, holds⟩ := from_each row made
  exact holds r present

namespace ClassIndex

theorem enter_ok (index : ClassIndex) {key : Value} (text : key.IsText) (c : SourceClass × Nat) :
    ∃ entered, index.enter key c = .ok entered ∧ ∀ entry ∈ entered, entry ∈ index ∨ entry.2 = c := by
  have same : ∀ entry ∈ index, entry ∈ index ∨ entry.2 = c := fun _ => Or.inl
  simp only [enter, text.asKey, bind, Except.bind]
  split
  · exact ⟨index, rfl, same⟩
  · split
    · exact ⟨index, rfl, same⟩
    · refine ⟨index ++ [(key, c)], rfl, fun entry inside => ?_⟩
      rcases List.mem_append.mp inside with old | new
      · exact Or.inl old
      · rw [List.mem_singleton.mp new]
        exact Or.inr rfl

theorem enterAll_ok (index : ClassIndex) {classes : List (SourceClass × Nat)} (textual : ∀ c ∈ classes, c.1.Textual) :
    ∃ entered, index.enterAll classes = .ok entered ∧ ∀ entry ∈ entered, entry ∈ index ∨ entry.2 ∈ classes := by
  induction classes generalizing index with
  | nil => exact ⟨index, rfl, fun _ => Or.inl⟩
  | cons c rest ih =>
    have own := textual c (by simp)
    obtain ⟨first, doneFirst, fromFirst⟩ := index.enter_ok own.fullName c
    obtain ⟨second, doneSecond, fromSecond⟩ := enter_ok first own.name c
    obtain ⟨entered, done, fromRest⟩ := ih second fun c' inside => textual c' (by simp [inside])
    refine ⟨entered, by simp only [enterAll, doneFirst, doneSecond, done, bind, Except.bind], fun entry inside => ?_⟩
    rcases fromRest entry inside with old | new
    · rcases fromSecond entry old with old | rfl
      · rcases fromFirst entry old with old | rfl
        · exact Or.inl old
        · exact Or.inr (by simp)
      · exact Or.inr (by simp)
    · exact Or.inr (by simp [new])

/-- The classes of a snapshot can be indexed, and the index holds no others. -/
theorem ofClasses_ok {classes : List SourceClass} (textual : ∀ c ∈ classes, c.Textual) :
    ∃ index, ofClasses classes = .ok index ∧ ∀ entry ∈ index, entry.2.1 ∈ classes := by
  have member : ∀ c ∈ classes.zipIdx, c.1 ∈ classes := fun c inside =>
    List.mem_of_getElem? (List.mem_zipIdx_iff_getElem?.mp inside)
  obtain ⟨index, done, fromAll⟩ := enterAll_ok [] fun c inside => textual c.1 (member c inside)
  refine ⟨index, done, fun entry inside => ?_⟩
  exact member entry.2 ((fromAll entry inside).resolve_left List.not_mem_nil)

theorem find?_mem {index : ClassIndex} {key : Value} {c : SourceClass × Nat} (found : index.find? key = some c) :
    ∃ entry ∈ index, entry.2 = c := by
  obtain ⟨entry, sought, rfl⟩ := Option.map_eq_some_iff.mp found
  exact ⟨entry, List.mem_of_find?_eq_some sought, rfl⟩

/-- A reference can be looked up, and what it means is in the index. -/
theorem resolveClass_ok (index : ClassIndex) {reference : Value} (isReference : reference.IsReference) :
    ∃ meant, index.resolveClass reference = .ok meant ∧ ∀ c, meant = some c → ∃ entry ∈ index, entry.2.1 = c := by
  have resolves : ∃ meant, index.resolve reference = .ok meant ∧ ∀ c, meant = some c → ∃ entry ∈ index, entry.2 = c := by
    rcases isReference with ⟨s, rfl⟩ | rfl
    · simp only [resolve, Value.asKey, Value.isKey, Value.text, bind, Except.bind]
      split
      · exact ⟨none, rfl, by simp⟩
      · simp only [if_true]
        split
        next c found => exact ⟨some c, rfl, fun _ same => by cases same; exact find?_mem found⟩
        next => exact ⟨_, rfl, fun c found => find?_mem found⟩
    · exact ⟨none, rfl, by simp⟩
  obtain ⟨meant, done, inside⟩ := resolves
  refine ⟨meant.map (·.1), by simp only [resolveClass, done, bind, Except.bind]; rfl, fun c same => ?_⟩
  obtain ⟨pair, rfl, rfl⟩ := Option.map_eq_some_iff.mp same
  obtain ⟨entry, member, rfl⟩ := inside pair rfl
  exact ⟨entry, member, rfl⟩

end ClassIndex

section Rows

variable {s : Snapshot} {index : ClassIndex}

theorem classRow_ok {c : SourceClass} (textual : c.Textual) : ∃ row, classRow c = .ok row ∧ row.field "id" = c.id := by
  obtain ⟨kind, read⟩ := (textual.kind.orElse ⟨"CLASS", rfl⟩).text "upper"
  exact ⟨_, by simp only [classRow, read, bind, Except.bind]; rfl, rfl⟩

theorem joined_ok (separator : String) {items : List Value} (texts : ∀ v ∈ items, v.IsText) :
    ∃ text, Value.joined separator items = .ok text := by
  have parts : ∀ position, ∃ strings, Value.joined.go position items = .ok strings := by
    induction items with
    | nil => exact fun _ => ⟨[], rfl⟩
    | cons first rest ih =>
      intro position
      obtain ⟨t, rfl⟩ := texts first (by simp)
      obtain ⟨strings, done⟩ := ih (fun v inside => texts v (by simp [inside])) (position + 1)
      exact ⟨t :: strings, by simp only [Value.joined.go, done]; rfl⟩
  obtain ⟨strings, done⟩ := parts 0
  exact ⟨_, by simp only [Value.joined, done]; rfl⟩

theorem SourceMethod.Textual.shownSignature {m : SourceMethod} (textual : m.Textual) :
    ∃ v, m.shownSignature = .ok v := by
  unfold SourceMethod.shownSignature
  split
  · exact ⟨_, rfl⟩
  · obtain ⟨text, done⟩ := joined_ok ", " textual.arguments
    exact ⟨_, by rw [done]; rfl⟩

theorem methodRow_ok (index : ClassIndex) {m : SourceMethod} (textual : m.Textual) :
    ∃ row, methodRow index m = .ok row ∧ row.field "id" = m.id := by
  obtain ⟨owner, found, _⟩ := index.resolveClass_ok (Or.inl textual.className)
  obtain ⟨signature, shown⟩ := textual.shownSignature
  exact ⟨_, by simp only [methodRow, found, shown, bind, Except.bind]; rfl, rfl⟩

theorem endpointId_ok {e : SourceEndpoint} (textual : e.Textual) : ∃ id, endpointId e = .ok id := by
  obtain ⟨verb, read⟩ := textual.verb.text "upper"
  exact ⟨_, by simp only [endpointId, read, bind, Except.bind]; rfl⟩

theorem endpointRow_ok {e : SourceEndpoint} (textual : e.Textual) :
    ∃ row, endpointRow e = .ok row ∧ ∃ id, endpointId e = .ok id ∧ row.field "id" = .str id := by
  obtain ⟨id, identified⟩ := endpointId_ok textual
  obtain ⟨verb, read⟩ := textual.verb.text "upper"
  exact ⟨_, by simp only [endpointRow, identified, read, bind, Except.bind]; rfl, id, identified, rfl⟩

/-- A row of an edge between two nodes that the snapshot speaks of. -/
def Snapshot.Links (s : Snapshot) (sourceLabel targetLabel : String) (row : Value) : Prop :=
  ∃ source target, row = edgeRow source target ∧ s.Knows sourceLabel source ∧ s.Knows targetLabel target

theorem containsRow?_ok (within : ∀ entry ∈ index, entry.2.1 ∈ s.classes) {m : SourceMethod} (textual : m.Textual)
    (inside : m ∈ s.methods) :
    ∃ row, containsRow? index m = .ok row ∧ ∀ r, row = some r → s.Links "Class" "Method" r := by
  obtain ⟨owner, found, known⟩ := index.resolveClass_ok (Or.inl textual.className)
  refine ⟨_, by simp only [containsRow?, found, bind, Except.bind]; rfl, fun r same => ?_⟩
  obtain ⟨c, rfl, rfl⟩ := Option.map_eq_some_iff.mp same
  obtain ⟨entry, member, rfl⟩ := known c rfl
  exact ⟨_, _, rfl, .ofClass (within entry member), .ofMethod inside⟩

theorem extendsRow?_ok (within : ∀ entry ∈ index, entry.2.1 ∈ s.classes) {c : SourceClass} (textual : c.Textual)
    (inside : c ∈ s.classes) :
    ∃ row, extendsRow? index c = .ok row ∧ ∀ r, row = some r → s.Links "Class" "Class" r := by
  obtain ⟨parent, found, known⟩ := index.resolveClass_ok textual.superclass
  simp only [extendsRow?, found, bind, Except.bind]
  cases parent with
  | none => exact ⟨none, rfl, nofun⟩
  | some c' =>
    obtain ⟨entry, member, rfl⟩ := known c' rfl
    simp only
    split
    · exact ⟨none, rfl, nofun⟩
    · refine ⟨_, rfl, fun r same => ?_⟩
      cases same
      exact ⟨_, _, rfl, .ofClass inside, .ofClass (within entry member)⟩

/-- A call between two nodes that go by texts. -/
def IsCall (call : Value × Value) : Prop := call.1.IsText ∧ call.2.IsText

theorem IsCall.same_iff {call : Value × Value} (text : IsCall call) {source target : Value}
    (text' : IsCall (source, target)) : (call.1.same source && call.2.same target) = true ↔ call = (source, target) := by
  rw [Bool.and_eq_true, text.1.same_iff text'.1, text.2.same_iff text'.2, Prod.ext_iff]

/-- What decides for each member whether it is one thing decides whether that thing is a member. -/
theorem any_iff_mem {α : Type} {test : α → Bool} {l : List α} {a : α} (decides : ∀ b ∈ l, test b = true ↔ b = a) :
    l.any test = true ↔ a ∈ l := by
  rw [List.any_eq_true]
  constructor
  · rintro ⟨b, inside, holds⟩
    exact (decides b inside).mp holds ▸ inside
  · exact fun inside => ⟨a, inside, (decides a inside).mpr rfl⟩

/-- Calls are collected from the callees that are among the identities, and none of them twice. -/
structure Collects (ids : List Value) (seen : List (Value × Value)) (called : Value × Value → Prop)
    (calls : List (Value × Value)) : Prop where
  texts : ∀ call ∈ calls, IsCall call
  once : seen.Nodup → calls.Nodup
  mem_iff : ∀ call, call ∈ calls ↔ call ∈ seen ∨ called call ∧ call.2 ∈ ids

theorem callsFrom_ok {ids : List Value} (known : ∀ id ∈ ids, id.IsText) {caller : Value} (text : caller.IsText)
    {callees : List Value} (texts : ∀ v ∈ callees, v.IsText) {seen : List (Value × Value)}
    (before : ∀ call ∈ seen, IsCall call) :
    ∃ calls, callsFrom ids caller seen callees = .ok calls ∧
      Collects ids seen (fun call => call.1 = caller ∧ call.2 ∈ callees) calls := by
  induction callees generalizing seen with
  | nil => exact ⟨seen, rfl, before, id, by simp⟩
  | cons target rest ih =>
    have own := texts target (List.mem_cons_self ..)
    have others := fun v (inside : v ∈ rest) => texts v (List.mem_cons_of_mem _ inside)
    have among : ids.any (·.same target) = true ↔ target ∈ ids := any_iff_mem fun id inside => (known id inside).same_iff own
    have found : seen.any (fun call => call.1.same caller && call.2.same target) = true ↔ (caller, target) ∈ seen :=
      any_iff_mem fun call inside => (before call inside).same_iff ⟨text, own⟩
    simp only [callsFrom, own.asKey, bind, Except.bind]
    split
    next fits =>
      rw [Bool.and_eq_true, Bool.not_eq_true', ← Bool.not_eq_true, among, found] at fits
      have longer : ∀ call ∈ seen ++ [(caller, target)], IsCall call :=
        List.forall_mem_append.mpr ⟨before, List.forall_mem_singleton.mpr ⟨text, own⟩⟩
      obtain ⟨calls, done, texts', once, mem_iff⟩ := ih others longer
      refine ⟨calls, done, texts', fun distinct => once (List.nodup_append.mpr ⟨distinct, List.pairwise_singleton .., ?_⟩),
        fun call => ?_⟩
      · rintro call inside _ new rfl
        exact fits.2 (List.mem_singleton.mp new ▸ inside)
      · rw [mem_iff, List.mem_append, List.mem_singleton, or_assoc]
        refine or_congr_right ⟨?_, ?_⟩
        · rintro (rfl | ⟨⟨source, later⟩, inside⟩)
          · exact ⟨⟨rfl, List.mem_cons_self ..⟩, fits.1⟩
          · exact ⟨⟨source, List.mem_cons_of_mem _ later⟩, inside⟩
        · rintro ⟨⟨source, called⟩, inside⟩
          rcases List.mem_cons.mp called with first | later
          · exact .inl (Prod.ext source first)
          · exact .inr ⟨⟨source, later⟩, inside⟩
    next misses =>
      rw [Bool.and_eq_true, Bool.not_eq_true', ← Bool.not_eq_true, among, found] at misses
      obtain ⟨calls, done, texts', once, mem_iff⟩ := ih others before
      refine ⟨calls, done, texts', once, fun call => ?_⟩
      rw [mem_iff]
      constructor
      · rintro (old | ⟨⟨source, later⟩, inside⟩)
        · exact .inl old
        · exact .inr ⟨⟨source, List.mem_cons_of_mem _ later⟩, inside⟩
      · rintro (old | ⟨⟨source, called⟩, inside⟩)
        · exact .inl old
        · rcases List.mem_cons.mp called with first | later
          · -- this call was found before, or it does not lead to any of the identities
            have same : call = (caller, target) := Prod.ext source first
            exact .inl (Classical.not_not.mp fun new => misses ⟨first ▸ inside, same ▸ new⟩)
          · exact .inr ⟨⟨source, later⟩, inside⟩

theorem callsOf_ok {ids : List Value} (known : ∀ id ∈ ids, id.IsText) {methods : List SourceMethod}
    (textual : ∀ m ∈ methods, m.Textual) {seen : List (Value × Value)} (before : ∀ call ∈ seen, IsCall call) :
    ∃ calls, callsOf ids seen methods = .ok calls ∧
      Collects ids seen (fun call => ∃ m ∈ methods, call.1 = m.id ∧ call.2 ∈ m.callees) calls := by
  induction methods generalizing seen with
  | nil => exact ⟨seen, rfl, before, id, by simp⟩
  | cons m rest ih =>
    have own := textual m (List.mem_cons_self ..)
    obtain ⟨first, doneFirst, textsFirst, onceFirst, mem_first⟩ := callsFrom_ok known own.id own.callees before
    obtain ⟨calls, done, texts, once, mem_iff⟩ := ih (fun m' inside => textual m' (List.mem_cons_of_mem _ inside)) textsFirst
    refine ⟨calls, by simp only [callsOf, doneFirst, done, bind, Except.bind], texts, once ∘ onceFirst, fun call => ?_⟩
    simp only [mem_iff, mem_first, List.mem_cons, exists_eq_or_imp]
    rw [or_assoc, or_and_right]

/-- The identities of the methods are looked up as they are, and the calls are between them. -/
theorem Snapshot.Textual.calls_ok (textual : s.Textual) : ∃ calls,
    (s.methods.map SourceMethod.id).mapM Value.asKey = .ok (s.methods.map SourceMethod.id) ∧
      callsOf (s.methods.map SourceMethod.id) [] s.methods = .ok calls ∧ calls.Nodup ∧
      ∀ call, call ∈ calls ↔ ∃ m ∈ s.methods, ∃ m' ∈ s.methods, m'.id ∈ m.callees ∧ call = (m.id, m'.id) := by
  have texts : ∀ id ∈ s.methods.map SourceMethod.id, id.IsText := fun id inside => by
    obtain ⟨m, member, rfl⟩ := List.mem_map.mp inside
    exact (textual.methods m member).id
  have keys : ∀ {l : List Value}, (∀ v ∈ l, v.IsText) → l.mapM Value.asKey = .ok l := fun {l} texts => by
    induction l with
    | nil => rfl
    | cons v rest ih =>
      rw [List.mapM_cons, (texts v (List.mem_cons_self ..)).asKey, ih fun v' inside => texts v' (List.mem_cons_of_mem _ inside)]
      rfl
  obtain ⟨calls, done, _, once, mem_iff⟩ := callsOf_ok texts textual.methods (List.forall_mem_nil _)
  refine ⟨calls, keys texts, done, once List.nodup_nil, fun call => ?_⟩
  rw [mem_iff, or_iff_right List.not_mem_nil]
  constructor
  · rintro ⟨⟨m, member, source, called⟩, among⟩
    obtain ⟨m', member', target⟩ := List.mem_map.mp among
    exact ⟨m, member, m', member', target ▸ called, Prod.ext source target.symm⟩
  · rintro ⟨m, member, m', member', called, rfl⟩
    exact ⟨⟨m, member, rfl, called⟩, List.mem_map_of_mem member'⟩

theorem findHandler_ok (names : List Value) (handler : Value) {methods : List SourceMethod}
    (textual : ∀ m ∈ methods, m.Textual) :
    ∃ found, findHandler names handler methods = .ok found ∧ ∀ m, found = some m → m ∈ methods := by
  induction methods with
  | nil => exact ⟨none, rfl, nofun⟩
  | cons m rest ih =>
    obtain ⟨found, done, member⟩ := ih fun m' inside => textual m' (by simp [inside])
    have later : ∀ m', found = some m' → m' ∈ m :: rest := fun m' same => by simp [member m' same]
    simp only [findHandler, (textual m (by simp)).className.asKey, bind, Except.bind]
    split
    · split
      · exact ⟨some m, rfl, fun m' same => by cases same; simp⟩
      · exact ⟨found, done, later⟩
    · exact ⟨found, done, later⟩

theorem handledByRow?_ok (textual : s.Textual) (within : ∀ entry ∈ index, entry.2.1 ∈ s.classes) {e : SourceEndpoint}
    (inside : e ∈ s.endpoints) :
    ∃ row, handledByRow? index s.methods e = .ok row ∧ ∀ r, row = some r → s.Links "Endpoint" "Method" r := by
  have own := textual.endpoints e inside
  obtain ⟨controller, found, known⟩ := index.resolveClass_ok (Or.inl own.controller)
  obtain ⟨id, identified⟩ := endpointId_ok own
  have names : ∃ names, controllerNames index e = .ok names := by
    simp only [controllerNames, found, own.controller.asKey, bind, Except.bind]
    cases controller with
    | none => exact ⟨_, rfl⟩
    | some c =>
      obtain ⟨entry, member, rfl⟩ := known c rfl
      have fields := textual.classes _ (within entry member)
      exact ⟨_, by simp only [fields.name.asKey, fields.fullName.asKey]; rfl⟩
  obtain ⟨names, named⟩ := names
  obtain ⟨handler, sought, among⟩ := findHandler_ok names e.handler textual.methods
  simp only [handledByRow?, named, sought, identified, bind, Except.bind]
  cases handler with
  | none => exact ⟨none, rfl, nofun⟩
  | some m =>
    refine ⟨_, rfl, fun r same => ?_⟩
    cases same
    exact ⟨_, _, rfl, .ofEndpoint inside identified, .ofMethod (among m rfl)⟩

end Rows

/-- What a build computes from a snapshot: the index of its classes, and the rows of each statement. -/
structure BuildRows where
  index : ClassIndex
  classes : List Value
  methods : List Value
  ids : List Value
  endpoints : List Value
  contains : List (Option Value)
  calls : List (Value × Value)
  handledBy : List (Option Value)
  inherits : List (Option Value)

namespace BuildRows

def nodePhases (r : BuildRows) : List (Statement × List Value) :=
  [(.mergeClasses, r.classes), (.mergeMethods, r.methods), (.mergeEndpoints, r.endpoints)]

def callRows (r : BuildRows) : List Value := r.calls.map fun (source, target) => edgeRow source target

def edgePhases (r : BuildRows) : List (Statement × List Value) :=
  [(.mergeContains, r.contains.filterMap id), (.mergeCalls, r.callRows),
    (.mergeHandledBy, r.handledBy.filterMap id), (.mergeExtends, r.inherits.filterMap id)]

/-- The rows are those of the snapshot. -/
structure Of (s : Snapshot) (r : BuildRows) : Prop where
  index : ClassIndex.ofClasses s.classes = .ok r.index
  classes : s.classes.mapM classRow = .ok r.classes
  methods : s.methods.mapM (methodRow r.index) = .ok r.methods
  ids : (s.methods.map SourceMethod.id).mapM Value.asKey = .ok r.ids
  endpoints : s.endpoints.mapM endpointRow = .ok r.endpoints
  contains : s.methods.mapM (containsRow? r.index) = .ok r.contains
  calls : callsOf r.ids [] s.methods = .ok r.calls
  handledBy : s.endpoints.mapM (handledByRow? r.index s.methods) = .ok r.handledBy
  inherits : s.classes.mapM (extendsRow? r.index) = .ok r.inherits

end BuildRows

def writesOf (phases : List (Statement × List Value)) : List Graph.Write := phases.flatMap fun (st, rows) => st.writes rows

def BuildRows.writes (r : BuildRows) : List Graph.Write := writesOf r.nodePhases ++ writesOf r.edgePhases

/-- A write is about nodes that the snapshot speaks of. -/
def Snapshot.Covers (s : Snapshot) (w : Graph.Write) : Prop :=
  match w.merge with
  | .node label names => "id" ∉ names ∧ s.Knows label (w.row.field "id")
  | .edge sourceLabel _ targetLabel => s.Knows sourceLabel (w.row.field "src") ∧ s.Knows targetLabel (w.row.field "dst")

/-- The rows of a snapshot speak of its classes, methods and endpoints. -/
structure BuildRows.Sound (s : Snapshot) (r : BuildRows) : Prop where
  classes : ∀ row ∈ r.classes, s.Knows "Class" (row.field "id")
  methods : ∀ row ∈ r.methods, s.Knows "Method" (row.field "id")
  endpoints : ∀ row ∈ r.endpoints, s.Knows "Endpoint" (row.field "id")
  contains : ∀ row ∈ r.contains.filterMap id, s.Links "Class" "Method" row
  calls : ∀ row ∈ r.callRows, s.Links "Method" "Method" row
  handledBy : ∀ row ∈ r.handledBy.filterMap id, s.Links "Endpoint" "Method" row
  inherits : ∀ row ∈ r.inherits.filterMap id, s.Links "Class" "Class" row

/-- Every snapshot of texts makes rows, and they speak of nothing else. -/
theorem Snapshot.Textual.rows_ok {s : Snapshot} (textual : s.Textual) : ∃ r : BuildRows, r.Of s ∧ r.Sound s := by
  obtain ⟨index, indexed, within⟩ := ClassIndex.ofClasses_ok textual.classes
  obtain ⟨classes, doneClasses, ofClasses⟩ := mapM_ok (Q := fun (c : SourceClass) (row : Value) => row.field "id" = c.id)
    fun c inside => classRow_ok (textual.classes c inside)
  obtain ⟨methods, doneMethods, ofMethods⟩ := mapM_ok (Q := fun (m : SourceMethod) (row : Value) => row.field "id" = m.id)
    fun m inside => methodRow_ok index (textual.methods m inside)
  obtain ⟨calls, doneIds, doneCalls, _, ofCalls⟩ := textual.calls_ok
  obtain ⟨endpoints, doneEndpoints, ofEndpoints⟩ := mapM_ok fun e inside => endpointRow_ok (textual.endpoints e inside)
  obtain ⟨contains, doneContains, ofContains⟩ := mapM_rows_ok fun m inside =>
    containsRow?_ok within (textual.methods m inside) inside
  obtain ⟨handledBy, doneHandled, ofHandled⟩ := mapM_rows_ok fun e inside =>
    handledByRow?_ok textual within (e := e) inside
  obtain ⟨inherits, doneInherits, ofInherits⟩ := mapM_rows_ok fun c inside =>
    extendsRow?_ok within (textual.classes c inside) inside
  refine ⟨⟨index, classes, methods, s.methods.map SourceMethod.id, endpoints, contains, calls, handledBy, inherits⟩, ?_, ?_, ?_, ?_,
    ofContains, ?_, ofHandled, ofInherits⟩
  · exact ⟨indexed, doneClasses, doneMethods, doneIds, doneEndpoints, doneContains, doneCalls, doneHandled, doneInherits⟩
  · intro row inside
    obtain ⟨c, member, same⟩ := ofClasses row inside
    exact same ▸ .ofClass member
  · intro row inside
    obtain ⟨m, member, same⟩ := ofMethods row inside
    exact same ▸ .ofMethod member
  · intro row inside
    obtain ⟨e, member, id, identified, same⟩ := ofEndpoints row inside
    exact same ▸ .ofEndpoint member identified
  · intro row inside
    obtain ⟨call, found, rfl⟩ := List.mem_map.mp inside
    obtain ⟨m, member, m', member', _, rfl⟩ := (ofCalls call).mp found
    exact ⟨_, _, rfl, .ofMethod member, .ofMethod member'⟩

theorem mem_writes {statement : Statement} {rows : List Value} {merge : Graph.Merge}
    (merges : statement.merge? = some merge) {w : Graph.Write} (inside : w ∈ statement.writes rows) :
    ∃ row ∈ rows, w = ⟨merge, row⟩ := by
  rw [Statement.writes, merges] at inside
  obtain ⟨row, member, rfl⟩ := List.mem_map.mp inside
  exact ⟨row, member, rfl⟩

theorem Snapshot.Textual.covers_node {s : Snapshot} (textual : s.Textual) {statement : Statement} {rows : List Value}
    {label : String} {names : List String} (merges : statement.merge? = some (.node label names)) (leaves : "id" ∉ names)
    (knows : ∀ row ∈ rows, s.Knows label (row.field "id")) :
    ∀ w ∈ statement.writes rows, s.Covers w ∧ w.OfNode := by
  intro w inside
  obtain ⟨row, member, rfl⟩ := mem_writes merges inside
  exact ⟨⟨leaves, knows row member⟩, label, names, rfl, leaves, (knows row member).isText textual⟩

theorem Snapshot.covers_edge {s : Snapshot} {statement : Statement} {rows : List Value}
    {sourceLabel type targetLabel : String} (merges : statement.merge? = some (.edge sourceLabel type targetLabel))
    (links : ∀ row ∈ rows, s.Links sourceLabel targetLabel row) :
    ∀ w ∈ statement.writes rows, s.Covers w ∧ w.OfEdge := by
  intro w inside
  obtain ⟨row, member, rfl⟩ := mem_writes merges inside
  obtain ⟨source, target, rfl, known, known'⟩ := links row member
  exact ⟨⟨known, known'⟩, sourceLabel, type, targetLabel, rfl⟩

/-- The nodes are written first, then the edges, and nothing that the snapshot does not speak of. -/
theorem BuildRows.Sound.writes {s : Snapshot} {r : BuildRows} (sound : r.Sound s) (textual : s.Textual) :
    (∀ w ∈ writesOf r.nodePhases, s.Covers w ∧ w.OfNode) ∧ ∀ w ∈ writesOf r.edgePhases, s.Covers w ∧ w.OfEdge := by
  constructor
  · simp only [writesOf, BuildRows.nodePhases, List.flatMap_cons, List.flatMap_nil, List.append_nil, List.mem_append]
    rintro w (inside | inside | inside)
    · exact textual.covers_node rfl (by decide) sound.classes w inside
    · exact textual.covers_node rfl (by decide) sound.methods w inside
    · exact textual.covers_node rfl (by decide) sound.endpoints w inside
  · simp only [writesOf, BuildRows.edgePhases, List.flatMap_cons, List.flatMap_nil, List.append_nil, List.mem_append]
    rintro w (inside | inside | inside | inside)
    · exact Snapshot.covers_edge rfl sound.contains w inside
    · exact Snapshot.covers_edge rfl sound.calls w inside
    · exact Snapshot.covers_edge rfl sound.handledBy w inside
    · exact Snapshot.covers_edge rfl sound.inherits w inside

end CodeAtlas
