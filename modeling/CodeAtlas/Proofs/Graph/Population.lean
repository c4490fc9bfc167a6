import CodeAtlas.Entity
import CodeAtlas.Proofs.Capitals
import CodeAtlas.Proofs.Graph.Contents
import Mathlib.Data.List.Perm.Basic

namespace CodeAtlas

open CodeAtlas.Graph

/-- A class of the population is the class of a snapshot. -/
structure SourceClass.ReadsAs (index : ClassIndex) (methods : List SourceMethod) (c : SourceClass) (e : ClassEntity) :
    Prop where
  id : e.id = c.id
  name : e.name = c.name
  fullName : e.fullName = c.fullName.orElse c.name
  packageName : e.packageName = c.packageName
  filePath : e.filePath = c.filePath
  superclass : e.superclass = c.superclass
  description : e.description = .null
  /-- The sort that the kind names in letters of any case, a plain class where it names none. -/
  sort : ∃ kind, c.kind = .str kind ∧ e.sort = (ClassSort.ofName? (capitals kind)).getD .plain
  /-- The methods that belong to the class are named, and no others. -/
  methodNames : ∃ names, e.methodNames = .list names ∧
    names.Perm ((methods.filter (index.owns c)).map SourceMethod.name)

/-- A method of the population is the method of a snapshot. What it lacks is that of its owner. -/
structure SourceMethod.ReadsAs (index : ClassIndex) (m : SourceMethod) (e : MethodEntity) : Prop where
  id : e.id = m.id
  name : e.name = m.name
  signature : m.shownSignature = .ok e.signature
  returnType : e.returnType = m.returnType
  parameterTypes : e.parameterTypes = .list m.arguments
  description : e.description = .null
  owned : ∀ owner, index.owner? m = some owner → e.className = owner.name ∧ e.packageName = owner.packageName ∧
    e.filePath = m.filePath.orElse owner.filePath
  free : index.owner? m = none → e.className = m.className ∧ e.packageName = .str "" ∧ e.filePath = m.filePath

theorem Value.getD_record_cons (key : String) (field : String × Value) (rest : List (String × Value)) (other : Value) :
    (Value.record (field :: rest)).getD key other =
      if field.1 = key then .ok field.2 else (Value.record rest).getD key other := by
  simp only [getD, record, List.map_cons, lookup]
  split <;> rfl

theorem Value.field_record_cons (key : String) (field : String × Value) (rest : List (String × Value)) :
    (Value.record (field :: rest)).field key = if field.1 = key then field.2 else (Value.record rest).field key := by
  simp only [Value.field, field?, record, List.map_cons, lookup]
  split <;> rfl

/-- The properties of a node that a row has made are the fields of the row. -/
theorem Graph.Reading.map_properties {reading : Reading} {label : String} {names : List String} {row : Value}
    (known : ∀ p ∈ reading.properties, p = "id" ∨ p ∈ names) :
    reading.properties.map (Node.ofRow label names row).properties = reading.properties.map row.field := by
  refine List.map_congr_left fun p inside => ?_
  simp only [Node.ofRow, Node.set, Node.fresh]
  split
  · rfl
  next other => rw [(known p inside).resolve_right other, if_pos rfl]

theorem Value.IsText.orElse_empty {v : Value} (text : v.IsText) : v.orElse (.str "") = v := by
  obtain ⟨t, rfl⟩ := text
  by_cases empty : t = ""
  · subst empty
    rfl
  · simp [Value.orElse, Value.truthy, empty]

theorem Value.list_orElse_nil (items : List Value) : (Value.list items).orElse (.list []) = .list items := by
  cases items <;> rfl

theorem Value.orElse_idem (v w : Value) : v.orElse (v.orElse w) = v.orElse w := by
  unfold Value.orElse
  split <;> rfl

theorem SourceClass.id_orElse_name (c : SourceClass) : c.id.orElse (c.id.orElse c.name) = c.id := by
  rw [Value.orElse_idem]
  unfold SourceClass.id Value.orElse
  split
  · rfl
  · split <;> rfl

theorem SourceMethod.id_orElse (m : SourceMethod) (other : Value) : m.id.orElse other = m.id := by
  have truthy : m.id.truthy = true := by
    unfold SourceMethod.id Value.orElse
    split
    next own => exact own
    next => simp [Value.truthy, String.append_assoc]
  rw [Value.orElse, if_pos truthy]

variable {s : Snapshot} {r : BuildRows}

theorem SourceClass.Textual.sort {c : SourceClass} (textual : c.Textual) {kind : String}
    (given : c.kind.orElse (.str "CLASS") = .str kind) :
    ∃ kind', c.kind = .str kind' ∧
      sortOfRecord (.str (capitals kind)) = .ok ((ClassSort.ofName? (capitals kind')).getD .plain) := by
  obtain ⟨kind', same⟩ := textual.kind
  refine ⟨kind', same, ?_⟩
  rw [same] at given
  by_cases empty : kind' = ""
  · subst empty
    cases given
    have plain : (ClassSort.ofName? (capitals "CLASS")).getD .plain = (ClassSort.ofName? (capitals "")).getD .plain := by
      decide +kernel
    rw [sortOfRecord_capitals (by decide), plain]
  · have truthy : (Value.str kind').truthy = true := by simpa [Value.truthy] using empty
    rw [Value.orElse, if_pos truthy] at given
    cases given
    exact sortOfRecord_capitals empty

/-- A record with the fields of a class. -/
def ClassEntity.record (e : ClassEntity) (kind : Value) : Value :=
  .record [("id", e.id), ("name", e.name), ("full_name", e.fullName), ("package_name", e.packageName),
    ("file_path", e.filePath), ("type", kind), ("super_class", e.superclass), ("method_names", e.methodNames),
    ("description", e.description)]

/-- What is read as it stands: texts, a list of names, and an identity that is not made up for. -/
structure ClassEntity.Spelled (e : ClassEntity) : Prop where
  id : e.id.orElse (e.fullName.orElse e.name) = e.id
  name : e.name.IsText
  fullName : e.fullName.IsText
  packageName : e.packageName.IsText
  filePath : e.filePath.IsText
  methodNames : ∃ names, e.methodNames = .list names

theorem ClassEntity.ofRecord_record {e : ClassEntity} (spelled : e.Spelled) {kind : Value}
    (sort : sortOfRecord kind = .ok e.sort) : ofRecord (e.record kind) = .ok e := by
  obtain ⟨names, methods⟩ := spelled.methodNames
  have given : e.methodNames.orElse (.list []) = e.methodNames := methods ▸ Value.list_orElse_nil names
  have all : e.methodNames.elements = .ok names := methods ▸ rfl
  simp [record, ofRecord, Value.given, Value.get, Value.getD_record_cons, sort, bind, Except.bind, pure, Except.pure,
    given, all, ← methods, spelled.id, spelled.name.orElse_empty, spelled.fullName.orElse_empty,
    spelled.packageName.orElse_empty, spelled.filePath.orElse_empty]

/-- A record with the fields of a method. -/
def MethodEntity.record (e : MethodEntity) : Value :=
  .record [("id", e.id), ("name", e.name), ("signature", e.signature), ("class_name", e.className),
    ("package_name", e.packageName), ("file_path", e.filePath), ("return_type", e.returnType),
    ("parameter_types", e.parameterTypes), ("description", e.description)]

structure MethodEntity.Spelled (e : MethodEntity) : Prop where
  id : e.id.orElse (e.signature.orElse e.name) = e.id
  name : e.name.IsText
  signature : e.signature.IsText
  className : e.className.IsText
  packageName : e.packageName.IsText
  filePath : e.filePath.IsText
  returnType : e.returnType.IsText
  parameterTypes : ∃ types, e.parameterTypes = .list types

theorem MethodEntity.ofRecord_record {e : MethodEntity} (spelled : e.Spelled) : ofRecord e.record = .ok e := by
  obtain ⟨types, parameters⟩ := spelled.parameterTypes
  have given : e.parameterTypes.orElse (.list []) = e.parameterTypes := parameters ▸ Value.list_orElse_nil types
  have all : e.parameterTypes.elements = .ok types := parameters ▸ rfl
  simp [record, ofRecord, Value.given, Value.get, Value.getD_record_cons, bind, Except.bind, pure, Except.pure,
    given, all, ← parameters, spelled.id, spelled.name.orElse_empty, spelled.signature.orElse_empty,
    spelled.className.orElse_empty, spelled.packageName.orElse_empty, spelled.filePath.orElse_empty,
    spelled.returnType.orElse_empty]

/-- The record of a class becomes the class again. -/
theorem SourceClass.Textual.reads {c : SourceClass} (textual : c.Textual) (package : c.packageName.IsText)
    (file : c.filePath.IsText) (index : ClassIndex) {methods : List SourceMethod} {row : Value}
    (made : classRow c = .ok row) {names : List Value}
    (named : names.Perm ((methods.filter (index.owns c)).map SourceMethod.name)) :
    ∃ e, ClassEntity.ofRecord (.record (Reading.ofClasses.aliases.zip
        (Reading.ofClasses.properties.map (Node.ofRow "Class" classProperties row).properties ++
          [.list names, .null]))) = .ok e ∧ c.ReadsAs index methods e := by
  obtain ⟨kind, given, made'⟩ := classRow_eq textual
  obtain rfl := Except.ok.inj (made.symm.trans made')
  obtain ⟨kind', same, sort⟩ := textual.sort given
  let e : ClassEntity :=
    { id := c.id, name := c.name, fullName := c.fullName.orElse c.name, packageName := c.packageName
      filePath := c.filePath, description := .null, superclass := c.superclass
      sort := (ClassSort.ofName? (capitals kind')).getD .plain, methodNames := .list names }
  have spelled : e.Spelled := ⟨c.id_orElse_name, textual.name, textual.id, package, file, names, rfl⟩
  refine ⟨e, ?_, rfl, rfl, rfl, rfl, rfl, rfl, rfl, ⟨kind', same, rfl⟩, names, rfl, named⟩
  rw [← ClassEntity.ofRecord_record spelled sort, Reading.map_properties (by decide)]
  simp [Reading.aliases, Reading.ofClasses, Column.alias, ClassEntity.record, Value.field_record_cons, e]

theorem SourceMethod.Textual.isText_of_shown {m : SourceMethod} (textual : m.Textual) {signature : Value}
    (shown : m.shownSignature = .ok signature) : signature.IsText := by
  unfold SourceMethod.shownSignature at shown
  split at shown
  · exact Except.ok.inj shown ▸ textual.signature
  · obtain ⟨text, joined⟩ := joined_ok ", " textual.arguments
    rw [joined] at shown
    exact ⟨_, (Except.ok.inj shown).symm⟩

/-- The record of a method becomes the method again, with what it has from its owner. -/
theorem SourceMethod.Textual.reads {m : SourceMethod} (textual : m.Textual) (name : m.name.IsText)
    (file : m.filePath.IsText) (returns : m.returnType.IsText) {index : ClassIndex}
    (owner : ∀ c, index.owner? m = some c → c.name.IsText ∧ c.packageName.IsText ∧ c.filePath.IsText) {row : Value}
    (made : methodRow index m = .ok row) :
    ∃ e, MethodEntity.ofRecord (.record (Reading.ofMethods.aliases.zip
        (Reading.ofMethods.properties.map (Node.ofRow "Method" methodProperties row).properties ++ [.null]))) = .ok e ∧
      m.ReadsAs index e := by
  obtain ⟨signature, shown, made'⟩ := methodRow_eq index textual
  obtain rfl := Except.ok.inj (made.symm.trans made')
  let e : MethodEntity :=
    { id := m.id, name := m.name, signature, className := ((index.owner? m).map (·.name)).getD m.className
      packageName := ((index.owner? m).map (·.packageName)).getD (.str "")
      filePath := m.filePath.orElse (((index.owner? m).map (·.filePath)).getD (.str "")), description := .null
      returnType := m.returnType, parameterTypes := .list m.arguments }
  have spelled : e.Spelled := by
    have signed := textual.isText_of_shown shown
    cases owned : index.owner? m with
    | none =>
      refine ⟨m.id_orElse _, name, signed, ?_, ?_, ?_, returns, m.arguments, rfl⟩
      · simpa [e, owned] using textual.className
      · exact ⟨"", by simp only [e, owned]; rfl⟩
      · simpa [e, owned] using file.orElse ⟨"", rfl⟩
    | some c =>
      obtain ⟨ownName, ownPackage, ownFile⟩ := owner c owned
      refine ⟨m.id_orElse _, name, signed, ?_, ?_, ?_, returns, m.arguments, rfl⟩
      · simpa [e, owned] using ownName
      · simpa [e, owned] using ownPackage
      · simpa [e, owned] using file.orElse ownFile
  refine ⟨e, ?_, rfl, rfl, shown, rfl, rfl, rfl, fun c owned => ?_, fun free => ?_⟩
  · rw [← MethodEntity.ofRecord_record spelled, Reading.map_properties (by decide)]
    simp [Reading.aliases, Reading.ofMethods, Column.alias, MethodEntity.record, Value.field_record_cons, e]
  · simp [e, owned]
  · simp [e, free, file.orElse_empty]

theorem forall₂_join {α β γ : Type} {R : α → β → Prop} {S : α → γ → Prop} {l : List α} {l' : List β} {l'' : List γ}
    (first : List.Forall₂ R l l') (second : List.Forall₂ S l l'') :
    List.Forall₂ (fun b c => ∃ a, R a b ∧ S a c) l' l'' := by
  induction first generalizing l'' with
  | nil =>
    cases second
    exact .nil
  | cons head _ ih =>
    cases second with
    | cons head' tail' => exact .cons ⟨_, head, head'⟩ (ih tail')

/-- An answer is read as the things that the nodes are made from, in some order. -/
theorem Graph.Reading.Answers.entities {α β : Type} {R : Node × Nat → α → Prop} {Q : α → β → Prop}
    {ofRecord : Value → Except Fault β} {reading : Reading} {g : Graph} {t : Table} {l : List α}
    (answers : reading.Answers g t) (distinct : reading.aliases.Nodup) (nodes : List.Forall₂ R (reading.nodes g) l)
    (each : ∀ at_place a values, R at_place a → reading.Shows g at_place values →
      ∃ e, ofRecord (.record (reading.aliases.zip values)) = .ok e ∧ Q a e) :
    ∃ records entities order, t.records = .ok records ∧ records.mapM ofRecord = .ok entities ∧ order.Perm l ∧
      List.Forall₂ Q order entities := by
  obtain ⟨records, listed, read, all, shown⟩ := answers.records distinct
  obtain ⟨order, ordered, perm⟩ := List.perm_comp_forall₂ all nodes
  obtain ⟨entities, done, reads⟩ := mapM_forall₂ (f := ofRecord) (Q := Q) (forall₂_join ordered shown) <| by
    rintro a record ⟨at_place, made, values, rfl, shows⟩
    exact each at_place a values made shows
  exact ⟨records, entities, order, read, done, perm, reads⟩

theorem Graph.Section.made_from {α : Type} {f : α → Except Fault Value} {l : List α} {g : Graph} {reading : Reading}
    {names : List String} {rows : List Value} {before after : List Node}
    (part : g.Section reading.label names rows before after) (made : l.mapM f = .ok rows) :
    List.Forall₂ (fun at_place a => ∃ k row, at_place = (Node.ofRow reading.label names row, before.length + k) ∧
      l[k]? = some a ∧ f a = .ok row) (reading.nodes g) l := by
  obtain ⟨whole, each⟩ := getElem?_of_mapM made
  rw [Reading.nodes, part.labelled]
  refine List.forall₂_iff_get.mpr ⟨by simp [whole], fun k _ within => ?_⟩
  obtain ⟨row, stands, row_of⟩ := each (List.getElem?_eq_getElem within)
  obtain ⟨_, same⟩ := List.getElem?_eq_some_iff.mp stands
  exact ⟨k, row, by simp [same], List.getElem?_eq_getElem within, row_of⟩

namespace Built

variable {g : Graph} {t : Table}

theorem shows_description (built : Built r g) {place : Nat} {v : Value} (shows : Column.Shows g place .description v) :
    v = .null := by
  cases shows with
  | described inside =>
    rw [neighbours_of_edges (g := g) (show g.edges.filter _ = [].map (Edge.bare _) from built.undescribed)] at inside
    cases inside
  | undescribed => rfl

/-- The classes that an answer lists are read as those of the snapshot. -/
theorem reads_classes (built : Built r g) (of : r.Of s) (spelled : s.Spelled) (distinct : s.Distinct)
    (answers : Reading.ofClasses.Answers g t) :
    ∃ records entities order, t.records = .ok records ∧ records.mapM ClassEntity.ofRecord = .ok entities ∧
      order.Perm s.classes ∧ List.Forall₂ (SourceClass.ReadsAs r.index s.methods) order entities := by
  obtain ⟨after, part⟩ := built.classes
  have nodes := Section.made_from (show g.Section Reading.ofClasses.label _ _ _ _ from part) of.classes
  refine answers.entities (by decide) nodes fun at_place c values made shows => ?_
  obtain ⟨i, row, rfl, stands, row_of⟩ := made
  have known := List.mem_of_getElem? stands
  obtain ⟨further, rfl, columns⟩ := shows
  rw [List.length_nil, Nat.zero_add] at columns
  cases columns with
  | cons first rest =>
    cases first with
    | contained named => cases rest with
      | cons second rest =>
        cases rest
        rw [built.method_names of spelled.toTextual distinct stands] at named
        rw [built.shows_description second]
        exact (spelled.classes c known).reads (spelled.classPackage c known) (spelled.classFile c known) r.index row_of
          named

/-- The methods that an answer lists are read as those of the snapshot. -/
theorem reads_methods (built : Built r g) (of : r.Of s) (spelled : s.Spelled)
    (answers : Reading.ofMethods.Answers g t) :
    ∃ records entities order, t.records = .ok records ∧ records.mapM MethodEntity.ofRecord = .ok entities ∧
      order.Perm s.methods ∧ List.Forall₂ (SourceMethod.ReadsAs r.index) order entities := by
  obtain ⟨after, part⟩ := built.methods
  have nodes := Section.made_from (show g.Section Reading.ofMethods.label _ _ _ _ from part) of.methods
  refine answers.entities (by decide) nodes fun at_place m values made shows => ?_
  obtain ⟨k, row, rfl, stands, row_of⟩ := made
  have known := List.mem_of_getElem? stands
  have owner : ∀ c, r.index.owner? m = some c → c.name.IsText ∧ c.packageName.IsText ∧ c.filePath.IsText := by
    intro c owned
    have own := of.owner_mem spelled.toTextual known owned
    exact ⟨(spelled.classes c own).name, spelled.classPackage c own, spelled.classFile c own⟩
  obtain ⟨further, rfl, columns⟩ := shows
  cases columns with
  | cons first rest =>
    cases rest
    rw [built.shows_description first]
    exact (spelled.methods m known).reads (spelled.methodName m known) (spelled.methodFile m known)
      (spelled.methodReturn m known) owner row_of

end Built

end CodeAtlas
