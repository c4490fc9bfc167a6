import CodeAtlas.Proofs.Graph.Rows
import CodeAtlas.Snapshot.Fields
import Mathlib.Data.List.Forall2
import Mathlib.Data.List.Pairwise

namespace CodeAtlas

/-- Where only one element gives something, that is what is found. -/
theorem findSome?_of_only {α β : Type} {f : α → Option β} {l : List α} {a : α} {b : β} (inside : a ∈ l)
    (gives : f a = some b) (others : ∀ c ∈ l, c ≠ a → f c = none) : l.findSome? f = some b := by
  cases first : l.findSome? f with
  | none => exact absurd (List.findSome?_eq_none_iff.mp first a inside) (by simp [gives])
  | some found =>
    obtain ⟨c, member, at_c⟩ := List.exists_of_findSome?_eq_some first
    by_cases same : c = a
    · exact at_c.symm.trans (same ▸ gives)
    · exact absurd at_c (by simp [others c member same])

namespace Value

/-- Nothing stands under a key, or no more than a null. -/
def LeavesOut (data : Value) (key : String) : Prop := (data.field key).isNull = true

instance (data : Value) (key : String) : Decidable (data.LeavesOut key) := inferInstanceAs (Decidable (_ = true))

/-- Data tell what a field holds under one of its keys. They need not tell what is granted without
being told. -/
inductive Tells (data : Value) (keys : List String) (granted held : Value) : Prop
  | under (key : String) (inside : key ∈ keys) (shown : data.field? key = some held)
      (others : ∀ other ∈ keys, other ≠ key → data.LeavesOut other)
  | omitted (same : held = granted) (others : ∀ key ∈ keys, data.LeavesOut key)

theorem LeavesOut.filter {entries : List (Value × Value)} {key : String} (leavesOut : (dict entries).LeavesOut key) :
    (lookup key entries).filter (!·.isNull) = none := by
  unfold LeavesOut field field? at leavesOut
  cases found : lookup key entries with
  | none => rfl
  | some v =>
    have null : v.isNull = true := by simpa [found] using leavesOut
    simp [null]

/-- What is told is picked, provided that only what is granted as null can be null. -/
theorem Tells.pick {entries : List (Value × Value)} {keys : List String} {granted held : Value}
    (tells : (dict entries).Tells keys granted held) (null : held = .null → granted = .null) :
    (dict entries).pick granted keys = .ok held := by
  rw [pick_dict]
  congr 1
  have nothing (left : ∀ key ∈ keys, (dict entries).LeavesOut key) :
      (keys.findSome? fun key => (lookup key entries).filter (!·.isNull)) = none :=
    List.findSome?_eq_none_iff.mpr fun key inside => (left key inside).filter
  cases tells with
  | omitted same left => rw [nothing left, same, Option.getD_none]
  | under key inside shown others =>
    by_cases isNull : held = .null
    · -- A null that is shown leaves its own key out, like the others.
      have left : ∀ other ∈ keys, (dict entries).LeavesOut other := fun other member => by
        by_cases same : other = key
        · simp [LeavesOut, field, same, shown, isNull, Value.isNull]
        · exact others other member same
      rw [nothing left, null isNull, isNull, Option.getD_none]
    · have found : (lookup key entries).filter (!·.isNull) = some held := by
        have shown : lookup key entries = some held := shown
        cases held <;> simp_all [Value.isNull]
      rw [findSome?_of_only inside found fun other member ne => (others other member ne).filter, Option.getD_some]

theorem field?_record_map {α : Type} (l : List α) (key : α → String) (held : α → Value) (sought : String) :
    (record (l.map fun a => (key a, held a))).field? sought = (l.find? (key · = sought)).map held := by
  induction l with
  | nil => rfl
  | cons a rest ih =>
    simp only [record, field?, List.map_cons, lookup] at ih ⊢
    by_cases same : key a = sought
    · simp [same]
    · simp only [same, ih, if_false, List.find?_cons, decide_false]

end Value

/-- What a field of a description may hold. -/
inductive FieldKind where
  | text (granted : String)
  | reference
  | flag
  | number
  | texts

namespace FieldKind

/-- What a field holds when nothing is said of it. -/
def granted : FieldKind → Value
  | .text s => .str s
  | .reference => .null
  | .flag => .bool false
  | .number => .int 0
  | .texts => .list []

def Admits (v : Value) : FieldKind → Prop
  | .text _ => v.IsText
  | .reference => v.IsReference
  | .flag => ∃ b, v = .bool b
  | .number => ∃ n, v = .int n
  | .texts => ∃ items, v = .list items ∧ ∀ item ∈ items, item.IsText

theorem granted_null {kind : FieldKind} (admits : kind.Admits .null) : kind.granted = .null := by
  cases kind with
  | reference => rfl
  | text => exact admits.elim nofun
  | flag => exact admits.elim nofun
  | number => exact admits.elim nofun
  | texts => exact admits.elim nofun

end FieldKind

/-- A field of a description, with the spellings of its key. -/
structure SourceField (ρ : Type) where
  keys : List String
  kind : FieldKind
  held : ρ → Value

namespace SourceField

variable {ρ : Type} {fields : List (SourceField ρ)} {r : ρ} {data : Value}

def Typed (fields : List (SourceField ρ)) (r : ρ) : Prop := ∀ f ∈ fields, f.kind.Admits (f.held r)

/-- A dictionary tells each of the fields, whatever else it has. -/
structure Encodes (fields : List (SourceField ρ)) (r : ρ) (data : Value) : Prop where
  isDict : ∃ entries, data = .dict entries
  tells : ∀ f ∈ fields, data.Tells f.keys f.kind.granted (f.held r)

theorem Encodes.pick (encodes : Encodes fields r data) (typed : Typed fields r) :
    ∀ f ∈ fields, data.pick f.kind.granted f.keys = .ok (f.held r) := by
  intro f inside
  obtain ⟨⟨entries, rfl⟩, tells⟩ := encodes
  exact (tells f inside).pick fun null => FieldKind.granted_null (null ▸ typed f inside)

/-- Where no two fields share a key, a key tells its field. -/
theorem eq_of_shared_key (distinct : (fields.flatMap (·.keys)).Nodup) :
    ∀ f ∈ fields, ∀ g ∈ fields, ∀ key ∈ f.keys, key ∈ g.keys → f = g := by
  have apart := (List.pairwise_flatMap.mp distinct).2
  exact List.Pairwise.forall_of_forall_of_flip (fun _ _ _ _ _ => rfl)
    (apart.imp fun differ key inside member => absurd rfl (differ key inside key member))
    (apart.imp fun differ key member inside => absurd rfl (differ key inside key member))

/-- A dictionary with one entry for each field, under any of its spellings, is an encoding. -/
theorem encodes_record (spelling : SourceField ρ → String) (distinct : (fields.flatMap (·.keys)).Nodup)
    (spelled : ∀ f ∈ fields, spelling f ∈ f.keys) (r : ρ) :
    Encodes fields r (.record (fields.map fun f => (spelling f, f.held r))) := by
  refine ⟨⟨_, rfl⟩, fun f inside => .under _ (spelled f inside) ?_ fun other member ne => ?_⟩
  · rw [Value.field?_record_map]
    cases found : fields.find? (spelling · = spelling f) with
    | none => simpa using List.find?_eq_none.mp found f inside
    | some g =>
      have same : spelling g = spelling f := by simpa using List.find?_some found
      have member := List.mem_of_find?_eq_some found
      rw [eq_of_shared_key distinct f inside g member _ (spelled f inside) (same ▸ spelled g member)]
      rfl
  · have absent : fields.find? (spelling · = other) = none := List.find?_eq_none.mpr fun g inside' same => by
      have same : spelling g = other := by simpa using same
      have eq := eq_of_shared_key distinct f inside g inside' other member (same ▸ spelled g inside')
      exact ne (by rw [eq, same])
    rw [Value.LeavesOut, Value.field, Value.field?_record_map, absent]
    rfl

end SourceField

def SourceClass.shape : List (SourceField SourceClass) := [
  ⟨["name"], .text "", (·.name)⟩,
  ⟨["fullName", "full_name"], .text "", (·.fullName)⟩,
  ⟨["packageName", "package_name"], .text "", (·.packageName)⟩,
  ⟨["filePath", "file_path"], .text "", (·.filePath)⟩,
  ⟨["type"], .text "CLASS", (·.kind)⟩,
  ⟨["extendsClass", "extends_class"], .reference, (·.superclass)⟩,
  ⟨["implementsClass", "implements_class"], .reference, (·.interface)⟩,
  ⟨["isAbstract", "is_abstract"], .flag, (.bool ·.isAbstract)⟩,
  ⟨["isInterface", "is_interface"], .flag, (.bool ·.isInterface)⟩,
  ⟨["annotations"], .texts, (.list ·.annotations)⟩,
  ⟨["startLine", "start_line"], .number, (.int ·.startLine)⟩,
  ⟨["endLine", "end_line"], .number, (.int ·.endLine)⟩]

def SourceMethod.shape : List (SourceField SourceMethod) := [
  ⟨["name"], .text "", (·.name)⟩,
  ⟨["fullSignature", "full_signature"], .text "", (·.signature)⟩,
  ⟨["className", "class_name"], .text "", (·.className)⟩,
  ⟨["filePath", "file_path"], .text "", (·.filePath)⟩,
  ⟨["modifier"], .text "", (·.modifier)⟩,
  ⟨["isStatic", "is_static"], .flag, (.bool ·.isStatic)⟩,
  ⟨["returnType", "return_type"], .text "", (·.returnType)⟩,
  ⟨["arguments"], .texts, (.list ·.arguments)⟩,
  ⟨["annotations"], .texts, (.list ·.annotations)⟩,
  ⟨["startLine", "start_line"], .number, (.int ·.startLine)⟩,
  ⟨["endLine", "end_line"], .number, (.int ·.endLine)⟩,
  ⟨["callsTo", "calls_to"], .texts, (.list ·.callees)⟩]

def SourceEndpoint.shape : List (SourceField SourceEndpoint) := [
  ⟨["path"], .text "", (·.path)⟩,
  ⟨["method"], .text "GET", (·.verb)⟩,
  ⟨["controllerClass", "controller_class"], .text "", (·.controller)⟩,
  ⟨["handlerMethod", "handler_method"], .text "", (·.handler)⟩]

open SourceField

theorem SourceClass.ofValue_encoded {c : SourceClass} {data : Value} (typed : Typed shape c)
    (encodes : Encodes shape c data) : ofValue data = .ok c := by
  have picked := encodes.pick typed
  simp only [shape, List.forall_mem_cons, FieldKind.granted] at picked
  obtain ⟨name, fullName, packageName, filePath, kind, superclass, interface, isAbstract, isInterface, annotations,
    startLine, endLine, -⟩ := picked
  simp only [ofValue, name, fullName, packageName, filePath, kind, superclass, interface, isAbstract, isInterface,
    annotations, startLine, endLine, bind, Except.bind, Value.elements, Value.toInt, Value.truthy]
  rfl

theorem SourceMethod.ofValue_encoded {m : SourceMethod} {data : Value} (typed : Typed shape m)
    (encodes : Encodes shape m data) : ofValue data = .ok m := by
  have picked := encodes.pick typed
  simp only [shape, List.forall_mem_cons, FieldKind.granted] at picked
  obtain ⟨name, signature, className, filePath, modifier, isStatic, returnType, arguments, annotations, startLine,
    endLine, callees, -⟩ := picked
  simp only [ofValue, name, signature, className, filePath, modifier, isStatic, returnType, arguments, annotations,
    startLine, endLine, callees, bind, Except.bind, Value.elements, Value.toInt, Value.truthy]
  rfl

theorem SourceEndpoint.ofValue_encoded {e : SourceEndpoint} {data : Value} (typed : Typed shape e)
    (encodes : Encodes shape e data) : ofValue data = .ok e := by
  have picked := encodes.pick typed
  simp only [shape, List.forall_mem_cons, FieldKind.granted] at picked
  obtain ⟨path, verb, controller, handler, -⟩ := picked
  simp only [ofValue, path, verb, controller, handler, bind, Except.bind]
  rfl

/-- The fields of a class as they are shown are an encoding of it, and so it can be read back. -/
theorem SourceClass.ofValue_fields {c : SourceClass} (typed : Typed shape c) : ofValue (.record c.fields) = .ok c :=
  ofValue_encoded typed <|
    encodes_record (fun f => f.keys.getLastD "") (by decide) (by simp [shape]) c

theorem SourceMethod.ofValue_fields {m : SourceMethod} (typed : Typed shape m) : ofValue (.record m.fields) = .ok m :=
  ofValue_encoded typed <|
    encodes_record (fun f => f.keys.getLastD "") (by decide) (by simp [shape]) m

theorem SourceEndpoint.ofValue_fields {e : SourceEndpoint} (typed : Typed shape e) : ofValue (.record e.fields) = .ok e :=
  ofValue_encoded typed <|
    encodes_record (fun f => f.keys.getLastD "") (by decide) (by simp [shape]) e

/-- The elements of a list, each encoded, stand under one of the keys. An empty list may be left out. -/
def Value.TellsEach {ρ : Type} (data : Value) (keys : List String) (fields : List (SourceField ρ)) (l : List ρ) : Prop :=
  ∃ items, data.Tells keys (.list []) (.list items) ∧ List.Forall₂ (Encodes fields) l items

structure Snapshot.Typed (s : Snapshot) : Prop where
  classes : ∀ c ∈ s.classes, SourceField.Typed SourceClass.shape c
  methods : ∀ m ∈ s.methods, SourceField.Typed SourceMethod.shape m
  endpoints : ∀ e ∈ s.endpoints, SourceField.Typed SourceEndpoint.shape e

structure Snapshot.Encodes (s : Snapshot) (data : Value) : Prop where
  isDict : ∃ entries, data = .dict entries
  classes : data.TellsEach ["classes"] SourceClass.shape s.classes
  methods : data.TellsEach ["methods"] SourceMethod.shape s.methods
  endpoints : data.TellsEach ["apiEndpoints", "api_endpoints"] SourceEndpoint.shape s.endpoints

/-- A list of encodings is read element by element. -/
theorem mapM_encoded {ρ : Type} {fields : List (SourceField ρ)} {f : Value → Except Fault ρ} {l : List ρ} {items : List Value}
    (reads : ∀ r data, SourceField.Typed fields r → SourceField.Encodes fields r data → f data = .ok r)
    (typed : ∀ r ∈ l, SourceField.Typed fields r) (each : List.Forall₂ (SourceField.Encodes fields) l items) :
    items.mapM f = .ok l := by
  induction each with
  | nil => rfl
  | cons first _ ih =>
    rw [List.mapM_cons, reads _ _ (typed _ (List.mem_cons_self ..)) first,
      ih fun r inside => typed r (List.mem_cons_of_mem _ inside)]
    rfl

/-- A list under a single key may also be asked for by that key. -/
theorem Value.Tells.get {entries : List (Value × Value)} {key : String} {items : List Value}
    (tells : (dict entries).Tells [key] (.list []) (.list items)) :
    ∃ v, (dict entries).get key = .ok v ∧ v.orElse (.list []) = .list items := by
  refine ⟨(lookup key entries).getD .null, rfl, ?_⟩
  cases tells with
  | under _ inside shown =>
    have shown : lookup key entries = some (.list items) := List.mem_singleton.mp inside ▸ shown
    rw [shown, Option.getD_some]
    cases items <;> rfl
  | omitted same others =>
    have absent : ((lookup key entries).getD .null).isNull = true := others key (List.mem_singleton_self key)
    rw [same]
    cases other : (lookup key entries).getD .null <;> rw [other] at absent <;> first | rfl | cases absent

/-- A snapshot is read back from each of its encodings. -/
theorem Snapshot.ofValue_of_encodes {s : Snapshot} {data : Value} (typed : s.Typed) (encodes : s.Encodes data) :
    ofValue data = .ok s := by
  obtain ⟨⟨entries, rfl⟩, ⟨classes, tellsClasses, eachClass⟩, ⟨methods, tellsMethods, eachMethod⟩,
    ⟨endpoints, tellsEndpoints, eachEndpoint⟩⟩ := encodes
  obtain ⟨v, gotClasses, classes_eq⟩ := tellsClasses.get
  obtain ⟨w, gotMethods, methods_eq⟩ := tellsMethods.get
  have gotEndpoints := tellsEndpoints.pick nofun
  have classesRead := mapM_encoded (fun _ _ => SourceClass.ofValue_encoded) typed.classes eachClass
  have methodsRead := mapM_encoded (fun _ _ => SourceMethod.ofValue_encoded) typed.methods eachMethod
  have endpointsRead := mapM_encoded (fun _ _ => SourceEndpoint.ofValue_encoded) typed.endpoints eachEndpoint
  simp only [ofValue, gotClasses, gotMethods, gotEndpoints, classes_eq, methods_eq, Value.elements, classesRead, methodsRead,
    endpointsRead, bind, Except.bind]
  rfl

def plainClass : SourceClass where
  name := .str "Cart"
  fullName := .str "shop.Cart"
  packageName := .str ""
  filePath := .str ""
  kind := .str "CLASS"
  superclass := .str "Basket"
  interface := .null
  isAbstract := true
  isInterface := false
  annotations := [.str "Entity"]
  startLine := 3
  endLine := 9

/-- The class spelled now in one way, now in the other, with nulls, omissions and a key that nobody knows. -/
def mixedClass : Value := .record [
  ("name", .str "Cart"), ("full_name", .str "shop.Cart"), ("filePath", .null), ("extendsClass", .str "Basket"),
  ("is_abstract", .bool true), ("isInterface", .null), ("annotations", .list [.str "Entity"]), ("startLine", .int 3),
  ("end_line", .int 9), ("visibility", .str "public")]

theorem mixedClass_encodes : Encodes SourceClass.shape plainClass mixedClass := by
  refine ⟨⟨_, rfl⟩, ?_⟩
  simp only [SourceClass.shape, List.forall_mem_cons]
  exact ⟨.under "name" (by decide) rfl (by decide), .under "full_name" (by decide) rfl (by decide),
    .omitted rfl (by decide), .omitted rfl (by decide), .omitted rfl (by decide),
    .under "extendsClass" (by decide) rfl (by decide), .omitted rfl (by decide),
    .under "is_abstract" (by decide) rfl (by decide), .omitted rfl (by decide),
    .under "annotations" (by decide) rfl (by decide), .under "startLine" (by decide) rfl (by decide),
    .under "end_line" (by decide) rfl (by decide), nofun⟩

def plainEndpoint : SourceEndpoint where
  path := .str "/cart"
  verb := .str "GET"
  controller := .str "shop.Cart"
  handler := .str "show"

def mixedEndpoint : Value := .record [
  ("controller_class", .str "shop.Cart"), ("path", .str "/cart"), ("handlerMethod", .str "show"), ("method", .null)]

theorem mixedEndpoint_encodes : Encodes SourceEndpoint.shape plainEndpoint mixedEndpoint := by
  refine ⟨⟨_, rfl⟩, ?_⟩
  simp only [SourceEndpoint.shape, List.forall_mem_cons]
  exact ⟨.under "path" (by decide) rfl (by decide), .omitted rfl (by decide),
    .under "controller_class" (by decide) rfl (by decide),
    .under "handlerMethod" (by decide) rfl (by decide), nofun⟩

theorem Snapshot.ofValue_of_encodes_mixed :
    ofValue (.record [("methods", .null), ("api_endpoints", .list [mixedEndpoint]), ("classes", .list [mixedClass])]) =
      .ok ⟨[plainClass], [], [plainEndpoint]⟩ := by
  refine ofValue_of_encodes ⟨?_, nofun, ?_⟩ ⟨⟨_, rfl⟩, ?_, ?_, ?_⟩
  · simp [SourceField.Typed, SourceClass.shape, FieldKind.Admits, Value.IsReference, Value.IsText, plainClass]
  · simp [SourceField.Typed, SourceEndpoint.shape, FieldKind.Admits, Value.IsText, plainEndpoint]
  · exact ⟨_, .under "classes" (by decide) rfl (by decide), .cons mixedClass_encodes .nil⟩
  · exact ⟨[], .omitted rfl (by decide), .nil⟩
  · exact ⟨_, .under "api_endpoints" (by decide) rfl (by decide), .cons mixedEndpoint_encodes .nil⟩

end CodeAtlas
