import CodeAtlas.Proofs.Graph.Rebuild
import CodeAtlas.Proofs.Graph.Sending
import CodeAtlas.Proofs.Retrieval.Indexing
import CodeAtlas.Proofs.Turns.Runs
import Mathlib.Data.List.Forall2

namespace CodeAtlas

theorem pairs_of_mapM {α β : Type} {f : α → Except Fault β} {l : List α} {made : List β} (done : l.mapM f = .ok made) :
    List.Forall₂ (fun a b => f a = .ok b) l made := by
  induction l generalizing made with
  | nil =>
    cases done
    exact .nil
  | cons a rest ih =>
    obtain ⟨b, others, head, tail, rfl⟩ := mapM_cons_ok done
    exact .cons head (ih tail)

/-- Where it can be told of everything whether it is to stay, what is to stay stays. -/
theorem filterM_ok {α : Type} {f : α → Except Fault Bool} {g : α → Bool} {l : List α} (told : ∀ a ∈ l, f a = .ok (g a)) :
    l.filterM f = .ok (l.filter g) := by
  have each : ∀ kept, l.filterAuxM f kept = .ok ((l.filter g).reverse ++ kept) := by
    induction l with
    | nil => exact fun kept => rfl
    | cons a rest ih =>
      intro kept
      have ih := ih fun b inside => told b (List.mem_cons_of_mem _ inside)
      rw [List.filterAuxM, told a (List.mem_cons_self ..)]
      cases keep : g a <;> simp [bind, Except.bind, ih, keep, cond]
  simp [List.filterM, each, bind, Except.bind, pure, Except.pure]

open Routine

/-- What a model and a vector server are given, and what comes back. -/
inductive Transfer where
  | encoded (texts : List String) (normalize : Bool) (vectors : List Value)
  | sent (collection : Value) (points : List Point)

def Event.transfer? : Event → Option Transfer
  | .hears (.encodeBatch texts _ normalize _) (.ok vectors) => some (.encoded texts normalize vectors)
  | .hears (.upsert collection points) _ => some (.sent collection points)
  | _ => none

def transfers (log : List Event) : List Transfer := log.filterMap Event.transfer?

theorem transfers_append (before after : List Event) : transfers (before ++ after) = transfers before ++ transfers after :=
  List.filterMap_append ..

/-- Who writes points: the numbers of the parts, how many records are taken at a time, and how texts are encoded. -/
structure Indexing where
  index : Nat
  embedding : Nat
  size : Nat
  documentPrefix : Value
  normalize : Bool

/-- What is encoded for a text. -/
def Indexing.document (x : Indexing) (text : Value) : String := x.documentPrefix.display ++ text.display

/-- Nothing fails, and how points are made stays the same. -/
def Indexing.Meets (x : Indexing) : Event → Prop
  | .sees m => (m.index x.index).batchSize = .int x.size ∧ (m.embedding x.embedding).documentPrefix = x.documentPrefix ∧
    (m.embedding x.embedding).normalize = x.normalize
  | .hears _ reply => ∃ answer, reply = .ok answer
  | _ => True

/-- Some records, their texts, the vectors that came back for them, and the points that were made of them. -/
structure Batch where
  records : List Value
  texts : List Value
  vectors : List Value
  points : List Point

/-- Each record has its own text, and each point is made of a record and the vector at the same place. -/
structure Batch.Aligned (kind : Kind) (b : Batch) : Prop where
  texts : List.Forall₂ (fun record text => entityText kind record = .ok text) b.records b.texts
  points : List.Forall₂ (fun (pair : Value × Value) point => pointOf kind pair.1 pair.2 = .ok point) (b.records.zip b.vectors) b.points

def Batch.transfers (x : Indexing) (collection : Value) (b : Batch) : List Transfer :=
  [.encoded (b.texts.map x.document) x.normalize b.vectors, .sent collection b.points]

/-- A record has an identity and a name. -/
def Value.indexable (record : Value) : Bool := (record.field "id").truthy && (record.field "name").truthy

theorem isIndexable_dict (entries : List (Value × Value)) : isIndexable (.dict entries) = .ok (Value.dict entries).indexable := by
  have both : isIndexable (.dict entries) = if ((Value.dict entries).field "id").truthy then
      .ok ((Value.dict entries).field "name").truthy else .ok false := rfl
  rw [both, Value.indexable]
  cases ((Value.dict entries).field "id").truthy <;> rfl

/-- A point can be made of every record that has an identity and a name. -/
theorem pointOf_indexable {record : Value} (kind : Kind) (vector : Value) (shown : isIndexable record = .ok true) :
    ∃ point, pointOf kind record vector = .ok point := by
  cases record with
  | dict entries =>
    rw [isIndexable_dict] at shown
    obtain ⟨shown, shown'⟩ := Bool.and_eq_true_iff.mp (Except.ok.inj shown)
    have there {key : String} (shown : ((Value.dict entries).field key).truthy) : ∃ v, (Value.dict entries).entry key = .ok v := by
      rw [Value.field, Value.field?] at shown
      rw [Value.entry]
      cases found : Value.lookup key entries with
      | none =>
        rw [found] at shown
        cases shown
      | some v => exact ⟨v, rfl⟩
    obtain ⟨id, identity⟩ := there shown
    obtain ⟨name, named⟩ := there shown'
    cases kind <;> exact ⟨_, by simp only [pointOf, payloadOf, identity, named]; rfl⟩
  | _ => cases shown

section Writing

variable {x : Indexing} {kind : Kind} {collection : Value} {log : List Event}

theorem openClient_meets {result : Except Fault Unit} (runs : (VectorIndex.openClient x.index).Runs log result)
    (meets : ∀ event ∈ log, x.Meets event) : transfers log = [] ∧ result = .ok () := by
  obtain ⟨m, rest, rfl, looked⟩ := runs_look.mp runs
  change (if (m.index x.index).isOpen then (pure () : Routine Unit) else
    query (.openVectors (m.index x.index).settings.host (m.index x.index).settings.port) >>= fun _ =>
      change (Memory.onIndex x.index fun i => { i with isOpen := true })).Runs rest result at looked
  split at looked
  · obtain ⟨rfl, rfl⟩ := runs_done.mp looked
    exact ⟨rfl, rfl⟩
  · obtain ⟨before, after, reply, rfl, opens, changes⟩ := runs_andThen.mp looked
    obtain rfl := runs_query.mp opens
    obtain ⟨_, rfl⟩ := meets _ (List.mem_cons_of_mem _ (List.mem_cons_self ..))
    obtain ⟨m', rfl, rfl⟩ := runs_change.mp changes
    exact ⟨rfl, rfl⟩

theorem load_meets {result : Except Fault Unit} (runs : (EmbeddingService.load x.embedding).Runs log result)
    (meets : ∀ event ∈ log, x.Meets event) : transfers log = [] ∧ result = .ok () := by
  obtain ⟨m, rest, rfl, looked⟩ := runs_look.mp runs
  change (if (m.embedding x.embedding).loaded then (pure () : Routine Unit) else
    ((query (.loadModel (m.embedding x.embedding).modelName (m.embedding x.embedding).device)).rescue fun fault =>
      Routine.fail (.failure (.modelNotLoaded fault.message))) >>= fun _ =>
        change (Memory.onEmbedding x.embedding fun s => { s with loaded := true })).Runs rest result at looked
  split at looked
  · obtain ⟨rfl, rfl⟩ := runs_done.mp looked
    exact ⟨rfl, rfl⟩
  · obtain ⟨before, after, tried, rfl, loads, changes⟩ := runs_andThen.mp looked
    obtain ⟨asked, handled, reply, rfl, answers, rescues⟩ := runs_andThen.mp loads
    obtain rfl := runs_query.mp answers
    obtain ⟨_, rfl⟩ := meets _ (List.mem_cons_of_mem _ (List.mem_cons_self ..))
    obtain ⟨rfl, rfl⟩ := runs_done.mp rescues
    obtain ⟨m', rfl, rfl⟩ := runs_change.mp changes
    exact ⟨rfl, rfl⟩

theorem encodeBatch_meets {texts : List Value} {result : Except Fault (List Value)} (some_of : texts ≠ [])
    (runs : (EmbeddingService.encodeBatch x.embedding (.list texts) false (.bool false)).Runs log result)
    (meets : ∀ event ∈ log, x.Meets event) :
    ∃ vectors, transfers log = [.encoded (texts.map x.document) x.normalize vectors] ∧ result = .ok vectors := by
  have parts : EmbeddingService.encodeBatch x.embedding (.list texts) false (.bool false) =
      EmbeddingService.load x.embedding >>= fun _ => Routine.view (·.embedding x.embedding) >>= fun service =>
        query (.encodeBatch (texts.map fun t => service.documentPrefix.display ++ t.display) service.batchSize service.normalize
          (.bool false)) := by
    cases texts with
    | nil => exact absurd rfl some_of
    | cons => rfl
  rw [parts] at runs
  obtain ⟨before, after, tried, rfl, loads, goesOn⟩ := runs_andThen.mp runs
  obtain ⟨silent, rfl⟩ := load_meets loads fun event inside => meets event (List.mem_append_left _ inside)
  obtain ⟨m, rest, rfl, asks⟩ := runs_look.mp goesOn
  obtain rfl := runs_query.mp asks
  have answered := meets _ (List.mem_append_right _ (List.mem_cons_of_mem _ (List.mem_cons_self ..)))
  obtain ⟨vectors, rfl⟩ := answered
  obtain ⟨-, own, normalized⟩ : x.Meets (.sees m) := meets _ (List.mem_append_right _ (List.mem_cons_self ..))
  refine ⟨vectors, ?_, rfl⟩
  rw [transfers_append, silent, own, normalized]
  rfl

/-- Writes the points of one group. -/
def VectorIndex.writeGroup (n embedding : Nat) (kind : Kind) (collection : Value) (group : List Value) : Routine Nat := do
  let texts ← Routine.ofExcept (group.mapM (entityText kind))
  let vectors ← EmbeddingService.encodeBatch embedding (.list texts) false (.bool false)
  let points ← Routine.ofExcept ((group.zip vectors).mapM fun (record, vector) => pointOf kind record vector)
  openClient n
  Routine.query (.upsert collection points)
  return points.length

theorem VectorIndex.writeGroups_cons (n embedding : Nat) (kind : Kind) (collection : Value) (written : Nat) (group : List Value)
    (rest : List (List Value)) : writeGroups n embedding kind collection written (group :: rest) =
      writeGroup n embedding kind collection group >>= fun sent => writeGroups n embedding kind collection (written + sent) rest := by
  simp only [writeGroups, writeGroup, bind_assoc]
  refine congrArg _ (funext fun _ => congrArg _ (funext fun _ => congrArg _ (funext fun points => congrArg _ (funext fun _ => ?_))))
  exact congrArg (Routine.ask (.upsert collection points)) (funext fun reply => by cases reply <;> rfl)

/-- A group becomes a batch, unless a record has no text. -/
theorem writeGroup_meets {group : List Value} {result : Except Fault Nat} (some_of : group ≠ [])
    (shown : ∀ record ∈ group, isIndexable record = .ok true)
    (runs : (VectorIndex.writeGroup x.index x.embedding kind collection group).Runs log result)
    (meets : ∀ event ∈ log, x.Meets event) :
    (∃ b : Batch, b.Aligned kind ∧ b.records = group ∧ transfers log = b.transfers x collection ∧ result = .ok b.points.length) ∨
      ∃ fault, group.mapM (entityText kind) = .error fault ∧ transfers log = [] ∧ result = .error fault := by
  unfold VectorIndex.writeGroup at runs
  cases read : group.mapM (entityText kind) with
  | error fault =>
    rw [read] at runs
    obtain ⟨rfl, rfl⟩ := runs_done.mp runs
    exact .inr ⟨fault, rfl, rfl, rfl⟩
  | ok texts =>
    have some_texts : texts ≠ [] := by
      rintro rfl
      exact some_of (List.eq_nil_of_length_eq_zero (getElem?_of_mapM read).1.symm)
    rw [read, Routine.ofExcept_ok, pure_bind] at runs
    obtain ⟨encoding, after, encoded, rfl, encodes, goesOn⟩ := runs_andThen.mp runs
    rw [List.forall_mem_append] at meets
    obtain ⟨vectors, asked, rfl⟩ := encodeBatch_meets some_texts encodes meets.1
    obtain ⟨points, made, -⟩ := mapM_ok (f := fun (pair : Value × Value) => pointOf kind pair.1 pair.2) (l := group.zip vectors)
      (Q := fun _ _ => True) fun pair inside =>
        (pointOf_indexable kind pair.2 (shown _ (List.of_mem_zip inside).1)).imp fun _ made => ⟨made, trivial⟩
    simp only [made, Routine.ofExcept_ok, pure_bind] at goesOn
    obtain ⟨opening, after, opened, rfl, opens, goesOn⟩ := runs_andThen.mp goesOn
    have later := List.forall_mem_append.mp meets.2
    obtain ⟨silent, rfl⟩ := openClient_meets opens later.1
    obtain ⟨sending, after, sent, rfl, sends, ends⟩ := runs_andThen.mp goesOn
    obtain rfl := runs_query.mp sends
    have answered := later.2 _ (List.mem_cons_self ..)
    obtain ⟨_, rfl⟩ := answered
    obtain ⟨rfl, rfl⟩ := runs_done.mp ends
    refine .inl ⟨⟨group, texts, vectors, points⟩, ⟨pairs_of_mapM read, pairs_of_mapM made⟩, rfl, ?_, rfl⟩
    rw [transfers_append, transfers_append, asked, silent]
    rfl

/-- Each group becomes a batch, up to the first of which a record has no text. -/
theorem writeGroups_meets {groups : List (List Value)} {written : Nat} {result : Except Fault Nat}
    (proper : ∀ group ∈ groups, group ≠ [] ∧ ∀ record ∈ group, isIndexable record = .ok true)
    (runs : (VectorIndex.writeGroups x.index x.embedding kind collection written groups).Runs log result)
    (meets : ∀ event ∈ log, x.Meets event) : ∃ batches : List Batch, (∀ b ∈ batches, b.Aligned kind) ∧
      transfers log = batches.flatMap (·.transfers x collection) ∧
      ((groups = batches.map (·.records) ∧ result = .ok (written + (batches.flatMap (·.points)).length)) ∨
        ∃ group rest fault, groups = batches.map (·.records) ++ group :: rest ∧
          group.mapM (entityText kind) = .error fault ∧ result = .error fault) := by
  induction groups generalizing written log with
  | nil =>
    obtain ⟨rfl, rfl⟩ := runs_done.mp runs
    exact ⟨[], nofun, rfl, .inl ⟨rfl, rfl⟩⟩
  | cons group rest ih =>
    obtain ⟨some_of, shown⟩ := proper group (List.mem_cons_self ..)
    rw [VectorIndex.writeGroups_cons] at runs
    obtain ⟨now, later, sent, rfl, writes, goesOn⟩ := runs_andThen.mp runs
    rw [List.forall_mem_append] at meets
    -- what is written later is in step on its own, whatever came back for the first group
    rcases writeGroup_meets some_of shown writes meets.1 with ⟨b, aligned, rfl, transferred, rfl⟩ | ⟨fault, read, transferred, rfl⟩
    · obtain ⟨batches, all, transferred', whole | stopped⟩ := ih (fun g inside => proper g (List.mem_cons_of_mem _ inside)) goesOn meets.2
      · obtain ⟨rfl, rfl⟩ := whole
        refine ⟨b :: batches, List.forall_mem_cons.mpr ⟨aligned, all⟩, ?_, .inl ⟨rfl, ?_⟩⟩
        · rw [transfers_append, transferred, transferred', List.flatMap_cons]
        · rw [List.flatMap_cons, List.length_append, Nat.add_assoc]
      · obtain ⟨group, rest, fault, rfl, read, rfl⟩ := stopped
        refine ⟨b :: batches, List.forall_mem_cons.mpr ⟨aligned, all⟩, ?_, .inr ⟨group, rest, fault, rfl, read, rfl⟩⟩
        rw [transfers_append, transferred, transferred', List.flatMap_cons]
    · obtain ⟨rfl, rfl⟩ := runs_done.mp goesOn
      exact ⟨[], nofun, by rw [List.append_nil, transferred]; rfl, .inr ⟨group, rest, fault, rfl, read, rfl⟩⟩

/-- The records with an identity and a name have been written batch by batch: all of them, or those before some records that are
taken together and of which one has no text. -/
structure Indexing.Wrote (x : Indexing) (kind : Kind) (collection : Value) (records : List Value) (log : List Event)
    (result : Except Fault Nat) (batches : List Batch) : Prop where
  sound : ∀ b ∈ batches, b.Aligned kind ∧ b.records ≠ [] ∧ b.records.length ≤ x.size
  transferred : transfers log = batches.flatMap (·.transfers x collection)
  whole : (records.filter Value.indexable = batches.flatMap (·.records) ∧ result = .ok (batches.flatMap (·.points)).length) ∨
    ∃ group rest fault, records.filter Value.indexable = batches.flatMap (·.records) ++ group ++ rest ∧
      group.mapM (entityText kind) = .error fault ∧ result = .error fault

theorem writeRecords_meets {records : List Value} {result : Except Fault Nat} (dicts : ∀ record ∈ records, ∃ entries, record = .dict entries)
    (positive : 1 ≤ x.size) (runs : (VectorIndex.writeRecords x.index x.embedding kind collection records).Runs log result)
    (meets : ∀ event ∈ log, x.Meets event) : ∃ batches, x.Wrote kind collection records log result batches := by
  have kept : records.filterM isIndexable = .ok (records.filter Value.indexable) := filterM_ok fun record inside => by
    obtain ⟨entries, rfl⟩ := dicts record inside
    exact isIndexable_dict entries
  have shown := mem_of_filterM kept
  generalize given : records.filter Value.indexable = indexable at kept shown
  rw [VectorIndex.writeRecords, kept, Routine.ofExcept_ok, pure_bind] at runs
  obtain ⟨m, rest, rfl, goesOn⟩ := runs_look.mp runs
  have batchSize := (meets _ (List.mem_cons_self ..)).1
  have meets := (List.forall_mem_cons.mp meets).2
  have groups : groupsBy (m.index x.index).batchSize indexable = .ok (groupsOf x.size indexable) := by
    have nonzero : ¬(x.size : Int) = 0 := by omega
    rw [batchSize]
    simp only [groupsBy, Value.toIndex, Bind.bind, Except.bind, nonzero, if_false, Int.toNat_natCast]
  change (Routine.ofExcept (groupsBy (m.index x.index).batchSize indexable) >>= fun groups =>
    VectorIndex.writeGroups x.index x.embedding kind collection 0 groups).Runs rest result at goesOn
  rw [groups, Routine.ofExcept_ok, pure_bind] at goesOn
  have whole := groupsOf_flatten positive indexable
  have proper : ∀ group ∈ groupsOf x.size indexable, group ≠ [] ∧ ∀ record ∈ group, isIndexable record = .ok true := by
    refine fun group inside => ⟨(mem_groupsOf inside).1, fun record member => (shown record ?_).2⟩
    rw [← whole]
    exact List.mem_flatten_of_mem inside member
  obtain ⟨batches, aligned, transferred, ends⟩ := writeGroups_meets proper goesOn meets
  have sized : ∀ b ∈ batches, b.records ∈ groupsOf x.size indexable := by
    intro b inside
    have among := List.mem_map_of_mem (f := Batch.records) inside
    rcases ends with ⟨same, -⟩ | ⟨group, rest, fault, same, -⟩
    · exact same ▸ among
    · exact same ▸ List.mem_append_left _ among
  refine ⟨batches, fun b inside => ⟨aligned b inside, mem_groupsOf (sized b inside)⟩, transferred, ?_⟩
  rw [given, List.flatMap_def, ← whole]
  rcases ends with ⟨same, rfl⟩ | ⟨group, rest, fault, same, read, rfl⟩
  · exact .inl ⟨by rw [same], by rw [Nat.zero_add]⟩
  · exact .inr ⟨group, rest.flatten, fault, by simp [same], read, rfl⟩

/-- When the vector of each text is known, each point is that of its record. -/
theorem Batch.Aligned.exact {b : Batch} (aligned : b.Aligned kind) {encode : Bool → String → Value}
    (encoded : b.vectors = (b.texts.map x.document).map (encode x.normalize)) :
    List.Forall₂ (fun record point => ∃ text, entityText kind record = .ok text ∧
      pointOf kind record (encode x.normalize (x.document text)) = .ok point) b.records b.points := by
  obtain ⟨records, texts, vectors, points⟩ := b
  obtain ⟨read, made⟩ := aligned
  dsimp only at encoded read made ⊢
  subst encoded
  induction read generalizing points with
  | nil =>
    cases made
    exact .nil
  | cons first _ ih =>
    cases made with
    | cons point rest => exact .cons ⟨_, first, point⟩ (ih _ rest)

end Writing

def Transfer.sent? : Transfer → Option (Value × List Point)
  | .sent collection points => some (collection, points)
  | .encoded .. => none

/-- What is sent to a vector server, call by call. -/
def sends (log : List Event) : List (Value × List Point) := (transfers log).filterMap Transfer.sent?

theorem sends_batches {x : Indexing} {collection : Value} {log : List Event} {batches : List Batch}
    (transferred : transfers log = batches.flatMap (·.transfers x collection)) :
    sends log = batches.map fun b => (collection, b.points) := by
  rw [sends, transferred, List.filterMap_flatMap]
  exact List.map_eq_flatMap.symm

/-- How the points of records are written. -/
structure Indexing.Writes (x : Indexing) (kind : Kind) (collection : Value) (records : List Value) (p : Routine Nat) : Prop where
  ends : ∀ c : Conduct, ∃ log result, c.Follows [] log ∧ p.Runs log result
  /-- However many vectors come back, record and vector are at the same place. -/
  aligned : ∀ {log result}, p.Runs log result → (∀ event ∈ log, x.Meets event) →
    ∃ batches, x.Wrote kind collection records log result batches
  /-- While a model gives each text a vector of its own, each record gets the point of its own vector, and the points are counted. -/
  exact : ∀ {encode : Bool → String → Value} {log result}, p.Runs log result → (∀ event ∈ log, x.Meets event) →
    (∀ texts normalize vectors, .encoded texts normalize vectors ∈ transfers log → vectors = texts.map (encode normalize)) →
    (∀ record ∈ records, record.indexable → ∃ text, entityText kind record = .ok text) →
    ∃ groups : List (List Point), sends log = groups.map (collection, ·) ∧
      (∀ points ∈ groups, 1 ≤ points.length ∧ points.length ≤ x.size) ∧
      List.Forall₂ (fun record point => ∃ text, entityText kind record = .ok text ∧
        pointOf kind record (encode x.normalize (x.document text)) = .ok point) (records.filter Value.indexable) groups.flatten ∧
      result = .ok groups.flatten.length
  /-- A text that is encoded alone gets the same vector. -/
  alone : ∀ {encode : Bool → String → Value} {text log result}, (EmbeddingService.encodeDocument x.embedding text).Runs log result →
    (∀ event ∈ log, x.Meets event) →
    (∀ text normalize vector, .hears (.encode text normalize) (.ok vector) ∈ log → vector = encode normalize text) →
    result = (EmbeddingService.journal text).map fun _ => encode x.normalize (x.document text)

theorem encodeDocument_meets {x : Indexing} {encode : Bool → String → Value} {text : Value} {log : List Event}
    {result : Except Fault Value} (runs : (EmbeddingService.encodeDocument x.embedding text).Runs log result)
    (meets : ∀ event ∈ log, x.Meets event)
    (encoded : ∀ text normalize vector, .hears (.encode text normalize) (.ok vector) ∈ log → vector = encode normalize text) :
    result = (EmbeddingService.journal text).map fun _ => encode x.normalize (x.document text) := by
  change (Routine.ofExcept (EmbeddingService.journal text) >>= fun _ => EmbeddingService.load x.embedding >>= fun _ =>
    Routine.view (·.embedding x.embedding) >>= fun service =>
      query (.encode (service.documentPrefix.display ++ text.display) service.normalize)).Runs log result at runs
  cases noted : EmbeddingService.journal text with
  | error fault =>
    rw [noted] at runs
    exact (runs_done.mp runs).2
  | ok =>
    rw [noted, Routine.ofExcept_ok, pure_bind] at runs
    obtain ⟨before, after, tried, rfl, loads, goesOn⟩ := runs_andThen.mp runs
    obtain ⟨-, rfl⟩ := load_meets loads fun event inside => meets event (List.mem_append_left _ inside)
    obtain ⟨m, rest, rfl, asks⟩ := runs_look.mp goesOn
    obtain rfl := runs_query.mp asks
    have answered := meets _ (List.mem_append_right _ (List.mem_cons_of_mem _ (List.mem_cons_self ..)))
    obtain ⟨vector, rfl⟩ := answered
    obtain ⟨-, own, normalized⟩ : x.Meets (.sees m) := meets _ (List.mem_append_right _ (List.mem_cons_self ..))
    have known := encoded _ _ vector (List.mem_append_right _ (List.mem_cons_of_mem _ (List.mem_cons_self ..)))
    rw [known, own, normalized]
    rfl

theorem writeRecords_aligned {x : Indexing} (kind : Kind) (collection : Value) {records : List Value}
    (dicts : ∀ record ∈ records, ∃ entries, record = .dict entries) (positive : 1 ≤ x.size) :
    x.Writes kind collection records (VectorIndex.writeRecords x.index x.embedding kind collection records) where
  ends c := runs_under c [] _
  aligned runs meets := writeRecords_meets dicts positive runs meets
  alone runs meets encoded := encodeDocument_meets runs meets encoded
  exact := by
    intro encode log result runs meets encoded read
    obtain ⟨batches, sound, transferred, whole⟩ := writeRecords_meets dicts positive runs meets
    have exact : ∀ b ∈ batches, List.Forall₂ (fun record point => ∃ text, entityText kind record = .ok text ∧
        pointOf kind record (encode x.normalize (x.document text)) = .ok point) b.records b.points := by
      intro b inside
      refine (sound b inside).1.exact (encoded _ _ _ ?_)
      rw [transferred]
      exact List.mem_flatMap_of_mem inside (List.mem_cons_self ..)
    rcases whole with ⟨whole, rfl⟩ | ⟨group, rest, fault, whole, unread, -⟩
    · refine ⟨batches.map (·.points), ?_, ?_, ?_, ?_⟩
      · rw [sends_batches transferred, List.map_map]
        rfl
      · rintro points among
        obtain ⟨b, inside, rfl⟩ := List.mem_map.mp among
        rw [← (exact b inside).length_eq]
        exact ⟨List.length_pos_iff.mpr (sound b inside).2.1, (sound b inside).2.2⟩
      · rw [whole, ← List.flatMap_def]
        have each : List.Forall₂ (fun a b => a = b ∧ b ∈ batches) batches batches :=
          List.forall₂_same.mpr fun b inside => ⟨rfl, inside⟩
        refine List.rel_flatMap each ?_
        rintro b _ ⟨rfl, inside⟩
        exact exact b inside
      · rw [← List.flatMap_def]
    · obtain ⟨texts, done, -⟩ := mapM_ok (f := entityText kind) (l := group) (Q := fun _ _ => True) fun record inside => by
        have among : record ∈ records.filter Value.indexable := by
          rw [whole]
          exact List.mem_append_left _ (List.mem_append_right _ inside)
        obtain ⟨known, shown⟩ := List.mem_filter.mp among
        exact (read record known shown).imp fun _ made => ⟨made, trivial⟩
      cases done.symm.trans unread

/-- Two records are taken at a time. -/
def Indexing.paired : Indexing := ⟨0, 0, 2, .str "passage: ", true⟩

/-- A memory in which everything is ready for that. -/
def Memory.paired : Memory := { (default : Memory) with
  indexes := [{ (default : VectorIndex) with batchSize := .int 2, isOpen := true }]
  embeddings := [{ (default : EmbeddingService) with documentPrefix := .str "passage: ", normalize := true, loaded := true }] }

def describedClass (name : String) : Value :=
  .record [("id", .str name), ("name", .str name), ("description", .str "Adds up.")]

/-- Three classes, and what is no class. -/
def someClasses : List Value := [describedClass "A", .record [("id", .str "X")], describedClass "B", describedClass "C"]

/-- The point of a class, when what is encoded stands for its own vector. -/
def describedPoint (name : String) : Point where
  id := pointId .classes (.str name)
  vector := .str ("passage: " ++ (name ++ ": Adds up."))
  payload := .record [("entity_id", .str name), ("name", .str name), ("kind", .str Kind.classes.name), ("package_name", .null),
    ("description", .str "Adds up."), ("full_name", .null)]

def pairedWrite (names : List String) : List Event := [.sees .paired, .sees .paired,
  .hears (.encodeBatch (names.map fun name => "passage: " ++ (name ++ ": Adds up.")) 0 true (.bool false))
    (.ok (names.map fun name => .str ("passage: " ++ (name ++ ": Adds up.")))),
  .sees .paired, .hears (.upsert (.str "classes") (names.map describedPoint)) (.ok ())]

theorem writeRecords_paired {records indexable : List Value} {groups : List (List Value)} {log : List Event} {result : Except Fault Nat}
    (kept : records.filterM isIndexable = .ok indexable) (grouped : groupsOf 2 indexable = groups)
    (runs : (VectorIndex.writeGroups 0 0 .classes (.str "classes") 0 groups).Runs log result) :
    (VectorIndex.writeRecords 0 0 .classes (.str "classes") records).Runs (.sees .paired :: log) result := by
  have groups' : groupsBy (Memory.paired.index 0).batchSize indexable = .ok groups := by
    subst grouped
    rfl
  rw [VectorIndex.writeRecords, kept, Routine.ofExcept_ok, pure_bind]
  refine .look ?_
  change (Routine.ofExcept (groupsBy (Memory.paired.index 0).batchSize indexable) >>= fun groups =>
    VectorIndex.writeGroups 0 0 .classes (.str "classes") 0 groups).Runs log result
  rwa [groups', Routine.ofExcept_ok, pure_bind]

theorem writeRecords_aligned_paired : (∀ record ∈ someClasses, ∃ entries, record = .dict entries) ∧ 1 ≤ Indexing.paired.size ∧
    Indexing.paired.Writes .classes (.str "classes") someClasses
      (VectorIndex.writeRecords 0 0 .classes (.str "classes") someClasses) ∧
    (VectorIndex.writeRecords 0 0 .classes (.str "classes") someClasses).Runs
      (.sees .paired :: (pairedWrite ["A", "B"] ++ pairedWrite ["C"])) (.ok 3) ∧
    ∀ event ∈ .sees .paired :: (pairedWrite ["A", "B"] ++ pairedWrite ["C"]), Indexing.paired.Meets event := by
  have dicts : ∀ record ∈ someClasses, ∃ entries, record = .dict entries := by
    simp only [someClasses, List.mem_cons, List.not_mem_nil, or_false]
    rintro record (rfl | rfl | rfl | rfl) <;> exact ⟨_, rfl⟩
  have written : (VectorIndex.writeGroups 0 0 .classes (.str "classes") 0
      [[describedClass "A", describedClass "B"], [describedClass "C"]]).Runs (pairedWrite ["A", "B"] ++ pairedWrite ["C"]) (.ok 3) :=
    .look (.look (.ask (.look (.ask (.look (.look (.ask (.look (.ask .done)))))))))
  have sees : Indexing.paired.Meets (.sees .paired) := ⟨rfl, rfl, rfl⟩
  have meets (names : List String) : ∀ event ∈ pairedWrite names, Indexing.paired.Meets event := by
    simp only [pairedWrite, List.mem_cons, List.not_mem_nil, or_false]
    rintro event (rfl | rfl | rfl | rfl | rfl)
    · exact sees
    · exact sees
    · exact ⟨_, rfl⟩
    · exact sees
    · exact ⟨_, rfl⟩
  have grouped : groupsOf 2 [describedClass "A", describedClass "B", describedClass "C"] =
      [[describedClass "A", describedClass "B"], [describedClass "C"]] := by simp [groupsOf]
  refine ⟨dicts, by decide, writeRecords_aligned .classes _ dicts (by decide), writeRecords_paired rfl grouped written, ?_⟩
  exact List.forall_mem_cons.mpr ⟨sees, List.forall_mem_append.mpr ⟨meets _, meets _⟩⟩

/-- A class of which no description is known, nor what its method is called. -/
def namelessMethod : Value := .record [("id", .str "A"), ("name", .str "A"), ("method_names", .list [.null])]

/-- Nothing fails, and yet nothing is written. -/
theorem writeRecords_unread : namelessMethod.indexable = true ∧ ∃ log fault, (∀ event ∈ log, Indexing.paired.Meets event) ∧
    sends log = [] ∧ (VectorIndex.writeRecords 0 0 .classes (.str "classes") [namelessMethod]).Runs log (.error fault) := by
  have unread : [namelessMethod].mapM (entityText .classes) = .error (.mismatch (.joinItem 0 Value.null.kind)) := rfl
  have stops : (VectorIndex.writeGroups 0 0 .classes (.str "classes") 0 [[namelessMethod]]).Runs []
      (.error (.mismatch (.joinItem 0 Value.null.kind))) := by
    rw [VectorIndex.writeGroups, unread]
    exact .done
  have grouped : groupsOf 2 [namelessMethod] = [[namelessMethod]] := by simp [groupsOf]
  refine ⟨rfl, [.sees .paired], _, ?_, rfl, writeRecords_paired rfl grouped stops⟩
  exact List.forall_mem_singleton.mpr ⟨rfl, rfl, rfl⟩

end CodeAtlas
