import CodeAtlas.Proofs.Graph.Repeat
import CodeAtlas.Proofs.Graph.Rows

namespace CodeAtlas

open CodeAtlas.Graph

/-- A snapshot mentions the nodes of the labels and identities that it speaks of. -/
def Snapshot.Mentions (s : Snapshot) (node : Node) : Prop := ∃ label id, s.Knows label id ∧ node.has label id = true

/-- What a snapshot does not mention is left alone: nodes stay at their places and what they are known
by, edges stay, and what is new is mentioned. -/
structure Snapshot.Spares (s : Snapshot) (g g' : Graph) : Prop where
  nodes : ∀ (place : Nat) (node : Node), g.nodes[place]? = some node → ∃ node', g'.nodes[place]? = some node' ∧
    (∀ label id, node'.has label id = node.has label id) ∧ (¬ s.Mentions node → node' = node)
  edges : g.edges <+: g'.edges
  newNodes : ∀ (place : Nat) (node : Node), g.nodes.length ≤ place → g'.nodes[place]? = some node → s.Mentions node
  newEdges : ∀ edge ∈ g'.edges, edge ∈ g.edges ∨ ∃ source target, g'.nodes[edge.source]? = some source ∧
    g'.nodes[edge.target]? = some target ∧ s.Mentions source ∧ s.Mentions target

namespace Snapshot.Spares

variable {s : Snapshot} {g g' g'' : Graph}

theorem refl (s : Snapshot) (g : Graph) : s.Spares g g where
  nodes _ node found := ⟨node, found, fun _ _ => rfl, fun _ => rfl⟩
  edges := List.prefix_rfl
  newNodes place node after found := by
    rw [List.getElem?_eq_none after] at found
    cases found
  newEdges _ inside := Or.inl inside

/-- A node that is mentioned still is, wherever it went on. -/
theorem mentions (spares : s.Spares g g') {place : Nat} {node : Node} (found : g.nodes[place]? = some node)
    (mentioned : s.Mentions node) : ∃ node', g'.nodes[place]? = some node' ∧ s.Mentions node' := by
  obtain ⟨node', found', known, _⟩ := spares.nodes place node found
  obtain ⟨label, id, knows, has⟩ := mentioned
  exact ⟨node', found', label, id, knows, (known label id).trans has⟩

theorem trans (first : s.Spares g g') (second : s.Spares g' g'') : s.Spares g g'' where
  nodes place node found := by
    obtain ⟨node', found', known, same⟩ := first.nodes place node found
    obtain ⟨node'', found'', known', same'⟩ := second.nodes place node' found'
    refine ⟨node'', found'', fun label id => (known' label id).trans (known label id), fun apart => ?_⟩
    obtain rfl := same apart
    exact same' apart
  edges := first.edges.trans second.edges
  newNodes place node after found := by
    by_cases old : place < g'.nodes.length
    · have found' := List.getElem?_eq_getElem old
      obtain ⟨node'', found'', mentioned⟩ := second.mentions found' (first.newNodes place _ after found')
      rw [found] at found''
      cases found''
      exact mentioned
    · exact second.newNodes place node (by omega) found
  newEdges edge inside := by
    rcases second.newEdges edge inside with between | new
    · rcases first.newEdges edge between with old | ⟨source, target, atSource, atTarget, mentioned, mentioned'⟩
      · exact Or.inl old
      · obtain ⟨source', atSource', mentioned⟩ := second.mentions atSource mentioned
        obtain ⟨target', atTarget', mentioned'⟩ := second.mentions atTarget mentioned'
        exact Or.inr ⟨source', target', atSource', atTarget', mentioned, mentioned'⟩
    · exact Or.inr new

end Snapshot.Spares

theorem Snapshot.Covers.mentions {s : Snapshot} {w : Write} (covers : s.Covers w) {node : Node}
    (means : w.means node = true) : s.Mentions node := by
  unfold Write.means at means
  unfold Snapshot.Covers at covers
  split at means
  next label names merges =>
    rw [merges] at covers
    exact ⟨label, _, covers.2, means⟩
  next => cases means

theorem mem_places {g : Graph} {label : String} {id : Value} {place : Nat} (inside : place ∈ g.places label id) :
    ∃ node, g.nodes[place]? = some node ∧ node.has label id = true := by
  obtain ⟨⟨node, _⟩, member, rfl⟩ := List.mem_map.mp inside
  obtain ⟨stands, has⟩ := List.mem_filter.mp member
  exact ⟨node, List.mem_zipIdx_iff_getElem?.mp stands, has⟩

theorem mem_foldl_join {type : String} {pairs : List (Nat × Nat)} {g : Graph} {edge : Edge}
    (inside : edge ∈ (pairs.foldl (join type) g).edges) :
    edge ∈ g.edges ∨ (edge.source, edge.target) ∈ pairs := by
  induction pairs generalizing g with
  | nil => exact Or.inl inside
  | cons first rest ih =>
    rcases ih inside with before | later
    · unfold join at before
      split at before
      · exact Or.inl before
      · rcases List.mem_append.mp before with old | new
        · exact Or.inl old
        · rw [List.mem_singleton.mp new]
          exact Or.inr (List.mem_cons_self ..)
    · exact Or.inr (List.mem_cons_of_mem _ later)

namespace Snapshot

variable {s : Snapshot} {g : Graph} {w : Write}

theorem spares_node (covers : s.Covers w) (node : w.OfNode) : s.Spares g (g.write w) := by
  have apart : ∀ n, ¬ s.Mentions n → n.take w = n := by
    intro n unmentioned
    rw [Node.take, if_neg fun means => unmentioned (covers.mentions means)]
  cases found : g.nodes.any w.means with
  | true =>
    rw [write_present node found]
    refine ⟨fun place n stands => ?_, List.prefix_rfl, fun place n after stands => ?_, fun edge => Or.inl⟩
    · refine ⟨n.take w, by simp only [List.getElem?_map, stands, Option.map_some], fun label id => ?_, apart n⟩
      exact n.has_take node.leaves label id
    · rw [List.getElem?_eq_none (by simpa using after)] at stands
      cases stands
  | false =>
    rw [write_absent node found]
    refine ⟨fun place n stands => ?_, List.prefix_rfl, fun place n after stands => ?_, fun edge => Or.inl⟩
    · refine ⟨n, ?_, fun _ _ => rfl, fun _ => rfl⟩
      exact (List.getElem?_append_left (List.getElem?_eq_some_iff.mp stands).1).trans stands
    · rw [List.getElem?_append_right after] at stands
      have new := List.mem_singleton.mp (List.mem_of_getElem? stands)
      exact covers.mentions (by rw [new, Node.means_take _ node.leaves, node.means_fresh])

theorem spares_edge (covers : s.Covers w) (edge : w.OfEdge) : s.Spares g (g.write w) := by
  obtain ⟨nodes, longer, _⟩ := write_edge (g := g) edge
  obtain ⟨sourceLabel, type, targetLabel, merges⟩ := edge
  simp only [Covers, merges] at covers
  refine ⟨fun place n stands => ?_, longer, fun place n after stands => ?_, fun e inside => ?_⟩
  · exact ⟨n, nodes ▸ stands, fun _ _ => rfl, fun _ => rfl⟩
  · rw [nodes, List.getElem?_eq_none after] at stands
    cases stands
  · have wrote : g.write w = (g.ends sourceLabel targetLabel w.row).foldl (join type) g := by
      simp only [write, merges, mergeEdge]
    rw [nodes]
    rw [wrote] at inside
    refine (mem_foldl_join inside).imp id fun new => ?_
    obtain ⟨i, source, pair⟩ := List.mem_flatMap.mp new
    obtain ⟨j, target, same⟩ := List.mem_map.mp pair
    cases same
    obtain ⟨n, stands, has⟩ := mem_places source
    obtain ⟨n', stands', has'⟩ := mem_places target
    exact ⟨n, n', stands, stands', ⟨_, _, covers.1, has⟩, ⟨_, _, covers.2, has'⟩⟩

/-- Writes about what a snapshot speaks of spare everything else. -/
theorem spares_writeAll {writes : List Write} (each : ∀ w ∈ writes, s.Covers w ∧ (w.OfNode ∨ w.OfEdge)) (g : Graph) :
    s.Spares g (g.writeAll writes) := by
  induction writes generalizing g with
  | nil => exact .refl s g
  | cons w rest ih =>
    obtain ⟨covers, kind⟩ := each w (by simp)
    have first : s.Spares g (g.write w) := kind.elim (spares_node covers) (spares_edge covers)
    exact first.trans (ih (fun w' inside => each w' (by simp [inside])) _)

end Snapshot

end CodeAtlas
