import LabTether.Impact

/-!
`Descendants` and `Ancestors` of `internal/persistence/postgres_edges_store.go`: the recursive
query of the dependency store over the accepted containment edges, where the answer lists every
row. The asset of a row is not among its visited ones in the source; as the ends of an edge
differ, the join is the same.
-/
namespace LabTether.Containment

open Impact List

inductive Origin
  | auto
  | manual
  | suggested
  | dismissed
deriving DecidableEq

structure Edge extends Dependency where
  origin : Origin

structure TreeNode where
  assetID : String
  depth : ℕ
deriving DecidableEq

open TreeNode

def containmentRelTypes : List String := ["contains", "runs_on", "hosted_on"]

def children : Query :=
  { downstream with directions := [.upstream, .downstream, .bidirectional] }

def parents : Query := { upstream with directions := [.upstream, .downstream, .bidirectional] }

section

variable (edges : List Edge)

def acceptedEdges : List Dependency :=
  (edges.filter fun e => e.relationshipType ∈ containmentRelTypes ∧
    e.origin ∉ [.suggested, .dismissed]).map Edge.toDependency

def tree (q : Query) (assetID : String) (maxDepth : Int) : List TreeNode :=
  ((range (depthLimit maxDepth)).flatMap (q.rows (acceptedEdges edges) assetID)).map
    fun r => ⟨r.assetID, r.depth⟩

def descendants := tree edges children

def ancestors (assetID : String) (maxDepth : Int) : List TreeNode :=
  (tree edges parents assetID maxDepth).mergeSort fun x y => y.depth ≤ x.depth

/-- So many accepted edges lead from one asset to the other. -/
inductive Walk (start : String) : String → ℕ → Prop
  | first {b : String} (h : children.Link (acceptedEdges edges) start b) : Walk start b 1
  | next {b c : String} {n : ℕ} (h : Walk start b n)
      (hlink : children.Link (acceptedEdges edges) b c) : Walk start c (n + 1)

structure Exact : Prop where
  reached : ∀ a maxDepth b, b ∈ (descendants edges a maxDepth).map assetID ↔
    b ≠ a ∧ ∃ n ≤ depthLimit maxDepth, Walk edges a b n
  once : ∀ a maxDepth, ((descendants edges a maxDepth).map assetID).Nodup
  shortest : ∀ a maxDepth, ∀ x ∈ descendants edges a maxDepth, ∀ n,
    Walk edges a x.assetID n → x.depth ≤ n
  converse : ∀ a maxDepth b depth,
    ⟨b, depth⟩ ∈ descendants edges a maxDepth ↔ ⟨a, depth⟩ ∈ ancestors edges b maxDepth

/-- No two accepted edges have the same ends, and no two ways of at most 20 edges do. -/
structure Single : Prop where
  parallel : (acceptedEdges edges).Pairwise fun d e =>
    d.sourceAssetID = e.sourceAssetID → d.targetAssetID ≠ e.targetAssetID
  ways : ∀ a r r', Way children (acceptedEdges edges) a r →
    Way children (acceptedEdges edges) a r' → r.assetID = r'.assetID → r.depth ≤ 20 →
    r'.depth ≤ 20 → r.visited = r'.visited

end

variable {edges : List Edge} {q : Query} {deps : List Dependency} {a b : String} {maxDepth : Int}
  {r : Row} {x : TreeNode}

theorem mem_tree : x ∈ tree edges q a maxDepth ↔ ∃ r, (Way q (acceptedEdges edges) a r ∧
    r.depth ≤ depthLimit maxDepth) ∧ ⟨r.assetID, r.depth⟩ = x := by
  simp only [tree, mem_map, mem_flatMap_rows]

theorem walk_of_way (h : Way children (acceptedEdges edges) a r) :
    Walk edges a r.assetID r.depth := by
  induction h with
  | first hd h => exact .first ⟨_, hd, h, rfl⟩
  | next _ hd hnear _ ih => exact .next ih ⟨_, hd, hnear, rfl⟩

theorem way_of_visited (h : Way q deps a r) (hb : b ∈ r.visited) (hne : b ≠ a) :
    ∃ r', Way q deps a r' ∧ r'.assetID = b ∧ r'.depth ≤ r.depth := by
  induction h with
  | @first d hd h =>
    obtain rfl | hb := mem_cons.1 hb
    · exact ⟨_, .first hd h, rfl, Nat.le_refl _⟩
    · exact absurd (mem_singleton.1 hb) hne
  | @next r d h hd hnear hnew ih =>
    obtain rfl | hb := mem_cons.1 hb
    · exact ⟨_, .next h hd hnear hnew, rfl, Nat.le_refl _⟩
    · obtain ⟨r', h', hid, hle⟩ := ih hb
      exact ⟨r', h', hid, Nat.le_succ_of_le hle⟩

/-- A walk that ends elsewhere is no shorter than some way that meets no asset twice. -/
theorem Walk.way {n : ℕ} (h : Walk edges a b n) (hne : b ≠ a) :
    ∃ r, Way children (acceptedEdges edges) a r ∧ r.assetID = b ∧ r.depth ≤ n := by
  induction h with
  | first h =>
    obtain ⟨d, hd, hnear, rfl⟩ := h
    exact ⟨_, .first hd hnear, rfl, Nat.le_refl _⟩
  | @next b c n h hlink ih =>
    obtain ⟨d, hd, hnear, rfl⟩ := hlink
    by_cases hb : b = a
    · exact ⟨_, .first hd (hnear.trans hb), rfl, Nat.le_add_left _ _⟩
    obtain ⟨r, hr, rfl, hle⟩ := ih hb
    by_cases hold : children.far d ∈ r.visited
    · obtain ⟨r', hr', hid, hle'⟩ := way_of_visited hr hold hne
      exact ⟨r', hr', hid, by omega⟩
    · exact ⟨_, .next hr hd hnear hold, rfl, Nat.succ_le_succ hle⟩

theorem mem_descendants_iff (a : String) (maxDepth : Int) (b : String) :
    b ∈ (descendants edges a maxDepth).map assetID ↔
      b ≠ a ∧ ∃ n ≤ depthLimit maxDepth, Walk edges a b n := by
  rw [mem_map]
  constructor
  · rintro ⟨x, hx, rfl⟩
    obtain ⟨r, ⟨hr, hlimit⟩, rfl⟩ := mem_tree.1 hx
    exact ⟨start_not_listed (mem_impact.2 ⟨r, hr, hlimit, rfl⟩), r.depth, hlimit, walk_of_way hr⟩
  · rintro ⟨hne, n, hn, h⟩
    obtain ⟨r, hr, rfl, hle⟩ := h.way hne
    exact ⟨_, mem_tree.2 ⟨r, ⟨hr, Nat.le_trans hle hn⟩, rfl⟩, rfl⟩

theorem tree_back {q' : Query} {depth : ℕ}
    (hlink : ∀ x y, q.Link (acceptedEdges edges) x y → q'.Link (acceptedEdges edges) y x)
    (h : ⟨b, depth⟩ ∈ tree edges q a maxDepth) : ⟨a, depth⟩ ∈ tree edges q' b maxDepth := by
  obtain ⟨r, ⟨hr, hlimit⟩, heq⟩ := mem_tree.1 h
  obtain ⟨rfl, rfl⟩ := mk.inj heq
  obtain ⟨r', hr', hid, hdepth, -⟩ := hr.back hlink
  exact mem_tree.2 ⟨r', ⟨hr', hdepth ▸ hlimit⟩, by rw [hid, hdepth]⟩

theorem length_visited (h : Way q deps a r) : r.visited.length = r.depth + 1 := by
  induction h with
  | first => rfl
  | next _ _ _ _ ih => exact congrArg Nat.succ ih

theorem visited_rows (hdeps : deps.Pairwise fun d e => q.near d = q.near e → q.far d ≠ q.far e)
    (n : ℕ) : ((range n).flatMap (q.rows deps a)).Pairwise (·.visited ≠ ·.visited) := by
  have hjoin : ∀ p b depth visited, (∀ d, p d = true → q.near d = b) →
      (((q.edges deps).filter p).map (q.row · depth visited)).Pairwise (·.visited ≠ ·.visited) := by
    intro p b depth visited hp
    refine pairwise_map.2 (pairwise_filter.2 ((hdeps.filter _).imp fun hne hd he heq => ?_))
    exact hne ((hp _ hd).trans (hp _ he).symm) (cons.inj heq).1
  refine pairwise_flatMap.2 ⟨fun n hn => ?_, nodup_range.imp fun hne x hx y hy heq => ?_⟩
  · clear hn
    induction n with
    | zero => exact hjoin _ a 1 [a] fun d hd => of_decide_eq_true hd
    | succ n ih =>
      refine pairwise_flatMap.2 ⟨fun t _ => hjoin _ t.assetID _ _ fun d hd =>
        (of_decide_eq_true hd).1, ih.imp fun hne x hx y hy heq => ?_⟩
      obtain ⟨d, -, rfl⟩ := mem_map.1 hx
      obtain ⟨e, -, rfl⟩ := mem_map.1 hy
      exact hne (cons.inj heq).2
  · obtain ⟨hx, hdepth⟩ := mem_rows.1 hx
    obtain ⟨hy, hdepth'⟩ := mem_rows.1 hy
    have := congrArg length heq
    rw [length_visited hx, length_visited hy] at this
    omega

theorem Single.once (h : Single edges) (a : String) (maxDepth : Int) :
    ((descendants edges a maxDepth).map assetID).Nodup := by
  refine pairwise_map.2 (pairwise_map.2 ?_)
  refine (visited_rows h.parallel _).imp_of_mem fun hx hy hne heq => hne ?_
  obtain ⟨hx, hlimit⟩ := mem_flatMap_rows.1 hx
  obtain ⟨hy, hlimit'⟩ := mem_flatMap_rows.1 hy
  exact h.ways a _ _ hx hy heq (Nat.le_trans hlimit depthLimit_pos.2)
    (Nat.le_trans hlimit' depthLimit_pos.2)

theorem shortest_of_once {n : ℕ} (h : ((descendants edges a maxDepth).map assetID).Nodup)
    (hx : x ∈ descendants edges a maxDepth) (hwalk : Walk edges a x.assetID n) : x.depth ≤ n := by
  obtain ⟨hne, -⟩ := (mem_descendants_iff a maxDepth x.assetID).1 (mem_map_of_mem hx)
  obtain ⟨r, hr, hid, hle⟩ := hwalk.way hne
  obtain ⟨r', ⟨-, hlimit⟩, rfl⟩ := mem_tree.1 hx
  by_cases hfar : r.depth ≤ depthLimit maxDepth
  · have hsame := inj_on_of_nodup_map h hx (mem_tree.2 ⟨r, ⟨hr, hfar⟩, rfl⟩) hid.symm
    exact Nat.le_trans (Nat.le_of_eq (congrArg depth hsame)) hle
  · exact Nat.le_trans hlimit (by omega)

/-- The answers are exact when there is one way between two assets, and only then. -/
theorem containment_exact_iff (edges : List Edge) : Exact edges ↔ Single edges := by
  refine ⟨fun h => ⟨?_, fun a r r' hr hr' heq hle hle' => ?_⟩, fun h => ⟨mem_descendants_iff, h.once,
    fun a maxDepth x hx n => shortest_of_once (h.once a maxDepth) hx, fun a maxDepth b depth => ?_⟩⟩
  · refine pairwise_iff_forall_sublist.2 fun {d e} hsub hnear hfar => ?_
    have honce : (((children.edges (acceptedEdges edges)).filter
      (·.sourceAssetID = d.sourceAssetID)).map Dependency.targetAssetID).Nodup := by
      have hrows := h.once d.sourceAssetID 1
      rwa [descendants, tree, show range (depthLimit 1) = [0] from rfl, flatMap_singleton, Query.rows,
        map_map, map_map] at hrows
    have hpair := honce.sublist (((hsub.filter _).filter _).map _)
    have hall : ∀ d, d ∈ children.directions := fun d => by cases d <;> decide
    simp [hall, hnear, hfar] at hpair
  · have honce := h.once a 20
    rw [descendants, tree, map_map] at honce
    exact congrArg Row.visited (inj_on_of_nodup_map honce (mem_flatMap_rows.2 ⟨hr, hle⟩)
      (mem_flatMap_rows.2 ⟨hr', hle'⟩) heq)
  · unfold ancestors
    rw [mem_mergeSort]
    exact ⟨tree_back fun x y => .imp fun d => .imp_right .symm,
      tree_back fun x y => .imp fun d => .imp_right .symm⟩

/-- Two edges between a host and a VM list the VM twice. -/
theorem containment_parallel :
    let edges := [⟨⟨"host", "vm", "contains", .downstream, "medium", by decide⟩, .auto⟩,
      ⟨⟨"host", "vm", "runs_on", .downstream, "medium", by decide⟩, .manual⟩]
    descendants edges "host" 5 = [⟨"vm", 1⟩, ⟨"vm", 1⟩] ∧ ¬ Exact edges := by
  refine ⟨by decide +kernel, fun h => ?_⟩
  have := h.once "host" 5
  revert this
  decide +kernel

end LabTether.Containment
