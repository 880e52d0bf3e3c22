import Mathlib

/-!
`BlastRadius` and `UpstreamCauses` of `internal/persistence/postgres_dependencies_store.go`. A
turn of the recursive query joins the rows of the turn before; visited assets are kept newest
first.
-/
namespace LabTether.Impact

open List

inductive Direction
  | upstream
  | downstream
  | bidirectional
deriving DecidableEq

structure Dependency where
  (sourceAssetID targetAssetID relationshipType : String)
  direction : Direction
  criticality : String
  distinct : sourceAssetID ≠ targetAssetID

open Dependency

structure ImpactNode where
  assetID : String
  depth : ℕ
  (relationshipType criticality : String)
deriving DecidableEq

structure Row extends ImpactNode where
  visited : List String

structure Query where
  (near far : Dependency → String)
  directions : List Direction
  apart : ∀ d, far d ≠ near d

open Query

def downstream : Query :=
  ⟨sourceAssetID, targetAssetID, [.downstream, .bidirectional],
    fun d => d.distinct.symm⟩

def upstream : Query :=
  ⟨targetAssetID, sourceAssetID, [.upstream, .bidirectional],
    distinct⟩

def depthLimit (maxDepth : Int) : ℕ :=
  if maxDepth ≤ 0 then 5 else if 20 < maxDepth then 20 else maxDepth.toNat

section

variable (q : Query) (deps : List Dependency) (start : String)

def Query.edges : List Dependency := deps.filter (·.direction ∈ q.directions)

def Query.row (d : Dependency) (depth : ℕ) (visited : List String) : Row :=
  ⟨⟨q.far d, depth, d.relationshipType, d.criticality⟩, q.far d :: visited⟩

def Query.rows : ℕ → List Row
  | 0 => ((q.edges deps).filter (q.near · = start)).map (q.row · 1 [start])
  | n + 1 => (rows n).flatMap fun r =>
      ((q.edges deps).filter fun d => q.near d = r.assetID ∧ q.far d ∉ r.visited).map
        (q.row · (r.depth + 1) r.visited)

/-- The rows have depths from 1 on, and those below the limit are joined. -/
def Query.impact (maxDepth : Int) : List ImpactNode :=
  (((range (depthLimit maxDepth)).flatMap (q.rows deps start)).map Row.toImpactNode).dedup

def Query.Link (x y : String) : Prop := ∃ d ∈ q.edges deps, q.near d = x ∧ q.far d = y

/-- The rows for the ways from the start that meet no asset twice. -/
inductive Way : Row → Prop
  | first {d : Dependency} (hd : d ∈ q.edges deps) (h : q.near d = start) : Way (q.row d 1 [start])
  | next {r : Row} {d : Dependency} (h : Way r) (hd : d ∈ q.edges deps)
      (hnear : q.near d = r.assetID) (hnew : q.far d ∉ r.visited) :
      Way (q.row d (r.depth + 1) r.visited)

def Listed (nodes : List ImpactNode) (assetID : String) (depth : ℕ) : Prop :=
  ∃ x ∈ nodes, x.assetID = assetID ∧ x.depth = depth

end

def blastRadius := downstream.impact

def upstreamCauses := upstream.impact

/-- The two queries are converses of each other, a bidirectional dependency counts from its
target too, and each asset is listed once with its distance. -/
structure TwoSided (deps : List Dependency) : Prop where
  converse : ∀ a b maxDepth depth, Listed (blastRadius deps a maxDepth) b depth ↔
    Listed (upstreamCauses deps b maxDepth) a depth
  eitherEnd : ∀ d ∈ deps, d.direction = .bidirectional → ∀ maxDepth,
    Listed (blastRadius deps d.targetAssetID maxDepth) d.sourceAssetID 1
  once : ∀ q ∈ [downstream, upstream], ∀ a maxDepth,
    ((q.impact deps a maxDepth).map ImpactNode.assetID).Nodup
  shortest : ∀ q ∈ [downstream, upstream], ∀ a maxDepth, ∀ x ∈ q.impact deps a maxDepth,
    ∀ r, Way q deps a r → r.assetID = x.assetID → x.depth ≤ r.depth

/-- The two queries follow the same links, each bidirectional dependency has a converse, and two
ways of at most 20 steps between two assets have one length and end in the same relationship. -/
structure Balanced (deps : List Dependency) : Prop where
  mirrored : ∀ x y, downstream.Link deps x y ↔ upstream.Link deps y x
  returned : ∀ d ∈ deps, d.direction = .bidirectional →
    downstream.Link deps d.targetAssetID d.sourceAssetID
  oneWay : ∀ q ∈ [downstream, upstream], ∀ a r r', Way q deps a r → Way q deps a r' →
    r.assetID = r'.assetID → r.depth ≤ 20 → r'.depth ≤ 20 → r.toImpactNode = r'.toImpactNode

variable {q : Query} {deps : List Dependency} {a b : String} {maxDepth : Int} {r : Row}

theorem mem_rows {n : ℕ} : r ∈ q.rows deps a n ↔ Way q deps a r ∧ r.depth = n + 1 := by
  induction n generalizing r with
  | zero =>
    simp only [rows, mem_map, mem_filter, decide_eq_true_eq]
    constructor
    · rintro ⟨d, ⟨hd, h⟩, rfl⟩
      exact ⟨.first hd h, rfl⟩
    · intro ⟨h, hdepth⟩
      cases h with
      | first hd h => exact ⟨_, ⟨hd, h⟩, rfl⟩
      | next h => cases h <;> cases hdepth
  | succ n ih =>
    simp only [rows, mem_flatMap, mem_map, mem_filter, decide_eq_true_eq, ih]
    constructor
    · rintro ⟨r, ⟨h, hdepth⟩, d, ⟨hd, hnear, hnew⟩, rfl⟩
      exact ⟨.next h hd hnear hnew, congrArg Nat.succ hdepth⟩
    · intro ⟨h, hdepth⟩
      cases h with
      | first => cases hdepth
      | next h hd hnear hnew => exact ⟨_, ⟨h, Nat.succ.inj hdepth⟩, _, ⟨hd, hnear, hnew⟩, rfl⟩

theorem Way.start_mem (h : Way q deps a r) : a ∈ r.visited := by
  induction h with
  | first => exact .tail _ (.head _)
  | next _ _ _ _ ih => exact .tail _ ih

theorem Way.depth_pos (h : Way q deps a r) : 1 ≤ r.depth := by
  cases h with
  | first => exact Nat.le_refl _
  | next => exact Nat.le_add_left _ _

theorem mem_flatMap_rows {limit : ℕ} :
    r ∈ (range limit).flatMap (q.rows deps a) ↔ Way q deps a r ∧ r.depth ≤ limit := by
  simp only [mem_flatMap, mem_range, mem_rows]
  constructor
  · rintro ⟨n, hn, h, hdepth⟩
    exact ⟨h, by omega⟩
  · rintro ⟨h, hdepth⟩
    have := h.depth_pos
    exact ⟨r.depth - 1, by omega, h, by omega⟩

variable {x : ImpactNode}

theorem mem_impact : x ∈ q.impact deps a maxDepth ↔
    ∃ r, Way q deps a r ∧ r.depth ≤ depthLimit maxDepth ∧ r.toImpactNode = x := by
  simp only [impact, mem_dedup, mem_map, mem_flatMap_rows, and_assoc]

/-- A way may start one step earlier, at an asset it does not meet. -/
theorem Way.earlier (h : Way q deps b r) (hlink : q.Link deps a b)
    (ha : a ∉ r.visited) : ∃ r', Way q deps a r' ∧ r'.assetID = r.assetID ∧
      r'.depth = r.depth + 1 ∧ r'.visited = r.visited ++ [a] := by
  induction h with
  | @first d hd h =>
    obtain ⟨e, he, hnear, rfl⟩ := hlink
    refine ⟨_, .next (.first he hnear) hd h ?_, rfl, rfl, rfl⟩
    have := q.apart d
    simp_all [row, eq_comm]
  | @next r d _ hd hnear hnew ih =>
    obtain ⟨hne, ha⟩ := not_or.1 (mt mem_cons.2 ha)
    obtain ⟨r', h', hid, hdepth, hvisited⟩ := ih ha
    refine ⟨_, .next h' hd (hnear.trans hid.symm) ?_, rfl, congrArg Nat.succ hdepth,
      congrArg (cons _) hvisited⟩
    simp [hvisited, hnew, Ne.symm hne]

theorem Way.back {q' : Query} (hlink : ∀ x y, q.Link deps x y → q'.Link deps y x)
    (h : Way q deps a r) : ∃ r', Way q' deps r.assetID r' ∧ r'.assetID = a ∧
      r'.depth = r.depth ∧ r'.visited = r.visited.reverse := by
  induction h with
  | @first d hd h =>
    obtain ⟨e, he, hnear, hfar⟩ := hlink _ _ ⟨d, hd, h, rfl⟩
    exact ⟨_, .first he hnear, hfar, rfl, by rw [row, hfar]; rfl⟩
  | @next r d _ hd hnear hnew ih =>
    obtain ⟨r', h', hid, hdepth, hvisited⟩ := ih
    obtain ⟨r'', h'', hid', hdepth', hvisited'⟩ :=
      h'.earlier (hlink _ _ ⟨d, hd, hnear, rfl⟩) (by simpa [hvisited] using hnew)
    refine ⟨r'', h'', hid'.trans hid, hdepth'.trans (congrArg Nat.succ hdepth), ?_⟩
    rw [hvisited', hvisited, row, reverse_cons]

theorem Listed.back {q' : Query} (hlink : ∀ x y, q.Link deps x y → q'.Link deps y x) {depth : ℕ}
    (h : Listed (q.impact deps a maxDepth) b depth) :
    Listed (q'.impact deps b maxDepth) a depth := by
  obtain ⟨_, hx, rfl, rfl⟩ := h
  obtain ⟨r, hr, hlimit, rfl⟩ := mem_impact.1 hx
  obtain ⟨r', hr', hid, hdepth, -⟩ := hr.back hlink
  exact ⟨_, mem_impact.2 ⟨r', hr', hdepth ▸ hlimit, rfl⟩, hid, hdepth⟩

theorem depthLimit_pos : 1 ≤ depthLimit maxDepth ∧ depthLimit maxDepth ≤ 20 := by
  unfold depthLimit
  split_ifs <;> omega

theorem listed_one : Listed (q.impact deps a maxDepth) b 1 ↔ q.Link deps a b := by
  simp only [Listed, mem_impact]
  constructor
  · rintro ⟨_, ⟨r, h, -, rfl⟩, rfl, hdepth⟩
    rcases h with ⟨hd, h⟩ | h
    · exact ⟨_, hd, h, rfl⟩
    have hpos := h.depth_pos
    have hzero := Nat.succ.inj hdepth
    omega
  · rintro ⟨d, hd, h, rfl⟩
    exact ⟨_, ⟨_, .first hd h, depthLimit_pos.1, rfl⟩, rfl, rfl⟩

theorem start_not_listed (hx : x ∈ q.impact deps a maxDepth) : x.assetID ≠ a := by
  obtain ⟨r, h, -, rfl⟩ := mem_impact.1 hx
  cases h with
  | first _ h => exact h ▸ q.apart _
  | next h _ _ hnew =>
    rintro rfl
    exact hnew h.start_mem

theorem Balanced.twoSided (h : Balanced deps) : TwoSided deps where
  converse a b maxDepth depth :=
    ⟨.back fun x y => (h.mirrored x y).1, .back fun y x => (h.mirrored x y).2⟩
  eitherEnd d hd hboth maxDepth := listed_one.2 (h.returned d hd hboth)
  once q hq a maxDepth := by
    refine (nodup_dedup _).map_on fun x hx y hy heq => ?_
    obtain ⟨r, hr, hlimit, rfl⟩ := mem_impact.1 hx
    obtain ⟨r', hr', hlimit', rfl⟩ := mem_impact.1 hy
    exact h.oneWay q hq a r r' hr hr' heq (Nat.le_trans hlimit depthLimit_pos.2)
      (Nat.le_trans hlimit' depthLimit_pos.2)
  shortest q hq a maxDepth x hx r hr heq := by
    obtain ⟨r', hr', hlimit, rfl⟩ := mem_impact.1 hx
    have hle := Nat.le_trans hlimit depthLimit_pos.2
    by_cases hfar : r.depth ≤ 20
    · have := congrArg ImpactNode.depth (h.oneWay q hq a r r' hr hr' heq hfar hle)
      omega
    · omega

/-- The start asset is never listed. The queries are two-sided exactly for balanced dependencies. -/
theorem impact_two_sided_iff (deps : List Dependency) :
    (∀ (q : Query) a maxDepth, ∀ x ∈ q.impact deps a maxDepth, x.assetID ≠ a) ∧
      (TwoSided deps ↔ Balanced deps) := by
  refine ⟨fun q a maxDepth x => start_not_listed, fun h => ⟨fun x y => ?_, fun d hd hboth => ?_,
    fun q hq a r r' hr hr' heq hle hle' => ?_⟩, Balanced.twoSided⟩
  · rw [← listed_one, ← listed_one]
    exact h.converse x y 1 1
  · exact listed_one.1 (h.eitherEnd d hd hboth 1)
  · have hmem : ∀ {r : Row}, Way q deps a r → r.depth ≤ 20 → r.toImpactNode ∈ q.impact deps a 20 :=
      fun hr hle => mem_impact.2 ⟨_, hr, hle, rfl⟩
    exact inj_on_of_nodup_map (h.once q hq a 20) (hmem hr hle) (hmem hr' hle') heq

/-- The VM is listed twice, and the NAS is not among its causes. -/
theorem impact_one_sided :
    let deps := [⟨"nas", "vm", "runs_on", .downstream, "high", by decide⟩,
      ⟨"nas", "vm", "depends_on", .downstream, "low", by decide⟩]
    blastRadius deps "nas" 5 = [⟨"vm", 1, "runs_on", "high"⟩, ⟨"vm", 1, "depends_on", "low"⟩] ∧
      upstreamCauses deps "vm" 5 = [] ∧ ¬ TwoSided deps := by
  refine ⟨by decide +kernel, by decide +kernel, fun h => ?_⟩
  have := h.once downstream (.head _) "nas" 5
  revert this
  decide +kernel

end LabTether.Impact
