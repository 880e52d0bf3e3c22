import LabTether.GroupStore

/-!
What an API key with an asset allowlist sees of the groups (`AccessibleGroupIDs` of
`internal/hubapi/shared/asset_authorization.go` and `filterGroupTreeForAccess` of
`internal/hubapi/resources/group_authorization.go`). The maps of the source are functions, the
last entry of a key being the one that counts; the allowlist of the context is an argument.
-/
namespace LabTether.GroupAccess

open GoStrings Groups Forest List

structure Asset where
  (id groupID : String)

def assetAllowed (allowedAssets : List String) (assetID : String) : Bool :=
  allowedAssets.isEmpty || allowedAssets.contains assetID

/-- The entry of `parents`, and the empty string when there is none. -/
def parents (groupList : List Group) (groupID : String) : String :=
  ((groupList.reverse.find? fun g => trimSpace g.id = groupID).map
    fun g => trimSpace g.parentGroupID).getD ""

section

variable (groupList : List Group)

theorem parents_mem {groupList : List Group} {groupID : String}
    (h : parents groupList groupID ≠ "") : ∃ g ∈ groupList, trimSpace g.id = groupID := by
  unfold parents at h
  cases hfind : groupList.reverse.find? fun g => trimSpace g.id = groupID with
  | none => exact absurd (by rw [hfind]; rfl) h
  | some g =>
    exact ⟨g, mem_reverse.1 (mem_of_find?_eq_some hfind), by simpa using find?_some hfind⟩

/-- The groups that one asset is counted for: its own and those on the way up, each once. -/
def ancestorWalk (visited : List String) (groupID : String) : List String :=
  if groupID = "" ∨ groupID ∈ visited then visited
  else ancestorWalk (groupID :: visited) (parents groupList groupID)
termination_by (groupList.filter fun g => trimSpace g.id ∉ visited).length +
  if groupID = "" then 0 else 1
decreasing_by
  rename_i h
  obtain ⟨hne, hnew⟩ := not_or.1 h
  rw [if_neg hne]
  have hsub : (groupList.filter fun g => decide (trimSpace g.id ∉ groupID :: visited)).Sublist
      (groupList.filter fun g => decide (trimSpace g.id ∉ visited)) :=
    monotone_filter_right _ fun g hg => by simp_all
  split
  · exact Nat.lt_succ_of_le hsub.length_le
  next hparent =>
    -- the group is listed, so it was one of those not visited yet
    obtain ⟨g, hg, hid⟩ := parents_mem hparent
    refine Nat.succ_lt_succ (lt_of_le_of_ne hsub.length_le fun heq => ?_)
    have hmem : g ∈ groupList.filter fun g => decide (trimSpace g.id ∉ visited) := by
      simp [hg, hid, hnew]
    rw [← hsub.eq_of_length heq] at hmem
    simp [hid] at hmem

def parentLink (groupID : String) : Option String :=
  if parents groupList groupID = "" then none else some (parents groupList groupID)

variable {groupList} {visited : List String} {groupID : String}

theorem parentLink_eq_some {w : String} :
    parentLink groupList groupID = some w ↔ parents groupList groupID = w ∧ w ≠ "" := by
  unfold parentLink
  split
  · simp_all
  next h =>
    rw [Option.some.injEq]
    exact ⟨fun heq => ⟨heq, heq ▸ h⟩, And.left⟩

theorem ancestorWalk_sound : visited ⊆ ancestorWalk groupList visited groupID ∧
      ∀ x ∈ ancestorWalk groupList visited groupID,
        x ∈ visited ∨ groupID ≠ "" ∧ Reaches (parentLink groupList) groupID x := by
  fun_induction ancestorWalk groupList visited groupID with
  | case1 visited groupID hstop => exact ⟨Subset.refl _, fun x hx => .inl hx⟩
  | case2 visited groupID hgo ih =>
    refine ⟨fun v hv => ih.1 (.tail _ hv), fun x hx => ?_⟩
    rcases ih.2 x hx with hin | ⟨hne, hreach⟩
    · rcases mem_cons.1 hin with rfl | hin
      · exact .inr ⟨fun h => hgo (.inl h), .refl⟩
      · exact .inl hin
    · exact .inr ⟨fun h => hgo (.inl h), reaches_of_link (parentLink_eq_some.2 ⟨rfl, hne⟩) hreach⟩

/-- The walk stops only where nothing is left above. -/
theorem ancestorWalk_closed
    (h : ∀ v ∈ visited, ∀ w, parentLink groupList v = some w → w ∈ visited ∨ w = groupID) :
    ∀ v ∈ ancestorWalk groupList visited groupID, ∀ w, parentLink groupList v = some w →
      w ∈ ancestorWalk groupList visited groupID := by
  fun_induction ancestorWalk groupList visited groupID with
  | case1 visited groupID hstop =>
    intro v hv w hw
    rcases h v hv w hw with hin | rfl
    · exact hin
    · exact hstop.resolve_left (parentLink_eq_some.1 hw).2
  | case2 visited groupID hgo ih =>
    refine ih fun v hv w hw => ?_
    rcases mem_cons.1 hv with rfl | hv
    · exact .inr (parentLink_eq_some.1 hw).1.symm
    · rcases h v hv w hw with hin | rfl
      · exact .inl (.tail _ hin)
      · exact .inl (.head _)

theorem length_le_ancestorWalk : visited.length ≤ (ancestorWalk groupList visited groupID).length := by
  fun_induction ancestorWalk groupList visited groupID with
  | case1 visited groupID hstop => exact Nat.le_refl _
  | case2 visited groupID hgo ih => exact Nat.le_of_succ_le ih

theorem ancestorWalk_nodup (h : visited.Nodup) :
    (ancestorWalk groupList visited groupID).Nodup := by
  fun_induction ancestorWalk groupList visited groupID with
  | case1 visited groupID hstop => exact h
  | case2 visited groupID hgo ih => exact ih (nodup_cons.2 ⟨(not_or.1 hgo).2, h⟩)

theorem mem_ancestorWalk {x : String} : x ∈ ancestorWalk groupList [] groupID ↔
    groupID ≠ "" ∧ Reaches (parentLink groupList) groupID x := by
  constructor
  · intro hx
    exact (ancestorWalk_sound.2 x hx).resolve_left not_mem_nil
  rintro ⟨hne, hreach⟩
  have hstart : groupID ∈ ancestorWalk groupList [] groupID := by
    rw [ancestorWalk, if_neg (by simp [hne])]
    exact ancestorWalk_sound.1 (.head _)
  induction hreach with
  | refl => exact hstart
  | tail _ hlink ih => exact ancestorWalk_closed (by simp) _ ih _ hlink

end

section

variable (allowed : List String) (groupList : List Group) (assetList : List Asset)

/-- One turn of the loop over the assets, on `total` and `permitted`. -/
def countAsset (counts : (String → ℕ) × (String → ℕ)) (a : Asset) : (String → ℕ) × (String → ℕ) :=
  let walked := ancestorWalk groupList [] (trimSpace a.groupID)
  let assetAllowed := assetAllowed allowed a.id
  (fun g => if g ∈ walked then counts.1 g + 1 else counts.1 g,
    fun g => if g ∈ walked ∧ assetAllowed then counts.2 g + 1 else counts.2 g)

def accessibleGroupIDs : List String :=
  let ids := (groupList.map fun g => trimSpace g.id).filter (· ≠ "")
  if allowed.isEmpty then ids
  else
    let counts := assetList.foldl (countAsset allowed groupList) (fun _ => 0, fun _ => 0)
    ids.filter fun g => counts.1 g > 0 ∧ counts.1 g = counts.2 g

/-- The asset is of the group or of one below it. -/
def InSubtree (a : Asset) (g : String) : Prop :=
  trimSpace a.groupID ≠ "" ∧ Reaches (parentLink groupList) (trimSpace a.groupID) g

/-- The group is listed and has assets below it, all of which are allowed. -/
def Visible (g : String) : Prop :=
  (∃ e ∈ groupList, trimSpace e.id = g) ∧ (∃ a ∈ assetList, InSubtree groupList a g) ∧
    ∀ a ∈ assetList, InSubtree groupList a g → a.id ∈ allowed

def assetsBelow (g : String) : List Asset :=
  assetList.filter fun a => g ∈ ancestorWalk groupList [] (trimSpace a.groupID)

theorem foldl_countAsset (counts : (String → ℕ) × (String → ℕ)) (g : String) :
    (assetList.foldl (countAsset allowed groupList) counts).1 g =
        counts.1 g + (assetsBelow groupList assetList g).length ∧
      (assetList.foldl (countAsset allowed groupList) counts).2 g =
        counts.2 g + (assetsBelow groupList assetList g).countP (assetAllowed allowed ·.id) := by
  induction assetList generalizing counts with
  | nil => exact ⟨rfl, rfl⟩
  | cons a rest ih =>
    simp only [foldl_cons, ih, assetsBelow, filter_cons, countAsset, decide_eq_true_eq]
    by_cases hwalk : g ∈ ancestorWalk groupList [] (trimSpace a.groupID)
    · by_cases hok : assetAllowed allowed a.id = true <;> simp [hwalk, hok] <;> omega
    · simp [hwalk]

variable {allowed groupList assetList} {g : String} {a : Asset}

theorem mem_assetsBelow :
    a ∈ assetsBelow groupList assetList g ↔ a ∈ assetList ∧ InSubtree groupList a g := by
  rw [assetsBelow, mem_filter, decide_eq_true_eq, mem_ancestorWalk, InSubtree]

theorem InSubtree.ne_blank (h : InSubtree groupList a g) : g ≠ "" := by
  rcases h.2.cases_tail with heq | ⟨_, -, hlink⟩
  · exact heq ▸ h.1
  · exact (parentLink_eq_some.1 hlink).2

theorem mem_accessibleGroupIDs (h : allowed ≠ []) :
    g ∈ accessibleGroupIDs allowed groupList assetList ↔ Visible allowed groupList assetList g := by
  have hcounts := foldl_countAsset allowed groupList assetList (fun _ => 0, fun _ => 0) g
  have hall : ((assetsBelow groupList assetList g).length =
        (assetsBelow groupList assetList g).countP (assetAllowed allowed ·.id)) ↔
      ∀ a ∈ assetList, InSubtree groupList a g → a.id ∈ allowed := by
    rw [eq_comm, countP_eq_length]
    simp [mem_assetsBelow, assetAllowed, h]
  have hsome : 0 < (assetsBelow groupList assetList g).length ↔
      ∃ a ∈ assetList, InSubtree groupList a g := by
    rw [length_pos_iff_exists_mem]
    simp [mem_assetsBelow]
  simp only [Visible, accessibleGroupIDs, List.isEmpty_iff, h, if_false, mem_filter, hcounts,
    decide_eq_true_eq, Nat.zero_add, gt_iff_lt, hall, hsome, mem_map, ne_eq, and_assoc]
  refine and_congr_right fun _ => ⟨And.right, fun hg => ⟨?_, hg⟩⟩
  obtain ⟨a, -, hin⟩ := hg.1
  exact hin.ne_blank

/-- A key with an allowlist sees the groups with assets below them that are all allowed. With
more assets it sees no group less, and of a group it sees, every subgroup with assets. -/
theorem accessible_groups_exact (allowed more : List String) (groupList : List Group)
    (assetList : List Asset) (h : allowed ≠ []) :
    (∀ g, g ∈ accessibleGroupIDs allowed groupList assetList ↔
      Visible allowed groupList assetList g) ∧
    (allowed ⊆ more → accessibleGroupIDs allowed groupList assetList ⊆
      accessibleGroupIDs more groupList assetList) ∧
    ∀ g ∈ accessibleGroupIDs allowed groupList assetList,
      ∀ sub, Reaches (parentLink groupList) sub g → (∃ a ∈ assetList, InSubtree groupList a sub) →
        sub ∈ accessibleGroupIDs allowed groupList assetList := by
  refine ⟨fun g => mem_accessibleGroupIDs h, fun hmore g hg => ?_, fun g hg sub hsub hassets => ?_⟩
  · have hne : more ≠ [] := fun hnil => h (eq_nil_of_subset_nil (hnil ▸ hmore))
    obtain ⟨hlisted, hassets, hall⟩ := (mem_accessibleGroupIDs h).1 hg
    exact (mem_accessibleGroupIDs hne).2 ⟨hlisted, hassets, fun a ha hin => hmore (hall a ha hin)⟩
  obtain ⟨hlisted, -, hall⟩ := (mem_accessibleGroupIDs h).1 hg
  refine (mem_accessibleGroupIDs h).2 ⟨?_, hassets, fun a ha hin =>
    hall a ha ⟨hin.1, hin.2.trans hsub⟩⟩
  rcases hsub.cases_head with rfl | ⟨up, hlink, -⟩
  · exact hlisted
  · obtain ⟨hup, hne⟩ := parentLink_eq_some.1 hlink
    exact parents_mem (hup ▸ hne)

theorem accessible_groups_more :
    let groupList := [⟨"rack", "", "", "", "", 0, "", ""⟩]
    accessibleGroupIDs ["nas"] groupList [⟨"nas", "rack"⟩] ⊆
      accessibleGroupIDs ["ups", "nas"] groupList [⟨"nas", "rack"⟩] :=
  (accessible_groups_exact ["nas"] ["ups", "nas"] _ _ (by decide)).2.1 (by simp)

end

inductive TreeNode
  | mk (group : Group) (children : List TreeNode) (depth : ℕ)

section

variable (accessible : List String)

mutual

/-- One turn of the loop of `filterGroupTreeLevel`. -/
def filterNode (parentID : String) (depth : ℕ) : TreeNode → List TreeNode
  | .mk group children _ =>
    let groupID := trimSpace group.id
    if groupID ∉ accessible then filterGroupTreeLevel parentID depth children
    else [.mk { group with parentGroupID := parentID }
      (filterGroupTreeLevel groupID (depth + 1) children) depth]

def filterGroupTreeLevel (parentID : String) (depth : ℕ) : List TreeNode → List TreeNode
  | [] => []
  | node :: nodes => filterNode parentID depth node ++ filterGroupTreeLevel parentID depth nodes

end

def filterGroupTreeForAccess (nodes : List TreeNode) : List TreeNode :=
  filterGroupTreeLevel accessible "" 0 nodes

/-- A group with the depth noted at it and the ids above it, the nearest first. -/
structure Place where
  group : Group
  depth : ℕ
  above : List String

mutual

def preorderNode (above : List String) : TreeNode → List Place
  | .mk group children depth =>
    ⟨group, depth, above⟩ :: preorder (trimSpace group.id :: above) children

def preorder (above : List String) : List TreeNode → List Place
  | [] => []
  | node :: nodes => preorderNode above node ++ preorder above nodes

end

def Place.seen (p : Place) : Place :=
  let above := p.above.filter (· ∈ accessible)
  ⟨{ p.group with parentGroupID := above.headD "" }, above.length, above⟩

def seenPlaces (places : List Place) : List Place :=
  (places.filter (trimSpace ·.group.id ∈ accessible)).map (Place.seen accessible)

theorem seenPlaces_append (l l' : List Place) :
    seenPlaces accessible (l ++ l') = seenPlaces accessible l ++ seenPlaces accessible l' := by
  simp [seenPlaces]

theorem preorder_append (above : List String) (l l' : List TreeNode) :
    preorder above (l ++ l') = preorder above l ++ preorder above l' := by
  induction l with
  | nil => rfl
  | cons node l ih => simp [preorder, ih]

mutual

theorem preorder_filterNode (above : List String) (node : TreeNode) :
    preorder (above.filter (· ∈ accessible)) (filterNode accessible
        ((above.filter (· ∈ accessible)).headD "") (above.filter (· ∈ accessible)).length node) =
      seenPlaces accessible (preorderNode above node) := by
  obtain ⟨group, children, depth⟩ := node
  have ih := preorder_filterLevel (trimSpace group.id :: above) children
  rw [filterNode, preorderNode]
  split
  next hout =>
    rw [filter_cons_of_neg (by simpa using hout)] at ih
    rw [ih]
    simp [seenPlaces, hout]
  next hin =>
    rw [not_not] at hin
    rw [filter_cons_of_pos (by simpa using hin)] at ih
    simpa [preorder, preorderNode, seenPlaces, Place.seen, hin] using ih

theorem preorder_filterLevel (above : List String) (nodes : List TreeNode) :
    preorder (above.filter (· ∈ accessible)) (filterGroupTreeLevel accessible
        ((above.filter (· ∈ accessible)).headD "") (above.filter (· ∈ accessible)).length nodes) =
      seenPlaces accessible (preorder above nodes) := by
  cases nodes with
  | nil => rfl
  | cons node nodes =>
    rw [filterGroupTreeLevel, preorder_append, preorder_filterNode above node,
      preorder_filterLevel above nodes, preorder, seenPlaces_append]

end

/-- The filtered tree has the accessible groups in preorder, each under its nearest accessible
ancestor and as deep as there are accessible ancestors, and no id of another group. -/
theorem filtered_tree_exact (accessible : List String) (nodes : List TreeNode) :
    preorder [] (filterGroupTreeForAccess accessible nodes) =
        seenPlaces accessible (preorder [] nodes) ∧
      ∀ p ∈ preorder [] (filterGroupTreeForAccess accessible nodes),
        trimSpace p.group.id ∈ accessible ∧
          (p.group.parentGroupID = "" ∨ p.group.parentGroupID ∈ accessible) := by
  have htree : preorder [] (filterGroupTreeForAccess accessible nodes) =
      seenPlaces accessible (preorder [] nodes) := preorder_filterLevel accessible [] nodes
  refine ⟨htree, fun p hp => ?_⟩
  rw [htree, seenPlaces, mem_map] at hp
  obtain ⟨q, hq, rfl⟩ := hp
  refine ⟨of_decide_eq_true (mem_filter.1 hq).2, ?_⟩
  simp only [Place.seen]
  cases habove : q.above.filter (· ∈ accessible) with
  | nil => exact .inl rfl
  | cons id rest =>
    have hid : id ∈ q.above.filter (· ∈ accessible) := habove ▸ .head _
    exact .inr (of_decide_eq_true (mem_filter.1 hid).2)

end

end LabTether.GroupAccess
