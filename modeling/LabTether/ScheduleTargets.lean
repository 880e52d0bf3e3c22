import LabTether.GroupAccess
import LabTether.JobRecords
import LabTether.Transaction

/-!
The assets that a schedule occurrence runs on: `resolveScheduleExecutionTargets`.
The selectors of the occurrence name assets and groups; a group stands for the assets in
it and in the groups below it. The inventory is what the two list queries answered. The
result is what matters to the dispatcher: a sorted list without repetitions, so that each
target is tried once.
-/
namespace LabTether.ScheduleTargets

open GoStrings Transaction Forest GroupAccess List

structure AssetRef where
  (id groupID : String)

structure GroupRef where
  (id parentGroupID : String)

/-- `scheduleDefinitionError`: the occurrence fails without a retry. -/
inductive DefinitionError
  | missing (selector : String)
  | noSelector
  | tooMany
  | noAssets

def maxResolvedScheduleTargets : ℕ := 500

def DefinitionError.text : DefinitionError → String
  | .missing selector => "schedule target \"" ++ selector ++ "\" no longer exists"
  | .noSelector => "schedule has no concrete target or group"
  | .tooMany => "schedule resolves to more than 500 assets"
  | .noAssets => "schedule target groups contain no assets"

variable (assets : List AssetRef) (groups : List GroupRef)

/-- `groupParents[id]`: the last entry under an id counts, and a missing one is empty. -/
def parentOf (id : String) : String :=
  ((groups.reverse.find? fun g => trimSpace g.id = id).map
    fun g => trimSpace g.parentGroupID).getD ""

def isGroup (id : String) : Bool := groups.any fun g => trimSpace g.id = id

def isAsset (id : String) : Bool := assets.any fun a => trimSpace a.id = id

/-- The walk of `groupIsSelected` to the root; it stops at a group it has visited. -/
def groupIsSelectedFrom (selected : List String) : ℕ → List String → String → Bool
  | 0, _, _ => false
  | fuel + 1, visited, id =>
    if id = "" then false
    else if id ∈ selected then true
    else if id ∈ visited then false
    else groupIsSelectedFrom selected fuel (id :: visited) (parentOf groups id)

/-- `groupIsSelected`. Every round visits a group of the inventory, except the first and
the last. -/
def groupIsSelected (selected : List String) (id : String) : Bool :=
  groupIsSelectedFrom groups selected (groups.length + 2) [] id

def selectors (execution : ExecutionJob) : List String :=
  execution.targets ++ if trimSpace execution.groupID = "" then [] else [execution.groupID]

/-- One round of the loop over the selectors: direct assets and selected groups. -/
def classify (found : List String × List String) (selector : String) :
    Except DefinitionError (List String × List String) :=
  let selector := trimSpace selector
  if selector = "" then .ok found
  else if isAsset assets selector then .ok (found.1.insert selector, found.2)
  else if isGroup groups selector then .ok (found.1, found.2.insert selector)
  else .error (.missing selector)

def addGroupAsset (selected : List String) (resolved : List String)
    (asset : AssetRef) : Except DefinitionError (List String) :=
  let groupID := trimSpace asset.groupID
  if groupID = "" ∨ groupIsSelected groups selected groupID = false then .ok resolved
  else if maxResolvedScheduleTargets < (resolved.insert (trimSpace asset.id)).length then
    .error .tooMany
  else .ok (resolved.insert (trimSpace asset.id))

def resolveScheduleExecutionTargets
    (execution : ExecutionJob) : Except DefinitionError (List String) := do
  let found ← (selectors execution).foldlM (classify assets groups) ([], [])
  if found.1 = [] ∧ found.2 = [] then .error .noSelector
  else
    let resolved ← assets.foldlM (addGroupAsset groups found.2) found.1
    if resolved = [] then .error .noAssets
    else .ok (resolved.insertionSort (· ≤ ·))

variable {assets groups}

theorem classify_nodup {found found' : List String × List String} {selector : String}
    (h : classify assets groups found selector = .ok found') (hnd : found.1.Nodup) :
    found'.1.Nodup := by
  unfold classify at h
  dsimp only at h
  split_ifs at h <;> cases h
  · exact hnd
  · exact hnd.insert
  · exact hnd

theorem addGroupAsset_nodup {selected resolved resolved' : List String} {asset : AssetRef}
    (h : addGroupAsset groups selected resolved asset = .ok resolved') (hnd : resolved.Nodup) :
    resolved'.Nodup := by
  unfold addGroupAsset at h
  dsimp only at h
  split_ifs at h <;> cases h
  · exact hnd
  · exact hnd.insert

theorem resolveScheduleExecutionTargets_nodup {execution : ExecutionJob} {targets : List String}
    (h : resolveScheduleExecutionTargets assets groups execution = .ok targets) :
    targets.Nodup := by
  obtain ⟨found, hfound, h⟩ := bind_eq_ok.1 h
  have hdirect : found.1.Nodup := foldlM_invariant (fun x : List String × List String => x.1.Nodup)
      (fun _ _ _ _ hnd hstep => classify_nodup hstep hnd) nodup_nil hfound
  split at h
  · cases h
  obtain ⟨resolved, hresolved, h⟩ := bind_eq_ok.1 h
  have hnodup : resolved.Nodup :=
    foldlM_invariant List.Nodup (fun _ _ _ _ hnd hstep => addGroupAsset_nodup hstep hnd)
      hdirect hresolved
  split at h
  · cases h
  · cases h
    exact (perm_insertionSort _ resolved).nodup_iff.2 hnodup

section

variable {selected visited : List String} {id : String}

def groupList (groups : List GroupRef) : List Groups.Group :=
  groups.map fun g => ⟨g.id, "", "", g.parentGroupID, "", 0, "", ""⟩

theorem parentOf_eq (groups : List GroupRef) (id : String) :
    parentOf groups id = GroupAccess.parents (groupList groups) id := by
  simp [parentOf, GroupAccess.parents, groupList, ← map_reverse, find?_map, Function.comp_def]

theorem groupIsSelectedFrom_iff {fuel : ℕ} (hfree : ∀ v ∈ visited, v ∉ selected)
    (hfuel : (ancestorWalk (groupList groups) visited id).length < fuel + visited.length) :
    groupIsSelectedFrom groups selected fuel visited id ↔
      ∃ g ∈ selected, g ∈ ancestorWalk (groupList groups) visited id := by
  induction fuel generalizing visited id with
  | zero => exact absurd (Nat.zero_add _ ▸ hfuel) (Nat.not_lt.2 length_le_ancestorWalk)
  | succ fuel ih =>
    rw [ancestorWalk] at hfuel ⊢
    unfold groupIsSelectedFrom
    by_cases hstop : id = "" ∨ id ∈ visited
    · have hnone : ¬ ∃ g ∈ selected, g ∈ visited := not_exists.2 fun g h => hfree g h.2 h.1
      rw [if_pos hstop]
      refine iff_of_false ?_ hnone
      grind
    obtain ⟨hblank, hvisited⟩ := not_or.1 hstop
    rw [if_neg hstop] at hfuel ⊢
    rw [if_neg hblank, if_neg hvisited]
    by_cases hsel : id ∈ selected
    · exact iff_of_true (if_pos hsel) ⟨id, hsel, ancestorWalk_sound.1 (.head _)⟩
    · rw [if_neg hsel, parentOf_eq]
      exact ih (forall_mem_cons.2 ⟨hsel, hfree⟩) (by rw [length_cons]; omega)

theorem length_ancestorWalk_le (groups : List GroupRef) (id : String) :
    (ancestorWalk (groupList groups) [] id).length ≤ groups.length + 1 := by
  have hsub : ancestorWalk (groupList groups) [] id ⊆
      id :: groups.map fun g => trimSpace g.parentGroupID := by
    intro x hx
    rcases (mem_ancestorWalk.1 hx).2.cases_tail with rfl | ⟨y, -, hlink⟩
    · exact .head _
    obtain ⟨rfl, hne⟩ := parentLink_eq_some.1 hlink
    rw [← parentOf_eq, parentOf] at hne ⊢
    cases hfind : groups.reverse.find? fun g => trimSpace g.id = y with
    | none => simp [hfind] at hne
    | some g => exact .tail _ (mem_map.2 ⟨g, mem_reverse.1 (mem_of_find?_eq_some hfind), rfl⟩)
  simpa using ((ancestorWalk_nodup nodup_nil).subperm hsub).length_le

theorem groupIsSelected_iff (hid : id ≠ "") : groupIsSelected groups selected id ↔
    ∃ g ∈ selected, Reaches (parentLink (groupList groups)) id g := by
  have hlen := length_ancestorWalk_le groups id
  rw [groupIsSelected, groupIsSelectedFrom_iff (by simp) (Nat.lt_succ_of_le hlen)]
  simp only [mem_ancestorWalk, hid, ne_eq, not_false_eq_true, true_and]

end

section

variable {execution : ExecutionJob}

def names (execution : ExecutionJob) : List String := (selectors execution).map trimSpace

variable (assets groups)

/-- Every selector names something. -/
def Exist (names : List String) : Prop :=
  ∀ name ∈ names, name = "" ∨ isAsset assets name ∨ isGroup groups name

def directAssets (names : List String) : List String :=
  (names.filter fun name => name ≠ "" ∧ isAsset assets name).dedup

def selectedGroups (names : List String) : List String :=
  names.filter fun name => name ≠ "" ∧ isAsset assets name = false

/-- An asset of this id is in a selected group or in a group below one. -/
def InSelected (names : List String) (id : String) : Prop :=
  ∃ a ∈ assets, trimSpace a.id = id ∧ trimSpace a.groupID ≠ "" ∧
    ∃ g ∈ selectedGroups assets names, Reaches (parentLink (groupList groups)) (trimSpace a.groupID) g

def Wanted (names : List String) (id : String) : Prop :=
  id ∈ directAssets assets names ∨ InSelected assets groups names id

variable {assets groups}

theorem mem_directAssets {names : List String} {x : String} :
    x ∈ directAssets assets names ↔ x ∈ names ∧ x ≠ "" ∧ isAsset assets x := by
  simp [directAssets]

theorem mem_selectedGroups {names : List String} {x : String} :
    x ∈ selectedGroups assets names ↔ x ∈ names ∧ x ≠ "" ∧ isAsset assets x = false := by
  simp [selectedGroups]

theorem foldlM_classify {l : List String} (hexist : Exist assets groups (l.map trimSpace))
    (found : List String × List String) :
    ∃ found', l.foldlM (classify assets groups) found = .ok found' ∧
      (∀ x, x ∈ found'.1 ↔ x ∈ found.1 ∨ x ∈ directAssets assets (l.map trimSpace)) ∧
      ∀ x, x ∈ found'.2 ↔ x ∈ found.2 ∨ x ∈ selectedGroups assets (l.map trimSpace) := by
  simp only [mem_directAssets, mem_selectedGroups]
  induction l generalizing found with
  | nil => exact ⟨found, rfl, by simp, by simp⟩
  | cons selector l ih =>
    obtain ⟨hfirst, hrest⟩ := forall_mem_cons.1 hexist
    have hstep : ∃ mid, classify assets groups found selector = .ok mid ∧
        (∀ x, x ∈ mid.1 ↔ x ∈ found.1 ∨ x = trimSpace selector ∧ x ≠ "" ∧ isAsset assets x) ∧
        ∀ x, x ∈ mid.2 ↔ x ∈ found.2 ∨
          x = trimSpace selector ∧ x ≠ "" ∧ isAsset assets x = false := by
      unfold classify
      dsimp only
      split_ifs with hblank hasset hgroup
      iterate 3 exact ⟨_, rfl, by grind, by grind⟩
      · grind
    obtain ⟨mid, hmid, hdirect, hgroups⟩ := hstep
    obtain ⟨found', hfound, hdirect', hgroups'⟩ := ih hrest mid
    refine ⟨found', ?_, fun x => ?_, fun x => ?_⟩
    · rw [foldlM_cons, hmid, ok_bind, hfound]
    · rw [hdirect', hdirect, map_cons, mem_cons, or_and_right, or_assoc]
    · rw [hgroups', hgroups, map_cons, mem_cons, or_and_right, or_assoc]

def AssetRef.inSelected (groups : List GroupRef) (selected : List String) (a : AssetRef) : Prop :=
  trimSpace a.groupID ≠ "" ∧ groupIsSelected groups selected (trimSpace a.groupID)

theorem foldlM_addGroupAsset {selected : List String} (l : List AssetRef) (resolved : List String) :
    (l.foldlM (addGroupAsset groups selected) resolved = .error .tooMany ∧
      ∃ a ∈ l, a.inSelected groups selected) ∨
    ∃ resolved', l.foldlM (addGroupAsset groups selected) resolved = .ok resolved' ∧
      (∀ x, x ∈ resolved' ↔ x ∈ resolved ∨ ∃ a ∈ l, trimSpace a.id = x ∧
        a.inSelected groups selected) ∧
      (resolved'.length ≤ maxResolvedScheduleTargets ∨
        resolved' = resolved ∧ ∀ a ∈ l, ¬ a.inSelected groups selected) := by
  induction l generalizing resolved with
  | nil => exact .inr ⟨resolved, rfl, by simp, by simp⟩
  | cons a l ih =>
    rw [foldlM_cons]
    by_cases hin : a.inSelected groups selected
    · have hstep : addGroupAsset groups selected resolved a =
          if maxResolvedScheduleTargets < (resolved.insert (trimSpace a.id)).length then
            .error .tooMany else .ok (resolved.insert (trimSpace a.id)) :=
        if_neg (by simpa [AssetRef.inSelected] using hin)
      rw [hstep]
      split_ifs with hlong
      · exact .inl ⟨rfl, a, .head _, hin⟩
      rw [ok_bind]
      rcases ih (resolved.insert (trimSpace a.id)) with ⟨herr, b, hb, hbin⟩ | ⟨r, hr, hmem, hlen⟩
      · exact .inl ⟨herr, b, .tail _ hb, hbin⟩
      · refine .inr ⟨r, hr, fun x => ?_, ?_⟩
        · grind
        · exact .inl (hlen.elim (fun hle => hle) fun h => h.1 ▸ Nat.not_lt.1 hlong)
    · have hstep : addGroupAsset groups selected resolved a = .ok resolved :=
        if_pos (by simpa [AssetRef.inSelected, or_iff_not_imp_left] using hin)
      rw [hstep, ok_bind]
      rcases ih resolved with ⟨herr, b, hb, hbin⟩ | ⟨r, hr, hmem, hlen⟩
      · exact .inl ⟨herr, b, .tail _ hb, hbin⟩
      · refine .inr ⟨r, hr, fun x => ?_, hlen.imp_right (.imp_right ?_)⟩
        · grind
        · exact fun h => forall_mem_cons.2 ⟨hin, h⟩

/-- What may be answered when every selector names something. -/
def Answers (assets : List AssetRef) (groups : List GroupRef) (names : List String) :
    Except DefinitionError (List String) → Prop
  | .ok targets => targets.Pairwise (· < ·) ∧ (∀ x, x ∈ targets ↔ Wanted assets groups names x) ∧
      (targets.length ≤ maxResolvedScheduleTargets ∨ ∀ x, ¬ InSelected assets groups names x)
  | .error e => e = .tooMany ∧ (∃ x, InSelected assets groups names x) ∨
      ∀ x, ¬ Wanted assets groups names x

theorem resolve_answers (hexist : Exist assets groups (names execution)) :
    Answers assets groups (names execution)
      (resolveScheduleExecutionTargets assets groups execution) := by
  obtain ⟨found, hfound, hdirect, hgroups⟩ := foldlM_classify hexist ([], [])
  simp only [not_mem_nil, false_or] at hdirect hgroups
  have hin : ∀ x, InSelected assets groups (names execution) x ↔
      ∃ a ∈ assets, trimSpace a.id = x ∧ a.inSelected groups found.2 := by
    intro x
    simp only [InSelected, AssetRef.inSelected, names, ← hgroups]
    refine exists_congr fun a => and_congr_right fun _ => and_congr_right fun _ => ?_
    exact and_congr_right fun hid => (groupIsSelected_iff hid).symm
  have hnodup : ∀ targets, resolveScheduleExecutionTargets assets groups execution = .ok targets →
      targets.Nodup := fun _ => resolveScheduleExecutionTargets_nodup
  rw [resolveScheduleExecutionTargets, hfound, ok_bind] at hnodup ⊢
  split_ifs at hnodup ⊢ with hnone
  · refine .inr fun x hx => ?_
    rw [Wanted, InSelected, names] at hx
    grind
  rcases foldlM_addGroupAsset assets found.1 with ⟨herr, a, ha, hsel⟩ | ⟨r, hr, hmem, hlen⟩
  · rw [herr]
    exact .inl ⟨rfl, _, (hin _).2 ⟨a, ha, rfl, hsel⟩⟩
  have hwanted : ∀ x, x ∈ r ↔ Wanted assets groups (names execution) x := by
    intro x
    rw [hmem, hdirect, Wanted, hin, names]
  rw [hr, ok_bind] at hnodup ⊢
  split_ifs at hnodup ⊢ with hempty
  · refine .inr fun x hx => ?_
    rw [← hwanted, hempty] at hx
    cases hx
  refine ⟨?_, fun x => ?_, ?_⟩
  · exact ((pairwise_insertionSort _ r).and (hnodup _ rfl)).imp fun h => lt_of_le_of_ne h.1 h.2
  · rw [(perm_insertionSort _ r).mem_iff, hwanted]
  · rw [(perm_insertionSort _ r).length_eq]
    refine hlen.imp_right fun h x hx => ?_
    obtain ⟨a, ha, -, hsel⟩ := (hin x).1 hx
    exact h.2 a ha hsel

theorem exist_of_resolve {targets : List String}
    (h : resolveScheduleExecutionTargets assets groups execution = .ok targets) :
    Exist assets groups (names execution) := by
  obtain ⟨found, hfound, -⟩ := bind_eq_ok.1 h
  refine forall_mem_map.2 (foldlM_forall (fun _ => True) (fun selector _ =>
    trimSpace selector = "" ∨ isAsset assets (trimSpace selector) ∨
      isGroup groups (trimSpace selector)) ?_ (fun _ _ _ _ _ h _ => h) trivial hfound)
  intro st selector st' _ _ hstep
  unfold classify at hstep
  grind

/-- The targets are sorted, the wanted ones and within the limit; more are refused. -/
def Resolves (assets : List AssetRef) (groups : List GroupRef) (execution : ExecutionJob) : Prop :=
  match resolveScheduleExecutionTargets assets groups execution with
  | .ok targets => targets.Pairwise (· < ·) ∧
      (∀ x, x ∈ targets ↔ Wanted assets groups (names execution) x) ∧
      targets.length ≤ maxResolvedScheduleTargets
  | .error e => ∀ full : List String, full.Nodup →
      (∀ x ∈ full, Wanted assets groups (names execution) x) →
      maxResolvedScheduleTargets < full.length → Exist assets groups (names execution) → e = .tooMany

/-- The limit is only checked where an asset of a group is added. -/
theorem resolves_iff (assets : List AssetRef) (groups : List GroupRef) (execution : ExecutionJob) :
    Resolves assets groups execution ↔ (Exist assets groups (names execution) →
      (∃ x, InSelected assets groups (names execution) x) ∨
        (directAssets assets (names execution)).length ≤ maxResolvedScheduleTargets) := by
  unfold Resolves
  cases hrun : resolveScheduleExecutionTargets assets groups execution with
  | error e =>
    refine iff_of_true (fun full _ hfull hlong hexist => ?_) fun hexist => ?_
    all_goals
      have hout := resolve_answers hexist
      rw [hrun] at hout
      rcases hout with ⟨hmany, hin⟩ | hnone
    · exact hmany
    · exact absurd (hfull _ (getElem_mem (Nat.zero_lt_of_lt hlong))) (hnone _)
    · exact .inl hin
    · have hnil := eq_nil_iff_forall_not_mem.2 fun x hx => hnone x (.inl hx)
      exact .inr (by simp [hnil])
  | ok targets =>
    have hexist := exist_of_resolve hrun
    have hout := resolve_answers hexist
    rw [hrun] at hout
    obtain ⟨hsorted, hmem, hlen⟩ := hout
    constructor
    · rintro ⟨-, -, hle⟩ -
      have hsub : directAssets assets (names execution) ⊆ targets := fun x hx =>
        (hmem x).2 (.inl hx)
      exact .inr (((nodup_dedup _).subperm hsub).length_le.trans hle)
    · intro hcond
      refine ⟨hsorted, hmem, hlen.elim (fun hle => hle) fun hout => ?_⟩
      have hsub : targets ⊆ directAssets assets (names execution) := fun x hx =>
        ((hmem x).1 hx).resolve_right (hout x)
      have hle := ((resolveScheduleExecutionTargets_nodup hrun).subperm hsub).length_le
      exact hle.trans ((hcond hexist).resolve_left fun ⟨x, hx⟩ => hout x hx)

def assetName (n : ℕ) : String := String.ofList (replicate (n + 1) 'a')

theorem trimSpace_assetName (n : ℕ) : trimSpace (assetName n) = assetName n := by
  have hspace : isSpace 'a' = false := by decide
  have hdrop : (replicate (n + 1) 'a').dropWhile isSpace = replicate (n + 1) 'a' :=
    dropWhile_cons_of_neg (by simp [hspace])
  rw [trimSpace, assetName, String.toList_ofList, trimSpaceList, hdrop, reverse_replicate, hdrop,
    reverse_replicate]

/-- A schedule names one asset more than the limit, and none of them is in a group. -/
theorem limit_exceeded : ∃ assets execution targets,
    resolveScheduleExecutionTargets assets [] execution = .ok targets ∧
      maxResolvedScheduleTargets < targets.length := by
  refine ⟨(range 501).map fun n => ⟨assetName n, ""⟩,
    ⟨"", "", "", "", "", (range 501).map assetName, "", ""⟩, ?_⟩
  generalize hassets : (range 501).map _ = assets
  generalize hexecution : ExecutionJob.mk _ _ _ _ _ _ _ _ = execution
  have hnames : names execution = (range 501).map assetName := by
    subst hexecution
    have hblank : trimSpace "" = "" := rfl
    simp only [names, selectors, hblank, if_pos, append_nil, map_map]
    exact map_congr_left fun n _ => trimSpace_assetName n
  have hdirect : (range 501).map assetName ⊆ directAssets assets (names execution) := by
    intro x hx
    obtain ⟨n, hn, rfl⟩ := mem_map.1 hx
    rw [mem_directAssets, hnames, ← hassets]
    refine ⟨hx, by simp [assetName, replicate_succ], any_eq_true.2 ⟨⟨assetName n, ""⟩, ?_⟩⟩
    exact ⟨mem_map_of_mem hn, decide_eq_true (trimSpace_assetName n)⟩
  have hexist : Exist assets [] (names execution) := fun x hx =>
    .inr (.inl (mem_directAssets.1 (hdirect (hnames ▸ hx))).2.2)
  have hout : ∀ x, ¬ InSelected assets [] (names execution) x := by
    rintro x ⟨a, ha, -, hgroup, -⟩
    rw [← hassets] at ha
    obtain ⟨n, -, rfl⟩ := mem_map.1 ha
    exact hgroup rfl
  have hanswer := resolve_answers hexist
  cases hrun : resolveScheduleExecutionTargets assets [] execution with
  | error e =>
    rw [hrun] at hanswer
    rcases hanswer with ⟨-, x, hx⟩ | hnone
    · exact absurd hx (hout x)
    · exact absurd (.inl (hdirect (mem_map_of_mem (mem_range.2 (Nat.zero_lt_succ 500))))) (hnone _)
  | ok targets =>
    rw [hrun] at hanswer
    refine ⟨targets, rfl, ?_⟩
    have hnd : ((range 501).map assetName).Nodup :=
      nodup_range.map fun n m h => by simpa [assetName] using congrArg String.length h
    have hlen := (hnd.subperm fun x hx => (hanswer.2.1 x).2 (.inl (hdirect hx))).length_le
    rwa [length_map, length_range] at hlen

end

end LabTether.ScheduleTargets
