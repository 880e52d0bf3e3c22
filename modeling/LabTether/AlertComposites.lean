import LabTether.AlertInstances
import LabTether.Transaction

/-!
Composite alert conditions (`internal/hubapi/alerting/alert_condition_composite.go` and
`alert_condition_outcome.go`, `internal/persistence/memory_alert_instance_snapshot.go` and its
Postgres counterpart). One snapshot of the store is read, in the order of the ids, and the reads
do not fail.
-/
namespace LabTether.AlertComposites

open Alerting Transaction List

structure Outcome where
  triggered : Bool := false
  scope : FiringScope := ⟨1, [], [], []⟩

def Outcome.includeScope (o : Outcome) (scope : Option FiringScope) : Outcome :=
  match scope.map normalizeFiringScope with
  | some (.ok normalized) => { o with scope := { o.scope with
      assetIDs := o.scope.assetIDs ++ normalized.assetIDs
      groupIDs := o.scope.groupIDs ++ normalized.groupIDs
      syntheticCheckIDs := o.scope.syntheticCheckIDs ++ normalized.syntheticCheckIDs } }
  | _ => o

def Outcome.result (o : Outcome) : Except String Outcome := do
  return { o with scope := ← normalizeFiringScope o.scope }

/-- The firing instances of the named rules, or of all rules. -/
def readFiringAlertInstances (store : List AlertInstance) (ruleIDs : Option (List String)) :
    List AlertInstance :=
  (store.insertionSort (·.id ≤ ·.id)).filter fun i =>
    i.status = .firing ∧ ruleIDs.all (i.ruleID ∈ ·)

def prefetchFiringInstances (store : List AlertInstance) : Option (List AlertInstance) :=
  let instances := readFiringAlertInstances store none
  if 500 ≤ instances.length then none else some instances

structure Reading where
  matched : String → Bool := fun _ => false
  outcome : Outcome := {}

def visit (ids : List String) (r : Reading) (i : AlertInstance) : Reading :=
  if i.ruleID ∈ ids ∧ i.status = .firing then
    ⟨Function.update r.matched i.ruleID true,
      if i.firstFiredAt.isSome then r.outcome.includeScope i.firingScope else r.outcome⟩
  else r

/-- The rules a condition refers to; a value that is not a string is `none`. -/
def referenced (ruleIDs : List (Option String)) : List String :=
  ((ruleIDs.filterMap id).filter (· ≠ "")).dedup

def evaluateCompositeOutcome (operator : Option String) (ruleIDs : List (Option String))
    (store : List AlertInstance) (prefetched : Option (List AlertInstance)) :
    Except String Outcome :=
  let ids := referenced ruleIDs
  if ids = [] then .ok {}
  else
    let instances := prefetched.getD (readFiringAlertInstances store (some ids))
    let read := instances.foldl (visit ids) {}
    let count := ids.countP read.matched
    if (operator = some "or" ∧ 0 < count) ∨ (operator ≠ some "or" ∧ count = ids.length) then
      { read.outcome with triggered := true }.result
    else .ok {}

def HasFiring (store : List AlertInstance) (rule : String) : Prop :=
  ∃ i ∈ store, i.ruleID = rule ∧ i.status = .firing

/-- Some referenced rule is firing, or all of them are. -/
def Holds (operator : Option String) (rules : List String) (store : List AlertInstance) : Prop :=
  if operator = some "or" then ∃ rule ∈ rules, HasFiring store rule
  else ∀ rule ∈ rules, HasFiring store rule

variable {ids out : List String} {scope : FiringScope} {o : Outcome} {r : Reading}
  {l store : List AlertInstance}

theorem foldl_visit_filter (l : List AlertInstance) (r : Reading) :
    (l.filter (·.ruleID ∈ ids)).foldl (visit ids) r = l.foldl (visit ids) r := by
  induction l generalizing r with
  | nil => rfl
  | cons i l ih =>
    rw [foldl_cons, ← ih]
    by_cases hi : i.ruleID ∈ ids
    · rw [filter_cons_of_pos (by simpa using hi)]
      rfl
    · rw [filter_cons_of_neg (by simpa using hi), visit, if_neg fun h => hi h.1]

/-- A rule is matched if an instance of it was visited. -/
theorem matched_foldl_visit {rule : String} (hrule : rule ∈ ids) :
    (l.foldl (visit ids) r).matched rule = true ↔ r.matched rule = true ∨ HasFiring l rule := by
  induction l generalizing r with
  | nil => simp [HasFiring]
  | cons i l ih =>
    have hcons : HasFiring (i :: l) rule ↔
        (i.ruleID = rule ∧ i.status = .firing) ∨ HasFiring l rule := by
      simp [HasFiring]
    rw [foldl_cons, ih, hcons, ← or_assoc]
    refine or_congr_left ?_
    fun_cases visit ids r i
    · by_cases hi : rule = i.ruleID <;> grind
    · grind

/-- The parts of the scope are accepted, as they are when normalized scopes were added. -/
def Accepted (o : Outcome) : Prop := o.scope.version = 1 ∧ ∃ assetIDs groupIDs checkIDs,
  normalizeScopeIDs o.scope.assetIDs = .ok assetIDs ∧
    normalizeScopeIDs o.scope.groupIDs = .ok groupIDs ∧
    normalizeScopeIDs o.scope.syntheticCheckIDs = .ok checkIDs

theorem normalizeScopeIDs_append {old new : List String} (hold : normalizeScopeIDs old = .ok out)
    (hnew : normalizeScopeIDs new = .ok ids) : ∃ all, normalizeScopeIDs (old ++ ids) = .ok all := by
  unfold normalizeScopeIDs at hold hnew
  split_ifs at hold hnew with hold' hnew'
  cases hnew
  exact ⟨_, if_neg (by simp_all)⟩

theorem Accepted.includeScope (h : Accepted o) (scope : Option FiringScope) :
    Accepted (o.includeScope scope) := by
  fun_cases Outcome.includeScope o scope
  case case1 hn =>
    obtain ⟨f, -, hf⟩ := Option.map_eq_some_iff.1 hn
    unfold normalizeFiringScope at hf
    split at hf
    · cases hf
    obtain ⟨assetIDs, hassets, hf⟩ := bind_eq_ok.1 hf
    obtain ⟨groupIDs, hgroups, hf⟩ := bind_eq_ok.1 hf
    obtain ⟨checkIDs, hchecks, hf⟩ := bind_eq_ok.1 hf
    cases hf
    obtain ⟨hversion, _, _, _, ha, hg, hc⟩ := h
    obtain ⟨a, ha⟩ := normalizeScopeIDs_append ha hassets
    obtain ⟨g, hg⟩ := normalizeScopeIDs_append hg hgroups
    obtain ⟨c, hc⟩ := normalizeScopeIDs_append hc hchecks
    exact ⟨hversion, a, g, c, ha, hg, hc⟩
  · exact h

theorem accepted_foldl_visit (h : Accepted r.outcome) :
    Accepted (l.foldl (visit ids) r).outcome := by
  induction l generalizing r with
  | nil => exact h
  | cons i l ih =>
    refine ih ?_
    unfold visit
    split_ifs
    · exact h.includeScope _
    · exact h
    · exact h

theorem Accepted.result (h : Accepted o) : ∃ scope, o.result = .ok { o with scope := scope } := by
  obtain ⟨hversion, _, _, _, ha, hg, hc⟩ := h
  unfold Outcome.result normalizeFiringScope
  rw [if_neg (not_not.2 hversion), ha, hg, hc]
  exact ⟨_, rfl⟩

theorem matched_read {rule : String} (hrule : rule ∈ ids) :
    ((readFiringAlertInstances store (some ids)).foldl (visit ids) {}).matched rule = true ↔
      HasFiring store rule := by
  rw [matched_foldl_visit hrule]
  simp only [HasFiring, readFiringAlertInstances, mem_filter, mem_insertionSort]
  grind

theorem holds_iff {operator : Option String} {matched : String → Bool}
    (h : ∀ rule ∈ ids, matched rule = true ↔ HasFiring store rule) :
    (operator = some "or" ∧ 0 < ids.countP matched ∨
      operator ≠ some "or" ∧ ids.countP matched = ids.length) ↔ Holds operator ids store := by
  unfold Holds
  rw [countP_pos_iff, countP_eq_length]
  split_ifs with hop
  · simpa [hop] using exists_congr fun rule => and_congr_right (h rule)
  · simpa [hop] using forall₂_congr h

/-- Both ways of reading give one outcome: it is triggered if the condition refers to a rule and
the rules it refers to fire as the operator asks. -/
theorem composite_outcome (operator : Option String) (ruleIDs : List (Option String))
    (store : List AlertInstance) :
    let evaluate := evaluateCompositeOutcome operator ruleIDs store
    evaluate (prefetchFiringInstances store) = evaluate none ∧
      ∃ o, evaluate none = .ok o ∧ (o.triggered = true ↔
        referenced ruleIDs ≠ [] ∧ Holds operator (referenced ruleIDs) store) := by
  intro evaluate
  constructor
  · have hread : readFiringAlertInstances store (some (referenced ruleIDs)) =
        (readFiringAlertInstances store none).filter (·.ruleID ∈ referenced ruleIDs) := by
      simp [readFiringAlertInstances, filter_filter, Bool.and_comm]
    fun_cases prefetchFiringInstances store
    · rfl
    simp only [evaluate, evaluateCompositeOutcome, Option.getD_some, Option.getD_none, hread,
      foldl_visit_filter]
    rfl
  dsimp only [evaluate]
  have hholds : _ ↔ Holds operator (referenced ruleIDs) store :=
    holds_iff fun rule hrule => matched_read hrule
  fun_cases evaluateCompositeOutcome operator ruleIDs store none
  case case1 hnone => exact ⟨{}, rfl, iff_of_false nofun fun h => h.1 hnone⟩
  case case2 ids hsome instances read _ hif =>
    have haccepted : Accepted { read.outcome with triggered := true } :=
      accepted_foldl_visit ⟨rfl, [], [], [], rfl, rfl, rfl⟩
    obtain ⟨scope, hscope⟩ := haccepted.result
    exact ⟨_, hscope, iff_of_true rfl ⟨hsome, hholds.1 hif⟩⟩
  case case3 hif => exact ⟨{}, rfl, iff_of_false nofun fun h => hif (hholds.2 h.2)⟩

/-- A condition that refers to no rule is not triggered, although all of the rules it refers to
fire. -/
theorem blank_composite_quiet : evaluateCompositeOutcome (some "and") [some ""] [] none = .ok {} ∧
    Holds (some "and") (referenced [some ""]) [] := by
  constructor
  · rfl
  · simp [Holds, referenced]

end LabTether.AlertComposites
