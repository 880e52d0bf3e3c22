import LabTether.RuleCursor

/-!
What a page of active rules holds. Both stores return the first ids after the cursor up to
the upper bound of the sweep, in order; `PageSpec` is all that the sweep needs of it.
-/
namespace LabTether.RuleSweep

open Smallest Table List Except

variable {rules : List RuleRow} {cursor : EvaluationCursor} {limit : ℕ}

def inReach (cursor : EvaluationCursor) (r : RuleRow) : Bool :=
  r.status == .active && decide (cursor.afterID < r.id) &&
    (!cursor.started || decide (r.id ≤ cursor.throughID))

def reachable (rules : List RuleRow) (cursor : EvaluationCursor) : List String :=
  ((rules.filter (inReach cursor)).map RuleRow.id).insertionSort (· ≤ ·)

def upperBound (rules : List RuleRow) (cursor : EvaluationCursor) : String :=
  if cursor.started then cursor.throughID
  else ((rules.filter fun r => r.status == .active).map RuleRow.id).foldl max cursor.throughID

theorem scan_eq (cursor : EvaluationCursor) (limit : ℕ) (rules : List RuleRow)
    (acc : String × List String) : rules.foldl (scanRule cursor limit) acc =
      (if cursor.started then acc.1
        else ((rules.filter fun r => r.status == .active).map RuleRow.id).foldl max acc.1,
        ((rules.filter (inReach cursor)).map RuleRow.id).foldl (offer (limit + 1)) acc.2) := by
  induction rules generalizing acc with
  | nil => simp
  | cons r rules ih =>
    rw [foldl_cons, ih]
    unfold scanRule inReach
    by_cases hst : r.status = .active
    · cases hs : cursor.started with
      | true =>
        by_cases h : r.id ≤ cursor.afterID ∨ cursor.throughID < r.id
        · have hr : ¬ (cursor.afterID < r.id ∧ r.id ≤ cursor.throughID) := by
            rintro ⟨h₁, h₂⟩
            exact h.elim (not_le.2 h₁) (not_lt.2 h₂)
          simp [hst, h, hr, -String.lt_iff_ltb]
        · have hr : cursor.afterID < r.id ∧ r.id ≤ cursor.throughID := by
            push Not at h
            exact h
          simp [hst, h, hr, -String.lt_iff_ltb]
      | false =>
        have hmax : (if acc.1 < r.id then r.id else acc.1) = max acc.1 r.id := by rw [max_def_lt]
        by_cases h : r.id ≤ cursor.afterID
        · simp [hst, h, not_lt.2 h, hmax, -String.lt_iff_ltb]
        · simp [hst, h, not_le.1 h, hmax, -String.lt_iff_ltb]
    · simp [hst]

theorem nodup_reachable (hk : Keyed RuleRow.id rules) (cursor : EvaluationCursor) :
    ((rules.filter (inReach cursor)).map RuleRow.id).Nodup :=
  hk.filter _

theorem mem_reachable {id : String} :
    id ∈ reachable rules cursor ↔ ∃ r ∈ rules, inReach cursor r = true ∧ r.id = id := by
  simp [reachable, and_assoc]

theorem reachable_sorted (hk : Keyed RuleRow.id rules) (cursor : EvaluationCursor) :
    (reachable rules cursor).Pairwise (· < ·) := by
  have hsorted : (reachable rules cursor).Pairwise (· ≤ ·) := pairwise_insertionSort _ _
  have hnodup : (reachable rules cursor).Nodup :=
    (perm_insertionSort _ _).nodup_iff.2 (nodup_reachable hk cursor)
  exact (hsorted.and hnodup).imp fun h => lt_of_le_of_ne h.1 h.2

def rowsOf (rules : List RuleRow) (ids : List String) : List RuleRow :=
  ids.filterMap fun id => rules.find? fun r => r.id == id

theorem find_rule {id : String} (h : ∃ r ∈ rules, r.id = id) :
    ∃ x ∈ rules, rules.find? (fun r => r.id == id) = some x ∧ x.id = id := by
  obtain ⟨x, hx⟩ : ∃ x, rules.find? (fun r => r.id == id) = some x := by
    simpa [← Option.isSome_iff_exists] using h
  exact ⟨x, mem_of_find?_eq_some hx, hx, by simpa using find?_some hx⟩

variable {ids : List String}

theorem map_rowsOf (h : ∀ id ∈ ids, ∃ r ∈ rules, r.id = id) :
    (rowsOf rules ids).map RuleRow.id = ids := by
  induction ids with
  | nil => rfl
  | cons id ids ih =>
    obtain ⟨x, -, hx, hxid⟩ := find_rule (h id (.head _))
    have hrest : (rowsOf rules ids).map RuleRow.id = ids := ih fun j hj => h j (.tail _ hj)
    simpa [rowsOf, filterMap_cons, hx, hxid] using hrest

variable {r : RuleRow}

theorem mem_rowsOf (h : r ∈ rowsOf rules ids) : r ∈ rules ∧ r.id ∈ ids := by
  obtain ⟨id, hid, hfind⟩ := mem_filterMap.1 h
  have hr : r.id = id := by simpa using find?_some hfind
  exact ⟨mem_of_find?_eq_some hfind, hr ▸ hid⟩

theorem rowsOf_map (hk : Keyed RuleRow.id rules) {rows : List RuleRow} (h : ∀ r ∈ rows, r ∈ rules) :
    rowsOf rules (rows.map RuleRow.id) = rows := by
  induction rows with
  | nil => rfl
  | cons r rows ih =>
    have hr := h r (.head _)
    obtain ⟨x, hmem, hx, hid⟩ := find_rule ⟨r, hr, rfl⟩
    have hxr : x = r := hk.eq hmem hr hid
    have hrest := ih fun y hy => h y (.tail _ hy)
    simpa [rowsOf, filterMap_cons, hx, hxr] using hrest

theorem pageActiveAlertRules_eq (hk : Keyed RuleRow.id rules)
    (hv : validateRequest cursor limit = .ok ()) : pageActiveAlertRules rules cursor limit = .ok {
      rules := rowsOf rules ((reachable rules cursor).take limit)
      throughID := upperBound rules cursor
      done := decide ((reachable rules cursor).length ≤ limit) } := by
  have hscan : rules.foldl (scanRule cursor limit) (cursor.throughID, []) =
      (upperBound rules cursor, (reachable rules cursor).take (limit + 1)) := by
    rw [scan_eq, foldl_offer _ (nodup_reachable hk cursor)]
    rfl
  have hlen : (((reachable rules cursor).take (limit + 1)).length ≤ limit) ↔
      (reachable rules cursor).length ≤ limit := by
    rw [length_take]
    omega
  unfold pageActiveAlertRules
  rw [hv, hscan]
  show ok _ = ok _
  simp only [hlen, take_take, min_eq_left (Nat.le_succ limit), rowsOf]

theorem le_upperBound (h : cursor.started = false) (hr : r ∈ rules)
    (hact : r.status = .active) : r.id ≤ upperBound rules cursor := by
  unfold upperBound
  rw [h]
  exact (le_foldl_max _ _).2 r.id (mem_map_of_mem (mem_filter.2 ⟨hr, by simp [hact]⟩))

theorem validateRequest_ok (hv : validateRequest cursor limit = .ok ()) :
    1 ≤ limit ∧ limit ≤ evaluationPageSize ∧ cursor.afterID ≤ cursor.throughID ∧
      (cursor.started = false → cursor.afterID = "" ∧ cursor.throughID = "") := by
  revert hv
  fun_cases validateRequest cursor limit
  all_goals rintro ⟨⟩
  rename_i hlimit hcursor
  push Not at hlimit hcursor
  exact ⟨hlimit.1, hlimit.2, hcursor.2, hcursor.1⟩

/-- Both stores return the same page. -/
theorem pageActiveAlertRulesPostgres_eq (hk : Keyed RuleRow.id rules) :
    pageActiveAlertRulesPostgres rules cursor limit = pageActiveAlertRules rules cursor limit := by
  rcases hv : validateRequest cursor limit with e | u
  · unfold pageActiveAlertRulesPostgres pageActiveAlertRules
    rw [hv]
    rfl
  rw [pageActiveAlertRules_eq hk hv]
  obtain ⟨-, -, -, hzero⟩ := validateRequest_ok hv
  have hbound : (if cursor.started then cursor.throughID
      else ((rules.filter fun r => r.status == .active).map (·.id)).foldl max "") =
      upperBound rules cursor := by
    unfold upperBound
    cases hs : cursor.started with
    | true => rfl
    | false => rw [(hzero hs).2]
  have hfilter : ((rules.filter fun r => r.status == .active).filter fun r =>
      decide (cursor.afterID < r.id ∧ r.id ≤ upperBound rules cursor)) =
      rules.filter (inReach cursor) := by
    rw [filter_filter]
    refine filter_congr fun r hr => ?_
    by_cases hact : r.status = .active
    · cases hs : cursor.started with
      | true => simp [inReach, upperBound, hact, hs, -String.lt_iff_ltb]
      | false => simp [inReach, hact, hs, le_upperBound hs hr hact, -String.lt_iff_ltb]
    · have hb : (r.status == .active) = false := by simpa using hact
      simp [inReach, hb]
  let sorted := (rules.filter (inReach cursor)).insertionSort fun a b => a.id ≤ b.id
  have hmap : sorted.map RuleRow.id = reachable rules cursor :=
    map_insertionSort _ _ RuleRow.id _ fun _ _ _ _ => Iff.rfl
  have hrows : rowsOf rules ((reachable rules cursor).take limit) = sorted.take limit := by
    rw [← hmap, ← map_take]
    refine rowsOf_map hk fun r hr => ?_
    exact (mem_filter.1 ((perm_insertionSort _ _).mem_iff.1 (mem_of_mem_take hr))).1
  have hlen : (reachable rules cursor).length = sorted.length := by rw [← hmap, length_map]
  unfold pageActiveAlertRulesPostgres
  rw [hv]
  show ok _ = ok _
  rw [hbound, hfilter, hrows, hlen, take_take, min_eq_left (Nat.le_succ limit), length_take]
  simp only [min_le_iff, Nat.not_succ_le_self, false_or, sorted]

theorem inReach_iff (hr : r ∈ rules) :
    inReach cursor r = true ↔ r.status = .active ∧ cursor.afterID < r.id ∧
      r.id ≤ upperBound rules cursor := by
  unfold inReach
  cases hs : cursor.started
  case true => simp [upperBound, hs, and_assoc, -String.lt_iff_ltb]
  have hle := le_upperBound hs hr
  simp only [Bool.and_eq_true, beq_iff_eq, decide_eq_true_eq, Bool.not_false, Bool.true_or,
    and_true]
  tauto

/-- What a page that was read says of the table. -/
structure PageSpec (rules : List RuleRow) (cursor : EvaluationCursor) (page : EvaluationPage) :
    Prop where
  through : cursor.started = true → page.throughID = cursor.throughID
  sorted : (page.rules.map RuleRow.id).Pairwise (· < ·)
  sound : ∀ r ∈ page.rules, r ∈ rules ∧ r.status = .active ∧ cursor.afterID < r.id ∧
    r.id ≤ page.throughID
  covers : ∀ r ∈ rules, r.status = .active → cursor.afterID < r.id → r.id ≤ page.throughID →
    r.id ∈ page.rules.map RuleRow.id ∨ (page.done = false ∧ ∀ r' ∈ page.rules, r'.id < r.id)
  progress : page.done = false → page.rules ≠ []
  after : cursor.afterID ≤ page.throughID
  small : page.rules.length ≤ evaluationPageSize

theorem pageSpec_of_read (hk : Keyed RuleRow.id rules) {page : EvaluationPage}
    (h : pageActiveAlertRules rules cursor limit = .ok page) : PageSpec rules cursor page := by
  rcases hv : validateRequest cursor limit with e | u
  · unfold pageActiveAlertRules at h
    rw [hv] at h
    cases h
  rw [pageActiveAlertRules_eq hk hv] at h
  cases h
  obtain ⟨hlimit, hmax, hafter, hzero⟩ := validateRequest_ok hv
  have hids : (rowsOf rules ((reachable rules cursor).take limit)).map RuleRow.id =
      (reachable rules cursor).take limit := by
    refine map_rowsOf fun id hid => ?_
    obtain ⟨r, hr, -, hrid⟩ := mem_reachable.1 (mem_of_mem_take hid)
    exact ⟨r, hr, hrid⟩
  have hreach : ∀ r ∈ rules, r.id ∈ reachable rules cursor → inReach cursor r = true := by
    intro r hr hmem
    obtain ⟨r', hr', hin, hid⟩ := mem_reachable.1 hmem
    exact hk.eq hr' hr hid ▸ hin
  have hpage := isPage_take (n := limit) (reachable_sorted hk cursor)
  refine ⟨fun hs => by simp [upperBound, hs], ?_, ?_, ?_, ?_, ?_, ?_⟩
  · rw [hids]
    exact hpage.sorted
  · intro r hr
    obtain ⟨hmem, hid⟩ := mem_rowsOf hr
    exact ⟨hmem, (inReach_iff hmem).1 (hreach r hmem (mem_of_mem_take hid))⟩
  · intro r hr hact hlt hle
    have hmem : r.id ∈ reachable rules cursor :=
      mem_reachable.2 ⟨r, hr, (inReach_iff hr).2 ⟨hact, hlt, hle⟩, rfl⟩
    rw [hids]
    by_cases hin : r.id ∈ (reachable rules cursor).take limit
    · exact .inl hin
    -- a rule that was cut off comes after all of the page
    refine .inr ⟨decide_eq_false fun hall => hin ?_, fun r' hr' => ?_⟩
    · rwa [take_of_length_le hall]
    · exact (hpage.rest _ hmem hin).2 _ (mem_rowsOf hr').2
  · intro hdone hnil
    have hlen : ¬ (reachable rules cursor).length ≤ limit := by simpa using hdone
    have hempty : rowsOf rules ((reachable rules cursor).take limit) = [] := hnil
    have hzero := congrArg List.length hids
    rw [hempty, map_nil, length_nil, length_take] at hzero
    omega
  · unfold upperBound
    cases hs : cursor.started with
    | true => exact hafter
    | false => exact hafter.trans (le_foldl_max _ _).1
  · have hlen := congrArg List.length hids
    rw [length_map, length_take] at hlen
    show (rowsOf rules ((reachable rules cursor).take limit)).length ≤ evaluationPageSize
    omega

end LabTether.RuleSweep
