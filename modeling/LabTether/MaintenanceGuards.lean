import LabTether.Maintenance

/-!
What the guardrails report. The evaluation without a context reads one page and takes it for all
windows: it misses a flag when fifty active windows without the flag start no later than every
active window that has it. The evaluation with a context refuses a full page.
-/
namespace LabTether.Maintenance

open GoStrings FirstRows List Except

variable {store : Option Store} {answer : Answer} {now : ℕ} {groupID : String} {instant : Option ℕ}
  {g : Guardrails} {f : Flag} {s : Store}

/-- The windows of the group that are active at the instant; no store, no windows. -/
def activeOf (store : Option Store) (groupID : String) (instant : ℕ) : List MaintenanceWindow :=
  store.elim [] fun s => s.activeWindows (trimSpace groupID) instant

/-- An error, or each flag exactly when some active window has it. -/
def Reports (store : Option Store) (groupID : String) (instant : ℕ) (r : Except Err Guardrails) :
    Prop :=
  ∀ g, r = .ok g → ∀ f, g.has f = true ↔ ∃ w ∈ activeOf store groupID instant, w.has f = true

/-- A flag of an active window is on one that fewer than fifty active windows without the flag
precede or start with. -/
def Covered (store : Option Store) (groupID : String) (instant : ℕ) : Prop :=
  ∀ f, ∀ w ∈ activeOf store groupID instant, w.has f = true →
    ∃ v ∈ activeOf store groupID instant, v.has f = true ∧ (activeOf store groupID instant).countP
        (fun x => !x.has f && decide ((x.startAt : ℤ) ≤ v.startAt)) < 50

theorem has_add (g : Guardrails) (w : MaintenanceWindow) (f : Flag) :
    (g.add w).has f = (g.has f || w.has f) := by
  cases f <;> rfl

theorem has_foldl_add (windows : List MaintenanceWindow) (g : Guardrails) (f : Flag) :
    (windows.foldl .add g).has f = true ↔ g.has f = true ∨ ∃ w ∈ windows, w.has f = true := by
  induction windows generalizing g with
  | nil => simp
  | cons w windows ih =>
    rw [foldl_cons, ih, has_add, Bool.or_eq_true]
    simp [or_assoc]

theorem has_empty (f : Flag) : Guardrails.empty.has f = false := by cases f <;> rfl

theorem of_groupGuardrailsWithLookup {lookup : Lookup}
    (h : groupGuardrailsWithLookup now groupID instant lookup = .ok g) :
    (trimSpace groupID = "" ∧ g = .empty) ∨
      ∃ windows, lookup (trimSpace groupID) (some (instant.getD now)) 50 = .ok windows ∧
        ∀ f, g.has f = true ↔ ∃ w ∈ windows, w.has f = true := by
  unfold groupGuardrailsWithLookup at h
  split_ifs at h with hblank
  · exact .inl ⟨hblank, (ok.inj h).symm⟩
  split at h
  · cases h
  rename_i windows hlookup
  refine .inr ⟨windows, hlookup, fun f => ?_⟩
  rw [← ok.inj h, has_foldl_add]
  cases f <;> simp [Guardrails.has]

variable {n : ℕ}

theorem of_listGroupMaintenanceWindows {windows : List MaintenanceWindow}
    (h : listGroupMaintenanceWindows s answer (trimSpace groupID) (some n) 50 = .ok windows) :
    windows = answer.ascending.first 50 (s.activeWindows (trimSpace groupID) n) := by
  have hlimit : clampLimit 50 = 50 := rfl
  unfold listGroupMaintenanceWindows at h
  split_ifs at h
  rw [trimSpace_trimSpace, hlimit] at h
  exact (ok.inj h).symm

theorem activeOf_eq_nil (h : trimSpace groupID ∉ s.groups) (n : ℕ) :
    activeOf (some s) groupID n = [] := by
  refine filter_eq_nil_iff.2 fun w hw => ?_
  obtain ⟨hmem, hgroup⟩ := mem_filter.1 hw
  exact absurd (of_decide_eq_true hgroup ▸ s.windowsOwned w hmem) h

theorem not_mem_groups_of_blank (h : trimSpace groupID = "") :
    trimSpace groupID ∉ s.groups := fun hmem => (s.groupsNamed _ hmem).2 h

theorem has_empty_iff {o : RowOrder fun w : MaintenanceWindow => (w.startAt : ℤ)} :
    Guardrails.empty.has f = true ↔ ∃ w ∈ o.first n [], w.has f = true := by
  rw [has_empty]
  exact iff_of_false Bool.false_ne_true fun ⟨_, hw, _⟩ => not_mem_nil (mem_of_mem_first hw)

theorem of_groupGuardrails (h : groupGuardrails store answer now groupID instant = .ok g) (f : Flag) :
    g.has f = true ↔ ∃ w ∈ answer.ascending.first 50 (activeOf store groupID (instant.getD now)),
      w.has f = true := by
  rcases store with _ | s
  · rw [← ok.inj h]
    exact has_empty_iff
  rcases of_groupGuardrailsWithLookup h with ⟨hblank, rfl⟩ | ⟨windows, hlookup, hflags⟩
  · rw [activeOf_eq_nil (not_mem_groups_of_blank hblank)]
    exact has_empty_iff
  · rw [hflags, of_listGroupMaintenanceWindows hlookup]
    rfl

variable {cancelled bounded : Bool}

/-- The evaluation with a context reports what is on the first page, and the page is not full. -/
theorem of_evaluateGuardrailsContext
    (h : evaluateGuardrailsContext cancelled bounded store answer now groupID instant = .ok g) :
    (activeOf store groupID (instant.getD now)).length ≤ 50 ∧ ∀ f, g.has f = true ↔
        ∃ w ∈ answer.ascending.first 50 (activeOf store groupID (instant.getD now)), w.has f = true := by
  cases store with
  | none =>
    have hempty : g = .empty := by
      cases cancelled
      · exact (ok.inj h).symm
      · cases h
    subst hempty
    exact ⟨Nat.zero_le _, fun f => has_empty_iff⟩
  | some s =>
    unfold evaluateGuardrailsContext at h
    split_ifs at h
    rcases of_groupGuardrailsWithLookup h with ⟨hblank, rfl⟩ | ⟨windows, hlookup, hflags⟩
    · rw [activeOf_eq_nil (not_mem_groups_of_blank hblank)]
      exact ⟨Nat.zero_le _, fun f => has_empty_iff⟩
    split at hlookup
    · cases hlookup
    rename_i page hpage
    split_ifs at hlookup with hfull
    cases hlookup
    have hfirst := of_listGroupMaintenanceWindows hpage
    subst hfirst
    have hlength : (answer.ascending.first 50
        (s.activeWindows (trimSpace groupID) (instant.getD now))).length < 50 := by
      omega
    exact ⟨length_le_of_first_lt hlength, hflags⟩

variable {w : MaintenanceWindow}

theorem exists_groupGuardrails (hw : w ∈ activeOf store groupID (instant.getD now))
    (hanswer : answer.fails = false) :
    ∃ g, groupGuardrails store answer now groupID instant = .ok g := by
  rcases store with _ | s
  · cases hw
  have hgroup : trimSpace groupID ∈ s.groups := by
    by_contra hnone
    rw [activeOf_eq_nil hnone] at hw
    cases hw
  have hname : trimSpace groupID ≠ "" := (s.groupsNamed _ hgroup).2
  unfold groupGuardrails groupGuardrailsWithLookup listGroupMaintenanceWindows
  simp only [hname, hanswer, trimSpace_trimSpace, hgroup, not_true, if_false, Bool.false_eq_true]
  exact ⟨_, rfl⟩

theorem Covered.reports (h : Covered store groupID (instant.getD now)) (answer : Answer) :
    Reports store groupID (instant.getD now)
      (groupGuardrails store answer now groupID instant) := by
  intro g hg f
  rw [of_groupGuardrails hg f]
  constructor
  · intro ⟨w, hw, hf⟩
    exact ⟨w, mem_of_mem_first hw, hf⟩
  · intro ⟨w, hw, hf⟩
    obtain ⟨v, hv, hvf, hfew⟩ := h f w hw hf
    exact exists_mem_first hv hvf hfew

/-- An order in which windows with the flag come after the others that start with them. -/
def concealing (f : Flag) : Answer := ⟨false, .putLast _ (·.has f), .putLast _ (·.has f)⟩

theorem covered_of_reports (h : ∀ answer, Reports store groupID (instant.getD now)
      (groupGuardrails store answer now groupID instant)) :
    Covered store groupID (instant.getD now) := by
  intro f w hw hf
  by_contra hnone
  push Not at hnone
  obtain ⟨g, hg⟩ : ∃ g, groupGuardrails store (concealing f) now groupID instant = .ok g :=
    exists_groupGuardrails hw rfl
  obtain ⟨v, hv, hvf⟩ := (of_groupGuardrails hg f).1 ((h _ g hg f).2 ⟨w, hw, hf⟩)
  have hfalse := not_mem_first hnone hv
  rw [hvf] at hfalse
  cases hfalse

theorem reports_context (cancelled bounded : Bool) (answer : Answer) :
    Reports store groupID (instant.getD now)
      (evaluateGuardrailsContext cancelled bounded store answer now groupID instant) := by
  intro g hg f
  obtain ⟨hshort, hflags⟩ := of_evaluateGuardrailsContext hg
  simp only [hflags f, mem_first_of_length_le hshort]

/-- When the evaluation with a context succeeds, the other sees all windows too. -/
theorem evaluations_agree {answer' : Answer} {g' : Guardrails}
    (hg : groupGuardrails store answer now groupID instant = .ok g)
    (hg' : evaluateGuardrailsContext cancelled bounded store answer' now groupID instant = .ok g')
    (f : Flag) : g.has f = g'.has f := by
  have hshort := (of_evaluateGuardrailsContext hg').1
  rw [Bool.eq_iff_iff, reports_context cancelled bounded answer' g' hg' f, of_groupGuardrails hg f]
  simp only [mem_first_of_length_le hshort]

theorem activeOf_create_subset (hw : w.groupID ∈ s.groups) : activeOf
    (some s) groupID n ⊆ activeOf (some (s.create w hw)) groupID n := by
  intro v hv
  obtain ⟨hof, hactive⟩ := mem_filter.1 hv
  obtain ⟨hmem, hgroup⟩ := mem_filter.1 hof
  exact mem_filter.2 ⟨mem_filter.2 ⟨mem_append_left _ hmem, hgroup⟩, hactive⟩

def window (startAt : ℕ) (blockActions : Bool) : MaintenanceWindow :=
  ⟨"gmw", "g", "window", startAt, 10, false, blockActions, false⟩

/-- Forty-nine windows that block nothing, and one that blocks actions and starts last. -/
def fiftyWindows : Store where
  groups := ["g"]
  windows := List.replicate 49 (window 0 false) ++ [window 1 true]
  groupsNamed := by decide
  windowsOwned := by decide

theorem group_of_window : (window 0 false).groupID ∈ fiftyWindows.groups := .head _

end LabTether.Maintenance
