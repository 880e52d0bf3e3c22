import LabTether.CorrelationPage
import LabTether.Transition

/-!
The sweep of the incident correlator over its four sources: failed action runs, failed update
runs, fired alerts and audit events. One turn reads one page of one source and upserts the rows
of the page one by one; the tables may change between turns, and every read and every upsert may
fail. One incident is modelled, since the events of another incident have other keys. Times are
numbers, with zero for the zero time; a turn that runs out of time is one whose next effect is
refused.
-/
namespace LabTether.CorrelationSweep

open CorrelationPage Transition List Function

section

structure AlertLink where
  (alertRuleID alertInstanceID alertFingerprint : String)
deriving DecidableEq

structure FiringScope where
  version : ℕ
  (assetIDs groupIDs syntheticCheckIDs : List String)

open FiringScope

/-- The scope of an incident; `pageScope` gives the stores the same sets in sorted order. -/
structure Scope where
  (incidentID groupID : String)
  (assets operationAssets : List String)
  alertLinks : List AlertLink
deriving DecidableEq

structure Window where
  (since through : ℕ)

/-- A row of one of the sources. A result of an update run says whether it failed and names
its target; an alert may carry evidence that does not decode. -/
inductive Row where
  | action (id : String) (failed : Bool) (target : String) (createdAt : ℕ)
  | update (id : String) (failed : Bool) (results : List (Bool × String)) (createdAt : ℕ)
  | alert (id ruleID fingerprint : String) (firstFiredAt : Option ℕ)
      (firingScope : Option FiringScope) (malformed : Bool)
  | audit (id target : String) (timestamp : ℕ)

def Row.id : Row → String
  | action id .. | update id .. | alert id .. | audit id .. => id

def Row.rejected : Row → Bool
  | alert _ _ _ _ _ malformed => malformed
  | _ => false

def correlationInWindow (time : ℕ) (w : Window) : Bool :=
  decide (w.since ≤ time ∧ time ≤ w.through)

def AlertLink.agrees (link : AlertLink) (id ruleID fingerprint : String) : Bool :=
  (link.alertInstanceID == "" || link.alertInstanceID == id) &&
    (link.alertRuleID == "" || link.alertRuleID == ruleID) &&
    (link.alertFingerprint == "" || link.alertFingerprint == fingerprint)

variable (s : Scope)

/-- `validateCorrelationQuery`. -/
def Scope.valid (w : Window) : Bool :=
  decide (w.since ≠ 0 ∧ w.since ≤ w.through) && correlationExactID s.incidentID &&
    (s.groupID == "" || correlationExactID s.groupID) &&
    (s.assets ++ s.operationAssets).all correlationExactID &&
    s.alertLinks.all fun l =>
      [l.alertRuleID, l.alertInstanceID, l.alertFingerprint].any (· != "") &&
        [l.alertRuleID, l.alertInstanceID, l.alertFingerprint].all fun id =>
          id == "" || correlationExactID id

/-- The smallest of the ids that are wanted, empty if there is none. -/
def leastWanted (wanted ids : List String) : String :=
  ids.foldl (fun least id =>
    if id ∈ wanted ∧ (least = "" ∨ id < least) then id else least) ""

def failedTargets (results : List (Bool × String)) : List String :=
  (results.filter (·.1)).map (·.2)

/-- `correlationAlertWitness` on saved evidence: one asset and the group of the scope. -/
def witness (f : FiringScope) : Option FiringScope :=
  if f.version ≠ 1 ∨
      (f.assetIDs ++ f.groupIDs ++ f.syntheticCheckIDs).all correlationExactID = false then none
  else some {
    version := 1
    assetIDs := [leastWanted s.assets f.assetIDs].filter (· ≠ "")
    groupIDs := if s.groupID ≠ "" ∧ s.groupID ∈ f.groupIDs then [s.groupID] else []
    syntheticCheckIDs := [] }

/-- The row belongs to the page of its source: the predicates of the four readers. -/
def Row.selected (w : Window) : Row → Bool
  | action _ failed target createdAt =>
    failed && correlationInWindow createdAt w && s.operationAssets.contains target
  | update _ failed results createdAt =>
    failed && correlationInWindow createdAt w &&
      (failedTargets results).any s.operationAssets.contains
  | alert id ruleID fingerprint firstFiredAt firingScope _ =>
    firstFiredAt.any (fun t => t != 0 && correlationInWindow t w) &&
      match firingScope.map (witness s) with
      | some none => false
      | some (some f) => s.alertLinks.any (·.agrees id ruleID fingerprint) ||
          f.assetIDs != [] || f.groupIDs != []
      | none => s.alertLinks.any (·.agrees id ruleID fingerprint)
  | audit _ target timestamp =>
    correlationInWindow timestamp w && (s.incidentID :: s.operationAssets).contains target

def Row.candidate : Row → Row
  | action id _ target createdAt => action id true target createdAt
  | update id _ results createdAt =>
    update id true [(true, leastWanted s.operationAssets (failedTargets results))] createdAt
  | alert id ruleID fingerprint firstFiredAt firingScope malformed =>
    alert id ruleID fingerprint firstFiredAt (firingScope.bind (witness s)) malformed
  | audit id target timestamp => audit id target timestamp

def matchesOperation (target : String) : Bool :=
  correlationExactID target && s.operationAssets.contains target

/-- `NormalizeFiringScope` accepts the evidence. -/
def FiringScope.normal (f : FiringScope) : Bool :=
  f.version == 1 && (f.assetIDs ++ f.groupIDs ++ f.syntheticCheckIDs).all fun id =>
    id != "" && GoStrings.trimSpace id == id

/-- The conditions of `correlateIncidentPage` for the upsert of one candidate. -/
def Row.correlates (w : Window) : Row → Bool
  | action _ failed target createdAt =>
    failed && matchesOperation s target && correlationInWindow createdAt w
  | update _ failed results createdAt =>
    failed && results.any (fun r => r.1 && matchesOperation s r.2) &&
      correlationInWindow createdAt w
  | alert id ruleID fingerprint firstFiredAt firingScope _ =>
    firstFiredAt.any (fun t => t != 0 && correlationInWindow t w) &&
      firingScope.all normal &&
      (s.alertLinks.any (·.agrees id ruleID fingerprint) ||
        firingScope.any fun f => f.assetIDs.any s.assets.contains ||
          f.groupIDs.any fun g => s.groupID != "" && g == s.groupID)
  | audit _ target timestamp =>
    (target == s.incidentID || matchesOperation s target) && correlationInWindow timestamp w

variable {s : Scope} {w : Window}

theorem leastWanted_spec {wanted : List String} (hne : ∀ x ∈ wanted, x ≠ "") (ids : List String) :
    (leastWanted wanted ids ≠ "" → leastWanted wanted ids ∈ wanted) ∧
      ((∃ id ∈ ids, id ∈ wanted) → leastWanted wanted ids ≠ "") := by
  suffices h : ∀ start, (∀ l, l = ids.foldl (fun least id =>
      if id ∈ wanted ∧ (least = "" ∨ id < least) then id else least) start →
      (l = start ∨ l ∈ wanted) ∧ ((start ≠ "" ∨ ∃ id ∈ ids, id ∈ wanted) → l ≠ "")) by
    obtain ⟨hor, hfound⟩ := h "" _ rfl
    exact ⟨fun hl => hor.resolve_left hl, fun hex => hfound (.inr hex)⟩
  induction ids with
  | nil => simp
  | cons x ids ih =>
    intro start l hl
    rw [foldl_cons] at hl
    obtain ⟨hor, hfound⟩ := ih _ l hl
    by_cases hx : x ∈ wanted ∧ (start = "" ∨ x < start)
    · rw [if_pos hx] at hor hfound
      exact ⟨.inr (hor.elim (fun h => h ▸ hx.1) fun h => h), fun _ => hfound (.inl (hne x hx.1))⟩
    rw [if_neg hx] at hor hfound
    refine ⟨hor, fun hex => hfound ?_⟩
    rcases hex with hs | ⟨y, hy, hyw⟩
    · exact .inl hs
    · rcases mem_cons.1 hy with rfl | hy
      · exact .inl fun hs => hx ⟨hyw, .inl hs⟩
      · exact .inr ⟨y, hy, hyw⟩

theorem trimmed_of_exact {id : String} (h : correlationExactID id = true) :
    (id != "" && GoStrings.trimSpace id == id) = true := by
  rw [correlationExactID, Bool.and_eq_true] at h
  exact h.1

theorem ne_empty_of_exact {id : String} (h : correlationExactID id = true) : id ≠ "" := by
  rintro rfl
  exact absurd h (by decide)

theorem witness_spec {f f' : FiringScope} (hs : s.valid w = true) (h : witness s f = some f') :
    f'.normal = true ∧ (f'.assetIDs ≠ [] → f'.assetIDs.any s.assets.contains = true) ∧
      (f'.groupIDs ≠ [] → f'.groupIDs.any (fun g => s.groupID != "" && g == s.groupID) = true) := by
  simp only [Scope.valid, Bool.and_eq_true, all_append] at hs
  obtain ⟨⟨⟨-, hgroup⟩, hassets, -⟩, -⟩ := hs
  rw [all_eq_true] at hassets
  have hgroup (hne : s.groupID ≠ "") := trimmed_of_exact (by simpa [hne] using hgroup)
  unfold witness at h
  split at h
  · cases h
  cases h
  obtain ⟨hin, -⟩ := leastWanted_spec (fun x hx => ne_empty_of_exact (hassets x hx)) f.assetIDs
  by_cases hl : leastWanted s.assets f.assetIDs = ""
  · by_cases hg : s.groupID ≠ "" ∧ s.groupID ∈ f.groupIDs
    · simp_all [normal]
    · simp [normal, hl, if_neg hg]
  · have hmem := hin hl
    have := trimmed_of_exact (hassets _ hmem)
    by_cases hg : s.groupID ≠ "" ∧ s.groupID ∈ f.groupIDs
    · simp_all [normal]
    · simp_all [normal]

/-- Every row that a reader selects passes the matcher of the events. -/
theorem correlates_candidate (hs : s.valid w = true) {r : Row} (h : r.selected s w = true) :
    (r.candidate s).correlates s w = true := by
  have hops : ∀ x ∈ s.operationAssets, correlationExactID x = true := by
    simp only [Scope.valid, Bool.and_eq_true, all_append] at hs
    exact all_eq_true.1 hs.1.2.2
  cases r with
  | action id failed target createdAt =>
    simp only [Row.selected, Bool.and_eq_true, contains_iff_mem] at h
    simp [Row.candidate, Row.correlates, matchesOperation, h.1.2, h.2, hops target h.2]
  | update id failed results createdAt =>
    simp only [Row.selected, Bool.and_eq_true, any_eq_true, contains_iff_mem] at h
    obtain ⟨hin, hfound⟩ := leastWanted_spec (fun x hx => ne_empty_of_exact (hops x hx))
      (failedTargets results)
    have hwanted := hin (hfound h.2)
    simp [Row.candidate, Row.correlates, matchesOperation, h.1.2, hwanted, hops _ hwanted]
  | audit id target timestamp =>
    simp only [Row.selected, Bool.and_eq_true, contains_iff_mem, mem_cons] at h
    rcases h with ⟨hw, rfl | hop⟩
    · simp [Row.candidate, Row.correlates, hw]
    · simp [Row.candidate, Row.correlates, matchesOperation, hw, hop, hops target hop]
  | alert id ruleID fingerprint firstFiredAt firingScope malformed =>
    rcases firingScope with _ | f
    · simp only [Row.selected, Option.map_none, Bool.and_eq_true] at h
      simp_all [Row.candidate, Row.correlates]
    rcases hf : witness s f with _ | f'
    · simp [Row.selected, hf] at h
    obtain ⟨hnormal, hassets, hgroups⟩ := witness_spec hs hf
    simp only [Row.selected, Option.map_some, hf, Bool.and_eq_true, Bool.or_eq_true,
      bne_iff_ne] at h
    have hmatch : (s.alertLinks.any (·.agrees id ruleID fingerprint) ||
        (f'.assetIDs.any s.assets.contains ||
          f'.groupIDs.any fun g => s.groupID != "" && g == s.groupID)) = true := by
      rcases h.2 with (hl | ha) | hg
      · rw [hl, Bool.true_or]
      · rw [hassets ha, Bool.true_or, Bool.or_true]
      · rw [hgroups hg, Bool.or_true, Bool.or_true]
    simp only [Row.candidate, Row.correlates, Option.bind_some, hf, Option.all_some,
      Option.any_some, hnormal, h.1, hmatch, Bool.and_self]

end

/-- How the upsert of one event ends. After a lost answer the caller sees an error. -/
inductive Effect where
  | stored
  | refused
  | answerLost

structure Sweep where
  identity : Option (Scope × ℕ)
  window : Window
  cursors : Fin 4 → CorrelationCursor
  done : Fin 4 → Bool
  next : Fin 4

def Sweep.complete (sweep : Sweep) : Bool := decide (∀ k, sweep.done k = true)

def newSweep (scope : Scope) (openedAt now : ℕ) : Sweep :=
  ⟨some (scope, openedAt), ⟨openedAt, now⟩, fun _ => {}, fun _ => false, 0⟩

structure State where
  tables : Fin 4 → List Row
  (events rejected : List (Fin 4 × String))
  sweep : Sweep
  /-- The row whose effect failed in the last turn. -/
  failed : Option (Fin 4 × String)

/-- The upsert of an event is unique per source reference. -/
def upsert (ref : Fin 4 × String) (events : List (Fin 4 × String)) : List (Fin 4 × String) :=
  if ref ∈ events then events else ref :: events

structure Turn where
  scope : Scope
  (openedAt now : ℕ)
  (scopeFails readFails : Bool)
  effects : ℕ → Effect

def validateCorrelationPage (current next : CorrelationCursor) (count : ℕ) (done : Bool) : Bool :=
  next.started && decide (count ≤ correlationPageSize) && !(count == 0 && !done) &&
    !(current.started && current.upperID != next.upperID) &&
    decide (current.afterID ≤ next.upperID)

def validateCorrelationRow (c : CorrelationCursor) (id : String) : Bool :=
  correlationExactID id && decide (c.afterID < id) && decide (id ≤ c.upperID)

structure Progress where
  (events rejected : List (Fin 4 × String))
  cursor : CorrelationCursor
  failed : Option String := none
  finished : Bool := false

/-- The loop over the candidates of a page; the effect of the first one is `effects i`. -/
def workOff (t : Turn) (w : Window) (k : Fin 4) : ℕ → List Row → Progress → Progress
  | _, [], p => { p with finished := true }
  | i, row :: rest, p =>
    if validateCorrelationRow p.cursor row.id = false then p
    else
      let cursor := { p.cursor with afterID := row.id }
      if row.rejected then
        workOff t w k (i + 1) rest { p with rejected := (k, row.id) :: p.rejected, cursor }
      else if row.correlates t.scope w = false then workOff t w k (i + 1) rest { p with cursor }
      else
        match t.effects i with
        | .stored => workOff t w k (i + 1) rest
            { p with events := upsert (k, row.id) p.events, cursor }
        | .refused => { p with failed := some row.id }
        | .answerLost => { p with events := upsert (k, row.id) p.events, failed := some row.id }

/-- The candidates of a page, looked up by id in the table. -/
def candidates (s : Scope) (selected : List Row) (page : List String) : List Row :=
  page.filterMap fun id => (selected.find? fun r => r.id == id).map (Row.candidate s)

def currentSweep (t : Turn) (sweep : Sweep) : Sweep :=
  if sweep.identity ≠ some (t.scope, t.openedAt) ∨ sweep.complete = true then
    newSweep t.scope t.openedAt t.now
  else sweep

/-- `readCorrelationPage` of one source, with the rows that the page is chosen from. -/
def readPage (t : Turn) (sweep : Sweep) (k : Fin 4) (selected : List Row) :
    Except String (List String × CorrelationCursor × Bool) :=
  if t.readFails = true ∨ t.scope.valid sweep.window = false then .error "page not read"
  else memoryPage (sweep.cursors k) (selected.map Row.id)

def correlateIncidentSlice (t : Turn) (st : State) : State :=
  if t.openedAt = 0 ∨ t.scopeFails = true then { st with failed := none }
  else
    let sweep := currentSweep t st.sweep
    match ((List.finRange 4).map (sweep.next + ·)).find? fun k => !sweep.done k with
    | none => { st with sweep, failed := none }
    | some k =>
      let sweep := { sweep with next := k + 1 }
      let selected := (st.tables k).filter (Row.selected t.scope sweep.window)
      match readPage t sweep k selected with
      | .error _ => { st with sweep, failed := none }
      | .ok (page, next, done) =>
        if validateCorrelationPage (sweep.cursors k) next page.length done = false then
          { st with sweep, failed := none }
        else
          let p := workOff t sweep.window k 0 (candidates t.scope selected page)
            { events := st.events, rejected := st.rejected,
              cursor := { sweep.cursors k with started := true, upperID := next.upperID } }
          { st with
            events := p.events
            rejected := p.rejected
            failed := p.failed.map (k, ·)
            sweep := { sweep with
              cursors := update sweep.cursors k p.cursor
              done := if p.finished then update sweep.done k done else sweep.done } }

inductive Move where
  | turn (t : Turn)
  | change (k : Fin 4) (rows : List Row)

def step (st : State) : Move → State
  | .turn t => correlateIncidentSlice t st
  | .change k rows => { st with tables := update st.tables k rows }

section

/-- The row has its event, or was reported as rejected evidence. -/
def Handled (events rejected : List (Fin 4 × String)) (ref : Fin 4 × String) : Prop :=
  ref ∈ events ∨ ref ∈ rejected

variable {events : List (Fin 4 × String)}

theorem mem_upsert {ref x : Fin 4 × String} : x ∈ upsert ref events ↔ x = ref ∨ x ∈ events := by
  unfold upsert
  split
  · exact ⟨.inr, fun h => h.elim (fun h => h ▸ ‹_›) fun h => h⟩
  · exact mem_cons

theorem nodup_upsert {ref : Fin 4 × String} (h : events.Nodup) : (upsert ref events).Nodup := by
  unfold upsert
  split
  · exact h
  · exact nodup_cons.2 ⟨‹_›, h⟩

/-- What the loop over a page has done when it stops. -/
structure Worked (k : Fin 4) (rows : List Row) (p p' : Progress) : Prop where
  upper : p'.cursor.upperID = p.cursor.upperID
  started : p'.cursor.started = p.cursor.started
  kept : ∀ ref, Handled p.events p.rejected ref → Handled p'.events p'.rejected ref
  once : p.events.Nodup → p'.events.Nodup
  after : p'.cursor.afterID = p.cursor.afterID ∨ ∃ row ∈ rows, row.id = p'.cursor.afterID
  le : p.cursor.afterID ≤ p'.cursor.afterID
  passed : ∀ row ∈ rows, row.id ≤ p'.cursor.afterID → Handled p'.events p'.rejected (k, row.id)
  finished : p'.finished = true → ∀ row ∈ rows, Handled p'.events p'.rejected (k, row.id)
  failed : ∀ id, p'.failed = some id → p'.cursor.afterID < id

variable {t : Turn} {w : Window} {k : Fin 4} {p : Progress} {rows : List Row}

theorem worked_stop {failed : Option String}
    (hafter : ∀ row ∈ rows, p.cursor.afterID < row.id) (hfin : p.finished = false)
    (hevents : ∀ ref ∈ p.events, ref ∈ events) (honce : p.events.Nodup → events.Nodup)
    (hfailed : ∀ id, failed = some id → p.cursor.afterID < id) :
    Worked k rows p { p with events, failed } where
  upper := rfl
  started := rfl
  kept := fun ref h => h.imp_left (hevents ref)
  once := honce
  after := .inl rfl
  le := le_rfl
  passed := fun row hrow hle => absurd (hafter row hrow) (not_lt.2 hle)
  finished := fun h => nomatch hfin.symm.trans h
  failed := hfailed

theorem Worked.cons {row : Row} {rest : List Row} {p₁ p' : Progress}
    (h : Worked k rest p₁ p') (hlt : p.cursor.afterID < row.id)
    (hcursor : p₁.cursor = { p.cursor with afterID := row.id })
    (hkept : ∀ ref, Handled p.events p.rejected ref → Handled p₁.events p₁.rejected ref)
    (honce : p.events.Nodup → p₁.events.Nodup)
    (hrow : Handled p₁.events p₁.rejected (k, row.id)) : Worked k (row :: rest) p p' := by
  obtain ⟨hupper, hstarted, hkeep, hon, hafter, hle, hpassed, hfin, hfailed⟩ := h
  rw [hcursor] at hupper hstarted hafter hle
  refine ⟨hupper, hstarted, fun ref h => hkeep ref (hkept ref h), fun h => hon (honce h), ?_,
    hlt.le.trans hle, ?_, ?_, hfailed⟩
  · rcases hafter with heq | ⟨r, hr, heq⟩
    · exact .inr ⟨row, .head _, heq.symm⟩
    · exact .inr ⟨r, .tail _ hr, heq⟩
  · exact forall_mem_cons.2 ⟨fun _ => hkeep _ hrow, hpassed⟩
  · exact fun h => forall_mem_cons.2 ⟨hkeep _ hrow, hfin h⟩

theorem worked_workOff (hrows : ∀ row ∈ rows, row.rejected = true ∨ row.correlates t.scope w = true)
    (hsorted : (rows.map Row.id).Pairwise (· < ·))
    (hafter : ∀ row ∈ rows, p.cursor.afterID < row.id) (hfin : p.finished = false)
    (hfailed : p.failed = none) (i : ℕ) : Worked k rows p (workOff t w k i rows p) := by
  fun_induction workOff t w k i rows p
  case case1 =>
    exact ⟨rfl, rfl, fun _ h => h, fun h => h, .inl rfl, le_rfl, by simp, by simp,
      fun id h => nomatch hfailed.symm.trans h⟩
  case case2 =>
    exact worked_stop hafter hfin (fun _ h => h) (fun h => h)
      fun id h => nomatch hfailed.symm.trans h
  all_goals
    obtain ⟨hlt, -⟩ := forall_mem_cons.1 hafter
    obtain ⟨hrow, hrest⟩ := forall_mem_cons.1 hrows
    obtain ⟨hfirst, hrise⟩ := pairwise_cons.1 hsorted
    have hnext := forall_mem_map.1 hfirst
  case case3 ih =>
    exact (ih hrest hrise hnext hfin hfailed).cons hlt rfl
      (fun ref h => h.imp_right (mem_cons_of_mem _)) (fun h => h) (.inr (.head _))
  case case4 hrej hno _ => exact absurd hrow (by simp [hrej, hno])
  case case5 ih =>
    exact (ih hrest hrise hnext hfin hfailed).cons hlt rfl
      (fun ref h => h.imp_left fun h => mem_upsert.2 (.inr h)) nodup_upsert
      (.inl (mem_upsert.2 (.inl rfl)))
  case case6 =>
    exact worked_stop hafter hfin (fun _ h => h) (fun h => h) fun id h => Option.some.inj h ▸ hlt
  case case7 =>
    exact worked_stop hafter hfin (fun ref h => mem_upsert.2 (.inr h)) nodup_upsert
      fun id h => Option.some.inj h ▸ hlt

theorem map_candidates {s : Scope} {selected : List Row} {page : List String}
    (h : ∀ id ∈ page, id ∈ selected.map Row.id) : (candidates s selected page).map Row.id = page ∧
      ∀ row ∈ candidates s selected page, ∃ r ∈ selected, row = r.candidate s := by
  induction page with
  | nil => exact ⟨rfl, by simp [candidates]⟩
  | cons id page ih =>
    obtain ⟨hid, hpage⟩ := forall_mem_cons.1 h
    obtain ⟨hmap, hall⟩ := ih hpage
    rcases hfind : selected.find? (fun r => r.id == id) with _ | r
    · obtain ⟨r, hr, rfl⟩ := mem_map.1 hid
      simpa using find?_eq_none.1 hfind r hr
    have hrid : r.id = id := by simpa using find?_some hfind
    have hcand : (r.candidate s).id = id := by cases r <;> exact hrid
    have hcons : candidates s selected (id :: page) =
        r.candidate s :: candidates s selected page := by
      simp [candidates, hfind]
    rw [hcons, map_cons, hmap, hcand]
    exact ⟨rfl, forall_mem_cons.2 ⟨⟨r, mem_of_find?_eq_some hfind, rfl⟩, hall⟩⟩

structure Covered (kept : Fin 4 → Row → Prop) (st : State) : Prop where
  passed : ∀ k r, kept k r → r.id ≠ "" → r.id ≤ (st.sweep.cursors k).afterID →
    Handled st.events st.rejected (k, r.id)
  done : ∀ k r, st.sweep.done k = true → kept k r → r.id ≤ (st.sweep.cursors k).upperID →
    Handled st.events st.rejected (k, r.id)
  once : st.events.Nodup
  failed : ∀ k id, st.failed = some (k, id) → (st.sweep.cursors k).afterID < id

def Present (kept : Fin 4 → Row → Prop) (st : State) : Prop := ∀ k r, kept k r → r ∈ st.tables k

def Begins (st : State) (t : Turn) : Prop :=
  t.openedAt ≠ 0 ∧ t.scopeFails = false ∧
    (st.sweep.identity ≠ some (t.scope, t.openedAt) ∨ st.sweep.complete = true)

/-- The turn, if it is one, goes on with the sweep that `t` began. -/
def GoesOn (t : Turn) (st : State) : Move → Prop
  | .turn t' => t'.scope = t.scope ∧ t'.openedAt = t.openedAt ∧ st.sweep.complete = false
  | .change .. => True

/-- The sweep of the state is one of the turn's scope in the window. -/
def SweepOf (t : Turn) (w : Window) (sweep : Sweep) : Prop :=
  sweep.identity = some (t.scope, t.openedAt) ∧ sweep.window = w

variable {kept : Fin 4 → Row → Prop} {st : State} {sweep : Sweep}

theorem Covered.of_sweep (h : Covered kept { st with sweep, failed := none })
    (n : Fin 4) : Covered kept { st with sweep := { sweep with next := n }, failed := none } :=
  { h with }

theorem covered_newSweep (t : Turn) (h : st.events.Nodup) : Covered kept
    { st with sweep := newSweep t.scope t.openedAt t.now, failed := none } := by
  refine ⟨fun k r _ hne hle => ?_, fun k r hd => (nomatch hd), h, fun k id h => (nomatch h)⟩
  exact absurd (le_antisymm hle (not_lt.1 (not_lt_empty _))) hne

theorem Covered.worked {ids page : List String} {next : CorrelationCursor} {done : Bool}
    {p' : Progress} (h : Covered kept { st with sweep, failed := none })
    (hnot : sweep.done k = false)
    (hpage : PageSpec (sweep.cursors k) ids page next done)
    (hids : ∀ r, kept k r → r.id ∈ ids ∧ r.id ≠ "") (hrows : rows.map Row.id = page)
    (hw : Worked k rows { events := st.events, rejected := st.rejected, cursor :=
      { sweep.cursors k with started := true, upperID := next.upperID } } p') (n : Fin 4) :
    Covered kept { st with
      events := p'.events, rejected := p'.rejected, failed := p'.failed.map (k, ·)
      sweep := { sweep with
        cursors := update sweep.cursors k p'.cursor
        done := if p'.finished then update sweep.done k done else sweep.done
        next := n } } := by
  have hof : ∀ id ∈ page, ∃ row ∈ rows, row.id = id := fun id hid => mem_map.1 (hrows ▸ hid)
  refine ⟨fun j r hr hne hle => ?_, fun j r hd hr hle => ?_, hw.once h.once, fun j id hf => ?_⟩
  · dsimp only at hle ⊢
    rcases eq_or_ne j k with rfl | hj
    · rw [update_self] at hle
      rcases le_or_gt r.id (sweep.cursors j).afterID with hold | hnew
      · exact hw.kept _ (h.passed j r hr hne hold)
      -- the cursor stands on a row of the page, and the page skips nothing below it
      obtain ⟨last, hlast, hid⟩ := hw.after.resolve_left fun heq =>
        absurd (heq ▸ hle) (not_le.2 hnew)
      have hlast : last.id ∈ page := hrows ▸ mem_map_of_mem hlast
      have hbound := (inReach_iff.1 (hpage.first.sound _ hlast)).2.2
      have hin : r.id ∈ page := by
        by_contra hout
        have hlt := (hpage.first.rest r.id
          (inReach_iff.2 ⟨(hids r hr).1, hnew, (hid ▸ hle).trans hbound⟩) hout).2 _ hlast
        exact absurd (hid ▸ hle) (not_le.2 hlt)
      obtain ⟨row, hrow, heq⟩ := hof _ hin
      exact heq ▸ hw.passed row hrow (heq ▸ hle)
    · rw [update_of_ne hj] at hle
      exact hw.kept _ (h.passed j r hr hne hle)
  · dsimp only at hd hle ⊢
    rcases eq_or_ne j k with rfl | hj
    · rw [update_self, hw.upper] at hle
      cases hfin : p'.finished
      · rw [hfin] at hd
        exact nomatch hnot.symm.trans hd
      rw [hfin, if_pos rfl, update_self] at hd
      rcases le_or_gt r.id (sweep.cursors j).afterID with hold | hnew
      · exact hw.kept _ (h.passed j r hr (hids r hr).2 hold)
      have hin := hpage.first.mem_of_short (hpage.done_iff.1 hd)
        (inReach_iff.2 ⟨(hids r hr).1, hnew, hpage.upper ▸ hle⟩)
      obtain ⟨row, hrow, heq⟩ := hof _ hin
      exact heq ▸ hw.finished hfin row hrow
    · rw [update_of_ne hj] at hle
      refine hw.kept _ (h.done j r ?_ hr hle)
      split at hd
      · rwa [update_of_ne hj] at hd
      · exact hd
  · obtain ⟨x, hid, heq⟩ := Option.map_eq_some_iff.1 hf
    cases heq
    dsimp only
    rw [update_self]
    exact hw.failed id hid

theorem covered_slice (hkept : ∀ k r, kept k r → r.selected t.scope w = true)
    (hpresent : Present kept st) (hsweep : SweepOf t w (currentSweep t st.sweep))
    (h : Covered kept { st with sweep := currentSweep t st.sweep, failed := none })
    (hopen : t.openedAt ≠ 0) (hscope : t.scopeFails = false) :
    Covered kept (correlateIncidentSlice t st) ∧
      SweepOf t w (correlateIncidentSlice t st).sweep := by
  obtain ⟨hident, rfl⟩ := hsweep
  unfold correlateIncidentSlice
  rw [if_neg (by simp [hopen, hscope])]
  dsimp only
  split
  · exact ⟨h, hident, rfl⟩
  rename_i k hk
  have hnot : (currentSweep t st.sweep).done k = false := by simpa using find?_some hk
  split
  · exact ⟨h.of_sweep _, hident, rfl⟩
  rename_i page next done hread
  split
  · exact ⟨h.of_sweep _, hident, rfl⟩
  refine ⟨?_, hident, rfl⟩
  unfold readPage at hread
  split at hread
  · cases hread
  rename_i hok
  have hscope := Bool.not_eq_false _ ▸ (not_or.1 hok).2
  obtain ⟨hc, hexact⟩ := memoryPage_ok hread
  obtain ⟨page', next', done', hread', hpage⟩ := memoryPage_spec hc hexact
  cases hread.symm.trans hread'
  obtain ⟨hmap, hcand⟩ := map_candidates (s := t.scope) fun id hid => (hpage.first.sound id hid).1
  refine h.worked hnot hpage (fun r hr => ?_) hmap (worked_workOff ?_ ?_ ?_ rfl rfl 0) (k + 1)
  · have hmem := mem_map_of_mem (f := Row.id) (mem_filter.2 ⟨hpresent k r hr, hkept k r hr⟩)
    exact ⟨hmem, ne_empty_of_exact (hexact _ hmem)⟩
  · intro row hrow
    obtain ⟨r, hr, rfl⟩ := hcand row hrow
    exact .inr (correlates_candidate hscope (mem_filter.1 hr).2)
  · rw [hmap]
    exact hpage.first.sorted
  · exact fun row hrow => (hpage.first.sound row.id (hmap ▸ mem_map_of_mem hrow)).2.1

theorem covered_step {t₀ : Turn} {m : Move}
    (hkept : ∀ k r, kept k r → r.selected t₀.scope w = true) (hpresent : Present kept st)
    (hon : GoesOn t₀ st m) (h : Covered kept st ∧ SweepOf t₀ w st.sweep) :
    Covered kept (step st m) ∧ SweepOf t₀ w (step st m).sweep := by
  obtain ⟨h, hsweep⟩ := h
  cases m with
  | change k rows => exact ⟨{ h with }, hsweep⟩
  | turn t =>
    obtain ⟨hscope, hopened, hlive⟩ := hon
    have hsame : SweepOf t w = SweepOf t₀ w := by
      unfold SweepOf
      rw [hscope, hopened]
    have hcur : currentSweep t st.sweep = st.sweep := by
      rw [currentSweep, if_neg]
      simp [hsweep.1, hscope, hopened, hlive]
    have hidle : Covered kept { st with failed := none } :=
      { h with failed := fun k id hf => (nomatch hf) }
    by_cases hbad : t.openedAt = 0 ∨ t.scopeFails = true
    · have heq : step st (.turn t) = { st with failed := none } := if_pos hbad
      rw [heq]
      exact ⟨hidle, hsweep⟩
    · rw [not_or, Bool.not_eq_true] at hbad
      rw [← hsame] at hsweep ⊢
      exact covered_slice (hscope ▸ hkept) hpresent (by rwa [hcur]) (by rwa [hcur]) hbad.1 hbad.2

/-- A sweep loses no row that stays in its scope and window: the cursor of a source is never
past one without an event, and a complete sweep has reached all of them up to the bound. -/
theorem correlation_loses_nothing {moves : List Move} (hbegin : Begins st t)
    (hkept : ∀ k r, kept k r → r.selected t.scope ⟨t.openedAt, t.now⟩ = true)
    (hpresent : Present kept st) (honce : st.events.Nodup)
    (hsteps : StepsMeet step (fun st m => Present kept st ∧ GoesOn t st m)
      (step st (.turn t)) moves) :
    let final := run step st (.turn t :: moves)
    Covered kept final ∧ (final.sweep.complete = true → ∀ k r, kept k r →
      r.id ≤ (final.sweep.cursors k).upperID → Handled final.events final.rejected (k, r.id)) := by
  intro final
  obtain ⟨hopen, hscope, hnew⟩ := hbegin
  have hcur : currentSweep t st.sweep = newSweep t.scope t.openedAt t.now := if_pos hnew
  have hfirst := covered_slice hkept hpresent (hcur ▸ ⟨rfl, rfl⟩)
    (hcur ▸ covered_newSweep t honce) hopen hscope
  have hfinal := hsteps.last
    (I := fun st => Covered kept st ∧ SweepOf t ⟨t.openedAt, t.now⟩ st.sweep)
    (fun _ _ h hm => covered_step hkept hm.1 hm.2 h) hfirst
  refine ⟨hfinal.1, fun hdone k r => hfinal.1.done k r ?_⟩
  exact of_decide_eq_true hdone k

theorem audit_event_covered : ∃ st t, Begins st t ∧
    Covered (fun k r => k = 3 ∧ r = .audit "a" "inc" 5) (run step st [.turn t]) := by
  let t : Turn := ⟨⟨"inc", "", [], [], []⟩, 1, 9, false, false, fun _ => .stored⟩
  let st : State := ⟨fun _ => [.audit "a" "inc" 5], [], [],
    ⟨none, ⟨0, 0⟩, fun _ => {}, fun _ => false, 3⟩, none⟩
  have hbegin : Begins st t := ⟨by decide, rfl, .inl nofun⟩
  have hsteps : StepsMeet step (fun st m => Present (fun k r => k = 3 ∧ r = .audit "a" "inc" 5) st ∧
      GoesOn t st m) (step st (.turn t)) [] := trivial
  refine ⟨st, t, hbegin, (correlation_loses_nothing hbegin ?_ ?_ .nil hsteps).1⟩
  · rintro k r ⟨-, rfl⟩
    decide +kernel
  · rintro k r ⟨-, rfl⟩
    exact mem_singleton.2 rfl

end

end LabTether.CorrelationSweep
