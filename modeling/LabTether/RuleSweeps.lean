import LabTether.RuleSweepMoves

/-!
Coverage of a sweep. `Covered` follows one rule that stays active: it has been considered,
or it is ahead of the cursor and the page at hand holds it or is followed by another page.
No edit of other rules and no cut-off disturbs that. `Tracked` follows the ids that were
considered: they increase, so none comes twice.
-/
namespace LabTether.RuleSweep

open Transition List Option Fintype

section

variable {s : SweepState} {x : String} {seen : List String} {pages : ℕ}

def Active (id : String) (s : SweepState) : Prop := ⟨id, .active⟩ ∈ s.rules
  deriving Decidable

def Sweeping (s : SweepState) : Prop := s.cursor.started = true
  deriving Decidable

/-- The page at hand holds the rule or another page follows. -/
def Awaits (x : String) : SlicePhase → Prop
  | .working rest done => x ∈ rest.map RuleRow.id ∨ (done = false ∧ ∀ r ∈ rest, r.id < x)
  | _ => True

/-- A rule that stays active is behind the cursor and was considered, or it is ahead. -/
def Covered (x : String) (seen : List String) (s : SweepState) : Prop :=
  x ∈ seen ∨ (s.cursor.afterID < x ∧ Awaits x s.phase)

/-- The ids considered so far, and the pages that were finished. -/
structure Tracked (seen : List String) (pages : ℕ) (s : SweepState) : Prop where
  sorted : seen.Pairwise (· < ·)
  behind : ∀ y ∈ seen, y ≤ s.cursor.afterID
  issued : ∀ y ∈ seen, ∃ nano n, y = newRuleID nano n
  paid : pages ≤ seen.length
  owed : s.phase = .working [] false → pages + 1 ≤ seen.length

theorem Covered.step (h : Covered x seen s) (hs : SweepInv s) (hx : Active x s)
    (hle : x ≤ s.cursor.throughID) (hstart : s.cursor.started = true) (op : SweepOp)
    (hnext : (sweepStep s op).cursor.started = true) :
    Covered x (seen ++ (considers s op).toList) (sweepStep s op) := by
  rcases h with hseen | ⟨hlt, hawaits⟩
  · exact .inl (mem_append_left _ hseen)
  have hm := sweepStep_move hs.keyed op
  generalize sweepStep s op = s' at hm hnext
  cases hm with
  | rest _ _ hc hp hn hf =>
    refine .inr ⟨by rw [hc]; exact hlt, ?_⟩
    rcases hp with hp | hp | hp
    · rw [hp]
      exact hawaits
    all_goals
      rw [hp]
      trivial
  | read limit page hp hpage =>
    have hthrough : x ≤ page.throughID := by rw [hpage.through hstart]; exact hle
    exact .inr ⟨hlt, hpage.covers ⟨x, .active⟩ hx rfl hlt hthrough⟩
  | consider r rest done evaluated hp =>
    rw [hp] at hawaits
    have hcons : considers s (.next false evaluated) = some r.id := by simp [considers, hp]
    rw [hcons]
    rcases hawaits with hmem | ⟨hd, hall⟩
    · rcases mem_cons.1 hmem with rfl | hmem
      · exact .inl (mem_append_right _ (.head _))
      · have hsorted := (hs.working _ _ hp).2.1
        rw [map_cons, pairwise_cons] at hsorted
        exact .inr ⟨hsorted.1 x hmem, .inl hmem⟩
    · exact .inr ⟨hall r (.head _), .inr ⟨hd, fun y hy => hall y (.tail _ hy)⟩⟩
  | turn ended evaluated hp => exact .inr ⟨hlt, trivial⟩
  | finish ended evaluated hp => cases hnext

theorem sweep_last (hs : SweepInv s) (hstart : Sweeping s) {op : SweepOp}
    (hend : (sweepStep s op).cursor.started = false) :
    s.phase = .working [] true ∧ considers s op = none := by
  have hm := sweepStep_move hs.keyed op
  generalize sweepStep s op = s' at hm hend
  unfold Sweeping at hstart
  cases hm with
  | rest _ _ hc hp hn hf =>
    rw [hc, hstart] at hend
    cases hend
  | read limit page hp hpage => cases hend
  | consider r rest done evaluated hp | turn ended evaluated hp =>
    rw [show s.cursor.started = false from hend] at hstart
    cases hstart
  | finish ended evaluated hp => exact ⟨hp, by cases ended <;> simp [considers, hp]⟩

theorem Covered.finish (h : Covered x seen s) (hp : s.phase = .working [] true) : x ∈ seen := by
  refine h.resolve_right ?_
  rintro ⟨-, hawaits⟩
  rw [hp] at hawaits
  rcases hawaits with hmem | ⟨hd, -⟩
  · cases hmem
  · cases hd

theorem Tracked.step (h : Tracked seen pages s) (hs : SweepInv s) (op : SweepOp)
    (hnext : Sweeping (sweepStep s op)) :
    Tracked (seen ++ (considers s op).toList) (pages + if finishesPage s op then 1 else 0)
      (sweepStep s op) := by
  have hm := sweepStep_move hs.keyed op
  generalize sweepStep s op = s' at hm hnext
  cases hm with
  | rest _ _ hc hp hn hf =>
    rw [hn, hf]
    simp only [toList_none, append_nil, Bool.false_eq_true, if_false, Nat.add_zero]
    refine { h with behind := by rw [hc]; exact h.behind, owed := fun hw => ?_ }
    rcases hp with hp | hp | hp
    · exact h.owed (hp.symm.trans hw)
    all_goals
      rw [hp] at hw
      cases hw
  | read limit page hp hpage =>
    simp only [considers, finishesPage, toList_none, append_nil, Bool.false_eq_true,
      if_false, Nat.add_zero]
    refine { h with owed := fun hw => ?_ }
    obtain ⟨hrules, hdone⟩ : page.rules = [] ∧ page.done = false := by simpa using hw
    exact absurd hrules (hpage.progress hdone)
  | consider r rest done evaluated hp =>
    have hcons : considers s (.next false evaluated) = some r.id := by simp [considers, hp]
    have hfin : finishesPage s (.next false evaluated) = false := by simp [finishesPage, hp]
    obtain ⟨hlt, -, hid⟩ := (hs.working _ _ hp).2.2 r (.head _)
    rw [hcons, hfin]
    simp only [toList_some, Bool.false_eq_true, if_false, Nat.add_zero]
    have hpaid := h.paid
    refine ⟨?_, ?_, ?_, by rw [length_append]; omega,
      fun _ => by rw [length_append, length_singleton]; omega⟩
    · refine pairwise_append.2 ⟨h.sorted, pairwise_singleton _ _, ?_⟩
      intro a ha b hb
      rw [mem_singleton.1 hb]
      exact lt_of_le_of_lt (h.behind a ha) hlt
    · exact forall_mem_append.2
        ⟨fun y hy => (h.behind y hy).trans hlt.le, forall_mem_singleton.2 le_rfl⟩
    · exact forall_mem_append.2 ⟨h.issued, forall_mem_singleton.2 hid⟩
  | turn ended evaluated hp =>
    have hcons : considers s (.next ended evaluated) = none := by
      cases ended <;> simp [considers, hp]
    have hfin : finishesPage s (.next ended evaluated) = true := by simp [finishesPage, hp]
    rw [hcons, hfin]
    simp only [toList_none, append_nil, if_true]
    exact { h with paid := h.owed hp, owed := fun hw => by cases hw }
  | finish ended evaluated hp => cases hnext

theorem sweep_first (hs : SweepInv s) (hold : s.cursor.started = false) {op : SweepOp}
    (hnext : Sweeping (sweepStep s op)) :
    considers s op = none ∧ finishesPage s op = false ∧ Tracked [] 0 (sweepStep s op) ∧
      ∀ x, Active x s → x ≤ (sweepStep s op).cursor.throughID → Covered x [] (sweepStep s op) := by
  have hm := sweepStep_move hs.keyed op
  generalize sweepStep s op = s' at hm hnext ⊢
  have hworking : ∀ rest done, s.phase ≠ .working rest done := by
    intro rest done hp
    have hstarted := (hs.working _ _ hp).1
    rw [hold] at hstarted
    cases hstarted
  cases hm with
  | rest _ _ hc hp hn hf =>
    unfold Sweeping at hnext
    rw [hc, hold] at hnext
    cases hnext
  | read limit page hp hpage =>
    refine ⟨rfl, rfl, ⟨.nil, by simp, by simp, le_refl _, fun hw => ?_⟩, fun x hx hle => ?_⟩
    · obtain ⟨hrules, hdone⟩ : page.rules = [] ∧ page.done = false := by simpa using hw
      exact absurd hrules (hpage.progress hdone)
    have hafter : s.cursor.afterID = "" := by rw [hs.fresh hold]; rfl
    have hlt : s.cursor.afterID < x := by
      obtain ⟨nano, n, hid⟩ := hs.ids _ hx
      rw [hafter, show x = newRuleID nano n from hid]
      exact empty_lt (newRuleID_ne_empty nano n)
    exact .inr ⟨hlt, hpage.covers ⟨x, .active⟩ hx rfl hlt hle⟩
  | consider r rest done evaluated hp | turn ended evaluated hp | finish ended evaluated hp => exact absurd hp (hworking _ _)

variable {ops : List SweepOp}

theorem Tracked.run (h : Tracked seen pages s) (hs : SweepInv s)
    (hin : AllStates sweepStep Sweeping s ops) :
    Tracked (seen ++ collect considers s ops) (pages + finishedPages s ops)
      (run sweepStep s ops) := by
  induction ops generalizing s seen pages with
  | nil => simpa [collect, finishedPages] using h
  | cons op ops ih =>
    have hrun := ih (h.step hs op hin.next) (hs.step op) hin.2
    rw [append_assoc, Nat.add_assoc] at hrun
    exact hrun

theorem through_step (hs : SweepInv s) (hstart : Sweeping s) (op : SweepOp)
    (hnext : Sweeping (sweepStep s op)) :
    (sweepStep s op).cursor.throughID = s.cursor.throughID := by
  have hm := sweepStep_move hs.keyed op
  generalize sweepStep s op = s' at hm hnext
  cases hm with
  | rest _ _ hc hp hn hf => rw [hc]
  | read limit page hp hpage => exact hpage.through hstart
  | consider r rest done evaluated hp | turn ended evaluated hp => rfl
  | finish ended evaluated hp => cases hnext

/-- A rule that stays active to the end of the sweep has been considered. -/
theorem Covered.run (h : Covered x seen s) (hs : SweepInv s) (hle : x ≤ s.cursor.throughID)
    {last : SweepOp} (hin : AllStates sweepStep Sweeping s ops)
    (hx : AllStates sweepStep (Active x) s (ops ++ [last]))
    (hend : (sweepStep (Transition.run sweepStep s ops) last).cursor.started = false) :
    x ∈ seen ++ collect considers s (ops ++ [last]) := by
  induction ops generalizing s seen with
  | nil => exact mem_append_left _ (h.finish (sweep_last hs hin hend).1)
  | cons op ops ih =>
    have hcov := h.step hs hx.1 hle hin.1 op hin.next
    have hle' : x ≤ (sweepStep s op).cursor.throughID := by
      rw [through_step hs hin.1 op hin.next]
      exact hle
    have hmem := ih hcov (hs.step op) hle' hin.2 hx.2 hend
    rw [append_assoc] at hmem
    exact hmem

variable {β : Type} {l : List String}

theorem length_le_card [Fintype β] (f : β → String) (hl : l.Nodup) (hi : ∀ y ∈ l, ∃ b, y = f b) :
    l.length ≤ card β := by
  have hsub : l ⊆ Finset.univ.toList.map f := by
    intro y hy
    obtain ⟨b, rfl⟩ := hi y hy
    simp
  simpa using (hl.subperm hsub).length_le

theorem length_le_of_issued (hl : l.Nodup) (hi : ∀ y ∈ l, ∃ nano n, y = newRuleID nano n) :
    l.length ≤ 2 ^ 63 * 2 ^ 64 := by
  have hle := length_le_card (fun p : Fin (2 ^ 63) × Fin (2 ^ 64) => newRuleID p.1 p.2) hl
    fun y hy => by
      obtain ⟨nano, n, hid⟩ := hi y hy
      exact ⟨(nano, n), hid⟩
  rwa [card_prod, card_fin, card_fin] at hle

theorem collect_append (f : SweepState → SweepOp → Option β) (s : SweepState) (ops : List SweepOp)
    (op : SweepOp) : collect f s (ops ++ [op]) =
      collect f s ops ++ (f (Transition.run sweepStep s ops) op).toList := by
  induction ops generalizing s with
  | nil => simp [collect]
  | cons i ops ih =>
    show (f s i).toList ++ collect f (sweepStep s i) (ops ++ [op]) = _
    rw [ih]
    exact (append_assoc _ _ _).symm

end

/-- Coverage of a sweep, from the state before its first page. The ids considered so far
increase; the cursor moves to each of them and never back; every page that was finished has
an id of its own, and the generator issues finitely many ids; both stores return the same
pages; and when the sweep ends, each rule within its bound that was active all along has
been considered exactly once. -/
theorem sweep_considers_active_rules_once (pre : List SweepOp) (first : SweepOp)
    (ops : List SweepOp) (hnew : (run sweepStep .start pre).cursor.started = false)
    (hin : AllStates sweepStep Sweeping (sweepStep (run sweepStep .start pre) first) ops) :
    let s := run sweepStep .start pre
    let t := run sweepStep s (first :: ops)
    let considered := collect considers s (first :: ops)
    considered.Pairwise (· < ·) ∧
    (∀ op, (considers t op = none ∧ ((sweepStep t op).cursor.afterID = t.cursor.afterID ∨
        (sweepStep t op).cursor = .zero)) ∨
      (considers t op = some (sweepStep t op).cursor.afterID ∧
        t.cursor.afterID < (sweepStep t op).cursor.afterID)) ∧
    finishedPages s (first :: ops) ≤ considered.length ∧
    considered.length ≤ 2 ^ 63 * 2 ^ 64 ∧
    (∀ cursor limit, pageActiveAlertRulesPostgres t.rules cursor limit =
      pageActiveAlertRules t.rules cursor limit) ∧
    ∀ last, (sweepStep t last).cursor.started = false →
      ∀ id, id ≤ (sweepStep s first).cursor.throughID →
        AllStates sweepStep (Active id) s (first :: ops ++ [last]) →
        (collect considers s (first :: ops ++ [last])).count id = 1 := by
  intro s t considered
  have hs : SweepInv s := sweepInv_run pre
  have hs' : SweepInv (sweepStep s first) := hs.step first
  have hsweeping : Sweeping (sweepStep s first) := by
    cases ops with
    | nil => exact hin
    | cons op ops => exact hin.1
  obtain ⟨hnone, hfin, htracked, hcovers⟩ := sweep_first hs hnew hsweeping
  have ht : SweepInv t := run_invariant_all sweepStep SweepInv (fun _ op h => h.step op) hs _
  have hrun := htracked.run hs' hin
  have hconsidered : considered = collect considers (sweepStep s first) ops := by
    show (considers s first).toList ++ _ = _
    rw [hnone]
    rfl
  have hpages : finishedPages s (first :: ops) = finishedPages (sweepStep s first) ops := by
    show (if finishesPage s first then 1 else 0) + _ = _
    rw [hfin]
    simp
  rw [nil_append, Nat.zero_add, ← hconsidered, ← hpages] at hrun
  refine ⟨hrun.sorted, cursor_moves ht, hrun.paid,
    length_le_of_issued (hrun.sorted.imp fun h => ne_of_lt h) hrun.issued,
    fun cursor limit => pageActiveAlertRulesPostgres_eq ht.keyed, ?_⟩
  intro last hend id hle hactive
  have hcov := hcovers id hactive.1 hle
  have hmem := hcov.run hs' hle hin hactive.2 hend
  have hquiet : considers t last = none := (sweep_last ht hin.last hend).2
  rw [nil_append, collect_append,
    show considers (run sweepStep (sweepStep s first) ops) last = none from hquiet,
    toList_none, append_nil, ← hconsidered] at hmem
  rw [collect_append, show considers (run sweepStep s (first :: ops)) last = none from hquiet,
    toList_none, append_nil]
  exact count_eq_one_of_mem (hrun.sorted.imp fun h => ne_of_lt h) hmem

def twoPages : List SweepOp :=
  [.next false true, .next false false, .read 1 false, .next false false]

def twoRules : List SweepOp :=
  [.edit (.create 1 1 .active), .edit (.create 2 2 .active), .tick true]

theorem sweep_considers_active_rules_once_twoPages :
    (collect considers (run sweepStep .start twoRules)
      (.read 1 false :: twoPages ++ [.next false false])).count "arl_2_2" = 1 :=
  (sweep_considers_active_rules_once twoRules (.read 1 false) twoPages (by decide +kernel)
    (by decide +kernel)).2.2.2.2.2 (.next false false) (by decide +kernel) "arl_2_2"
    (by decide +kernel) (by decide +kernel)

/-- A rule that is active all along and not due is not evaluated in the sweep. -/
theorem sweep_skips_rule_not_due :
    let s := run sweepStep .start twoRules
    let sweep := .read 1 false :: twoPages ++ [.next false false]
    AllStates sweepStep Sweeping (sweepStep s (.read 1 false)) twoPages ∧
      (run sweepStep s sweep).cursor.started = false ∧
      AllStates sweepStep (Active "arl_2_2") s sweep ∧
      "arl_2_2" ≤ (sweepStep s (.read 1 false)).cursor.throughID ∧
      (collect evaluates s sweep).count "arl_2_2" = 0 := by
  decide +kernel

end LabTether.RuleSweep
