import LabTether.RuleCursorPages

/-!
The steps of the sweep. A page read from the cursor passes the checks of the evaluator, so
that a step rests, reads a page, considers a rule, turns to the next page or ends the sweep;
`SweepMove` says so once, and every invariant is proved along it.
-/
namespace LabTether.RuleSweep

open Table Transition List

section

structure SweepInv (s : SweepState) : Prop where
  keyed : Keyed RuleRow.id s.rules
  ids : ∀ r ∈ s.rules, ∃ nano n, r.id = newRuleID nano n
  fresh : s.cursor.started = false → s.cursor = .zero
  working : ∀ rest done, s.phase = .working rest done → s.cursor.started = true ∧
    (rest.map RuleRow.id).Pairwise (· < ·) ∧
    ∀ r ∈ rest, s.cursor.afterID < r.id ∧ r.id ≤ s.cursor.throughID ∧
      ∃ nano n, r.id = newRuleID nano n

theorem newRuleID_ne_empty (nano : Fin (2 ^ 63)) (n : Fin (2 ^ 64)) : newRuleID nano n ≠ "" := by
  intro h
  have hlen := congrArg String.length h
  simp only [newRuleID, String.length_append] at hlen
  have harl : "arl_".length = 4 := rfl
  have hempty : "".length = 0 := rfl
  omega

theorem empty_lt {x : String} (h : x ≠ "") : "" < x := by
  have hne : x.toList ≠ [] := by simpa using h
  obtain ⟨c, cs, hcs⟩ := exists_cons_of_ne_nil hne
  rw [String.lt_iff_toList_lt, hcs]
  exact nil_lt_cons c cs

theorem sweepInv_start : SweepInv .start :=
  ⟨nodup_nil, by simp [SweepState.start], fun _ => rfl, by simp [SweepState.start]⟩

variable {rules : List RuleRow}

theorem RuleEdit.apply_keyed (h : Keyed RuleRow.id rules) (e : RuleEdit) :
    Keyed RuleRow.id (e.apply rules) := by
  cases e with
  | create nano n status =>
    refine (h.filter _).append ?_
    simp
  | delete id => exact h.filter _
  | setStatus id status =>
    refine h.map fun r _ => ?_
    split <;> rfl

theorem RuleEdit.apply_ids (h : ∀ r ∈ rules, ∃ nano n, r.id = newRuleID nano n) (e : RuleEdit) :
    ∀ r ∈ e.apply rules, ∃ nano n, r.id = newRuleID nano n := by
  intro r hr
  cases e with
  | create nano n status =>
    rcases mem_append.1 hr with hr | hr
    · exact h r (mem_filter.1 hr).1
    · rw [mem_singleton.1 hr]
      exact ⟨nano, n, rfl⟩
  | delete id => exact h r (mem_filter.1 hr).1
  | setStatus id status =>
    obtain ⟨x, hx, rfl⟩ := mem_map.1 hr
    obtain ⟨nano, n, hid⟩ := h x hx
    refine ⟨nano, n, ?_⟩
    rw [← hid]
    split <;> rfl

theorem validRules_of_sorted {throughID after : String} {l : List RuleRow}
    (hs : (l.map RuleRow.id).Pairwise (· < ·))
    (hl : ∀ r ∈ l, r.status = .active ∧ after < r.id ∧ r.id ≤ throughID) :
    validRules throughID after l = true := by
  induction l generalizing after with
  | nil => rfl
  | cons r l ih =>
    obtain ⟨hact, hlt, hle⟩ := hl r (.head _)
    rw [map_cons, pairwise_cons] at hs
    have hrest : validRules throughID r.id l = true := by
      refine ih hs.2 fun x hx => ?_
      obtain ⟨hxact, -, hxle⟩ := hl x (.tail _ hx)
      exact ⟨hxact, hs.1 x.id (mem_map_of_mem hx), hxle⟩
    simp only [validRules, Bool.and_eq_true, decide_eq_true_eq, beq_iff_eq]
    exact ⟨⟨⟨hlt, hle⟩, hact⟩, hrest⟩

theorem PageSpec.valid {cursor : EvaluationCursor} {page : EvaluationPage}
    (h : PageSpec rules cursor page) : validAlertRuleEvaluationPage cursor page = true := by
  have hrules := validRules_of_sorted h.sorted fun r hr => (h.sound r hr).2
  have hdone : (page.done || page.rules != []) = true := by
    cases hd : page.done with
    | true => rfl
    | false => simpa using h.progress hd
  have hthrough : (!cursor.started || page.throughID == cursor.throughID) = true := by
    cases hs : cursor.started with
    | false => rfl
    | true => simpa using h.through hs
  simp only [validAlertRuleEvaluationPage, Bool.and_eq_true, decide_eq_true_eq]
  exact ⟨⟨⟨⟨h.small, hdone⟩, hthrough⟩, h.after⟩, hrules⟩

end

section

/-- All that a step can do to the cursor and the page at hand. -/
inductive SweepMove (s : SweepState) : SweepOp → SweepState → Prop
  | rest (op : SweepOp) (s' : SweepState) (hc : s'.cursor = s.cursor)
      (hp : s'.phase = s.phase ∨ s'.phase = .idle ∨ s'.phase = .reading)
      (hn : considers s op = none) (hf : finishesPage s op = false) : SweepMove s op s'
  | read (limit : ℕ) (page : EvaluationPage) (hp : s.phase = .reading)
      (hpage : PageSpec s.rules s.cursor page) :
      SweepMove s (.read limit false) { s with
          cursor := { s.cursor with started := true, throughID := page.throughID }
          phase := .working page.rules page.done }
  | consider (r : RuleRow) (rest : List RuleRow) (done evaluated : Bool)
      (hp : s.phase = .working (r :: rest) done) :
      SweepMove s (.next false evaluated)
        { s with cursor := { s.cursor with afterID := r.id }, phase := .working rest done }
  | turn (ended evaluated : Bool) (hp : s.phase = .working [] false) :
      SweepMove s (.next ended evaluated) { s with phase := .reading }
  | finish (ended evaluated : Bool) (hp : s.phase = .working [] true) :
      SweepMove s (.next ended evaluated) { s with cursor := .zero, phase := .idle }

variable {s : SweepState}

theorem sweepStep_move (hk : Keyed RuleRow.id s.rules) (op : SweepOp) :
    SweepMove s op (sweepStep s op) := by
  fun_cases sweepStep s op
  case case1 => exact .rest _ _ rfl (.inr (.inr rfl)) rfl rfl
  case case6 limit fails hp hfails page hpage _ =>
    obtain rfl : fails = false := by simpa using hfails
    exact .read limit page hp (pageSpec_of_read hk hpage)
  case case7 hpage hinvalid => exact absurd (pageSpec_of_read hk hpage).valid hinvalid
  case case10 ended evaluated r rest done hp hended =>
    obtain rfl : ended = false := by simpa using hended
    exact .consider r rest done evaluated hp
  case case11 hp => exact .finish _ _ hp
  case case12 done hp hdone =>
    obtain rfl : done = false := by simpa using hdone
    exact .turn _ _ hp
  case case13 hcons hnil =>
    refine .rest _ _ rfl (.inl rfl) ?_ ?_
    · fun_cases considers s (.next _ _) <;> grind
    · fun_cases finishesPage s (.next _ _) <;> grind
  case case9 hp => exact .rest _ _ rfl (.inr (.inl rfl)) rfl (by simp [finishesPage, hp])
  all_goals first
    | exact .rest _ _ rfl (.inl rfl) rfl rfl
    | exact .rest _ _ rfl (.inr (.inl rfl)) rfl rfl

theorem sweepStep_rules (s : SweepState) (op : SweepOp) :
    (sweepStep s op).rules = s.rules ∨ ∃ e : RuleEdit, op = .edit e ∧
      (sweepStep s op).rules = e.apply s.rules := by
  cases op with
  | edit e => exact .inr ⟨e, rfl, rfl⟩
  | tick prefetched | read limit fails | next ended evaluated =>
    refine .inl ?_
    simp only [sweepStep]
    repeat' split
    all_goals rfl

theorem SweepInv.step (h : SweepInv s) (op : SweepOp) : SweepInv (sweepStep s op) := by
  have hrules : Keyed RuleRow.id (sweepStep s op).rules ∧
      ∀ r ∈ (sweepStep s op).rules, ∃ nano n, r.id = newRuleID nano n := by
    rcases sweepStep_rules s op with heq | ⟨e, -, heq⟩
    · rw [heq]
      exact ⟨h.keyed, h.ids⟩
    · rw [heq]
      exact ⟨e.apply_keyed h.keyed, e.apply_ids h.ids⟩
  have hm := sweepStep_move h.keyed op
  refine ⟨hrules.1, hrules.2, ?_, ?_⟩
  · generalize sweepStep s op = s' at hm
    cases hm with
    | rest _ _ hc hp hn hf =>
      rw [hc]
      exact h.fresh
    | read limit page hp hpage => exact fun h => nomatch h
    | consider r rest done evaluated hp =>
      intro hs
      have hstarted := (h.working _ _ hp).1
      rw [show s.cursor.started = false from hs] at hstarted
      cases hstarted
    | turn ended evaluated hp => exact h.fresh
    | finish ended evaluated hp => exact fun _ => rfl
  · intro rest' done' hphase
    generalize sweepStep s op = s' at hm hphase
    cases hm with
    | rest _ _ hc hp hn hf =>
      rw [hc]
      rcases hp with hp | hp | hp
      · exact h.working _ _ (hp.symm.trans hphase)
      all_goals
        rw [hp] at hphase
        cases hphase
    | read limit page hp hpage =>
      cases hphase
      refine ⟨rfl, hpage.sorted, fun r hr => ?_⟩
      obtain ⟨hmem, -, hlt, hle⟩ := hpage.sound r hr
      exact ⟨hlt, hle, h.ids r hmem⟩
    | consider r rest done evaluated hp =>
      cases hphase
      obtain ⟨hs, hsorted, hall⟩ := h.working _ _ hp
      rw [map_cons, pairwise_cons] at hsorted
      refine ⟨hs, hsorted.2, fun x hx => ?_⟩
      obtain ⟨-, hle, hid⟩ := hall x (.tail _ hx)
      exact ⟨hsorted.1 x.id (mem_map_of_mem hx), hle, hid⟩
    | turn ended evaluated hp | finish ended evaluated hp => cases hphase

theorem sweepInv_run (ops : List SweepOp) : SweepInv (run sweepStep .start ops) :=
  run_invariant_all sweepStep SweepInv (fun _ op h => h.step op) sweepInv_start ops

theorem cursor_moves (h : SweepInv s) (op : SweepOp) :
    (considers s op = none ∧ ((sweepStep s op).cursor.afterID = s.cursor.afterID ∨
        (sweepStep s op).cursor = .zero)) ∨
      (considers s op = some (sweepStep s op).cursor.afterID ∧
        s.cursor.afterID < (sweepStep s op).cursor.afterID) := by
  have hm := sweepStep_move h.keyed op
  generalize sweepStep s op = s' at hm
  cases hm with
  | rest _ _ hc hp hn hf => exact .inl ⟨hn, .inl (by rw [hc])⟩
  | read limit page hp hpage => exact .inl ⟨rfl, .inl rfl⟩
  | consider r rest done evaluated hp =>
    exact .inr ⟨by simp [considers, hp], ((h.working _ _ hp).2.2 r (.head _)).1⟩
  | turn ended evaluated hp => exact .inl ⟨by cases ended <;> simp [considers, hp], .inl rfl⟩
  | finish ended evaluated hp => exact .inl ⟨by cases ended <;> simp [considers, hp], .inr rfl⟩

end

end LabTether.RuleSweep
