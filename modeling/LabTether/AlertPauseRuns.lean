import LabTether.AlertPauseSweep

/-!
Runs of the evaluator and the pause handler together. What the handler knows in each phase
is kept by every step, as long as the status is not written in the middle of an evaluation
and the sweep is not cut short. Without that an evaluation that was past its claim fires
after the sweep, and nothing closes the instance.
-/
namespace LabTether.Alerting

open GoStrings Interference Transition World List

variable {H : Sha256} {rule : Rule} {s : PauseSystem}

/-- The evaluation that is under way is one of some rule, and its time has been reached. -/
def EvaluatorReady (H : Sha256) (w : World) : EvaluatorPhase → Prop
  | .running p => ∃ r, Ensures WorldStep (Law H r) p (fun _ => Inv) w
  | .stamped _ t => t ≤ w.clock
  | _ => True

structure Settled (s : PauseSystem) : Prop where
  paused : s.status = .paused
  notRunning : ∀ p, s.evaluator ≠ .running p

/-- What the phase of the handler says of the rule, the evaluator and the store. -/
def HandlerReady (rule : Rule) (s : PauseSystem) : HandlerPhase → Prop
  | .ready => s.status = .active
  | .loaded existing => s.status = .active ∧ existing = .active
  | .looping => Settled s
  | .sweeping p => Settled s ∧
      Ensures CalmStep SweepCall p (fun m w => Calm (fun w => m = 0 → Silent rule.id w) w)
        s.sweepView
  | .done => Settled s ∧ Silent rule.id s.world

structure PauseInv (H : Sha256) (rule : Rule) (s : PauseSystem) : Prop where
  inv : Inv s.world
  lasts : s.pauseErr = false
  evaluator : EvaluatorReady H s.world s.evaluator
  handler : HandlerReady rule s s.handler

variable {w : World}

theorem pauseInv_start (hw : Inv w) : PauseInv H rule (.start w) := ⟨hw, rfl, trivial, rfl⟩

theorem PauseInv.settled_or_active (h : PauseInv H rule s) : s.status = .active ∨ Settled s := by
  have hh := h.handler
  cases hs : s.handler with
  | ready => exact .inl (by simpa [hs, HandlerReady] using hh)
  | loaded existing => exact .inl (by rw [hs] at hh; exact hh.1)
  | looping => exact .inr (by rw [hs] at hh; exact hh)
  | sweeping p | done => exact .inr (by rw [hs] at hh; exact hh.1)

theorem PauseInv.evaluatorMoves (h : PauseInv H rule s) {phase : EvaluatorPhase}
    (hready : EvaluatorReady H s.world phase)
    (hphase : s.status = .active ∨ ∀ p, phase ≠ .running p) :
    PauseInv H rule { s with evaluator := phase } := by
  obtain ⟨w, status, err, ev, handler⟩ := s
  have hsettled : Settled ⟨w, status, err, ev, handler⟩ →
      Settled ⟨w, status, err, phase, handler⟩ := by
    intro hset
    refine ⟨hset.paused, hphase.resolve_left fun hact => ?_⟩
    have hpaused : status = .paused := hset.paused
    rw [hpaused] at hact
    cases hact
  refine ⟨h.inv, h.lasts, hready, ?_⟩
  have hh := h.handler
  cases handler with
  | ready | loaded existing => exact hh
  | looping => exact hsettled hh
  | sweeping p | done => exact ⟨hsettled hh.1, hh.2⟩

theorem PauseInv.evaluates (h : PauseInv H rule s) {β : Type} {f : World → β × World}
    {k : β → Prog World Unit} (hp : s.evaluator = .running (.call f k)) : PauseInv H rule
      { s with world := (f s.world).2, evaluator := .running (k (f s.world).1) } := by
  have hactive : s.status = .active :=
    h.settled_or_active.resolve_right fun hset => hset.notRunning _ hp
  obtain ⟨w, status, err, ev, handler⟩ := s
  cases hp
  obtain ⟨r, hens⟩ := h.evaluator
  obtain ⟨hlaw, hrest⟩ := hens w .refl
  refine ⟨hlaw.inv, h.lasts, ⟨r, hrest⟩, ?_⟩
  have hh := h.handler
  cases handler with
  | ready | loaded existing => exact hh
  | looping => exact absurd rfl (hh.notRunning _)
  | sweeping p | done => exact absurd rfl (hh.1.notRunning _)

theorem Inv.withCtx (hw : Inv w) (b : Bool) : Inv (w.withCtx b) :=
  { hw with }

theorem withCtx_self {b : Bool} (h : w.ctxErr = b) : w.withCtx b = w := by
  rw [← h]
  rfl

theorem WorldOp.apply_withCtx (op : WorldOp) (w : World) (b : Bool) :
    (op.apply w).withCtx b = w.withCtx b ∨ CalmStep (w.withCtx b) ((op.apply w).withCtx b) := by
  cases op with
  | wait n => exact .inr ⟨⟨.wait n, rfl⟩, rfl⟩
  | context ended => exact .inl rfl
  | manual id action =>
    refine .inr ⟨⟨.manual id action, ?_⟩, rfl⟩
    have hfind : instanceOf id (w.withCtx b) = instanceOf id w := rfl
    simp only [WorldOp.apply, updateAlertInstanceStatus, hfind]
    split
    · rfl
    split
    · rfl
    · split <;> rfl

section

variable (h : PauseInv H rule s)
include h

theorem PauseInv.sweeps (sup : Suppression) :
    PauseInv H rule (pauseStep H rule s (.sweep sup)) := by
  obtain ⟨w, status, err, ev, handler⟩ := s
  have herr : err = false := h.lasts
  subst herr
  have hh := h.handler
  cases handler with
  | ready | loaded existing | done => exact h
  | looping =>
    exact ⟨h.inv, rfl, h.evaluator, ⟨hh.paused, hh.notRunning⟩,
      resolveStaleInstances_calm sup ⟨h.inv.withCtx false, rfl, trivial⟩⟩
  | sweeping p =>
    cases p with
    | ret n =>
      by_cases hn : n = 0
      · have hsilent : Silent rule.id w := hh.2.known hn
        simp only [pauseStep, if_pos hn]
        exact ⟨h.inv, rfl, h.evaluator, ⟨hh.1.paused, hh.1.notRunning⟩, hsilent⟩
      · simp only [pauseStep, if_neg hn]
        exact ⟨h.inv, rfl, h.evaluator, ⟨hh.1.paused, hh.1.notRunning⟩⟩
    | call f k =>
      obtain ⟨⟨hrev, hctx⟩, hrest⟩ := hh.2 _ .refl
      have hinv := (hrev.mono fun _ _ hm => hm.toRewrites).inv (h.inv.withCtx false)
      have hready : EvaluatorReady H ((f (w.withCtx false)).2.withCtx w.ctxErr) ev := by
        cases ev with
        | running p => exact absurd rfl (hh.1.notRunning p)
        | idle | paged e => trivial
        | stamped e t => exact le_trans h.evaluator hrev.clock
      refine ⟨hinv.withCtx _, rfl, hready, ⟨hh.1.paused, hh.1.notRunning⟩, ?_⟩
      have hview : (f (w.withCtx false)).2.withCtx false = (f (w.withCtx false)).2 :=
        withCtx_self hctx
      show Ensures _ _ _ _ ((f (w.withCtx false)).2.withCtx false)
      rw [hview]
      exact hrest

theorem PauseInv.around (op : WorldOp) : PauseInv H rule { s with world := op.apply s.world } := by
  obtain ⟨w, status, err, ev, handler⟩ := s
  have hstep : WorldStep w (op.apply w) := ⟨op, rfl⟩
  have hrev : Revised Retains w (op.apply w) := hstep.revised h.inv
  refine ⟨stable_inv _ _ hstep h.inv, h.lasts, ?_, ?_⟩
  · cases ev with
    | running p =>
      obtain ⟨r, hens⟩ := h.evaluator
      exact ⟨r, Ensures.stable (fun _ => stable_inv) _ _ hstep hens⟩
    | idle | paged e => trivial
    | stamped e t => exact le_trans h.evaluator hrev.clock
  have hh := h.handler
  cases handler with
  | ready | loaded existing => exact hh
  | looping => exact ⟨hh.paused, hh.notRunning⟩
  | done =>
    exact ⟨⟨hh.1.paused, hh.1.notRunning⟩, held_noneIn rule.id (.inl rfl) _ _ hrev hh.2.1,
      held_noneIn rule.id (.inr rfl) _ _ hrev hh.2.2⟩
  | sweeping p =>
    refine ⟨⟨hh.1.paused, hh.1.notRunning⟩, ?_⟩
    have hheld : ∀ m : ℕ, Held fun w => m = 0 → Silent rule.id w := fun m w w' hrev hsil hm =>
      ⟨held_noneIn rule.id (.inl rfl) w w' hrev (hsil hm).1,
        held_noneIn rule.id (.inr rfl) w w' hrev (hsil hm).2⟩
    rcases op.apply_withCtx w err with heq | hcalm
    · show Ensures _ _ _ _ ((op.apply w).withCtx err)
      rw [heq]
      exact hh.2
    · exact Ensures.stable (fun m => stable_calm (hheld m)) _ _ hcalm hh.2

theorem PauseInv.claims (hactive : s.status = .active) (e : Evaluation) {t : ℤ}
    (ht : t ≤ s.world.clock) :
    PauseInv H rule { s with evaluator := .running (evaluateSingleRuleAt H e t) } :=
  h.evaluatorMoves ⟨e.rule, evaluateSingleRuleAt_ensures e ⟨h.inv, ht⟩⟩ (.inl hactive)

theorem pauseStep_inv (op : PauseOp) (ho : Orderly s op) :
    PauseInv H rule (pauseStep H rule s op) := by
  have hh := h.handler
  cases op
  case sweep sup => exact h.sweeps sup
  case timeout => exact absurd rfl ho.2
  case around op => exact h.around op
  case update =>
    simp only [pauseStep]
    split
    · rename_i existing hs
      rw [hs] at hh
      obtain ⟨-, rfl⟩ := hh
      refine ⟨h.inv, h.lasts, h.evaluator, rfl, fun p hp => ?_⟩
      have hrest := ho.1 rfl
      rw [show s.evaluator = .running p from hp] at hrest
      cases hrest
    · exact h
  all_goals
    simp only [pauseStep]
    repeat' split
  all_goals try first | exact h | exact h.evaluatorMoves trivial (.inr fun p => by simp)
  · exact h.evaluatorMoves (le_refl s.world.clock) (.inr fun p => by simp)
  · rename_i e t hp hc
    have hready := h.evaluator
    rw [hp] at hready
    exact h.claims hc.2.1 e hready
  · rename_i hp
    exact h.evaluates hp
  · rename_i hs
    rw [hs] at hh
    exact ⟨h.inv, h.lasts, h.evaluator, hh, hh⟩

end

/-- A paused rule has nothing pending and nothing firing, once the handler has finished and in
every state after that, if the status was written while no evaluation of the rule was past
its claim and the sweep had the time it needed. -/
theorem paused_rule_silent (H : Sha256) (rule : Rule) (clock : ℤ) (w : World)
    (hw : Runs H (start clock) w) (ops : List PauseOp)
    (hops : StepsMeet (pauseStep H rule) Orderly (.start w) ops)
    (hdone : (run (pauseStep H rule) (.start w) ops).handler.finished = true) :
    Silent rule.id (run (pauseStep H rule) (.start w) ops).world := by
  have hstart : PauseInv H rule (.start w) := pauseInv_start (hw.keeps (inv_start clock)).1
  have hinv :=
    StepsMeet.last (I := PauseInv H rule) (fun s op h ho => pauseStep_inv h op ho) hstart hops
  have hh := hinv.handler
  revert hdone hh
  generalize (run (pauseStep H rule) (.start w) ops).handler = phase
  intro hdone hh
  cases phase with
  | done => exact hh.2
  | ready | loaded existing | looping | sweeping p => cases hdone

def orderlyPause : List PauseOp :=
  [.page sampleEvaluation, .stamp, .claim] ++ replicate 9 .evaluate ++ [.load, .update] ++
    replicate 20 (.sweep ⟨false, none, some []⟩)

theorem paused_rule_silent_orderlyPause :
    (run (pauseStep sampleHash sampleEvaluation.rule) (.start (start 5))
      (orderlyPause.take 12)).world.instances.map (·.status) = [.firing] ∧
    Silent "disk" (run (pauseStep sampleHash sampleEvaluation.rule) (.start (start 5))
      orderlyPause).world := by
  exact ⟨by decide, paused_rule_silent sampleHash sampleEvaluation.rule 5 (start 5) .refl
    orderlyPause (by decide) (by decide)⟩

/-- The rule is paused and swept while an evaluation is past its claim; then it fires. -/
def lateFire : List PauseOp :=
  [.page sampleEvaluation, .stamp, .claim, .load, .update] ++
    replicate 7 (.sweep ⟨false, none, some []⟩) ++ replicate 9 .evaluate

theorem late_fire_after_pause :
    let s := run (pauseStep sampleHash sampleEvaluation.rule) (.start (start 5)) lateFire
    s.handler.finished = true ∧ s.evaluator.finished = true ∧ s.status = .paused ∧
      ¬ Silent sampleEvaluation.rule.id s.world := by
  have hfiring : ∃ i ∈ (run (pauseStep sampleHash sampleEvaluation.rule)
      (.start (start 5)) lateFire).world.instances,
      i.ruleID = trimSpace "disk" ∧ i.status = .firing := by decide
  obtain ⟨i, hi, hrule, hst⟩ := hfiring
  exact ⟨by decide, by decide, by decide, fun h => h.2 i hi hrule hst⟩

end LabTether.Alerting
