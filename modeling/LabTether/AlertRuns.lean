import LabTether.AlertHoldOff

/-!
The hold-off law over whole runs of the alert evaluator. `evaluateRule_ensures` goes through
the program of one evaluation and gives the law for each of its calls, whatever happens
between them; a run is a sequence of evaluations, each of which may be cut short.
-/
namespace LabTether.Alerting

open Interference Prog Table List Option World

section

variable {H : Sha256} {rule : Rule} {«at» : ℤ} {allowed : Option ℕ} {w w' : World}

theorem WorldStep.revised (h : WorldStep w w') (hw : Inv w) : Revised Retains w w' := by
  obtain ⟨op, rfl⟩ := h
  cases op with
  | wait n =>
    refine .refl ?_ rfl rfl
    show w.clock ≤ w.clock + n
    omega
  | context ended => exact .refl (le_refl _) rfl rfl
  | manual id action =>
    exact updateAlertInstanceStatus_revised id (by cases action <;> simp [ManualAction.status])
      hw.keyed

theorem stable_inv : Stable WorldStep Inv := fun _ _ hstep hw =>
  ((hstep.revised hw).mono fun _ _ hm => hm.toRewrites).inv hw

theorem stable_vacant : Stable WorldStep (Vacant H rule «at» allowed) :=
  fun _ _ hstep h => h.revised (hstep.revised h.inv)

theorem stable_cleared : Stable WorldStep (Cleared H rule «at» allowed) :=
  fun _ _ hstep h => h.revised (hstep.revised h.inv)

def Started («at» : ℤ) (w : World) : Prop := Inv w ∧ «at» ≤ w.clock

theorem stable_started : Stable WorldStep (Started «at») := fun _ _ hstep h =>
  ⟨stable_inv _ _ hstep h.1, h.2.trans (hstep.revised h.1).clock⟩

end

variable {β : Type}

section

variable {H : Sha256} {rule : Rule} {«at» : ℤ} {w : World} {P : World → Prop}

theorem ensures_look {α : Type} {f : World → α} (hP : Stable WorldStep P)
    (hinv : ∀ w, P w → Inv w) (hw : P w) : Ensures WorldStep (Law H rule) (read f) (fun _ => P) w :=
  ensures_atomically P hP hw fun w hw => ⟨.refl (hinv w hw), hw⟩

variable {f : World → Except String β × World}

theorem ensures_storeCall {Q : Except String β → World → Prop} (hP : Stable WorldStep P)
    (hinv : ∀ w, P w → Inv w) (hw : P w) (hdone : ∀ w, P w → Q (.error contextDone) w)
    (hf : ∀ w, P w → Law H rule w (f w).2 ∧ Q (f w).1 (f w).2) :
    Ensures WorldStep (Law H rule) (storeCall f) Q w := by
  refine ensures_atomically P hP hw fun w hw => ?_
  cases hctx : w.ctxErr with
  | true => simpa [hctx] using ⟨.refl (hinv w hw), hdone w hw⟩
  | false => simpa [hctx] using hf w hw

theorem isAlertSuppressed_ensures (sup : Suppression) (hP : Stable WorldStep P)
    (hinv : ∀ w, P w → Inv w) (hw : P w) :
    Ensures WorldStep (Law H rule) (isAlertSuppressed rule sup) (fun _ => P) w := by
  refine ensures_bind ((ensures_look hP hinv hw).mono fun ended w hw => ?_)
  cases ended with
  | true | false => exact ensures_pure hw

theorem alertFingerprintMayFire_ensures {allowed : Option ℕ} (hw : Vacant H rule «at» allowed w) :
    Ensures WorldStep (Law H rule)
      (alertFingerprintMayFire rule (generateFingerprint H rule.id rule.labels) «at»)
      (fun may w => Inv w ∧ (may = true → Cleared H rule «at» allowed w)) w := by
  refine ensures_bind (ensures_storeCall stable_vacant (fun _ h => h.inv) hw ?_ ?_)
  · exact fun w hw => ensures_pure ⟨hw.inv, by simp⟩
  intro w hw
  refine ⟨.refl hw.inv, ?_⟩
  show Ensures _ _ (if _ then _ else _) _ _
  split
  · rename_i hmay
    refine ensures_bind ((ensures_look stable_cleared (fun _ h => h.inv)
      (hw.cleared hmay)).mono fun ended w hw => ?_)
    exact ensures_pure ⟨hw.inv, fun _ => hw⟩
  · exact ensures_pure ⟨hw.inv, by simp⟩

theorem createAndDispatchFiringInstance_ensures (scope : FiringScope)
    (hw : Cleared H rule «at» none w) :
    Ensures WorldStep (Law H rule) (createAndDispatchFiringInstance H rule
      (generateFingerprint H rule.id rule.labels) scope) (fun _ => Inv) w := by
  refine ensures_bind (ensures_storeCall stable_cleared (fun _ h => h.inv) hw
    (fun w hw => ensures_pure hw.inv) fun w hw => ?_)
  have hlaw := law_create hw.inv hw.free
  refine ⟨hlaw, ?_⟩
  cases hres : (createAlertInstance H rule.id (generateFingerprint H rule.id rule.labels)
      rule.labels w).1 with
  | error e => exact ensures_pure hlaw.inv
  | ok inst =>
    refine ensures_bind (ensures_storeCall stable_cleared (fun _ h => h.inv) (hw.create hres)
      (fun w hw => ensures_pure hw.inv) fun w hw => ?_)
    exact ⟨hw.law_fire scope, ensures_pure (hw.law_fire scope).inv⟩

theorem ensures_revision (hf : ∀ w, Inv w → Revised Retains w (f w).2) (hw : Inv w) :
    Ensures WorldStep (Law H rule) (storeCall f) (fun _ => Inv) w :=
  ensures_storeCall stable_inv (fun _ h => h) hw (fun _ h => h)
    fun w hw => ⟨(hf w hw).law hw, ((hf w hw).law hw : Law H rule w _).inv⟩

theorem updateAlertInstanceLastFired_ensures (id : ℕ) (hw : Inv w) :
    Ensures WorldStep (Law H rule) (storeCall (updateAlertInstanceLastFired id)) (fun _ => Inv) w :=
  ensures_revision (fun _ hw => updateAlertInstanceLastFired_revised id hw.keyed) hw

theorem getActiveInstance_ensures (hw : Started «at» w) : Ensures WorldStep (Law H rule)
      (storeRead (getActiveInstanceByFingerprint rule.id
        (generateFingerprint H rule.id rule.labels)))
      (fun found w => Inv w ∧ (found = .ok none → Vacant H rule «at» none w) ∧
        ∀ i, found = .ok (some i) → i.status = .pending → Vacant H rule «at» (some i.id) w) w := by
  refine ensures_storeCall stable_started (fun _ h => h.1) hw
    (fun w hw => ⟨hw.1, by simp, by simp⟩) fun w hw => ⟨.refl hw.1, hw.1, ?_⟩
  rcases getActiveInstance_cases H rule w with ⟨i, heq, hi, hpair, ha⟩ | ⟨heq, hfree⟩
  · rw [heq]
    refine ⟨by simp, fun j hj hst => ?_⟩
    cases hj
    refine ⟨hw.1, hw.2, fun k hk hkp hka => ?_, fun k hk hown => ?_⟩
    · rw [← hw.1.oneActive i hi k hk (hpair.trans hkp.symm) ha hka]
      exact ⟨rfl, (hw.1.sound i hi).unfired hst⟩
    · rw [hw.1.keyed.eq hk hi (some.inj hown).symm]
      exact hpair
  · rw [heq]
    refine ⟨fun _ => ⟨hw.1, hw.2, fun k hk hkp hka => ?_, by simp⟩, by simp⟩
    rw [hfree k hk hkp] at hka
    cases hka

theorem resolvePlaceholder_ensures {k : ℕ} (hw : Cleared H rule «at» (some k) w) :
    Ensures WorldStep (Law H rule) (storeCall (updateAlertInstanceStatus k .resolved))
      (fun r w => Inv w ∧ ∀ i, r = .ok i → Cleared H rule «at» none w) w := by
  refine ensures_storeCall stable_cleared (fun _ h => h.inv) hw
    (fun w hw => ⟨hw.inv, by simp⟩) fun w hw => ?_
  have hrev := updateAlertInstanceStatus_revised k (.inr rfl) hw.inv.keyed
  have hlaw : Law H rule w (updateAlertInstanceStatus k .resolved w).2 := hrev.law hw.inv
  refine ⟨hlaw, hlaw.inv, fun i hok => ?_⟩
  have hnext := hw.revised hrev
  refine ⟨⟨hnext.inv, hnext.clock, fun j hj hpair ha => ?_, by simp⟩, hnext.passed⟩
  have hid : k = j.id := some.inj (hnext.active j hj hpair ha).1
  exact absurd (updateAlertInstanceStatus_resolved hok hw.inv.keyed j hj hid.symm)
    (isActive_iff.1 ha)

theorem fireOrRefireAlert_ensures (sup : Suppression) (scope : FiringScope) (hw : Started «at» w) :
    Ensures WorldStep (Law H rule) (fireOrRefireAlertWithScopeAt H rule sup «at» scope)
      (fun _ => Inv) w := by
  refine ensures_bind ((ensures_look stable_started (fun _ h => h.1) hw).mono fun ended w hw => ?_)
  cases ended
  case true => exact ensures_pure hw.1
  refine ensures_bind ((getActiveInstance_ensures hw).mono fun found w hfound => ?_)
  obtain ⟨hinv, hnone, hsome⟩ := hfound
  match found with
  | .error e => exact ensures_pure hinv
  | .ok (some existing) =>
    show Ensures _ _ (if _ then _ else _) _ _
    split
    · rename_i hpending
      refine ensures_bind ((isAlertSuppressed_ensures sup stable_vacant (fun _ h => h.inv)
        (hsome existing rfl hpending)).mono fun suppressed w hw => ?_)
      cases suppressed with
      | true =>
        exact ensures_bind ((updateAlertInstanceLastFired_ensures existing.id hw.inv).mono
          fun _ _ h => ensures_pure h)
      | false =>
        refine ensures_bind ((alertFingerprintMayFire_ensures hw).mono fun may w hmay => ?_)
        cases may
        · exact ensures_pure hmay.1
        refine ensures_bind ((resolvePlaceholder_ensures (hmay.2 rfl)).mono fun r w hr => ?_)
        match r with
        | .error e => exact ensures_pure hr.1
        | .ok i => exact createAndDispatchFiringInstance_ensures scope (hr.2 i rfl)
    · exact ensures_bind ((updateAlertInstanceLastFired_ensures existing.id hinv).mono
        fun _ _ h => ensures_pure h)
  | .ok none =>
    refine ensures_bind ((isAlertSuppressed_ensures sup stable_vacant (fun _ h => h.inv)
      (hnone rfl)).mono fun suppressed w hw => ?_)
    cases suppressed with
    | true =>
      refine ensures_bind (ensures_storeCall stable_vacant (fun _ h => h.inv) hw
        (fun w hw => ensures_pure hw.inv) fun w hw => ?_)
      have hlaw := law_create hw.inv hw.free
      exact ⟨hlaw, ensures_pure hlaw.inv⟩
    | false =>
      refine ensures_bind ((alertFingerprintMayFire_ensures hw).mono fun may w hmay => ?_)
      cases may with
      | false => exact ensures_pure hmay.1
      | true => exact createAndDispatchFiringInstance_ensures scope (hmay.2 rfl)

theorem resolveInstances_ensures (l : List AlertInstance) (n : ℕ) (hw : Inv w) :
    Ensures WorldStep (Law H rule) (resolveInstances l n) (fun _ => Inv) w := by
  induction l generalizing n w with
  | nil => exact ensures_pure hw
  | cons inst rest ih =>
    refine ensures_bind ((ensures_look stable_inv (fun _ h => h) hw).mono fun ended w hw => ?_)
    cases ended
    case true => exact ensures_pure hw
    refine ensures_bind ((ensures_revision (fun _ h =>
      updateAlertInstanceStatus_revised inst.id (.inr rfl) h.keyed) hw).mono fun r w hw => ?_)
    match r with
    | .error e => exact ih n hw
    | .ok i =>
      refine ensures_bind ((ensures_look stable_inv (fun _ h => h) hw).mono fun ended w hw => ?_)
      cases ended with
      | true => exact ensures_pure hw
      | false => exact ih (n + 1) hw

theorem resolveStatuses_ensures (l : List InstanceStatus) (n : ℕ) (hw : Inv w) :
    Ensures WorldStep (Law H rule) (resolveStatuses rule l n) (fun _ => Inv) w := by
  induction l generalizing n w with
  | nil => exact ensures_pure hw
  | cons status rest ih =>
    refine ensures_bind ((ensures_revision (fun _ h => .refl (le_refl _) rfl rfl) hw).mono
      fun r w hw => ?_)
    match r with
    | .error e => exact ih n hw
    | .ok instances =>
      refine ensures_bind ((resolveInstances_ensures instances n hw).mono fun result w hw => ?_)
      split
      · exact ensures_pure hw
      · exact ih result.1 hw

theorem evaluateSingleRuleAt_ensures (e : Evaluation) (hw : Started «at» w) :
    Ensures WorldStep (Law H e.rule) (evaluateSingleRuleAt H e «at») (fun _ => Inv) w := by
  refine ensures_bind ((ensures_look stable_started (fun _ h => h.1) hw).mono fun ended w hw => ?_)
  cases ended
  case true => exact ensures_pure hw.1
  cases e.outcome with
  | failed => exact ensures_pure hw.1
  | triggered scope => exact fireOrRefireAlert_ensures e.suppression scope hw
  | quiet =>
    refine ensures_bind (Ensures.mono (ensures_bind ?_) fun _ _ h => ensures_pure h)
    refine (ensures_look stable_inv (fun _ h => h) hw.1).mono fun ended w hw => ?_
    cases ended with
    | true => exact ensures_pure hw
    | false =>
      exact ensures_bind ((isAlertSuppressed_ensures e.suppression stable_inv (fun _ h => h)
        hw).mono fun _ w hw => resolveStatuses_ensures _ 0 hw)

/-- Every call of an evaluation keeps the law, whatever happens between the calls. -/
theorem evaluateRule_ensures (e : Evaluation) (hw : Inv w) :
    Ensures WorldStep (Law H e.rule) (evaluateRule H e) (fun _ => Inv) w := by
  have hclock : Ensures WorldStep (Law H e.rule) (read clock) Started w :=
    ensures_atomically Inv stable_inv hw fun w hw => ⟨.refl hw, hw, le_refl _⟩
  refine ensures_bind (hclock.mono fun t w hw => ?_)
  refine ensures_bind ((ensures_look stable_started (fun _ h => h.1) hw).mono fun ended w hw => ?_)
  cases ended
  case true => exact ensures_pure hw.1
  show Ensures _ _ (if e.claimed then _ else _) _ _
  split
  · exact evaluateSingleRuleAt_ensures e hw
  · exact ensures_pure hw.1

@[simp] theorem alone_storeCall (f : World → Except String β × World)
    (h : w.ctxErr = false) : (storeCall f).alone w = f w := by
  simp [storeCall, h]

@[simp] theorem alone_storeRead (f : World → β) (h : w.ctxErr = false) :
    (storeRead f).alone w = (.ok (f w), w) := by
  simp [storeRead, h]

@[simp] theorem putInstance_nextID (i : AlertInstance) (w : World) :
    (putInstance i w).nextID = w.nextID := rfl

@[simp] theorem putInstance_clock (i : AlertInstance) (w : World) :
    (putInstance i w).clock = w.clock := rfl

@[simp] theorem alone_ctxEnded : ctxEnded.alone w = (w.ctxErr, w) := rfl

variable {scope normalized : FiringScope}

theorem createAndDispatch_alone (H : Sha256) (rule : Rule) (hw : Inv w) (hctx : w.ctxErr = false)
    (hs : normalizeFiringScope scope = .ok normalized) :
    ∃ i ∈ ((createAndDispatchFiringInstance H rule (generateFingerprint H rule.id rule.labels)
        scope).alone w).2.instances,
      i.id = w.nextID ∧ pairOf i = rulePair H rule ∧ i.firstFiredAt = some w.clock := by
  obtain ⟨inst, heq, hid, hpair, hst, hf, hsc, -⟩ := createAlertInstance_spec H rule w
  have hfind : instanceOf inst.id
      { w with instances := w.instances ++ [inst], nextID := w.nextID + 1 } = some inst := by
    have hnone : w.instances.find? (fun i => i.id == inst.id) = none := by
      refine find?_eq_none.2 fun i hi => ?_
      have := hw.issued i hi
      simp only [beq_iff_eq]
      omega
    simp [instanceOf, find?_append, hnone]
  refine ⟨fireInstance w.clock normalized inst, ?_, hid, hpair, rfl⟩
  simp only [createAndDispatchFiringInstance, alone_bind, alone_storeCall _ hctx, heq]
  rw [alone_storeCall _ (by exact hctx)]
  simp only [fireAlertInstance, hs, hfind, hst, hf, hsc, alone_pure]
  exact updateWhere_mem (mem_append_right _ (mem_singleton_self inst)) (by simp [fireInstance])

theorem alertFingerprintMayFire_alone (hctx : w.ctxErr = false) (hzero : w.clock ≠ zeroInstant)
    (hc : ValidDuration rule.cooldownSeconds) (hr : ValidDuration rule.reopenAfterSeconds)
    (hpast : AllPassed H rule w.clock w) :
    (alertFingerprintMayFire rule (generateFingerprint H rule.id rule.labels) w.clock).alone w =
      (true, w) := by
  have hmay : mayFireAfter rule w.clock (alertFingerprintTiming rule.id
      (generateFingerprint H rule.id rule.labels) w) = true := by
    refine (mayFireAfter_iff H rule w).2 ⟨⟨hc, hr⟩, fun i hi hpair _ => ⟨?_, ?_⟩⟩
    · exact fun fired hf => (hpast i hi hpair fired hf).1
    intro resolved hres
    obtain ⟨fired, hf⟩ := isSome_iff_exists.1 ‹_›
    obtain ⟨-, resolved', hres', hover⟩ := hpast i hi hpair fired hf
    rw [hres] at hres'
    cases hres'
    exact hover
  simp [alertFingerprintMayFire, alone_storeRead _ hctx, hmay, hctx, hzero]

/-- An instance of the pair that has not fired does not keep an alert from firing. -/
theorem fireOrRefireAlert_alone {sup : Suppression} (hw : Inv w) (hctx : w.ctxErr = false)
    (hs : normalizeFiringScope scope = .ok normalized) (hsup : sup.holds rule = false)
    (hzero : w.clock ≠ zeroInstant) (hc : ValidDuration rule.cooldownSeconds)
    (hr : ValidDuration rule.reopenAfterSeconds) (hpast : AllPassed H rule w.clock w) :
    ∃ i ∈ ((fireOrRefireAlertWithScopeAt H rule sup w.clock scope).alone w).2.instances,
      i.id = w.nextID ∧ pairOf i = rulePair H rule ∧ i.firstFiredAt = some w.clock := by
  have hmay := alertFingerprintMayFire_alone hctx hzero hc hr hpast
  have hsuppressed : (isAlertSuppressed rule sup).alone w = (false, w) := by
    simp [isAlertSuppressed, hctx, hsup]
  rcases getActiveInstance_cases H rule w with ⟨i, heq, hi, hpair, ha⟩ | ⟨heq, -⟩
  · -- what is active has not fired, so it is a placeholder
    have hpending : i.status = .pending := by
      have hsound := hw.sound i hi
      have hopen : ¬ i.resolvedAt.isSome := fun h => isActive_iff.1 ha (hsound.resolved.1 h)
      have hunfired : ¬ i.firstFiredAt.isSome := by
        intro h
        obtain ⟨fired, hf⟩ := isSome_iff_exists.1 h
        obtain ⟨-, resolved, hres, -⟩ := hpast i hi hpair fired hf
        simp [hres] at hopen
      have hnot := mt hsound.fired hunfired
      have hactive := isActive_iff.1 ha
      revert hnot hactive
      cases i.status <;> simp
    have hfind : instanceOf i.id w = some i := by
      have hfound : ∃ r, instanceOf i.id w = some r := by
        refine isSome_iff_exists.1 (find?_isSome.2 ⟨i, hi, by simp⟩)
      obtain ⟨r, hr⟩ := hfound
      rw [hr, hw.keyed.eq (instanceOf_mem hr).1 hi (instanceOf_mem hr).2]
    have hok : updateAlertInstanceStatus i.id .resolved w =
        (.ok (moveStatus w.clock .resolved i), putInstance (moveStatus w.clock .resolved i) w) := by
      simp [updateAlertInstanceStatus, hfind, hpending, canTransitionInstanceStatus]
    have hrev : Revised Retains w (putInstance (moveStatus w.clock .resolved i) w) := by
      have h := updateAlertInstanceStatus_revised i.id (.inr rfl : _ ∨ InstanceStatus.resolved = _)
        hw.keyed
      rwa [hok] at h
    have hlaw : Law H rule w (putInstance (moveStatus w.clock .resolved i) w) := hrev.law hw
    have hfire := createAndDispatch_alone H rule hlaw.inv hctx hs
    simpa [fireOrRefireAlertWithScopeAt, hctx, heq, hpending, hsuppressed, hmay, hok] using hfire
  · have hfire := createAndDispatch_alone H rule hw hctx hs
    simpa [fireOrRefireAlertWithScopeAt, hctx, heq, hsuppressed, hmay] using hfire

end

section

variable {H : Sha256} {e : Evaluation} {w w' : World} {tr : List (World × World)}

/-- Each transition of an evaluation is a step around it or meets the law. -/
theorem evaluateRule_transitions (h : Exec WorldStep (evaluateRule H e) w tr w') (hw : Inv w) :
    (∀ t ∈ tr, Inv t.1 ∧ (WorldStep t.1 t.2 ∨ Law H e.rule t.1 t.2)) ∧ Inv w' :=
  h.guarantee stable_inv (fun _ _ _ hlaw => hlaw.inv) (evaluateRule_ensures e hw) hw

theorem WorldStep.lasts (h : WorldStep w w') (hw : Inv w) : Lasts w w' :=
  ((h.revised hw).mono fun _ _ hm => hm.toRewrites).lasts

theorem evaluateRule_lasts (h : Exec WorldStep (evaluateRule H e) w tr w') (hw : Inv w) :
    Lasts w w' := by
  have htr := (evaluateRule_transitions h hw).1
  have hpath := h.path
  clear h
  induction hpath with
  | refl => exact .refl _
  | tail _ hstep ih =>
    refine ih.trans ?_
    obtain ⟨hinv, hworld | hlaw⟩ := htr _ hstep
    · exact hworld.lasts hinv
    · exact hlaw.lasts

theorem RunStep.keeps (h : RunStep H w w') (hw : Inv w) : Inv w' ∧ Lasts w w' := by
  rcases h with hworld | ⟨e, tr, hexec⟩
  · exact ⟨stable_inv _ _ hworld hw, hworld.lasts hw⟩
  · exact ⟨(evaluateRule_transitions hexec hw).2, evaluateRule_lasts hexec hw⟩

theorem Runs.keeps (h : Runs H w w') (hw : Inv w) : Inv w' ∧ Lasts w w' := by
  induction h with
  | refl => exact ⟨hw, .refl _⟩
  | tail _ hstep ih =>
    obtain ⟨hinv, hlasts⟩ := hstep.keeps ih.1
    exact ⟨hinv, ih.2.trans hlasts⟩

/-- The hold-off law. In every world of a run at most one instance of a pair is active; an
evaluation fires an instance for the first time only when every instance of the pair that
fired before is resolved and both hold-offs of the rule are over, and nothing else fires
one; instances that never fired impose no delay; and what an instance keeps, it keeps for
the rest of the run. -/
theorem alert_hold_off_law (H : Sha256) (clock : ℤ) (w : World)
    (hw : Runs H (start clock) w) :
    (∀ i ∈ w.instances, ∀ j ∈ w.instances, pairOf i = pairOf j →
      isActive i = true → isActive j = true → i = j) ∧
    (∀ e tr w', Exec WorldStep (evaluateRule H e) w tr w' → ∀ t ∈ tr, ∀ i fired,
      FirstFires t.1 t.2 i fired →
        fired = t.1.clock ∧ pairOf i = rulePair H e.rule ∧ AllPassed H e.rule fired t.1) ∧
    (∀ w', WorldStep w w' → ∀ i fired, ¬ FirstFires w w' i fired) ∧
    (∀ e scope normalized, w.ctxErr = false → w.clock ≠ zeroInstant → e.claimed = true →
      e.outcome = .triggered scope → normalizeFiringScope scope = .ok normalized →
      e.suppression.holds e.rule = false → ValidDuration e.rule.cooldownSeconds →
      ValidDuration e.rule.reopenAfterSeconds → AllPassed H e.rule w.clock w →
        ∃ i, FirstFires w ((evaluateRule H e).alone w).2 i w.clock ∧
          pairOf i = rulePair H e.rule) ∧ (∀ w', Runs H w w' → Lasts w w') := by
  have hinv : Inv w := (hw.keeps (inv_start clock)).1
  refine ⟨hinv.oneActive, ?_, fun w' hstep => (hstep.revised hinv).not_firstFires, ?_,
    fun w' hrun => (hrun.keeps hinv).2⟩
  · intro e tr w' hexec t ht i fired hfire
    obtain ⟨htinv, hworld | hlaw⟩ := (evaluateRule_transitions hexec hinv).1 t ht
    · exact ((hworld.revised htinv).not_firstFires i fired hfire).elim
    · exact hlaw.fires i fired hfire
  · intro e scope normalized hctx hzero hclaimed hout hs hsup hc hr hpast
    obtain ⟨i, hi, hid, hpair, hfired⟩ :=
      fireOrRefireAlert_alone hinv hctx hs hsup hzero hc hr hpast
    refine ⟨i, ⟨?_, hfired, fun j hj hsame => ?_⟩, hpair⟩
    · simpa [evaluateRule, evaluateSingleRuleAt, hctx, hclaimed, hout] using hi
    · have := hinv.issued j hj
      omega

def sampleHash : Sha256 := ⟨fun _ => "00", fun _ => by decide, fun _ => by decide⟩

def sampleEvaluation : Evaluation :=
  ⟨⟨"disk", [], 60, 30⟩, true, .triggered ⟨1, ["nas"], [], []⟩, ⟨false, some [], none⟩⟩

def sampleWorld : World := ((evaluateRule sampleHash sampleEvaluation).alone (start 5)).2

theorem alert_hold_off_law_sampleWorld :
    sampleWorld.instances.map (fun i => (i.status, i.firstFiredAt)) = [(.firing, some 5)] ∧
      ∀ w', Runs sampleHash sampleWorld w' → Lasts sampleWorld w' := by
  obtain ⟨tr, hexec⟩ := Exec.alone WorldStep (evaluateRule sampleHash sampleEvaluation)
    (start 5)
  have hrun : Runs sampleHash (start 5) sampleWorld := .single (.inr ⟨sampleEvaluation, tr, hexec⟩)
  exact ⟨by decide, (alert_hold_off_law sampleHash 5 sampleWorld hrun).2.2.2.2⟩

end

end LabTether.Alerting
