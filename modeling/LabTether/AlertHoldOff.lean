import LabTether.AlertHistory

/-!
The hold-off law, call by call. A first firing is one call of the store, after others that
read the history and closed a placeholder. `mayFireAfter_iff` says what the two times read
from the history stand for. `Vacant` and `Cleared` are what the evaluator knows between its
calls: no change that opens and fires nothing takes them away.
-/
namespace LabTether.Alerting

open GoStrings Interference Table List Option

section

def Over («at» : ℤ) (anchor : Option ℤ) (seconds : ℤ) : Prop :=
  ∀ t, anchor = some t → t + secondsOf seconds ≤ «at»

def ValidDuration (seconds : ℤ) : Prop := 0 ≤ seconds ∧ seconds ≤ maxDurationSeconds

variable {«at» : ℤ} {ruleID fingerprint : String}

theorem holdPassed_iff {anchor : Option ℤ} {seconds : ℤ} :
    holdPassed «at» anchor seconds = true ↔ ValidDuration seconds ∧ Over «at» anchor seconds := by
  unfold holdPassed ValidDuration Over
  cases anchor <;> simp

theorem over_laterOf {best : Option ℤ} {t seconds : ℤ} : Over «at» (laterOf best t) seconds ↔
      Over «at» best seconds ∧ t + secondsOf seconds ≤ «at» := by
  unfold Over laterOf
  rcases best with _ | b
  · simp
  by_cases hlt : b < t
  · simp only [if_pos hlt, some.injEq, forall_eq']
    omega
  · simp only [if_neg hlt, some.injEq, forall_eq']
    omega

/-- An instance that has not fired imposes nothing. -/
def Imposed («at» cooldown reopen : ℤ) (i : AlertInstance) : Prop :=
  i.firstFiredAt.isSome → Over «at» i.firstFiredAt cooldown ∧ Over «at» i.resolvedAt reopen

theorem over_addTiming {out : FingerprintTiming} {i : AlertInstance} {cooldown reopen : ℤ} :
    (Over «at» (addTiming ruleID fingerprint out i).lastFirstFiredAt cooldown ∧
        Over «at» (addTiming ruleID fingerprint out i).lastResolvedAt reopen) ↔
      (Over «at» out.lastFirstFiredAt cooldown ∧ Over «at» out.lastResolvedAt reopen) ∧
        (pairOf i = (trimSpace ruleID, trimSpace fingerprint) → Imposed «at» cooldown reopen i) := by
  have hpair : pairOf i = (trimSpace ruleID, trimSpace fingerprint) ↔
      ¬ (i.ruleID ≠ trimSpace ruleID ∨ i.fingerprint ≠ trimSpace fingerprint) := by
    simp [pairOf, Prod.ext_iff]
  unfold addTiming Imposed
  rw [hpair]
  split
  · simp [*]
  rename_i hsame
  rcases hf : i.firstFiredAt with _ | fired
  · simp
  have hover : Over «at» (some fired) cooldown ↔ fired + secondsOf cooldown ≤ «at» := by simp [Over]
  rcases hr : i.resolvedAt with _ | resolved
  · have hnone : Over «at» none reopen := by simp [Over]
    simp only [over_laterOf, hover, hnone, hsame]
    tauto
  have hover' : Over «at» (some resolved) reopen ↔ resolved + secondsOf reopen ≤ «at» := by
    simp [Over]
  simp only [over_laterOf, hover, hover', hsame]
  tauto

theorem over_foldl («at» : ℤ) (ruleID fingerprint : String) (l : List AlertInstance) (out : FingerprintTiming) (cooldown reopen : ℤ) :
    (Over «at» (l.foldl (addTiming ruleID fingerprint) out).lastFirstFiredAt cooldown ∧
        Over «at» (l.foldl (addTiming ruleID fingerprint) out).lastResolvedAt reopen) ↔
      (Over «at» out.lastFirstFiredAt cooldown ∧ Over «at» out.lastResolvedAt reopen) ∧
        ∀ i ∈ l, pairOf i = (trimSpace ruleID, trimSpace fingerprint) →
          Imposed «at» cooldown reopen i := by
  induction l generalizing out with
  | nil => simp
  | cons i l ih => rw [foldl_cons, ih, over_addTiming, forall_mem_cons, and_assoc]

/-- The two latest times stand for every instance of the pair that has fired. -/
theorem mayFireAfter_iff (H : Sha256) (rule : Rule) (w : World) :
    mayFireAfter rule «at» (alertFingerprintTiming rule.id
        (generateFingerprint H rule.id rule.labels) w) = true ↔
      (ValidDuration rule.cooldownSeconds ∧ ValidDuration rule.reopenAfterSeconds) ∧
        ∀ i ∈ w.instances, pairOf i = rulePair H rule →
          Imposed «at» rule.cooldownSeconds rule.reopenAfterSeconds i := by
  have htrim : trimSpace (generateFingerprint H rule.id rule.labels) =
      generateFingerprint H rule.id rule.labels := H.trimmed _
  have hfold := over_foldl («at») rule.id (generateFingerprint H rule.id rule.labels) w.instances
    ⟨none, none⟩ rule.cooldownSeconds rule.reopenAfterSeconds
  have hnone : ∀ s, Over «at» none s := by simp [Over]
  rw [htrim] at hfold
  unfold mayFireAfter alertFingerprintTiming
  rw [Bool.and_eq_true, holdPassed_iff, holdPassed_iff]
  simp only [hnone, true_and, and_self] at hfold
  rw [← rulePair] at hfold
  rw [← hfold]
  tauto

end

section

/-- Instance `i` fires for the first time in a transition, at `t`. -/
structure FirstFires (w w' : World) (i : AlertInstance) (t : ℤ) : Prop where
  mem : i ∈ w'.instances
  fired : i.firstFiredAt = some t
  before : ∀ j ∈ w.instances, j.id = i.id → j.firstFiredAt = none

/-- An instance that has fired is resolved, and at `t` the cooldown since it fired and the
reopen delay since it was resolved are over. -/
def Passed (rule : Rule) (t : ℤ) (i : AlertInstance) : Prop :=
  ∀ fired, i.firstFiredAt = some fired → fired + secondsOf rule.cooldownSeconds ≤ t ∧
    ∃ resolved, i.resolvedAt = some resolved ∧ resolved + secondsOf rule.reopenAfterSeconds ≤ t

def AllPassed (H : Sha256) (rule : Rule) (t : ℤ) (w : World) : Prop :=
  ∀ i ∈ w.instances, pairOf i = rulePair H rule → Passed rule t i

structure Law (H : Sha256) (rule : Rule) (w w' : World) : Prop where
  inv : Inv w'
  lasts : Lasts w w'
  fires : ∀ i t, FirstFires w w' i t →
    t = w.clock ∧ pairOf i = rulePair H rule ∧ AllPassed H rule t w

variable {H : Sha256} {rule : Rule} {«at» : ℤ} {w w' : World}

theorem Revised.not_firstFires (h : Revised Retains w w') (i : AlertInstance) (t : ℤ) :
    ¬ FirstFires w w' i t := by
  intro hf
  obtain ⟨j, hj, hm⟩ := h.back Retains.refl hf.mem
  have hnone := hf.before j hj hm.id.symm
  rw [← hm.unfired, hf.fired] at hnone
  cases hnone

theorem Revised.law (h : Revised Retains w w') (hw : Inv w) : Law H rule w w' := by
  have hrewrites : Revised Rewrites w w' := h.mono fun _ _ hm => hm.toRewrites
  exact ⟨hrewrites.inv hw, hrewrites.lasts, fun i t hf => (h.not_firstFires i t hf).elim⟩

theorem Law.refl (hw : Inv w) : Law H rule w w :=
  (Revised.refl (le_refl _) rfl rfl : Revised Retains w w).law hw

theorem Passed.mono {t t' : ℤ} {i : AlertInstance} (h : Passed rule t i) (ht : t ≤ t') :
    Passed rule t' i := by
  intro fired hf
  obtain ⟨hc, resolved, hr, ho⟩ := h fired hf
  exact ⟨by omega, resolved, hr, by omega⟩

theorem AllPassed.revised {t : ℤ} (h : AllPassed H rule t w) (hr : Revised Retains w w') :
    AllPassed H rule t w' := by
  intro i' hi' hpair fired hf
  obtain ⟨i, hi, hm⟩ := hr.back Retains.refl hi'
  obtain ⟨hc, resolved, hres, ho⟩ := h i hi (hm.pair ▸ hpair) fired (hm.unfired ▸ hf)
  exact ⟨hc, resolved, hm.resolvedAt resolved hres, ho⟩

/-- Between its calls the evaluator knows that no instance of the pair is active, but for
one that it may have opened or found, and that has not fired. -/
structure Vacant (H : Sha256) (rule : Rule) («at» : ℤ) (allowed : Option ℕ) (w : World) : Prop where
  inv : Inv w
  clock : «at» ≤ w.clock
  active : ∀ i ∈ w.instances, pairOf i = rulePair H rule → isActive i = true →
    allowed = some i.id ∧ i.firstFiredAt = none
  owned : ∀ i ∈ w.instances, allowed = some i.id → pairOf i = rulePair H rule

structure Cleared (H : Sha256) (rule : Rule) («at» : ℤ) (allowed : Option ℕ) (w : World) : Prop
    extends Vacant H rule «at» allowed w where
  passed : AllPassed H rule «at» w

variable {allowed : Option ℕ}

theorem Vacant.revised (h : Vacant H rule «at» allowed w) (hr : Revised Retains w w') :
    Vacant H rule «at» allowed w' := by
  have hlaw : Law H rule w w' := hr.law h.inv
  refine ⟨hlaw.inv, h.clock.trans hr.clock, ?_, ?_⟩
  · intro i' hi' hpair ha
    obtain ⟨i, hi, hm⟩ := hr.back Retains.refl hi'
    obtain ⟨hid, hf⟩ := h.active i hi (hm.pair ▸ hpair) (hm.active ha)
    exact ⟨hm.id ▸ hid, hm.unfired.trans hf⟩
  · intro i' hi' hid
    obtain ⟨i, hi, hm⟩ := hr.back Retains.refl hi'
    rw [hm.pair]
    exact h.owned i hi (hm.id ▸ hid)

theorem Cleared.revised (h : Cleared H rule «at» allowed w) (hr : Revised Retains w w') :
    Cleared H rule «at» allowed w' :=
  ⟨h.toVacant.revised hr, h.passed.revised hr⟩

theorem Vacant.cleared (h : Vacant H rule «at» allowed w)
    (hmay : mayFireAfter rule «at» (alertFingerprintTiming rule.id
      (generateFingerprint H rule.id rule.labels) w) = true) : Cleared H rule «at» allowed w := by
  refine ⟨h, fun i hi hpair fired hf => ?_⟩
  have himp := ((mayFireAfter_iff H rule w).1 hmay).2 i hi hpair (by simp [hf])
  have hresolved : i.status = .resolved := by
    by_contra hne
    have hnone := (h.active i hi hpair (isActive_iff.2 hne)).2
    rw [hf] at hnone
    cases hnone
  obtain ⟨resolved, hr⟩ := isSome_iff_exists.1 ((h.inv.sound i hi).resolved.2 hresolved)
  exact ⟨himp.1 fired hf, resolved, hr, himp.2 resolved hr⟩

theorem law_create (hw : Inv w)
    (hfree : ∀ i ∈ w.instances, pairOf i = rulePair H rule → isActive i = false) :
    Law H rule w (createAlertInstance H rule.id (generateFingerprint H rule.id rule.labels)
      rule.labels w).2 := by
  obtain ⟨inst, heq, hid, hpair, hst, hf, hsc, hres⟩ := createAlertInstance_spec H rule w
  have hsound : Sound inst := by
    refine ⟨fun _ => hf, fun h => ?_, by rw [hf, hsc]; rfl, by simp [hres, hst]⟩
    simp [hst] at h
  rw [heq]
  refine ⟨hw.create hid hsound (hpair ▸ hfree),
    fun i hi => ⟨i, mem_append_left _ hi, .refl i⟩, fun i t hfire => ?_⟩
  have hfired := hfire.fired
  rcases mem_append.1 hfire.mem with hi | hi
  · rw [hfire.before i hi rfl] at hfired
    cases hfired
  · rw [mem_singleton.1 hi, hf] at hfired
    cases hfired

theorem Vacant.free (h : Vacant H rule «at» none w) :
    ∀ i ∈ w.instances, pairOf i = rulePair H rule → isActive i = false := by
  intro i hi hpair
  by_contra ha
  cases (h.active i hi hpair (by simpa using ha)).1

theorem Cleared.create (h : Cleared H rule «at» none w) {inst : AlertInstance}
    (heq : (createAlertInstance H rule.id (generateFingerprint H rule.id rule.labels)
      rule.labels w).1 = .ok inst) :
    Cleared H rule «at» (some inst.id) (createAlertInstance H rule.id
      (generateFingerprint H rule.id rule.labels) rule.labels w).2 := by
  have hlaw := law_create h.inv h.free
  obtain ⟨inst', hspec, hid, hpair, hst, hf, hsc, hres⟩ := createAlertInstance_spec H rule w
  rw [hspec] at heq hlaw ⊢
  cases heq
  refine ⟨⟨hlaw.inv, h.clock, ?_, ?_⟩, ?_⟩
  · intro i hi hp ha
    rcases mem_append.1 hi with hi | hi
    · rw [h.free i hi hp] at ha
      cases ha
    · rw [mem_singleton.1 hi]
      exact ⟨rfl, hf⟩
  · intro i hi hown
    rcases mem_append.1 hi with hi | hi
    · have hlt := h.inv.issued i hi
      have hsame : inst.id = i.id := some.inj hown
      omega
    · rw [mem_singleton.1 hi]
      exact hpair
  · intro i hi hp
    rcases mem_append.1 hi with hi | hi
    · exact h.passed i hi hp
    · intro fired hfired
      rw [mem_singleton.1 hi, hf] at hfired
      cases hfired

theorem Cleared.law_fire {k : ℕ} (h : Cleared H rule «at» (some k) w) (scope : FiringScope) :
    Law H rule w (fireAlertInstance k scope w).2 := by
  rcases fireAlertInstance_cases k scope w with heq | ⟨i, normalized, -, hi, hst, hf, hsc, heq⟩
  · rw [heq]
    exact .refl h.inv
  obtain ⟨hmem, hid⟩ := instanceOf_mem hi
  have hrev : Revised Rewrites w (putInstance (fireInstance w.clock normalized i) w) :=
    revised_putInstance h.inv.keyed hmem rfl (fireInstance_rewrites w.clock normalized hst hf hsc)
  rw [heq]
  refine ⟨hrev.inv h.inv, hrev.lasts, fun j t hfire => ?_⟩
  -- every row but the fired one is as it was
  obtain ⟨r, hr, hj⟩ := mem_updateWhere.1 hfire.mem
  split at hj
  · subst hj
    have ht : t = w.clock := (some.inj hfire.fired).symm
    refine ⟨ht, h.owned i hmem (by rw [hid]), fun a ha hpair => ?_⟩
    exact (h.passed a ha hpair).mono (ht ▸ h.clock)
  · have hnone := hfire.before r hr (by rw [hj])
    rw [hj, hfire.fired] at hnone
    cases hnone

end

end LabTether.Alerting
