import LabTether.AlertPause

/-!
The sweep that closes the open instances of a paused rule, while its context lasts and
nothing opens or fires an instance. A pass that resolves none has read an empty list for
every status, and no step around it brings back a pending or a firing instance.
-/
namespace LabTether.Alerting

open GoStrings Interference Prog List

section

variable {rule : Rule} {w w' : World} {P : World → Prop}

/-- No call that opens and fires nothing takes the assertion away. -/
def Held (P : World → Prop) : Prop := ∀ w w', Revised Retains w w' → P w → P w'

variable {status : InstanceStatus}

theorem held_noneIn (ruleID : String)
    (hs : status = .pending ∨ status = .firing) : Held (NoneIn ruleID status) := by
  intro w w' hrev hnone i' hi' hrule hst
  obtain ⟨i, hi, hm⟩ := hrev.back Retains.refl hi'
  have hold : i.status ≠ status := hnone i hi ((congrArg Prod.fst hm.pair).symm.trans hrule)
  rcases hm.status with h | h | h
  · exact hold (h.symm.trans hst)
  all_goals rcases hs with rfl | rfl <;> simp [hst] at h

/-- The instances of a list that was read are still in the store. -/
def Present (l : List AlertInstance) (w : World) : Prop :=
  ∀ i ∈ l, ∃ j ∈ w.instances, j.id = i.id

theorem held_present (l : List AlertInstance) : Held (Present l) := by
  intro w w' hrev h i hi
  obtain ⟨j, hj, hid⟩ := h i hi
  obtain ⟨j', hj', hm⟩ := (hrev.mono fun _ _ hm => hm.toRewrites).lasts j hj
  exact ⟨j', hj', hm.id.trans hid⟩

theorem Held.and {Q : World → Prop} (hP : Held P) (hQ : Held Q) : Held fun w => P w ∧ Q w :=
  fun w w' hrev h => ⟨hP w w' hrev h.1, hQ w w' hrev h.2⟩

/-- The steps around a sweep whose context lasts. -/
def CalmStep (w w' : World) : Prop := WorldStep w w' ∧ w'.ctxErr = w.ctxErr

/-- What the sweep knows: the invariant, that its context lasts, and `P`. -/
structure Calm (P : World → Prop) (w : World) : Prop where
  inv : Inv w
  ctx : w.ctxErr = false
  known : P w

theorem stable_calm (hP : Held P) : Stable CalmStep (Calm P) := fun w w' hstep h =>
  ⟨stable_inv w w' hstep.1 h.inv, hstep.2.trans h.ctx, hP w w' (hstep.1.revised h.inv) h.known⟩

def SweepCall (w w' : World) : Prop := Revised Retains w w' ∧ w'.ctxErr = w.ctxErr

theorem ensures_calmLook {α : Type} {f : World → α} (hP : Held P) (hw : Calm P w) :
    Ensures CalmStep SweepCall (read f) (fun a w => a = f w ∧ Calm P w) w :=
  ensures_atomically _ (stable_calm hP) hw fun _ hw => ⟨⟨.refl (le_refl _) rfl rfl, rfl⟩, rfl, hw⟩

theorem ensures_calmEnded (hP : Held P) (hw : Calm P w) :
    Ensures CalmStep SweepCall ctxEnded (fun a w => a = false ∧ Calm P w) w :=
  (ensures_calmLook hP hw).mono fun _ _ h => ⟨h.1.trans h.2.ctx, h.2⟩

theorem updateAlertInstanceStatus_ctxErr (id : ℕ) (status : InstanceStatus) (w : World) :
    (updateAlertInstanceStatus id status w).2.ctxErr = w.ctxErr := by
  fun_cases updateAlertInstanceStatus id status w <;> rfl

theorem resolve_ok {id : ℕ} (h : ∃ j ∈ w.instances, j.id = id) :
    ∃ i, (updateAlertInstanceStatus id .resolved w).1 = .ok i := by
  have hfound : (instanceOf id w).isSome := by
    obtain ⟨j, hj, hid⟩ := h
    exact find?_isSome.2 ⟨j, hj, by simp [hid]⟩
  obtain ⟨i, hi⟩ := Option.isSome_iff_exists.1 hfound
  have hcan : canTransitionInstanceStatus i.status .resolved = true := by cases i.status <;> rfl
  by_cases hr : i.status = .resolved
  · exact ⟨i, by simp [updateAlertInstanceStatus, hi, hr, canTransitionInstanceStatus]⟩
  · exact ⟨moveStatus w.clock .resolved i, by simp [updateAlertInstanceStatus, hi, hcan, hr]⟩

theorem resolve_calm {id : ℕ} (hP : Held P) (hid : ∀ w, P w → ∃ j ∈ w.instances, j.id = id)
    (hw : Calm P w) :
    Ensures CalmStep SweepCall (storeCall (updateAlertInstanceStatus id .resolved))
      (fun r w => (∃ i, r = .ok i) ∧ Calm P w) w := by
  refine ensures_atomically _ (stable_calm hP) hw fun w hw => ?_
  have hrev := updateAlertInstanceStatus_revised id (.inr rfl) hw.inv.keyed
  have hctx := updateAlertInstanceStatus_ctxErr id .resolved w
  simp only [hw.ctx, Bool.false_eq_true, if_false]
  exact ⟨⟨hrev, hctx⟩, resolve_ok (hid w hw.known),
    (hrev.mono fun _ _ hm => hm.toRewrites).inv hw.inv, hctx.trans hw.ctx,
    hP _ _ hrev hw.known⟩

theorem resolveInstances_calm (hP : Held P) (l : List AlertInstance) (n : ℕ)
    (hw : Calm (fun w => P w ∧ Present l w) w) : Ensures CalmStep SweepCall (resolveInstances l n)
      (fun r w => r = (n + l.length, false) ∧ Calm P w) w := by
  induction l generalizing n w with
  | nil => exact ensures_pure ⟨rfl, hw.inv, hw.ctx, hw.known.1⟩
  | cons inst rest ih =>
    have hheld := hP.and (held_present (inst :: rest))
    have hrest : ∀ {w}, Calm (fun w => P w ∧ Present (inst :: rest) w) w →
        Calm (fun w => P w ∧ Present rest w) w := fun h =>
      ⟨h.inv, h.ctx, h.known.1, fun i hi => h.known.2 i (.tail _ hi)⟩
    refine ensures_bind ((ensures_calmEnded hheld hw).mono ?_)
    rintro ended w ⟨rfl, hw⟩
    refine ensures_bind ((resolve_calm hheld (fun w hw => hw.2 inst (.head _)) hw).mono ?_)
    rintro r w ⟨⟨i, rfl⟩, hw⟩
    refine ensures_bind ((ensures_calmEnded hheld hw).mono ?_)
    rintro ended w ⟨rfl, hw⟩
    refine (ih (n + 1) (hrest hw)).mono fun r w h => ⟨h.1.trans ?_, h.2⟩
    rw [length_cons]
    exact Prod.ext (by simp only; omega) rfl

variable {ruleID : String}

theorem mem_listAlertInstances {limit : ℕ} {i : AlertInstance}
    (h : i ∈ listAlertInstances ruleID status limit w) : i ∈ w.instances :=
  (mem_filter.1 ((perm_insertionSort _ _).mem_iff.1 (mem_of_mem_take h))).1

theorem noneIn_of_list_nil (h : listAlertInstances ruleID status 100 w = []) :
    NoneIn ruleID status w := by
  intro i hi hrule hst
  have hmem : i ∈ (w.instances.filter fun i => (trimSpace ruleID == "" ||
      i.ruleID == trimSpace ruleID) && i.status == status).insertionSort updatedBefore := by
    rw [(perm_insertionSort _ _).mem_iff, mem_filter]
    exact ⟨hi, by simp [hrule, hst]⟩
  rcases take_eq_nil_iff.1 h with hlimit | hnil
  · cases hlimit
  · rw [hnil] at hmem
    cases hmem

theorem resolveStatuses_calm (hP : Held P) (l : List InstanceStatus) (n : ℕ) (hw : Calm P w) :
    Ensures CalmStep SweepCall (resolveStatuses rule l n) (fun m w => Calm P w ∧ n ≤ m ∧
        (m = n → ∀ st ∈ l, st = .pending ∨ st = .firing → NoneIn rule.id st w)) w := by
  induction l generalizing n w P with
  | nil => exact ensures_pure ⟨hw, le_refl _, fun _ _ h => by cases h⟩
  | cons status rest ih =>
    have hread : Ensures CalmStep SweepCall (storeRead (listAlertInstances rule.id status 100))
        (fun r w => ∃ l, r = .ok l ∧ Present l w ∧ (l = [] → NoneIn rule.id status w) ∧ Calm P w)
        w := by
      refine ensures_atomically _ (stable_calm hP) hw fun w hw => ?_
      simp only [hw.ctx, Bool.false_eq_true, if_false]
      exact ⟨⟨.refl (le_refl _) rfl rfl, rfl⟩, _, rfl,
        fun i hi => ⟨i, mem_listAlertInstances hi, rfl⟩, noneIn_of_list_nil, hw⟩
    refine ensures_bind (hread.mono ?_)
    rintro r w ⟨l, rfl, hpresent, hnil, hw⟩
    -- from here on the sweep also knows what an empty list has shown
    have hheld : Held fun w => P w ∧
        (l = [] → status = .pending ∨ status = .firing → NoneIn rule.id status w) :=
      hP.and fun w w' hrev h hl hs => held_noneIn rule.id hs w w' hrev (h hl hs)
    refine ensures_bind ((resolveInstances_calm hheld l n
      ⟨hw.inv, hw.ctx, ⟨hw.known, fun hl _ => hnil hl⟩, hpresent⟩).mono ?_)
    rintro r w ⟨rfl, hw⟩
    refine (ih hheld (n + l.length) hw).mono fun m w hm => ?_
    obtain ⟨hcalm, hle, hzero⟩ := hm
    refine ⟨⟨hcalm.inv, hcalm.ctx, hcalm.known.1⟩, by omega, fun hmn st hst hs => ?_⟩
    have hl : l = [] := length_eq_zero_iff.1 (by omega)
    rcases mem_cons.1 hst with rfl | hst
    · exact hcalm.known.2 hl hs
    · exact hzero (by rw [hl]; exact hmn) st hst hs

theorem resolveStaleInstances_calm (sup : Suppression) (hw : Calm (fun _ => True) w) :
    Ensures CalmStep SweepCall (resolveStaleInstances rule sup)
      (fun m w => Calm (fun w => m = 0 → Silent rule.id w) w) w := by
  have hheld : Held fun _ => True := fun _ _ _ h => h
  refine ensures_bind ((ensures_calmEnded hheld hw).mono ?_)
  rintro ended w ⟨rfl, hw⟩
  have hsup : Ensures CalmStep SweepCall (isAlertSuppressed rule sup)
      (fun _ w => Calm (fun _ => True) w) w := by
    refine ensures_bind ((ensures_calmEnded hheld hw).mono ?_)
    rintro ended w ⟨rfl, hw⟩
    exact ensures_pure hw
  refine ensures_bind (hsup.mono fun _ w hw => ?_)
  refine (resolveStatuses_calm hheld _ 0 hw).mono fun m w hm => ?_
  obtain ⟨hcalm, -, hzero⟩ := hm
  exact ⟨hcalm.inv, hcalm.ctx, fun h =>
    ⟨hzero h .pending (by simp) (.inl rfl), hzero h .firing (by simp) (.inr rfl)⟩⟩

end

end LabTether.Alerting
