import LabTether.AlertEvaluator

/-!
What an alert instance keeps for good, and what each call of the store does to the
instances. `Revised` says it for a call that opens no instance; `Inv` is what every call
keeps.
-/
namespace LabTether.Alerting

open GoStrings Table List World

section

def pairOf (i : AlertInstance) : String × String := (i.ruleID, i.fingerprint)

variable {i : AlertInstance}

theorem isActive_iff : isActive i = true ↔ i.status ≠ .resolved := by
  unfold isActive
  cases i.status <;> simp

structure Continues (i i' : AlertInstance) : Prop where
  id : i'.id = i.id
  pair : pairOf i' = pairOf i
  firstFiredAt : ∀ t, i.firstFiredAt = some t → i'.firstFiredAt = some t
  firingScope : ∀ s, i.firingScope = some s → i'.firingScope = some s
  resolvedAt : ∀ t, i.resolvedAt = some t → i'.resolvedAt = some t
  resolved : i.status = .resolved → i'.status = .resolved

theorem Continues.refl (i : AlertInstance) : Continues i i :=
  ⟨rfl, rfl, fun _ h => h, fun _ h => h, fun _ h => h, fun h => h⟩

theorem Continues.trans {i j k : AlertInstance} (h : Continues i j) (h' : Continues j k) :
    Continues i k where
  id := h'.id.trans h.id
  pair := h'.pair.trans h.pair
  firstFiredAt t ht := h'.firstFiredAt t (h.firstFiredAt t ht)
  firingScope s hs := h'.firingScope s (h.firingScope s hs)
  resolvedAt t ht := h'.resolvedAt t (h.resolvedAt t ht)
  resolved hr := h'.resolved (h.resolved hr)

theorem Continues.active {i i' : AlertInstance} (h : Continues i i') (ha : isActive i' = true) :
    isActive i = true :=
  isActive_iff.2 fun hr => isActive_iff.1 ha (h.resolved hr)

/-- The times of an instance agree with its status. -/
structure Sound (i : AlertInstance) : Prop where
  unfired : i.status = .pending → i.firstFiredAt = none
  fired : i.status = .firing ∨ i.status = .acknowledged → i.firstFiredAt.isSome
  scope : i.firstFiredAt.isSome = i.firingScope.isSome
  resolved : i.resolvedAt.isSome ↔ i.status = .resolved

/-- What a call of the store may write over an instance. -/
structure Rewrites (i i' : AlertInstance) : Prop extends Continues i i' where
  sound : Sound i → Sound i'

structure Retains (i i' : AlertInstance) : Prop extends Rewrites i i' where
  unfired : i'.firstFiredAt = i.firstFiredAt
  status : i'.status = i.status ∨ i'.status = .acknowledged ∨ i'.status = .resolved

theorem Retains.refl (i : AlertInstance) : Retains i i := ⟨⟨.refl i, fun h => h⟩, rfl, .inl rfl⟩

theorem moveStatus_retains {status : InstanceStatus} (now : ℤ)
    (hs : status = .acknowledged ∨ status = .resolved)
    (hcan : canTransitionInstanceStatus i.status status = true) (hne : i.status ≠ status) :
    Retains i (moveStatus now status i) := by
  have hfires : ¬ (i.status = .pending ∧ status = .firing ∧ i.firstFiredAt = none) := by
    rintro ⟨-, rfl, -⟩
    simp at hs
  have hnot : i.status ≠ .resolved := by
    intro hr
    simp [canTransitionInstanceStatus, hr, show InstanceStatus.resolved ≠ status from hr ▸ hne] at hcan
  have hfired : (moveStatus now status i).firstFiredAt = i.firstFiredAt := by
    simp [moveStatus, hfires]
  refine ⟨⟨⟨rfl, rfl, fun t ht => hfired.trans ht, fun s hs => hs, ?_, fun h => absurd h hnot⟩,
    ?_⟩, hfired, .inr hs⟩
  · intro t ht
    simp [moveStatus, ht]
  intro h
  have hopen : i.resolvedAt = none := by
    have := h.resolved.not.2 hnot
    simpa using this
  refine ⟨?_, ?_, by rw [hfired]; exact h.scope, ?_⟩
  · intro hp
    rcases hs with rfl | rfl <;> cases hp
  · intro hf
    rw [hfired]
    apply h.fired
    rcases hs with rfl | rfl
    · revert hcan hne
      cases i.status <;> simp [canTransitionInstanceStatus]
    · rcases hf with hf | hf <;> cases hf
  · simp [moveStatus, hopen]

theorem lastFired_retains (now : ℤ) (i : AlertInstance) :
    Retains i { i with lastFiredAt := now, updatedAt := now } :=
  ⟨⟨⟨rfl, rfl, fun _ h => h, fun _ h => h, fun _ h => h, fun h => h⟩,
    fun h => { h with }⟩, rfl, .inl rfl⟩

theorem fireInstance_rewrites (now : ℤ) (scope : FiringScope)
    (hp : i.status = .pending) (hf : i.firstFiredAt = none) (hsc : i.firingScope = none) :
    Rewrites i (fireInstance now scope i) := by
  refine ⟨⟨rfl, rfl, ?_, ?_, fun _ h => h, ?_⟩, fun h => ⟨?_, fun _ => rfl, rfl, ?_⟩⟩
  · intro t ht
    simp [hf] at ht
  · intro s hs
    simp [hsc] at hs
  · intro hr
    simp [hp] at hr
  · intro hn
    cases hn
  · have hopen := h.resolved
    rw [hp] at hopen
    simpa [fireInstance] using hopen

end

section

/-- A call that opens no instance: it rewrites rows, each by `Move`. -/
structure Revised (Move : AlertInstance → AlertInstance → Prop) (w w' : World) : Prop where
  clock : w.clock ≤ w'.clock
  nextID : w'.nextID = w.nextID
  rows : Change AlertInstance.id Move (fun _ => False) (fun _ => False) w.instances w'.instances

variable {Move : AlertInstance → AlertInstance → Prop}

theorem Revised.refl {w w' : World} (hc : w.clock ≤ w'.clock) (hn : w'.nextID = w.nextID)
    (hi : w'.instances = w.instances) :
    Revised Move w w' := ⟨hc, hn, hi ▸ Change.refl _⟩

variable {w : World} {i : AlertInstance} {id : ℕ}

theorem instanceOf_mem (h : instanceOf id w = some i) : i ∈ w.instances ∧ i.id = id := by
  refine ⟨mem_of_find?_eq_some h, ?_⟩
  simpa using find?_some h

theorem revised_putInstance {i' : AlertInstance} (hk : Keyed AlertInstance.id w.instances)
    (hi : i ∈ w.instances) (hid : i'.id = i.id) (hm : Move i i') :
    Revised Move w (putInstance i' w) := by
  refine ⟨le_refl _, rfl, Change.updateWhere fun r hr hp => ?_⟩
  have hri : r.id = i.id := by simpa [hid] using hp
  rw [hk.eq hr hi hri]
  exact hm

theorem updateAlertInstanceStatus_revised (id : ℕ) {status : InstanceStatus}
    (hs : status = .acknowledged ∨ status = .resolved) (hk : Keyed AlertInstance.id w.instances) :
    Revised Retains w (updateAlertInstanceStatus id status w).2 := by
  fun_cases updateAlertInstanceStatus id status w
  case case4 hi hcan hne =>
    exact revised_putInstance hk (instanceOf_mem hi).1 rfl
      (moveStatus_retains w.clock hs (by simpa using hcan) hne)
  all_goals exact .refl (le_refl _) rfl rfl

theorem updateAlertInstanceStatus_resolved
    (h : (updateAlertInstanceStatus id .resolved w).1 = .ok i)
    (hk : Keyed AlertInstance.id w.instances) :
    ∀ j ∈ (updateAlertInstanceStatus id .resolved w).2.instances, j.id = id →
      j.status = .resolved := by
  revert h
  fun_cases updateAlertInstanceStatus id .resolved w
  all_goals intro h j hj hid
  case case3 hi _ hsame =>
    obtain ⟨hr, hrid⟩ := instanceOf_mem hi
    rw [hk.eq hj hr (hid.trans hrid.symm), hsame]
  case case4 hi _ _ =>
    obtain ⟨x, hx, rfl⟩ := mem_updateWhere.1 hj
    split
    · rfl
    · rename_i hne
      rw [if_neg hne] at hid
      simp [moveStatus, hid, (instanceOf_mem hi).2] at hne
  all_goals cases h

theorem updateAlertInstanceLastFired_revised (id : ℕ) (hk : Keyed AlertInstance.id w.instances) :
    Revised Retains w (updateAlertInstanceLastFired id w).2 := by
  unfold updateAlertInstanceLastFired
  split
  · exact .refl (le_refl _) rfl rfl
  · rename_i i hi
    exact revised_putInstance hk (instanceOf_mem hi).1 rfl (lastFired_retains w.clock i)

theorem fireAlertInstance_cases (id : ℕ) (scope : FiringScope) (w : World) :
    (fireAlertInstance id scope w).2 = w ∨
      ∃ i normalized, normalizeFiringScope scope = .ok normalized ∧ instanceOf id w = some i ∧
        i.status = .pending ∧ i.firstFiredAt = none ∧ i.firingScope = none ∧
        (fireAlertInstance id scope w).2 = putInstance (fireInstance w.clock normalized i) w := by
  fun_cases fireAlertInstance id scope w
  case case5 normalized hn i hi _ hfresh =>
    push Not at hfresh
    exact .inr ⟨i, normalized, hn, hi, hfresh.1, hfresh.2.1, hfresh.2.2, rfl⟩
  all_goals exact .inl rfl

end

/-- What every run keeps: at most one instance of a pair is active. -/
structure Inv (w : World) : Prop where
  keyed : Keyed AlertInstance.id w.instances
  issued : ∀ i ∈ w.instances, i.id < w.nextID
  sound : ∀ i ∈ w.instances, Sound i
  oneActive : ∀ i ∈ w.instances, ∀ j ∈ w.instances, pairOf i = pairOf j →
    isActive i = true → isActive j = true → i = j

def Lasts (w w' : World) : Prop := ∀ i ∈ w.instances, ∃ i' ∈ w'.instances, Continues i i'

theorem Lasts.refl (w : World) : Lasts w w := fun i hi => ⟨i, hi, .refl i⟩

theorem Lasts.trans {a b c : World} (h : Lasts a b) (h' : Lasts b c) : Lasts a c := by
  intro i hi
  obtain ⟨j, hj, hij⟩ := h i hi
  obtain ⟨k, hk, hjk⟩ := h' j hj
  exact ⟨k, hk, hij.trans hjk⟩

theorem inv_start (clock : ℤ) : Inv (start clock) :=
  ⟨nodup_nil, by simp [start], by simp [start], by simp [start]⟩

section

variable {Move : AlertInstance → AlertInstance → Prop} {w w' : World}

theorem Revised.back (h : Revised Move w w') (hrefl : ∀ i, Move i i) {i' : AlertInstance}
    (hi' : i' ∈ w'.instances) : ∃ i ∈ w.instances, Move i i' := by
  rcases h.rows.mem_cases hi' with hi | hi | ⟨hnew, -⟩
  · exact ⟨i', hi, hrefl i'⟩
  · exact hi
  · exact hnew.elim

theorem Revised.mono {Move' : AlertInstance → AlertInstance → Prop} (h : Revised Move w w')
    (hm : ∀ i i', Move i i' → Move' i i') : Revised Move' w w' := by
  refine ⟨h.clock, h.nextID, ?_⟩
  have hrows := h.rows
  generalize w.instances = t, w'.instances = t' at hrows ⊢
  cases hrows with
  | rewrite f hf => exact .rewrite _ f fun r hr => (hf r hr).imp_right (hm _ _)
  | insert r hr hk => exact hr.elim
  | delete p hp => exact .delete _ p hp

theorem Revised.lasts (h : Revised Rewrites w w') : Lasts w w' := by
  intro i hi
  rcases h.rows.successor hi fun hgone => hgone with hi' | ⟨i', hi', hm⟩
  · exact ⟨i, hi', .refl i⟩
  · exact ⟨i', hi', hm.toContinues⟩

theorem Revised.inv (h : Revised Rewrites w w') (hw : Inv w) : Inv w' := by
  have hkeyed : Keyed AlertInstance.id w'.instances := h.rows.keyed (fun i i' hm => hm.id) hw.keyed
  have hback : ∀ i' ∈ w'.instances, ∃ i ∈ w.instances, Rewrites i i' := fun i' hi' =>
    h.back (fun i => ⟨.refl i, fun hs => hs⟩) hi'
  refine ⟨hkeyed, ?_, ?_, ?_⟩
  · intro i' hi'
    obtain ⟨i, hi, hm⟩ := hback i' hi'
    rw [hm.id, h.nextID]
    exact hw.issued i hi
  · intro i' hi'
    obtain ⟨i, hi, hm⟩ := hback i' hi'
    exact hm.sound (hw.sound i hi)
  · intro i' hi' j' hj' hpair hai haj
    obtain ⟨i, hi, hmi⟩ := hback i' hi'
    obtain ⟨j, hj, hmj⟩ := hback j' hj'
    have hij : i = j := hw.oneActive i hi j hj (by rw [← hmi.pair, ← hmj.pair, hpair])
      (hmi.active hai) (hmj.active haj)
    exact hkeyed.eq hi' hj' (by rw [hmi.id, hmj.id, hij])

end

/-- The instance that `createAlertInstance` adds for a rule, under its own fingerprint. -/
def rulePair (H : Sha256) (rule : Rule) : String × String :=
  (trimSpace rule.id, generateFingerprint H rule.id rule.labels)

theorem createAlertInstance_spec (H : Sha256) (rule : Rule) (w : World) :
    ∃ inst, createAlertInstance H rule.id (generateFingerprint H rule.id rule.labels) rule.labels w =
        (.ok inst, { w with instances := w.instances ++ [inst], nextID := w.nextID + 1 }) ∧
      inst.id = w.nextID ∧ pairOf inst = rulePair H rule ∧ inst.status = .pending ∧
      inst.firstFiredAt = none ∧ inst.firingScope = none ∧ inst.resolvedAt = none := by
  refine ⟨_, rfl, rfl, ?_, rfl, rfl, rfl, rfl⟩
  have htrim : trimSpace (generateFingerprint H rule.id rule.labels) =
      generateFingerprint H rule.id rule.labels := H.trimmed _
  have hne : generateFingerprint H rule.id rule.labels ≠ "" := H.nonempty _
  simp [pairOf, rulePair, htrim, hne]

theorem getActiveInstance_cases (H : Sha256) (rule : Rule) (w : World) :
    (∃ i, getActiveInstanceByFingerprint rule.id (generateFingerprint H rule.id rule.labels) w =
        some i ∧ i ∈ w.instances ∧ pairOf i = rulePair H rule ∧ isActive i = true) ∨
      (getActiveInstanceByFingerprint rule.id (generateFingerprint H rule.id rule.labels) w = none ∧
        ∀ i ∈ w.instances, pairOf i = rulePair H rule → isActive i = false) := by
  have htrim : trimSpace (generateFingerprint H rule.id rule.labels) =
      generateFingerprint H rule.id rule.labels := H.trimmed _
  unfold getActiveInstanceByFingerprint
  rw [htrim]
  cases hfind : List.find? _ w.instances with
  | some i =>
    have hp := find?_some hfind
    simp only [Bool.and_eq_true, beq_iff_eq] at hp
    exact .inl ⟨i, rfl, mem_of_find?_eq_some hfind, Prod.ext hp.1.1 hp.1.2, hp.2⟩
  | none =>
    refine .inr ⟨rfl, fun i hi hpair => ?_⟩
    have hp := find?_eq_none.1 hfind i hi
    have h₁ : i.ruleID = trimSpace rule.id := congrArg Prod.fst hpair
    have h₂ : i.fingerprint = generateFingerprint H rule.id rule.labels := congrArg Prod.snd hpair
    simpa [h₁, h₂] using hp

theorem Inv.create {w : World} {inst : AlertInstance} (hw : Inv w) (hid : inst.id = w.nextID)
    (hs : Sound inst) (hfree : ∀ i ∈ w.instances, pairOf i = pairOf inst → isActive i = false) :
    Inv { w with instances := w.instances ++ [inst], nextID := w.nextID + 1 } := by
  have hfresh : inst.id ∉ w.instances.map AlertInstance.id := by
    intro hmem
    obtain ⟨i, hi, he⟩ := mem_map.1 hmem
    have := hw.issued i hi
    omega
  refine ⟨hw.keyed.append hfresh, ?_, ?_, ?_⟩
  · exact forall_mem_append.2 ⟨fun i hi => Nat.lt_succ_of_lt (hw.issued i hi),
      forall_mem_singleton.2 (hid ▸ Nat.lt_succ_self _)⟩
  · exact forall_mem_append.2 ⟨hw.sound, forall_mem_singleton.2 hs⟩
  intro i hi j hj hpair hai haj
  rcases mem_append.1 hi with hi | hi <;> rcases mem_append.1 hj with hj | hj
  · exact hw.oneActive i hi j hj hpair hai haj
  · rw [mem_singleton.1 hj] at hpair
    rw [hfree i hi hpair] at hai
    cases hai
  · rw [mem_singleton.1 hi] at hpair
    rw [hfree j hj hpair.symm] at haj
    cases haj
  · rw [mem_singleton.1 hi, mem_singleton.1 hj]

end LabTether.Alerting
