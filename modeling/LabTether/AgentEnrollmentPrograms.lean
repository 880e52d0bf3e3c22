import LabTether.AgentEnrollmentRules

/-!
The operations that grant no credential keep to the guarantee of their transaction, statement
by statement: enrollment tokens, revocation and deletion of agent tokens, prepared approvals,
heartbeats and removals.
-/
namespace LabTether.AgentEnrollment

open GoStrings AssetAnchor List Rows Option Store

variable {P : Prop} {limit t : ℕ} {s : Store}

theorem changed_enrollments {E : Rows ℕ EnrollmentToken}
    (h : ∀ i, s.rows (.enrollment i) ≠ none → s.rows (.enrollment i) ≠ some t →
      E.get i = s.db.enrollments.get i) : Changed t s { s.db with enrollments := E } [] :=
  { changed_refl t s with enrollment := h }

section

variable (h : Inv P limit s)
include h

theorem meets_createEnrollmentToken (params : TokenParams) :
    Meets P limit t (createEnrollmentToken t params) s := by
  unfold createEnrollmentToken
  split
  · exact meets_pure _
  split
  · exact meets_pure _
  refine meets_lock h fun s₁ _ hinv₁ _ => ?_
  split
  · exact meets_rollback hinv₁ _
  refine meets_await hinv₁ fun s₂ token s₃ _ hinv₂ _ hstep => ?_
  cases hstep
  obtain ⟨hG, hq⟩ := guar_insert (t := t) hinv₂ (.enrollment s₂.nextID) rfl
  refine ⟨hG, meets_commit hG.inv fun s₄ hq₄ hinv₄ _ => ?_⟩
  have hown : s₄.rows (.enrollment s₂.nextID) = some t := hq₄.rows _ (take_owned (.head _))
  have hunused : s₄.log.countP (Event.uses s₂.nextID) = 0 := by
    rw [hq₄.uses _ (take_owned (.head _)), countP_eq_zero]
    -- every token that was used has an id that was given out
    intro ev hev huses
    cases ev with
    | enrolled a token rotatedAt =>
      have hlt := (hinv₂.enrollments.used _ _ _ hev).1
      have hid : token.id = s₂.nextID := by simpa [Event.uses] using huses
      omega
    | _ => cases huses
  refine ⟨changed_enrollments fun i _ hi => ?_, ?_, fun _ _ => Finset.Subset.refl _⟩
  · refine get_write_of_ne _ _ fun heq => hi ?_
    rw [heq]
    exact hown
  · rw [append_nil]
    exact hinv₄.issue (Nat.lt_of_lt_of_le (Nat.lt_succ_self _) hq₄.nextID) rfl hunused

theorem meets_revokeEnrollmentToken (id : ℕ) : Meets P limit t (revokeEnrollmentToken t id) s := by
  refine meets_await h fun s₁ found s₂ _ hinv _ hstep => ?_
  refine ⟨?_, meets_pure _⟩
  rcases hr : s₁.db.enrollments.get id with _ | r
  · rw [hr] at hstep
    cases hstep
    exact .refl hinv
  rw [hr] at hstep
  split_ifs at hstep with hfree
  cases hstep
  refine guar_statement hinv (changed_enrollments fun i hne hi => ?_) (fun _ hsome => hsome)
    (hinv.enrollmentsKept fun e r' hr' => ?_) (Finset.Subset.refl _)
  · refine get_write_of_ne _ _ fun heq => ?_
    subst heq
    exact (free_iff.1 hfree).elim hne hi
  · rw [get_write] at hr'
    split_ifs at hr' with heq
    · cases hr'
      exact ⟨r, heq ▸ hr, rfl, rfl, rfl⟩
    · exact ⟨r', hr', rfl, rfl, rfl⟩

theorem meets_revokeOne {β : Type} {g : Bool → Tx β} (id : ℕ) (p : AgentToken → Bool)
    (hg : ∀ found s₁, Meets P limit t (g found) s₁) :
    Meets P limit t (revokeOne t id p >>= g) s := by
  refine meets_await h fun s₁ found s₂ _ hinv _ hstep => ⟨?_, hg _ _⟩
  rcases hr : (s₁.db.tokens.get id).filter p with _ | r
  · rw [hr] at hstep
    cases hstep
    exact .refl hinv
  rw [hr] at hstep
  split_ifs at hstep with hfree
  cases hstep
  have hrow : s₁.db.tokens.get id = some r := (filter_eq_some_iff.1 hr).1
  have htame := tame_write hrow (tokenStep_revoke s₁.clock r)
  refine guar_statement hinv { changed_refl t s₁ with
      token := fun i hne hi => ?_
      absent := fun i _ hnone => ?_
      tokens := fun i r' hr' _ => ?_
      dead := htame.dead }
    (fun i hi => ?_) (hinv.tame htame) (tame_fleet htame _)
  · refine get_write_of_ne _ _ fun heq => ?_
    subst heq
    exact (free_iff.1 hfree).elim hne hi
  · refine (get_write_of_ne _ _ fun heq => ?_).trans hnone
    rw [heq, hrow] at hnone
    cases hnone
  · rcases write_cases hr' with hsame | ⟨rfl, rfl⟩
    · exact ⟨r', hsame, rfl, .inl rfl⟩
    · exact ⟨r, hrow, rfl, .inr rfl⟩
  · rw [get_write]
    split_ifs
    · rfl
    · exact hi

theorem meets_cancelAgentApproval (id : ℕ) : Meets P limit t (cancelAgentApproval t id) s :=
  meets_revokeOne h id _ fun _ _ => meets_pure _

theorem meets_revokeAgentToken (id : ℕ) : Meets P limit t (revokeAgentToken t id) s :=
  meets_revokeOne h id _ fun _ _ => meets_pure _

theorem meets_deleteRows {ν β : Type} {key : ℕ → RowKey} {table : Db → Rows ℕ ν} {p : ℕ → ν → Bool}
    {g : List ℕ → Tx β} (hkey : ∀ (s₁ : Store) i, ((table s₁.db).get i).isSome → s₁.has (key i))
    (hf : ∀ s₁ ids, Quiet P t s s₁ → Inv P limit s₁ →
      (∀ i ∈ ids, s₁.rows (key i) = some t) → Meets P limit t (g ids) s₁) :
    Meets P limit t (deleteRows t key table p >>= g) s := by
  refine meets_await h fun s₁ ids s₂ hq hinv _ hstep => ?_
  dsimp only at hstep
  split_ifs at hstep with hfree
  cases hstep
  have hlocks : ∀ k ∈ ((table s₁.db).select fun _ r => p s₁.clock r).map key, s₁.free t k := by
    simpa using hfree
  obtain ⟨hG, hq'⟩ := guar_take hinv _ hlocks (by
    intro k hk
    obtain ⟨i, hi, rfl⟩ := mem_map.1 hk
    obtain ⟨r, hr, -⟩ := mem_select.1 hi
    exact hkey s₁ i (by simp [hr]))
  exact ⟨hG, hf _ _ (hq.trans hq') hG.inv fun i hi => take_owned (mem_map_of_mem hi)⟩

theorem meets_deleteDeadTokens : Meets P limit t (deleteDeadTokens t) s := by
  refine meets_deleteRows h (fun _ _ hi => hi) fun s₁ enrollments _ hinv₁ henr => ?_
  refine meets_deleteRows hinv₁ (fun _ _ hi => hi) fun s₂ tokens hq₂ hinv₂ htok => ?_
  refine meets_commit hinv₂ fun s₃ hq₃ hinv₃ _ => ?_
  have htame : Tame s₃.db.tokens (s₃.db.tokens.deleteAll tokens) :=
    fun i r' hr' => ⟨r', (of_get_deleteAll hr').1, tokenStep_refl r'⟩
  refine ⟨changed_owned (fun i hi => ?_) (fun i hi => ?_) (fun _ _ => ⟨rfl, rfl, rfl⟩)
    (fun i r' hr' => .inr (of_get_deleteAll hr').1) (by simp) (by simp) (by simp)
    htame.dead, ?_, fun _ _ => tame_fleet htame _⟩
  · exact (get_deleteAll _ _ _).trans (if_neg fun hmem => hi (hq₃.rows _ (htok i hmem)))
  · refine (get_deleteAll _ _ _).trans (if_neg fun hmem => hi ?_)
    exact hq₃.rows _ (hq₂.rows _ (henr i hmem))
  have hkept := (hinv₃.tame htame).enrollmentsKept (E := s₃.db.enrollments.deleteAll enrollments)
    fun e r' hr' => ⟨r', (of_get_deleteAll hr').1, rfl, rfl, rfl⟩
  rw [append_nil]
  exact hkept

end

section

theorem Quiet.room {s' : Store} (hq : Quiet P t s s') (hcap : s.advisory .capacity = some t)
    (hroom : fleetHasRoom limit s = true) (hP : P) (a : String) :
    (insert a (s'.db.enrolledOrReserved s'.clock)).card ≤ limit := by
  have hlt : (s.db.enrolledOrReserved s.clock).card < limit := by simpa [fleetHasRoom] using hroom
  calc (insert a (s'.db.enrolledOrReserved s'.clock)).card
      ≤ (s'.db.enrolledOrReserved s'.clock).card + 1 := Finset.card_insert_le _ _
    _ ≤ (s.db.enrolledOrReserved s.clock).card + 1 :=
        Nat.succ_le_succ (Finset.card_le_card (hq.fleet hP hcap))
    _ ≤ limit := hlt

theorem meets_prepareAgentApproval (h : Inv P limit s) (assetID : String) (ttl : ℕ) :
    Meets P limit t (prepareAgentApproval limit t assetID ttl) s := by
  unfold prepareAgentApproval
  generalize trimSpace assetID = a
  dsimp only
  split
  · exact meets_pure _
  refine meets_lock h fun s₁ _ hinv₁ hown => ?_
  refine meets_select hinv₁ fun s₂ hq₂ hinv₂ => ?_
  split
  · exact meets_rollback hinv₂ _
  refine meets_select hinv₂ fun s₃ hq₃ hinv₃ => ?_
  split
  · exact meets_rollback hinv₃ _
  refine meets_selectForUpdate hinv₃ (fun s₄ i _ hi => ?_) (fun s₄ hq₄ hinv₄ _ => ?_)
    fun s₄ i _ hinv₄ _ => meets_rollback hinv₄ _
  · obtain ⟨r, hr, -⟩ := mem_select.1 (mem_of_mem_head? hi)
    simp [has, hr]
  refine meets_lock hinv₄ fun s₅ hq₅ hinv₅ hcap => ?_
  refine meets_select hinv₅ fun s₆ hq₆ hinv₆ => ?_
  split
  · exact meets_rollback hinv₆ _
  have hroom : fleetHasRoom limit s₆ = true := by simpa using ‹¬ fleetHasRoom limit s₆ = false›
  refine meets_insertAgentToken hinv₆ fun s₇ k token hq₇ hinv₇ hfresh₇ hasset hstatus => ?_
  refine meets_commit hinv₇ fun s₈ hq₈ hinv₈ _ => ?_
  have hfresh := hfresh₇.quiet hq₈
  have hown₈ : s₈.advisory (.identity a) = some t :=
    ((((((hq₂.trans hq₃).trans hq₄).trans hq₅).trans hq₆).trans hq₇).trans hq₈).advisory _ hown
  have hcap₈ := ((hq₆.trans hq₇).trans hq₈).advisory _ hcap
  refine ⟨changed_owned (fun i hi => ?_) (fun _ _ => rfl) (fun _ _ => ⟨rfl, rfl, rfl⟩)
    (fun i r' hr' => ?_) (by simp) (by simp) (by simp) (fun i r r' hr hrev hr' => ?_), ?_,
    fun _ hne => absurd hcap₈ hne⟩
  · refine get_write_of_ne _ _ fun heq => hi ?_
    rw [heq]
    exact hfresh.owned
  · rcases write_cases hr' with hsame | ⟨-, rfl⟩
    · exact .inr hsame
    · rw [hasset]
      exact .inl hown₈
  · rcases write_cases hr' with hsame | ⟨rfl, -⟩
    · rw [hr] at hsame
      exact some.inj hsame ▸ hrev
    · rw [hfresh.absent] at hr
      cases hr
  · rw [append_nil]
    exact hinv₈.reserve hfresh.id hstatus fun hP =>
      (hq₇.trans hq₈).room (hq₆.advisory _ hcap) hroom hP _

variable {lower : String → String}

theorem meets_commitAuthenticatedAgentHeartbeat (h : Inv P limit s) (id ttl : ℕ)
    (assetID : String) (body : Heartbeat) :
    Meets P limit t (commitAuthenticatedAgentHeartbeat lower t id ttl assetID body) s := by
  unfold commitAuthenticatedAgentHeartbeat
  generalize trimSpace assetID = a
  dsimp only
  split
  · exact meets_pure _
  refine meets_lock h fun s₁ _ hinv₁ hown => ?_
  refine meets_selectForUpdate hinv₁ (fun s₂ r _ hr => ?_)
    (fun s₂ _ hinv₂ _ => meets_rollback hinv₂ _) fun s₂ r hq₂ hinv₂ hr => ?_
  · simp [has, (filter_eq_some_iff.1 hr).1]
  obtain ⟨hrow, hvalid⟩ := filter_eq_some_iff.1 hr
  have hact : r.status = .active := by
    simp only [Bool.and_eq_true, beq_iff_eq] at hvalid
    exact hvalid.1.1
  dsimp only
  split
  · exact meets_rollback hinv₂ _
  rename_i hasset
  rw [not_not] at hasset
  refine meets_select hinv₂ fun s₃ hq₃ hinv₃ => ?_
  rcases hrow₃ : s₃.db.assets.get a with _ | asset
  · exact meets_rollback hinv₃ _
  refine meets_select hinv₃ fun s₄ hq₄ hinv₄ => ?_
  refine meets_commit hinv₄ fun s₅ hq₅ hinv₅ _ => ?_
  have hq₂₅ := (hq₃.trans hq₄).trans hq₅
  have hown₅ : s₅.advisory (.identity a) = some t := hq₂₅.advisory _ (hq₂.advisory _ hown)
  have hrows₂ := take_owned (s := s₂) (t := t) (mem_singleton_self (RowKey.token id))
  have hrow₅ : s₅.db.tokens.get id = some r := (hq₂₅.token id hrows₂).trans hrow
  have hasset₅ : s₅.db.assets.get a = some asset :=
    ((hq₄.trans hq₅).identity a (hq₃.advisory _ (hq₂.advisory _ hown))).1.trans hrow₃
  have htame : Tame s₅.db.tokens (s₅.db.tokens.write id (some (r.renew s₄.clock ttl))) :=
    tame_write hrow₅ ⟨rfl, .inr (.inr ⟨hact, hact⟩)⟩
  have hfleet := tame_fleet htame s₅.clock
  refine ⟨changed_owned (fun i hi => ?_) (fun _ _ => rfl) (fun a' ha' => ⟨?_, rfl, rfl⟩)
    (fun i r' hr' => ?_) (by simp [Event.asset]) (by simp [Event.uses]) (fun i hi => ?_)
    htame.dead, ?_, fun _ _ => hfleet⟩
  · refine get_write_of_ne _ _ fun heq => hi ?_
    rw [heq]
    exact hq₂₅.rows _ hrows₂
  · refine get_write_of_ne _ _ fun heq => ha' ?_
    rw [heq]
    exact hown₅
  · rcases write_cases hr' with hsame | ⟨-, rfl⟩
    · exact .inr hsame
    · exact .inl (hasset.symm ▸ hown₅)
  · obtain rfl : i = id := by simpa using hi
    exact ⟨r, hrow₅, hact⟩
  refine hinv₅.commit (hinv₅.tokens.tame htame) (hinv₅.identities.kept (fun a' => ?_) rfl)
    (hinv₅.enrollments.append (fun _ => rfl) (by simp)) (Nat.zero_le _) trivial
    fun hP => (Finset.card_le_card hfleet).trans (hinv₅.capacity hP)
  rw [get_write]
  split_ifs with heq
  · rw [heq, hasset₅]
    rfl
  · rfl

theorem retirement_eq (h : Inv P limit s) {a : String} (ha : (s.db.assets.get a).isSome) :
    retirement lower a s = some s.clock := by
  obtain ⟨asset, hasset⟩ := isSome_iff_exists.1 ha
  have hid : (s.db.identities.get a).isSome = true := (h.identities.enrolled a).2 ha
  have hret : s.db.retired.get a = none := by
    by_contra hne
    rw [h.identities.absent a (isSome_iff_ne_none.2 hne)] at hasset
    cases hasset
  simp [retirement, hasset, hid, hret]

theorem Quiet.bounds {s' : Store} (hq : Quiet P t s s') (h : Inv P limit s) {a : String}
    (hown : s.advisory (.identity a) = some t) : Bounds s'.log a s.clock :=
  fun ev hev hasset => h.stamps ev (hq.event hown hev hasset)

theorem meets_decommissionAgentAsset (h : Inv P limit s) (assetID : String) :
    Meets P limit t (decommissionAgentAsset lower t assetID) s := by
  unfold decommissionAgentAsset
  generalize trimSpace assetID = a
  dsimp only
  split
  · exact meets_pure _
  refine meets_lock h fun s₁ _ hinv₁ hown₁ => ?_
  refine meets_select hinv₁ fun s₂ hq₂ hinv₂ => ?_
  have hown₂ := hq₂.advisory _ hown₁
  refine meets_revokeTokens hinv₂ fun s₃ images hq₃ hinv₃ hrev₃ => ?_
  refine meets_select hinv₃ fun s₄ hq₄ hinv₄ => ?_
  split
  · exact meets_rollback hinv₄ _
  have hfound : (s₂.db.assets.get a).isSome = true := by
    rw [← ((hq₃.trans hq₄).identity a hown₂).1]
    simpa only [Bool.not_eq_false] using ‹¬ (s₄.db.assets.get a).isSome = false›
  rw [retirement_eq hinv₂ hfound]
  refine meets_commit hinv₄ fun s₅ hq₅ hinv₅ _ => ?_
  have hq₂₅ := (hq₃.trans hq₄).trans hq₅
  have hown := hq₂₅.advisory _ hown₂
  have hrev := hrev₃.quiet (hq₄.trans hq₅) (hq₃.advisory _ hown₂) (by simp)
  have hfleet : (decommissionWrites a (some s₂.clock) images s₅.db).enrolledOrReserved s₅.clock ⊆
      s₅.db.enrolledOrReserved s₅.clock := by
    refine fleet_subset (fun a' ha' => mem_enrolledOrReserved.2 (.inl ?_)) fun i r' hr' hres =>
      hrev.tame.mem_fleet rfl hr' hres
    simp only [decommissionWrites, get_write] at ha'
    split_ifs at ha'
    · cases ha'
    · exact ha'
  refine ⟨changed_owned (fun i hi => hrev.unowned hi) (fun _ _ => rfl) (fun a' ha' => ?_)
    (fun i r' hr' => ?_) (by simpa [Event.asset] using hown) (by simp [Event.uses]) (by simp)
    hrev.tame.dead, ?_, fun _ _ => hfleet⟩
  · have hne : a' ≠ a := fun heq => ha' (heq ▸ hown)
    exact ⟨get_write_of_ne _ _ hne, get_write_of_ne _ _ hne, get_write_of_ne _ _ hne⟩
  · rcases hrev.row hr' with ⟨hsame, -⟩ | ⟨r, now, -, hra, rfl⟩
    · exact .inr hsame
    · exact .inl (hra ▸ hown)
  exact hinv₅.commit (hinv₅.tokens.tame hrev.tame)
    (hinv₅.identities.remove (hq₂₅.bounds hinv₂ hown₂))
    (hinv₅.enrollments.append (fun _ => rfl) (by simp)) hq₂₅.clock trivial
    fun hP => (Finset.card_le_card hfleet).trans (hinv₅.capacity hP)

end

end LabTether.AgentEnrollment
