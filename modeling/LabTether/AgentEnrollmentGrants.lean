import LabTether.AgentEnrollmentPrograms

/-!
The operations that grant a credential, and the operations all together. `Grant` is what is
known when the images of a new credential are written; `Issuing` is what an enrollment knows
before it issues one.
-/
namespace LabTether.AgentEnrollment

open GoStrings Pool List Option Rows

variable {P : Prop} {limit t : ℕ} {s : Store}

section

variable {a : String} {k m : ℕ} {token : AgentToken} {images : List (ℕ × Option AgentToken)}

/-- The transaction is about to make `token` the credential of the asset. -/
structure Grant (t : ℕ) (a : String) (k : ℕ) (token : AgentToken)
    (images : List (ℕ × Option AgentToken)) (s : Store) : Prop where
  own : s.advisory (.identity a) = some t
  revoking : Revoking t a [.active] images s
  row : s.rows (.token k) = some t
  id : k < s.nextID
  alive : ∀ r, s.db.tokens.get k = some r → r.status ≠ .revoked
  asset : token.assetID = a
  active : token.status = .active

def Grant.tokens (k : ℕ) (token : AgentToken) (images : List (ℕ × Option AgentToken))
    (T : Rows ℕ AgentToken) : Rows ℕ AgentToken :=
  (T.writeAll images).write k (some token)

theorem Grant.granted (h : Grant t a k token images s) :
    Granted a k token s.db.tokens (Grant.tokens k token images s.db.tokens) := by
  intro i r' hr'
  rcases write_cases hr' with hr' | hnew
  · rcases h.revoking.row hr' with ⟨hsame, hnot⟩ | ⟨r, now, hr, -, rfl⟩
    · exact .inr ⟨r', hsame, tokenStep_refl r', fun hh => hnot ⟨hh.2, by simp [hh.1]⟩⟩
    · exact .inr ⟨r, hr, tokenStep_revoke now r, fun hh => by cases hh.1⟩
  · exact .inl hnew

structure Grant.Images (a : String) (m : ℕ) (db db' : Db) : Prop where
  assets : ∀ a', a' ≠ a → db'.assets.get a' = db.assets.get a'
  asset : (db'.assets.get a).isSome
  identities : db'.identities = db.identities.write a (some m)
  retired : ∀ a', a' ≠ a → db'.retired.get a' = db.retired.get a'
  readmitted : db'.retired.get a = none

theorem Grant.commits (h : Grant t a k token images s) (hinv : Inv P limit s) {db : Db} {ev : Event}
    (htokens : db.tokens = Grant.tokens k token images s.db.tokens)
    (himages : Grant.Images a m s.db db) (henrollment : ∀ i, s.rows (.enrollment i) ≠ some t →
      db.enrollments.get i = s.db.enrollments.get i)
    (henrollments : EnrollmentsInv db.enrollments (s.log ++ [ev]) s.nextID)
    (hasset : ev.asset = some a) (hkind : ∀ r, ev ≠ .decommissioned a r) (hstamp : ev.stamp = m)
    (hm : m ≤ s.clock) (hbounds : Bounds s.log a m) (hlawful : ev.Lawful s.log)
    (huses : ∀ e, ev.uses e = true → s.rows (.enrollment e) = some t)
    (hroom : P → a ∈ s.db.enrolledOrReserved s.clock ∨
      (s.advisory .capacity = some t ∧ (insert a (s.db.enrolledOrReserved s.clock)).card ≤ limit)) :
    Commits P limit t s db [ev] := by
  have hgranted : Granted a k token s.db.tokens db.tokens := htokens ▸ h.granted
  have hids : ∀ a', a' ≠ a → db.identities.get a' = s.db.identities.get a' := by
    intro a' hne
    rw [himages.identities]
    exact get_write_of_ne _ _ hne
  have hfleet : db.enrolledOrReserved s.clock ⊆ insert a (s.db.enrolledOrReserved s.clock) :=
    granted_fleet hgranted h.active hids
  refine ⟨changed_owned (fun i hi => ?_) henrollment (fun a' ha' => ?_) (fun i r' hr' => ?_)
    (fun ev' hev' a' ha' => ?_) (fun ev' hev' => ?_) (fun i hi => ?_)
    (fun i x r' hx hrev hr' => ?_), ?_, fun hP hcap => ?_⟩
  · rw [htokens]
    refine (get_write_of_ne _ _ fun heq => hi ?_).trans (h.revoking.unowned hi)
    rw [heq]
    exact h.row
  · have hne : a' ≠ a := fun heq => ha' (heq ▸ h.own)
    exact ⟨himages.assets a' hne, hids a' hne, himages.retired a' hne⟩
  · rw [htokens] at hr'
    rcases write_cases hr' with hr' | ⟨-, rfl⟩
    · rcases h.revoking.row hr' with ⟨hsame, -⟩ | ⟨r, now, -, hra, rfl⟩
      · exact .inr hsame
      · exact .inl (hra ▸ h.own)
    · exact .inl (h.asset.symm ▸ h.own)
  · rw [mem_singleton.1 hev', hasset] at ha'
    exact some.inj ha' ▸ h.own
  · rw [mem_singleton.1 hev']
    exact huses
  · rw [← mem_singleton.1 hi] at hasset
    cases hasset
  · rw [htokens] at hr'
    rcases write_cases hr' with hr' | ⟨rfl, -⟩
    · rcases h.revoking.row hr' with ⟨hsame, -⟩ | ⟨r, now, -, -, rfl⟩
      · rw [hx] at hsame
        exact some.inj hsame ▸ hrev
      · rfl
    · exact absurd hrev (h.alive x hx)
  · refine hinv.commit (hinv.tokens.grant hgranted h.id h.asset)
      (hinv.identities.grant himages.assets himages.asset hids ?_ himages.retired
        himages.readmitted hasset hkind hstamp hbounds) henrollments (hstamp ▸ hm) hlawful fun hP => ?_
    · rw [himages.identities]
      exact get_write_self _ _ _
    rcases hroom hP with hmem | ⟨-, hcard⟩
    · rw [Finset.insert_eq_of_mem hmem] at hfleet
      exact (Finset.card_le_card hfleet).trans (hinv.capacity hP)
    · exact (Finset.card_le_card hfleet).trans hcard
  · rcases hroom hP with hmem | ⟨hown, -⟩
    · rwa [Finset.insert_eq_of_mem hmem] at hfleet
    · exact absurd hown hcap

end

section

variable {a : String} {etok : EnrollmentToken} {retired : Bool} {asset : Option Asset} {s' : Store}

theorem Quiet.lawful (hq : Quiet P t s s') {ev : Event} (hasset : ev.asset = some a)
    (hown : s.advisory (.identity a) = some t) (h : ev.Lawful s.log) : ev.Lawful s'.log := by
  cases ev with
  | enrolled a' token rotatedAt =>
    obtain rfl : a' = a := some.inj hasset
    refine ⟨fun hlive => ?_, fun r hr => h.2 r (hq.event hown hr rfl)⟩
    rw [live, hq.events _ hown] at hlive
    obtain ⟨hone, hbounds⟩ := h.1 hlive
    exact ⟨hone, fun ev' hev' ha' => hbounds ev' (hq.event hown hev' ha') ha'⟩
  | approved a' prepared rotatedAt =>
    obtain rfl : a' = a := some.inj hasset
    exact fun r hr => h r (hq.event hown hr rfl)
  | _ => trivial

structure Issuing (P : Prop) (limit t : ℕ) (a : String) (etok : EnrollmentToken) (retired : Bool)
    (asset : Option Asset) (s : Store) : Prop where
  own : s.advisory (.identity a) = some t
  row : s.rows (.enrollment etok.id) = some t
  token : s.db.enrollments.get etok.id = some etok
  left : etok.useCount < etok.maxUses
  present : asset.isSome ∨ (s.db.assets.get a).isSome
  tombstone : retired = true ∨ s.db.retired.get a = none
  lawful : ∀ m, (Event.enrolled a etok m).Lawful s.log
  room : P → (s.db.identities.get a).isSome ∨ (s.advisory .capacity = some t ∧
    (insert a (s.db.enrolledOrReserved s.clock)).card ≤ limit)

theorem Issuing.quiet (h : Issuing P limit t a etok retired asset s)
    (hq : Quiet P t s s') : Issuing P limit t a etok retired asset s' := by
  obtain ⟨hassets, hids, hret⟩ := hq.identity a h.own
  refine ⟨hq.advisory _ h.own, hq.rows _ h.row, (hq.enrollment _ h.row).trans h.token, h.left,
    by rw [hassets]; exact h.present, by rw [hret]; exact h.tombstone,
    fun m => hq.lawful rfl h.own (h.lawful m), fun hP => ?_⟩
  rw [hids]
  refine (h.room hP).imp_right fun ⟨hcap, hcard⟩ => ⟨hq.advisory _ hcap, ?_⟩
  exact (Finset.card_le_card (Finset.insert_subset_insert a (hq.fleet hP hcap))).trans hcard

theorem Fresh.alive {k : ℕ} (h : Fresh t k s) (r : AgentToken) (hr : s.db.tokens.get k = some r) :
    r.status ≠ .revoked := by
  rw [h.absent] at hr
  cases hr

theorem meets_issueAgentToken (h : Inv P limit s)
    (hissuing : Issuing P limit t a etok retired asset s) (req : CommitRequest) :
    Meets P limit t (issueAgentToken t a req etok retired asset) s := by
  refine meets_revokeTokens h fun s₁ images hq₁ hinv₁ hrev₁ => ?_
  have hown₁ := hq₁.advisory _ hissuing.own
  refine meets_insertAgentToken hinv₁ fun s₂ k token hq₂ hinv₂ hfresh₂ hasset hactive => ?_
  refine meets_select hinv₂ fun s₃ hq₃ hinv₃ => ?_
  refine meets_commit hinv₃ fun s₄ hq₄ hinv₄ _ => ?_
  have hknown := hissuing.quiet (((hq₁.trans hq₂).trans hq₃).trans hq₄)
  have hfresh := hfresh₂.quiet (hq₃.trans hq₄)
  have hgrant : Grant t a k token images s₄ :=
    ⟨hknown.own, hrev₁.quiet ((hq₂.trans hq₃).trans hq₄) hown₁ (by simp), hfresh.owned, hfresh.id,
      hfresh.alive, hasset, hactive⟩
  have himages : Grant.Images a s₃.clock s₄.db
      (enrollmentWrites a etok retired asset images (k, token) s₃.clock s₄.db) := by
    refine ⟨fun a' hne => ?_, ?_, rfl, fun a' hne => ?_, ?_⟩
    · cases asset with
      | none => rfl
      | some row => exact get_write_of_ne _ _ hne
    · cases asset with
      | none => exact hknown.present.resolve_left (by simp)
      | some row => simp [enrollmentWrites]
    · cases retired with
      | false => rfl
      | true => exact get_write_of_ne _ _ hne
    · cases retired with
      | false => exact hknown.tombstone.resolve_left (by simp)
      | true => simp [enrollmentWrites]
  refine hgrant.commits hinv₄ rfl himages (fun i hi => ?_)
    (hinv₄.enrollments.use hknown.token hknown.left a s₃.clock) rfl (by simp) rfl hq₄.clock
    (hq₄.bounds hinv₃ (((hq₂.trans hq₃)).advisory _ hown₁)) (hknown.lawful _) (fun e he => ?_)
    fun hP => (hknown.room hP).imp_left fun hid => mem_enrolledOrReserved.2 (.inl hid)
  · refine get_write_of_ne _ _ fun heq => hi ?_
    rw [heq]
    exact hknown.row
  · obtain rfl : etok.id = e := by simpa [Event.uses] using he
    exact hknown.row

/-- The enrollment transaction has locked the identity and a valid token. -/
structure Admitted (t : ℕ) (a : String) (etok : EnrollmentToken) (s : Store) : Prop where
  own : s.advisory (.identity a) = some t
  row : s.rows (.enrollment etok.id) = some t
  token : s.db.enrollments.get etok.id = some etok
  left : etok.useCount < etok.maxUses

theorem Admitted.quiet (h : Admitted t a etok s) (hq : Quiet P t s s') : Admitted t a etok s' :=
  ⟨hq.advisory _ h.own, hq.rows _ h.row, (hq.enrollment _ h.row).trans h.token, h.left⟩

variable {parses : String → Bool}

theorem meets_recoverAgent (h : Inv P limit s) (hadmitted : Admitted t a etok s) {existing : Asset}
    (hexisting : s.db.assets.get a = some existing) (htombstone : s.db.retired.get a = none)
    (req : CommitRequest) : Meets P limit t (recoverAgent parses t a req etok existing) s := by
  unfold recoverAgent
  iterate 3
    split
    · exact meets_rollback h _
  rename_i hsingle
  split
  · exact meets_rollback h _
  refine meets_select h fun s₁ hq₁ hinv₁ => ?_
  split
  · exact meets_rollback hinv₁ _
  rename_i hnewer
  obtain ⟨hassets, -, hret⟩ := hq₁.identity a hadmitted.own
  have hpresent : (s₁.db.assets.get a).isSome = true := by
    rw [hassets, hexisting]
    rfl
  have hid : (s₁.db.identities.get a).isSome = true := (hinv₁.identities.enrolled a).2 hpresent
  obtain ⟨m, hm⟩ := isSome_iff_exists.1 hid
  have hmarker : selectAgentIdentityMarker a existing s₁ = m := by
    simp [selectAgentIdentityMarker, hm]
  rw [hmarker, not_le] at hnewer
  have hbounds : ∀ ev ∈ s₁.log, ev.asset = some a → ev.stamp < etok.createdAt :=
    fun ev hev ha => Nat.lt_of_le_of_lt (hinv₁.identities.marker a m hm ev hev ha) hnewer
  refine meets_issueAgentToken hinv₁ { hadmitted.quiet hq₁ with
    present := .inr hpresent, tombstone := .inr (hret.trans htombstone), lawful := fun _ => ?_
    room := fun _ => .inl hid } req
  have hone : etok.maxUses = 1 := not_not.1 hsingle
  exact ⟨fun _ => ⟨hone, hbounds⟩, fun r hr => ⟨hone, hbounds _ hr rfl⟩⟩

theorem meets_enrollAgent (h : Inv P limit s) (hadmitted : Admitted t a etok s)
    (habsent : s.db.assets.get a = none) (htombstone : retired = true ∨ s.db.retired.get a = none)
    (hreturn : ∀ r, .decommissioned a r ∈ s.log → etok.maxUses = 1 ∧ r < etok.createdAt)
    (req : CommitRequest) : Meets P limit t (enrollAgent limit t a req etok retired) s := by
  unfold enrollAgent
  split
  · exact meets_rollback h _
  split
  · exact meets_rollback h _
  refine meets_lock h fun s₁ hq₁ hinv₁ hcap₁ => ?_
  refine meets_select hinv₁ fun s₂ hq₂ hinv₂ => ?_
  split
  · exact meets_rollback hinv₂ _
  rename_i hroom
  rw [Bool.not_eq_false] at hroom
  split
  · exact meets_rollback hinv₂ _
  have hq := hq₁.trans hq₂
  have hcap₂ := hq₂.advisory _ hcap₁
  obtain ⟨hassets, -, hret⟩ := hq.identity a hadmitted.own
  refine meets_issueAgentToken hinv₂ { hadmitted.quiet hq with
    present := .inl rfl, tombstone := by rw [hret]; exact htombstone, lawful := fun _ => ?_
    room := fun hP => .inr ⟨hcap₂, (Quiet.refl s₂).room hcap₂ hroom hP a⟩ } req
  refine ⟨fun hlive => ?_, fun r hr => ?_⟩
  · rw [← hinv₂.identities.live, hassets, habsent] at hlive
    cases hlive
  · exact hreturn r (hq.event hadmitted.own hr rfl)

theorem meets_commitAgentEnrollment (h : Inv P limit s) (req : CommitRequest) :
    Meets P limit t (commitAgentEnrollment parses limit t req) s := by
  unfold commitAgentEnrollment
  generalize trimSpace req.assetID = a
  dsimp only
  split
  · exact meets_pure _
  split
  · exact meets_pure _
  refine meets_lock h fun s₁ _ hinv₁ hown₁ => ?_
  refine meets_lock hinv₁ fun s₂ hq₂ hinv₂ _ => ?_
  refine meets_select hinv₂ fun s₃ hq₃ hinv₃ => ?_
  refine meets_selectForUpdate hinv₃ (fun s₄ r hinv₄ hr => ?_) (fun s₄ _ hinv₄ _ => ?_)
    fun s₄ etok hq₄ hinv₄ hetok => ?_
  · have hrow := (filter_eq_some_iff.1 hr).1
    simp [Store.has, (hinv₄.enrollments.counted _ _ hrow).1, hrow]
  · exact meets_select hinv₄ fun s₅ _ hinv₅ => meets_rollback hinv₅ _
  obtain ⟨hrow, hvalid⟩ := filter_eq_some_iff.1 hetok
  have hid : etok.id = req.enrollmentToken := (hinv₄.enrollments.counted _ _ hrow).1
  have hadmitted : Admitted t a etok (s₄.take t [.enrollment etok.id]) := by
    refine ⟨((hq₂.trans hq₃).trans hq₄).advisory _ hown₁, take_owned (.head _), hid ▸ hrow, ?_⟩
    simp only [EnrollmentToken.valid, Bool.and_eq_true, decide_eq_true_eq] at hvalid
    exact hvalid.2
  refine meets_select hinv₄ fun s₅ hq₅ hinv₅ => ?_
  have hadmitted₅ := hadmitted.quiet hq₅
  -- the asset row was read before the token, under the identity lock
  have hexisting : s₅.db.assets.get a = s₃.db.assets.get a :=
    ((hq₄.trans hq₅).identity a ((hq₂.trans hq₃).advisory _ hown₁)).1
  cases hret : s₅.db.retired.get a with
  | some r =>
    rcases hasset : s₃.db.assets.get a with _ | asset
    case some => exact meets_rollback hinv₅ _
    dsimp only
    split
    · exact meets_rollback hinv₅ _
    rename_i hreturn
    simp only [readmitsRetiredIdentity, decide_eq_false_iff_not, not_not] at hreturn
    refine meets_enrollAgent hinv₅ hadmitted₅ (hexisting.trans hasset) (.inl rfl) (fun r' hr' => ⟨hreturn.1, ?_⟩) req
    have hle : r' ≤ r := hinv₅.identities.tombstone a r hret _ hr' rfl
    omega
  | none =>
    rcases hasset : s₃.db.assets.get a with _ | asset
    case some => exact meets_recoverAgent hinv₅ hadmitted₅ (hexisting.trans hasset) hret req
    refine meets_enrollAgent hinv₅ hadmitted₅ (hexisting.trans hasset) (.inr hret) (fun r' hr' => ?_) req
    -- an asset that was removed is there again or has a tombstone
    have hgone := hinv₅.identities.gone a r' hr'
    simp [hexisting, hasset, hret] at hgone

end

variable {r : AgentToken}

theorem prepared_row {id : ℕ} {a : String} (h : s.prepared id a = some r) :
    s.db.tokens.get id = some r ∧ r.assetID = a ∧ r.status = .pending ∧ r.revokedAt = none := by
  obtain ⟨hrow, hres⟩ := filter_eq_some_iff.1 h
  simp only [AgentToken.reserves, Bool.and_eq_true, beq_iff_eq, isNone_iff_eq_none] at hres
  exact ⟨hrow, hres.1, hres.2.1.1, hres.2.1.2⟩

/-- As long as it has not expired, a prepared approval counts for its asset. -/
theorem Timely.counts {p : ℕ} (h : Timely P (.commitApproval p) s) (hP : P)
    (hrow : s.db.tokens.get p = some r) (hpending : r.status = .pending)
    (hrev : r.revokedAt = none) :
    r.assetID ∈ s.db.enrolledOrReserved s.clock := by
  refine mem_enrolledOrReserved.2 (.inr ⟨p, r, hrow, ?_, rfl⟩)
  simp [AgentToken.reserves, hpending, hrev, h hP p rfl r hrow]

theorem meets_finalizeAgentApproval (h : Inv P limit s) (req : FinalizeRequest) :
    Meets P limit t (finalizeAgentApproval t req) s := by
  unfold finalizeAgentApproval
  generalize trimSpace req.assetID = a
  dsimp only
  split
  · exact meets_pure _
  split
  · exact meets_pure _
  refine meets_lock h fun s₁ _ hinv₁ hown₁ => ?_
  refine meets_lock hinv₁ fun s₂ hq₂ hinv₂ _ => ?_
  refine meets_selectForUpdate hinv₂ (fun s₃ r _ hr => ?_)
    (fun s₃ _ hinv₃ _ => meets_rollback hinv₃ _) fun s₃ found hq₃ hinv₃ hfound => ?_
  · obtain ⟨r, hr', rfl⟩ := map_eq_some_iff.1 hr
    simp [Store.has, (prepared_row hr').1]
  obtain ⟨r, hr, rfl⟩ := map_eq_some_iff.1 hfound
  generalize req.preparedTokenID = p at *
  obtain ⟨hrow, rfl, hpending, hrev⟩ := prepared_row hr
  have hown₃ := (hq₂.trans hq₃).advisory _ hown₁
  have hrows₃ := take_owned (s := s₃) (t := t) (mem_singleton_self (RowKey.token p))
  refine meets_select hinv₃ fun s₄ hq₄ hinv₄ => ?_
  have hown₄ := hq₄.advisory _ hown₃
  split
  · exact meets_rollback hinv₄ _
  rename_i htombstone
  rw [not_isSome_iff_eq_none] at htombstone
  refine meets_select hinv₄ fun s₅ hq₅ hinv₅ => ?_
  split
  · exact meets_rollback hinv₅ _
  rename_i habsent
  rw [not_isSome_iff_eq_none] at habsent
  refine meets_revokeTokens hinv₅ fun s₆ images hq₆ hinv₆ hrev₆ => ?_
  refine meets_select hinv₆ fun s₇ hq₇ hinv₇ => ?_
  cases hactivated : (s₇.prepared p r.assetID).map fun r =>
      { r with status := .active, expiresAt := s₇.clock + req.agentTokenTTL } with
  | none => exact meets_rollback hinv₇ _
  | some token =>
    refine meets_select hinv₇ fun s₈ hq₈ hinv₈ => ?_
    refine meets_commit hinv₈ fun s₉ hq₉ hinv₉ htimely => ?_
    have hq₅₉ := ((hq₆.trans hq₇).trans hq₈).trans hq₉
    have hq₄₉ := hq₅.trans hq₅₉
    have hq₃₉ := hq₄.trans hq₄₉
    have hrow₉ : s₉.db.tokens.get p = some r := (hq₃₉.token p hrows₃).trans hrow
    have hret₉ : s₉.db.retired.get r.assetID = none := (hq₄₉.identity _ hown₄).2.2.trans htombstone
    have habsent₉ : s₉.db.assets.get r.assetID = none :=
      (hq₅₉.identity _ (hq₅.advisory _ hown₄)).1.trans habsent
    obtain ⟨r', hr', rfl⟩ := map_eq_some_iff.1 hactivated
    have hgrant : Grant t r.assetID p
        { r' with status := .active, expiresAt := s₇.clock + req.agentTokenTTL } images s₉ := by
      refine ⟨hq₃₉.advisory _ hown₃, hrev₆.quiet ((hq₇.trans hq₈).trans hq₉)
        ((hq₅.trans hq₆).advisory _ hown₄) (by simp), hq₃₉.rows _ hrows₃,
        hinv₉.tokens.ids p (by simp [hrow₉]), fun x hx => ?_, (prepared_row hr').2.1, rfl⟩
      rw [hrow₉] at hx
      cases hx
      simp [hpending]
    refine hgrant.commits hinv₉ rfl
      ⟨fun a' hne => get_write_of_ne _ _ hne, by simp [approvalWrites], rfl,
        fun _ _ => rfl, hret₉⟩ (fun _ _ => rfl)
      (hinv₉.enrollments.append (fun _ => rfl) (by simp)) rfl (by simp) rfl hq₉.clock
      (hq₉.bounds hinv₈ (((hq₅.trans hq₆).trans hq₇).trans hq₈ |>.advisory _ hown₄))
      (fun x hx => ?_) (fun e he => by cases he)
      fun hP => .inl (htimely.counts hP hrow₉ hpending hrev)
    -- an asset that was removed is there again or has a tombstone
    have hgone := hinv₉.identities.gone _ x hx
    simp [habsent₉, hret₉] at hgone

theorem tick_inv {s s' : Store} (h : Inv P limit s) (ht : Tick s s') : Inv P limit s' := by
  obtain ⟨d, rfl⟩ := ht
  refine { h with stamps := fun ev hev => ?_, capacity := fun hP => ?_ }
  · exact (h.stamps ev hev).trans (Nat.le_add_right _ _)
  · exact (Finset.card_le_card (enrolledOrReserved_mono (Nat.le_add_right _ _))).trans
      (h.capacity hP)

theorem meets_program (c : Setting) (h : Inv P c.limit s) (call : Call) :
    Meets P c.limit t (program c t call) s := by
  cases call <;> unfold program <;> dsimp only
  case createEnrollmentToken params => exact meets_createEnrollmentToken h params
  case revokeEnrollmentToken id => exact meets_revokeEnrollmentToken h id
  case commitAgentEnrollment req => exact meets_commitAgentEnrollment h req
  case prepareAgentApproval assetID ttl => exact meets_prepareAgentApproval h assetID ttl
  case finalizeAgentApproval req => exact meets_finalizeAgentApproval h req
  case cancelAgentApproval id => exact meets_cancelAgentApproval h id
  case revokeAgentToken id => exact meets_revokeAgentToken h id
  case decommissionAgentAsset assetID => exact meets_decommissionAgentAsset h assetID
  case deleteDeadTokens => exact meets_deleteDeadTokens h
  case commitAuthenticatedAgentHeartbeat id ttl assetID body =>
    exact meets_commitAuthenticatedAgentHeartbeat h id ttl assetID body

/-- Any operations together keep the invariant, at any interleaving of their statements. -/
theorem system_sound (P : Prop) (c : Setting) :
    Sound (system c) (Timely P) (Inv P c.limit) Tick (Guar P c.limit) where
  kept := fun _ _ _ _ hG => hG.inv
  moved := fun _ _ h ht => tick_inv h ht
  program := fun _ call _ h => meets_program c h call
  release := fun _ _ h => .finish h
  move := fun d _ _ => ⟨d, rfl⟩

theorem inv_empty : Inv P limit Store.empty := by
  refine ⟨⟨?_, ?_⟩, ⟨?_, ?_, ?_, ?_, ?_, ?_⟩, ⟨?_, ?_, ?_⟩, ?_, ?_, ?_, ?_⟩
  all_goals simp [Store.empty, Db.empty, LawfulLog, live, commitsOf,
    Db.enrolledOrReserved, Rows.select, Rows.empty]

end LabTether.AgentEnrollment
