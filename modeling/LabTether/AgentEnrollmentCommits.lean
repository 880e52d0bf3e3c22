import LabTether.AgentEnrollmentMoves

/-!
The invariant under the row images of each kind of commit: tokens that only lose rights,
enrollment tokens that keep their uses, new tokens and approvals, a granted credential, a
removal.
-/
namespace LabTether.AgentEnrollment

open List Rows Event Option

variable {P : Prop} {limit t : ℕ} {s : Store} {db : Db}

/-- A row that keeps its asset and does not gain rights. -/
def TokenStep (r r' : AgentToken) : Prop :=
  r'.assetID = r.assetID ∧
    (r' = r ∨ r'.status = .revoked ∨ (r.status = .active ∧ r'.status = .active))

def Tame (T T' : Rows ℕ AgentToken) : Prop :=
  ∀ i r', T'.get i = some r' → ∃ r, T.get i = some r ∧ TokenStep r r'

variable {T T' : Rows ℕ AgentToken}

theorem Tame.dead (h : Tame T T') (i : ℕ) (r r' : AgentToken)
    (hr : T.get i = some r) (hrev : r.status = .revoked) (hr' : T'.get i = some r') :
    r'.status = .revoked := by
  obtain ⟨x, hx, -, hstep⟩ := h i r' hr'
  obtain rfl := some.inj (hr.symm.trans hx)
  rcases hstep with rfl | hgone | ⟨hact, -⟩
  · exact hrev
  · exact hgone
  · cases hrev.symm.trans hact

variable {r r' : AgentToken}

theorem TokenStep.active (h : TokenStep r r') (hr : r'.status = .active) : r.status = .active := by
  rcases h.2 with rfl | hrev | ⟨hact, -⟩
  · exact hr
  · rw [hr] at hrev
    cases hrev
  · exact hact

variable {now : ℕ}

theorem TokenStep.reserves (h : TokenStep r r') (hr : r'.reserves now) : r.reserves now := by
  rcases h.2 with rfl | hrev | ⟨-, hact⟩
  · exact hr
  · simp [AgentToken.reserves, hrev] at hr
  · simp [AgentToken.reserves, hact] at hr

theorem tokenStep_refl (r : AgentToken) : TokenStep r r := ⟨rfl, .inl rfl⟩

theorem tokenStep_revoke (now : ℕ) (r : AgentToken) : TokenStep r (r.revoke now) :=
  ⟨rfl, .inr (.inl rfl)⟩

theorem tame_write {i : ℕ} {r r' : AgentToken} (hr : T.get i = some r) (hstep : TokenStep r r') :
    Tame T (T.write i (some r')) := by
  intro j x hx
  rcases write_cases hx with hsame | ⟨rfl, rfl⟩
  · exact ⟨x, hsame, tokenStep_refl x⟩
  · exact ⟨r, hr, hstep⟩

theorem fleet_subset {F : Finset String} (hid : ∀ a, (db.identities.get a).isSome → a ∈ F)
    (htok : ∀ i r, db.tokens.get i = some r → r.reserves now → r.assetID ∈ F) :
    db.enrolledOrReserved now ⊆ F := by
  intro a ha
  rcases mem_enrolledOrReserved.1 ha with ha | ⟨i, r, hr, hres, rfl⟩
  · exact hid a ha
  · exact htok i r hr hres

theorem Tame.mem_fleet (h : Tame T T') (hT : T = db.tokens) {i : ℕ} (hr' : T'.get i = some r')
    (hres : r'.reserves now) : r'.assetID ∈ db.enrolledOrReserved now := by
  subst hT
  obtain ⟨r, hr, hstep⟩ := h i r' hr'
  rw [hstep.1]
  exact mem_enrolledOrReserved.2 (.inr ⟨i, r, hr, hstep.reserves hres, rfl⟩)

theorem TokensInv.tame {n : ℕ} (h : TokensInv T n) (hT : Tame T T') : TokensInv T' n where
  unique := by
    intro i j r r' hr hr' hact hact' hasset
    obtain ⟨x, hx, hstep⟩ := hT i r hr
    obtain ⟨x', hx', hstep'⟩ := hT j r' hr'
    exact h.unique i j x x' hx hx' (hstep.active hact) (hstep'.active hact')
      (hstep.1.symm.trans (hasset.trans hstep'.1))
  ids := by
    intro i hi
    obtain ⟨r', hr'⟩ := isSome_iff_exists.1 hi
    obtain ⟨r, hr, -⟩ := hT i r' hr'
    exact h.ids i (by simp [hr])

theorem tame_fleet (hT : Tame db.tokens T) (now : ℕ) :
    ({ db with tokens := T } : Db).enrolledOrReserved now ⊆ db.enrolledOrReserved now :=
  fleet_subset (fun _ ha => mem_enrolledOrReserved.2 (.inl ha))
    fun _ _ hr hres => hT.mem_fleet rfl hr hres

theorem Inv.tame (h : Inv P limit s) (hT : Tame s.db.tokens T) :
    Inv P limit { s with db := { s.db with tokens := T } } :=
  { h with
    tokens := h.tokens.tame hT
    capacity := fun hP => (Finset.card_le_card (tame_fleet hT s.clock)).trans (h.capacity hP) }

theorem Inv.reserve (h : Inv P limit s) {k : ℕ} (hk : k < s.nextID) (hr : r.status = .pending)
    (hroom : P → (insert r.assetID (s.db.enrolledOrReserved s.clock)).card ≤ limit) :
    Inv P limit { s with db := { s.db with tokens := s.db.tokens.write k (some r) } } := by
  have hold : ∀ {i x}, (s.db.tokens.write k (some r)).get i = some x → x.status = .active →
      s.db.tokens.get i = some x := by
    intro i x hx hact
    rw [get_write] at hx
    split_ifs at hx
    · cases hx
      rw [hr] at hact
      cases hact
    · exact hx
  have htokens : TokensInv (s.db.tokens.write k (some r)) s.nextID := by
    constructor
    · intro i j x x' hx hx' hact hact' hasset
      exact h.tokens.unique i j x x' (hold hx hact) (hold hx' hact') hact hact' hasset
    intro i hi
    rw [get_write] at hi
    split_ifs at hi with hik
    · exact hik ▸ hk
    · exact h.tokens.ids i hi
  refine { h with tokens := htokens, capacity := fun hP => ?_ }
  refine (Finset.card_le_card (fleet_subset (fun a ha => ?_) fun i x hx hres => ?_)).trans
    (hroom hP)
  · exact Finset.mem_insert_of_mem (mem_enrolledOrReserved.2 (.inl ha))
  rw [get_write] at hx
  split_ifs at hx
  · cases hx
    exact Finset.mem_insert_self _ _
  · exact Finset.mem_insert_of_mem (mem_enrolledOrReserved.2 (.inr ⟨i, x, hx, hres, rfl⟩))

/-- The rows after a grant: the new credential, and rows that are not active ones of its
asset. -/
def Granted (a : String) (k : ℕ) (token : AgentToken) (T T' : Rows ℕ AgentToken) : Prop :=
  ∀ i r', T'.get i = some r' → (i = k ∧ r' = token) ∨
    ∃ r, T.get i = some r ∧ TokenStep r r' ∧ ¬ (r'.status = .active ∧ r'.assetID = a)

variable {a : String} {token : AgentToken}

theorem TokensInv.grant {k n : ℕ} (h : TokensInv T n) (hT : Granted a k token T T') (hk : k < n)
    (htoken : token.assetID = a) :
    TokensInv T' n where
  unique := by
    intro i j r r' hr hr' hact hact' hasset
    rcases hT i r hr with ⟨rfl, rfl⟩ | ⟨x, hx, hstep, hnot⟩
    · rcases hT j r' hr' with ⟨rfl, -⟩ | ⟨x', -, -, hnot'⟩
      · rfl
      · exact absurd ⟨hact', hasset.symm.trans htoken⟩ hnot'
    rcases hT j r' hr' with ⟨rfl, rfl⟩ | ⟨x', hx', hstep', -⟩
    · exact absurd ⟨hact, hasset.trans htoken⟩ hnot
    · exact h.unique i j x x' hx hx' (hstep.active hact) (hstep'.active hact')
        (hstep.1.symm.trans (hasset.trans hstep'.1))
  ids := by
    intro i hi
    obtain ⟨r', hr'⟩ := isSome_iff_exists.1 hi
    rcases hT i r' hr' with ⟨rfl, -⟩ | ⟨r, hr, -⟩
    · exact hk
    · exact h.ids i (by simp [hr])

theorem granted_fleet {k : ℕ} {db db' : Db} (hT : Granted a k token db.tokens db'.tokens)
    (hact : token.status = .active)
    (hids : ∀ a', a' ≠ a → db'.identities.get a' = db.identities.get a') :
    db'.enrolledOrReserved now ⊆ insert a (db.enrolledOrReserved now) := by
  refine fleet_subset (fun a' ha' => ?_) fun i r' hr' hres => ?_
  · by_cases hne : a' = a
    · exact hne ▸ Finset.mem_insert_self _ _
    · rw [hids a' hne] at ha'
      exact Finset.mem_insert_of_mem (mem_enrolledOrReserved.2 (.inl ha'))
  · rcases hT i r' hr' with ⟨-, rfl⟩ | ⟨r, hr, hstep, -⟩
    · simp [AgentToken.reserves, hact] at hres
    · rw [hstep.1]
      exact Finset.mem_insert_of_mem
        (mem_enrolledOrReserved.2 (.inr ⟨i, r, hr, hstep.reserves hres, rfl⟩))

section

theorem Inv.enrollmentsKept (h : Inv P limit s) {E : Rows ℕ EnrollmentToken}
    (hE : ∀ e r', E.get e = some r' → ∃ r, s.db.enrollments.get e = some r ∧ r'.id = r.id ∧
      r'.useCount = r.useCount ∧ r'.maxUses = r.maxUses) :
    Inv P limit { s with db := { s.db with enrollments := E } } := by
  have henrollments : EnrollmentsInv E s.log s.nextID := by
    constructor
    · intro e he
      obtain ⟨r', hr'⟩ := isSome_iff_exists.1 he
      obtain ⟨r, hr, -⟩ := hE e r' hr'
      exact h.enrollments.ids e (by simp [hr])
    · intro e r' hr'
      obtain ⟨r, hr, hid, huse, hmax⟩ := hE e r' hr'
      rw [hid, huse, hmax]
      exact h.enrollments.counted e r hr
    · intro a token rotatedAt hmem
      obtain ⟨hid, hcount, hmax⟩ := h.enrollments.used a token rotatedAt hmem
      refine ⟨hid, hcount, fun r' hr' => ?_⟩
      obtain ⟨r, hr, -, -, hmax'⟩ := hE _ r' hr'
      exact hmax'.trans (hmax r hr)
  exact { h with enrollments := henrollments }

theorem Inv.issue (h : Inv P limit s) {token : EnrollmentToken} (hid : token.id < s.nextID)
    (huse : token.useCount = 0) (hunused : s.log.countP (uses token.id) = 0) :
    Inv P limit { s with db := { s.db with
      enrollments := s.db.enrollments.write token.id (some token) } } := by
  have henrollments : EnrollmentsInv (s.db.enrollments.write token.id (some token)) s.log
      s.nextID := by
    constructor
    · intro e he
      rw [get_write] at he
      split_ifs at he with heq
      · exact heq ▸ hid
      · exact h.enrollments.ids e he
    · intro e r hr
      rw [get_write] at hr
      split_ifs at hr with heq
      · cases hr
        subst heq
        exact ⟨rfl, huse.trans hunused.symm, by omega⟩
      · exact h.enrollments.counted e r hr
    intro a used rotatedAt hmem
    obtain ⟨hlt, hcount, hmax⟩ := h.enrollments.used a used rotatedAt hmem
    have hne : used.id ≠ token.id := by
      intro heq
      have hpos : 0 < s.log.countP (uses token.id) :=
        countP_pos_iff.2 ⟨_, hmem, by simp [uses, heq]⟩
      omega
    refine ⟨hlt, hcount, fun r hr => ?_⟩
    rw [get_write_of_ne _ _ hne] at hr
    exact hmax r hr
  exact { h with enrollments := henrollments }

variable {E : Rows ℕ EnrollmentToken} {log : List Event} {n : ℕ}

theorem countP_append_uses (log : List Event) (ev : Event) (e : ℕ) :
    (log ++ [ev]).countP (uses e) =
      log.countP (uses e) + if ev.uses e then 1 else 0 := by
  simp [countP_append, countP_singleton]

theorem EnrollmentsInv.append (h : EnrollmentsInv E log n) {ev : Event}
    (hev : ∀ e, ev.uses e = false) (hnot : ∀ a token m, ev ≠ .enrolled a token m) :
    EnrollmentsInv E (log ++ [ev]) n := by
  have hcount : ∀ e, (log ++ [ev]).countP (uses e) = log.countP (uses e) := by
    intro e
    rw [countP_append_uses, hev e]
    rfl
  refine ⟨h.ids, fun e r hr => ?_, fun a token m hmem => ?_⟩
  · rw [hcount]
    exact h.counted e r hr
  rw [hcount]
  rcases mem_append.1 hmem with hmem | hmem
  · exact h.used a token m hmem
  · exact absurd (mem_singleton.1 hmem).symm (hnot a token m)

theorem EnrollmentsInv.use (h : EnrollmentsInv E log n) {etok : EnrollmentToken}
    (hE : E.get etok.id = some etok) (huse : etok.useCount < etok.maxUses) (a : String)
    (rotatedAt : ℕ) :
    EnrollmentsInv (E.write etok.id (some { etok with useCount := etok.useCount + 1 }))
      (log ++ [.enrolled a etok rotatedAt]) n := by
  obtain ⟨-, hcount, -⟩ := h.counted _ _ hE
  have hself : uses etok.id (.enrolled a etok rotatedAt) = true := by simp [uses]
  have hother : ∀ {e}, e ≠ etok.id → uses e (.enrolled a etok rotatedAt) = false := by
    intro e hne
    simpa [uses] using Ne.symm hne
  refine ⟨fun e he => ?_, fun e r hr => ?_, fun a' token m hmem => ?_⟩
  · by_cases hne : e = etok.id
    · exact hne ▸ h.ids _ (by simp [hE])
    · rw [get_write_of_ne _ _ hne] at he
      exact h.ids e he
  · rw [countP_append_uses]
    by_cases hne : e = etok.id
    · subst hne
      rw [get_write_self] at hr
      cases hr
      rw [hself]
      exact ⟨rfl, by simp [hcount], huse⟩
    · rw [get_write_of_ne _ _ hne] at hr
      rw [hother hne]
      exact h.counted e r hr
  · rw [countP_append_uses]
    by_cases hne : token.id = etok.id
    · have hmax : token.id < n ∧ etok.maxUses = token.maxUses := by
        rcases mem_append.1 hmem with hmem | hmem
        · obtain ⟨hlt, -, hmax⟩ := h.used a' token m hmem
          exact ⟨hlt, hmax etok (hne ▸ hE)⟩
        · cases mem_singleton.1 hmem
          exact ⟨h.ids _ (by simp [hE]), rfl⟩
      refine ⟨hmax.1, ?_, fun r hr => ?_⟩
      · rw [hne, hself, if_pos rfl]
        omega
      · rw [hne, get_write_self] at hr
        cases hr
        exact hmax.2
    · rw [hother hne, get_write_of_ne _ _ hne]
      rcases mem_append.1 hmem with hmem | hmem
      · exact h.used a' token m hmem
      · cases mem_singleton.1 hmem
        exact absurd rfl hne

variable {a : String} {m r : ℕ} {ev : Event}

theorem bounds_append {a' : String} (h : Bounds log a' m)
    (hev : ev.asset = some a' → ev.stamp ≤ m) : Bounds (log ++ [ev]) a' m :=
  forall_mem_append.2 ⟨h, forall_mem_singleton.2 hev⟩

variable {assets : Rows String Asset} {identities retired : Rows String ℕ}

/-- The invariant of one asset, by whether it is there. -/
structure IdentityInv (log : List Event) (a : String) (present : Bool) (id retired : Option ℕ) :
    Prop where
  enrolled : id.isSome = present
  live : present = live a log
  absent : retired.isSome → present = false
  marker : ∀ m, id = some m → Bounds log a m
  tombstone : ∀ r, retired = some r → Bounds log a r
  gone : ∀ r, .decommissioned a r ∈ log → present = true ∨ retired.isSome

theorem identitiesInv_iff : IdentitiesInv assets identities retired log ↔
    ∀ a, IdentityInv log a (assets.get a).isSome (identities.get a) (retired.get a) := by
  refine ⟨fun h a => ⟨Bool.eq_iff_iff.2 (h.enrolled a), h.live a, fun hr => ?_, h.marker a,
    h.tombstone a, h.gone a⟩, fun h => ⟨fun a => Bool.eq_iff_iff.1 (h a).enrolled,
    fun a => (h a).live, fun a hr => ?_, fun a => (h a).marker, fun a => (h a).tombstone,
    fun a => (h a).gone⟩⟩
  · rw [h.absent a hr]
    rfl
  · simpa using (h a).absent hr

theorem IdentityInv.append {present : Bool} {id retired : Option ℕ}
    (h : IdentityInv log a present id retired) (hev : ev.asset ≠ some a) :
    IdentityInv (log ++ [ev]) a present id retired where
  enrolled := h.enrolled
  live := h.live.trans (live_append_other log hev).symm
  absent := h.absent
  marker m hm := bounds_append (h.marker m hm) fun hh => absurd hh hev
  tombstone r hr := bounds_append (h.tombstone r hr) fun hh => absurd hh hev
  gone r hmem := by
    rcases mem_append.1 hmem with hmem | hmem
    · exact h.gone r hmem
    · exact absurd (mem_singleton.1 hmem ▸ rfl) hev

variable {assets' : Rows String Asset} (h : IdentitiesInv assets identities retired log)
include h

/-- A credential is granted to the asset: it is there, with a marker and no tombstone. -/
theorem IdentitiesInv.grant {identities' retired' : Rows String ℕ}
    (hassets : ∀ a', a' ≠ a → assets'.get a' = assets.get a') (hasset : (assets'.get a).isSome)
    (hids : ∀ a', a' ≠ a → identities'.get a' = identities.get a')
    (hid : identities'.get a = some m) (hret : ∀ a', a' ≠ a → retired'.get a' = retired.get a')
    (hnone : retired'.get a = none) (hev : ev.asset = some a)
    (hkind : ∀ r, ev ≠ .decommissioned a r) (hstamp : ev.stamp = m) (hbound : Bounds log a m) :
    IdentitiesInv assets' identities' retired' (log ++ [ev]) := by
  rw [identitiesInv_iff] at h ⊢
  intro a'
  by_cases hne : a' = a
  · subst hne
    rw [hasset, hid, hnone]
    refine ⟨rfl, ?_, nofun, fun x hx => ?_, nofun, fun _ _ => .inl rfl⟩
    · rw [live_append_self log hev]
      cases ev with
      | decommissioned a r =>
        cases hev
        exact absurd rfl (hkind r)
      | _ => rfl
    · cases hx
      exact bounds_append hbound fun _ => hstamp.le
  · rw [hassets a' hne, hids a' hne, hret a' hne]
    exact (h a').append (by simpa [hev] using Ne.symm hne)

theorem IdentitiesInv.remove (hbound : Bounds log a r) :
    IdentitiesInv (assets.write a none) (identities.write a none) (retired.write a (some r))
      (log ++ [.decommissioned a r]) := by
  rw [identitiesInv_iff] at h ⊢
  intro a'
  by_cases hne : a' = a
  · subst hne
    rw [get_write_self, get_write_self, get_write_self]
    refine ⟨rfl, ?_, fun _ => rfl, nofun, fun x hx => ?_, fun _ _ => .inr rfl⟩
    · rw [live_append_self log rfl]
      rfl
    · cases hx
      exact bounds_append hbound fun _ => le_rfl
  · rw [get_write_of_ne _ _ hne, get_write_of_ne _ _ hne, get_write_of_ne _ _ hne]
    exact (h a').append (by simpa [asset] using Ne.symm hne)

theorem IdentitiesInv.kept (hassets : ∀ a, (assets'.get a).isSome = (assets.get a).isSome)
    (hev : ev.asset = none) :
    IdentitiesInv assets' identities retired (log ++ [ev]) := by
  rw [identitiesInv_iff] at h ⊢
  intro a
  rw [hassets]
  exact (h a).append (by simp [hev])

omit h

theorem Inv.commit (h : Inv P limit s) (htokens : TokensInv db.tokens s.nextID)
    (hids : IdentitiesInv db.assets db.identities db.retired (s.log ++ [ev]))
    (henrollments : EnrollmentsInv db.enrollments (s.log ++ [ev]) s.nextID)
    (hstamp : ev.stamp ≤ s.clock) (hlawful : ev.Lawful s.log)
    (hcap : P → (db.enrolledOrReserved s.clock).card ≤ limit) :
    Inv P limit { s with db := db, log := s.log ++ [ev] } := by
  refine ⟨htokens, hids, henrollments, h.locked, ?_, ?_, hcap⟩
  · exact forall_mem_append.2 ⟨h.stamps, forall_mem_singleton.2 hstamp⟩
  · exact lawfulLog_append h.lawful le_rfl (forall_mem_singleton.2 hlawful)

end

end LabTether.AgentEnrollment
