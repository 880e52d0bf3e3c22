import LabTether.PushDigestFencing

/-!
Settling a claim of the push digest. From the moment a claim is returned until its holder
settles it, enqueues and claims of the same store go on, and both delete expired events.
The settlement compares its partition with the rows that are left, so it succeeds exactly
when none of these calls deleted an event of the claim or the device's state row.
-/
namespace LabTether.PushDigest

open Table Transition List StateRow Kept

section

variable (c : PushDigestClaim)

/-- The claim stays the current one: the call returns no claim of its device and does not
settle it. -/
def Current (s : Store) (call : Call) : Prop :=
  c.deviceID ∉ (returned s call).map PushDigestClaim.deviceID ∧ settled s c call = false
  deriving Decidable

/-- The batch of an enqueue call that passes the checks, and no event otherwise. -/
def acceptedBatch (now : ℤ) (raw : List PushDigestEnqueue) : List PushDigestEnqueue :=
  match prepareEnqueue now raw with
  | .ok batch => batch
  | .error _ => []

/-- The call deletes nothing that the claim holds: no event that it enqueues on the device
was created at or after the expiry of a claimed event, and its cleanup does not select the
device. -/
def Spares (s : Store) : Call → Prop
  | .enqueue now raw => ∀ x ∈ acceptedBatch now raw, x.deviceID = c.deviceID →
      ∀ ev ∈ c.events, x.createdAt < ev.expiresAt
  | .claim k => c.deviceID ∉ cleanupTargets s k.now k.lockedAtCleanup
  | .settle _ _ _ _ => True

instance (s : Store) : ∀ call, Decidable (Spares c s call)
  | .enqueue now raw => inferInstanceAs (Decidable (∀ x ∈ acceptedBatch now raw,
      x.deviceID = c.deviceID → ∀ ev ∈ c.events, x.createdAt < ev.expiresAt))
  | .claim k => inferInstanceAs (Decidable (c.deviceID ∉ cleanupTargets s k.now k.lockedAtCleanup))
  | .settle _ _ _ _ => .isTrue trivial

end

section

variable {c : PushDigestClaim} {s : Store} {call : Call}

/-- What stays true of a claim while it is the current one. -/
structure Holder (c : PushDigestClaim) (s : Store) : Prop where
  store : StoreInv s
  claimed : c.deliveryGeneration ≠ 0
  issued : ∀ id ∈ c.ids, id < s.nextID
  events : ∀ ev ∈ c.events, ∀ e ∈ s.events, e.id = ev.id →
    e.deviceID = c.deviceID ∧ e.expiresAt = ev.expiresAt
  held : ∀ r, rowOf deviceID c.deviceID s.states = some r →
    r.deliveryGeneration = c.deliveryGeneration →
    ∀ e ∈ s.events, e.deviceID = c.deviceID →
      (e.deliveryGeneration = c.deliveryGeneration ↔ e.id ∈ c.ids)

/-- The claim can be settled: its state row and all of its events are there. -/
def Whole (c : PushDigestClaim) (s : Store) : Prop :=
  (∃ r, rowOf deviceID c.deviceID s.states = some r ∧
    r.deliveryGeneration = c.deliveryGeneration) ∧
  ∀ ev ∈ c.events, ∃ e ∈ s.events, e.id = ev.id

theorem Holder.stored_of_step (hh : Holder c s) {ev : PushDigestEvent} (hev : ev ∈ c.events)
    {e' : EventRow} (he' : e' ∈ (step s call).events) (hid : e'.id = ev.id) :
    ∃ e ∈ s.events, e.id = ev.id ∧ e'.deviceID = c.deviceID ∧ e'.expiresAt = ev.expiresAt := by
  have hlt : e'.id < s.nextID := hid ▸ hh.issued ev.id (mem_map_of_mem hev)
  obtain ⟨e, he, hide, hd, hexp⟩ := step_event_origin hh.store he' hlt
  have heid : e.id = ev.id := hide.symm.trans hid
  obtain ⟨hdev, hexpires⟩ := hh.events ev hev e he heid
  exact ⟨e, he, heid, hd.trans hdev, hexp.trans hexpires⟩

variable {now : ℤ} {g : ℕ} {outcome : PushDigestSettlement}

theorem Current.generation_ne (hs : StoreInv s)
    (hcur : Current c s (.settle c.deviceID g outcome now))
    (h : Settles s c.deviceID g outcome now) :
    g ≠ c.deliveryGeneration := by
  rintro rfl
  rw [Current, settled_of_settles hs h] at hcur
  cases hcur.2

/-- A call under which the claim stays current keeps what the claim holds, or leaves no state
row at its generation. -/
theorem Current.kept_or (hs : StoreInv s) (hcur : Current c s call) :
    Kept s (step s call) c.deviceID ∨
      ∀ r', rowOf deviceID c.deviceID (step s call).states = some r' →
        r'.deliveryGeneration ≠ c.deliveryGeneration := by
  cases call with
  | enqueue now raw =>
    rcases step_enqueue s now raw with ⟨-, -, heq⟩ | ⟨batch, -, heff⟩
    · rw [heq]
      exact .inl (of_eq rfl rfl)
    · exact .inl (heff.kept _)
  | claim k =>
    have hfree : c.deviceID ∉ k.targets s := fun h =>
      hcur.1 ((mem_claimDuePushDigests_devices hs.keyed).2 h)
    by_cases hclean : c.deviceID ∈ cleanupTargets s k.now k.lockedAtCleanup
    · refine .inr fun r' hrow' => ?_
      rw [step, (claim_cleaned hs.keyed hs.keys hclean).1] at hrow'
      cases hrow'
    · obtain ⟨hrow, hevents⟩ := claim_untouched hs.keyed hs.keys hclean hfree
      exact .inl (of_eq hrow hevents)
  | settle d g outcome now =>
    by_cases h : Settles s d g outcome now
    · rw [step_settle_of_settles hs.keyed hs.keys h]
      have heff := settleHeld_effect hs.keyed hs.keys h
      by_cases hd : c.deviceID = d
      · subst hd
        have hg := hcur.generation_ne hs h
        refine .inr fun r' hrow' => ?_
        rcases heff.row with ⟨-, hnone⟩ | ⟨x, hx, hxg⟩
        · rw [hnone] at hrow'
          cases hrow'
        · rw [hx] at hrow'
          cases hrow'
          exact hxg ▸ hg
      · exact .inl (of_eq (heff.otherRow _ hd) (heff.otherEvents _ hd))
    · rw [step_settle_of_not hs.keyed hs.keys h]
      exact .inl (of_eq rfl rfl)

variable (hh : Holder c s)
include hh

theorem Holder.step (hcur : Current c s call) : Holder c (PushDigest.step s call) where
  store := hh.store.step call
  claimed := hh.claimed
  issued := fun id hid => (hh.issued id hid).trans_le (step_nextID hh.store call)
  events := fun ev hev e' he' hid => by
    obtain ⟨-, -, -, hd, hexp⟩ := hh.stored_of_step hev he' hid
    exact ⟨hd, hexp⟩
  held := fun r' hrow' hgen e' he' hd => by
    rcases hcur.kept_or hh.store with hkept | hother
    · rcases hrow : rowOf deviceID c.deviceID s.states with _ | r
      · exact absurd (hkept.newRow hrow r' hrow' ▸ hgen).symm hh.claimed
      obtain ⟨x, hx, hsame⟩ := hkept.row r hrow
      rw [hrow'] at hx
      cases hx
      have hrgen := hsame.2.1.symm.trans hgen
      rcases hkept.events e' he' hd with ⟨e, he, hde, hid, -, hegen⟩ | ⟨hnew, hzero⟩
      · rw [hid, hegen]
        exact hh.held r hrow hrgen e he hde
      · refine ⟨fun h => absurd (hzero ▸ h).symm hh.claimed, fun h => ?_⟩
        have := hh.issued _ h
        omega
    · exact absurd hgen (hother r' hrow')

theorem whole_step_of_eq (call : Call)
    (hrow : rowOf deviceID c.deviceID (step s call).states =
      rowOf deviceID c.deviceID s.states)
    (hevents : part EventRow.deviceID c.deviceID (step s call).events =
      part EventRow.deviceID c.deviceID s.events) : Whole c (step s call) ↔ Whole c s := by
  unfold Whole
  rw [hrow]
  refine and_congr_right fun _ => forall₂_congr fun ev hev => ?_
  constructor
  · rintro ⟨e', he', hid⟩
    obtain ⟨e, he, heid, -⟩ := hh.stored_of_step hev he' hid
    exact ⟨e, he, heid⟩
  rintro ⟨e, he, hid⟩
  have hmem := mem_part.2 ⟨he, (hh.events ev hev e he hid).1⟩
  rw [← hevents] at hmem
  exact ⟨e, (mem_part.1 hmem).1, hid⟩

theorem whole_enqueue_iff {raw : List PushDigestEnqueue} :
    Whole c (step s (.enqueue now raw)) ↔ Whole c s ∧ Spares c s (.enqueue now raw) := by
  rcases step_enqueue s now raw with ⟨e, hprep, heq⟩ | ⟨batch, hprep, heff⟩
  · have hspares : Spares c s (.enqueue now raw) := by simp [Spares, acceptedBatch, hprep]
    rw [heq]
    exact ⟨fun h => ⟨h, hspares⟩, And.left⟩
  obtain ⟨new, hnew, hrows⟩ := heff.events
  have hbatch : acceptedBatch now raw = batch := by simp [acceptedBatch, hprep]
  simp only [Spares, hbatch]
  constructor
  · rintro ⟨⟨r', hrow', hgen⟩, hall⟩
    refine ⟨⟨?_, fun ev hev => ?_⟩, fun x hx hd ev hev => ?_⟩
    · rcases hrow : rowOf deviceID c.deviceID s.states with _ | r
      · have hzero := (heff.kept _).newRow hrow r' hrow'
        exact absurd (hgen.symm.trans hzero) hh.claimed
      obtain ⟨y, hy, hsame⟩ := (heff.kept _).row r hrow
      rw [hrow'] at hy
      cases hy
      exact ⟨r, rfl, hsame.2.1.symm.trans hgen⟩
    · obtain ⟨e', he', hid⟩ := hall ev hev
      obtain ⟨e, he, heid, -⟩ := hh.stored_of_step hev he' hid
      exact ⟨e, he, heid⟩
    · obtain ⟨e', he', hid⟩ := hall ev hev
      have hlt := hh.issued ev.id (mem_map_of_mem hev)
      rw [hnew] at he'
      rcases mem_append.1 he' with hold | hadd
      · obtain ⟨he, hkept⟩ := mem_deleteWhere.1 hold
        obtain ⟨hdev, hexp⟩ := hh.events ev hev e' he hid
        by_contra hlate
        have hpruned : isPruned batch e' = true := by
          refine any_eq_true.2 ⟨x, hx, ?_⟩
          simp [hdev, hd, hexp, not_lt.1 hlate]
        rw [hpruned] at hkept
        cases hkept
      · have := (hrows e' hadd).1
        omega
  · rintro ⟨⟨⟨r, hrow, hgen⟩, hall⟩, hspares⟩
    obtain ⟨r', hrow', hsame⟩ := (heff.kept _).row r hrow
    refine ⟨⟨r', hrow', hsame.2.1.trans hgen⟩, fun ev hev => ?_⟩
    obtain ⟨e, he, hid⟩ := hall ev hev
    obtain ⟨hdev, hexp⟩ := hh.events ev hev e he hid
    refine ⟨e, hnew ▸ mem_append_left _ (mem_deleteWhere.2 ⟨he, ?_⟩), hid⟩
    refine any_eq_false.2 fun x hx hp => ?_
    simp only [Bool.and_eq_true, beq_iff_eq, decide_eq_true_eq] at hp
    have := hspares x hx (hp.1.symm.trans hdev) ev hev
    omega

theorem whole_claim_iff {k : ClaimCall} (hcur : Current c s (.claim k)) :
    Whole c (step s (.claim k)) ↔ Whole c s ∧ Spares c s (.claim k) := by
  have hfree : c.deviceID ∉ k.targets s := fun h =>
    hcur.1 ((mem_claimDuePushDigests_devices hh.store.keyed).2 h)
  by_cases hclean : c.deviceID ∈ cleanupTargets s k.now k.lockedAtCleanup
  · have hrow := (claim_cleaned hh.store.keyed hh.store.keys hclean).1
    refine ⟨fun h => ?_, fun h => absurd hclean h.2⟩
    obtain ⟨⟨r', hrow', -⟩, -⟩ := h
    rw [step, hrow] at hrow'
    cases hrow'
  · obtain ⟨hrow, hevents⟩ := claim_untouched hh.store.keyed hh.store.keys hclean hfree
    rw [whole_step_of_eq hh (.claim k) hrow hevents]
    exact ⟨fun h => ⟨h, hclean⟩, And.left⟩

theorem whole_settle_iff {d : String} (hcur : Current c s (.settle d g outcome now)) :
    Whole c (step s (.settle d g outcome now)) ↔ Whole c s := by
  by_cases h : Settles s d g outcome now
  · have heq := step_settle_of_settles hh.store.keyed hh.store.keys h
    have heff := settleHeld_effect hh.store.keyed hh.store.keys h
    by_cases hd : c.deviceID = d
    · subst hd
      -- the row is at another generation before and after
      have hg := hcur.generation_ne hh.store h
      constructor
      · rintro ⟨⟨r', hrow', hgen⟩, -⟩
        rw [heq] at hrow'
        rcases heff.row with ⟨-, hnone⟩ | ⟨x, hx, hxg⟩
        · rw [hnone] at hrow'
          cases hrow'
        · rw [hx] at hrow'
          cases hrow'
          exact absurd (hxg.symm.trans hgen) hg
      · rintro ⟨⟨r, hrow, hgen⟩, -⟩
        obtain ⟨x, hx, hxg⟩ := h.row
        rw [hrow] at hx
        cases hx
        exact absurd (hxg.symm.trans hgen) hg
    · exact whole_step_of_eq hh _ (heq ▸ heff.otherRow _ hd) (heq ▸ heff.otherEvents _ hd)
  · rw [step_settle_of_not hh.store.keyed hh.store.keys h]

theorem whole_step_iff (hcur : Current c s call) :
    Whole c (step s call) ↔ Whole c s ∧ Spares c s call := by
  cases call with
  | enqueue now raw => exact whole_enqueue_iff hh
  | claim k => exact whole_claim_iff hh hcur
  | settle d g outcome now =>
    rw [whole_settle_iff hh hcur]
    exact ⟨fun h => ⟨h, trivial⟩, And.left⟩

end

section

variable {c : PushDigestClaim} {s : Store} {k : ClaimCall} {outcome : PushDigestSettlement} {now : ℤ}

theorem settles_iff (hh : Holder c s) (hadm : Admissible c.ids) (hexact : outcome.ids.Perm c.ids) :
    Settles s c.deviceID c.deliveryGeneration outcome now ↔ outcome.FutureAt now ∧ Whole c s := by
  constructor
  · intro h
    refine ⟨h.future, h.row, fun ev hev => ?_⟩
    have hid : ev.id ∈ outcome.ids := hexact.mem_iff.2 (mem_map_of_mem hev)
    obtain ⟨e, he, heid, -⟩ := mem_heldIDs.1 (h.exact.mem_iff.2 hid)
    exact ⟨e, he, heid⟩
  rintro ⟨hfuture, ⟨r, hrow, hgen⟩, hall⟩
  have hheld : (heldIDs s c.deviceID c.deliveryGeneration).Perm c.ids := by
    refine (perm_ext_iff_of_nodup (heldIDs_nodup hh.store.keys) hadm.1).2 fun id => ?_
    rw [mem_heldIDs]
    constructor
    · rintro ⟨e, he, rfl, hd, hg⟩
      exact (hh.held r hrow hgen e he hd).1 hg
    intro hid
    obtain ⟨ev, hev, rfl⟩ := mem_map.1 hid
    obtain ⟨e, he, heid⟩ := hall ev hev
    have hd := (hh.events ev hev e he heid).1
    exact ⟨e, he, heid, hd, (hh.held r hrow hgen e he hd).2 (heid ▸ hid)⟩
  exact {
    named := hh.store.named _ r hrow
    claimed := hh.claimed
    admissible := ⟨hexact.nodup_iff.2 hadm.1, hexact.length_eq.trans_le hadm.2⟩
    future := hfuture
    row := ⟨r, hrow, hgen⟩
    exact := hheld.trans hexact.symm }

theorem claim_ids_perm (hs : StoreInv s) (hc : c ∈ (claimDuePushDigests s k).1) :
    c.ids.Perm (((part EventRow.deviceID c.deviceID (claimDuePushDigests s k).2.events).filter
      fun e => decide (e.id ∈ dueIDs s.events c.deviceID k.now)).map fun e => e.id) := by
  obtain ⟨-, -, r, -, -, hevents⟩ := claim_returned hs.keyed hs.keys hc
  have h := hevents.map fun e => e.id
  rw [map_map] at h
  exact h

theorem claim_admissible (hs : StoreInv s) (hc : c ∈ (claimDuePushDigests s k).1) :
    Admissible c.ids := by
  have hs' : StoreInv (step s (.claim k)) := hs.step _
  have hperm := claim_ids_perm hs hc
  refine ⟨hperm.nodup_iff.2 ?_, hperm.length_eq.trans_le ?_⟩
  · exact Keyed.filter (hs'.keys.ids.filter _) _
  · rw [length_map]
    exact (length_filter_le _ _).trans (hs'.bounded c.deviceID)

theorem claim_holder (hs : StoreInv s) (hc : c ∈ (claimDuePushDigests s k).1) :
    Holder c (step s (.claim k)) ∧ Whole c (step s (.claim k)) := by
  have hs' : StoreInv (step s (.claim k)) := hs.step _
  obtain ⟨htarget, -, r, hrow, hgen, hevents⟩ := claim_returned hs.keyed hs.keys hc
  obtain ⟨hrow', hpart⟩ := claim_leased hs.keyed hs.keys htarget hrow
  have hstored : ∀ ev ∈ c.events, ∃ e ∈ (step s (.claim k)).events,
      e.id = ev.id ∧ e.deviceID = c.deviceID ∧ e.expiresAt = ev.expiresAt := fun ev hev => by
    obtain ⟨e, he, rfl⟩ := mem_map.1 (hevents.mem_iff.1 hev)
    obtain ⟨hmem, hd⟩ := mem_part.1 (mem_filter.1 he).1
    exact ⟨e, hmem, rfl, hd, rfl⟩
  refine ⟨⟨hs', by omega, fun id hid => ?_, fun ev hev e he hid => ?_, ?_⟩, ⟨_, hrow', hgen.symm⟩,
    fun ev hev => ?_⟩
  · obtain ⟨ev, hev, rfl⟩ := mem_map.1 hid
    obtain ⟨e, he, heid, -⟩ := hstored ev hev
    exact heid ▸ hs'.keys.issued e he
  · obtain ⟨x, hx, hxid, hd, hexp⟩ := hstored ev hev
    obtain rfl : x = e := hs'.keys.ids.eq hx he (hxid.trans hid.symm)
    exact ⟨hd, hexp⟩
  · intro r' _ _ e he hd
    -- a row of the device is held by this claim iff the claim took it
    have hmem : e ∈ part EventRow.deviceID c.deviceID (claimDuePushDigests s k).2.events :=
      mem_part.2 ⟨he, hd⟩
    have hids : e.id ∈ c.ids ↔ e.id ∈ dueIDs s.events c.deviceID k.now := by
      rw [(claim_ids_perm hs hc).mem_iff, mem_map]
      constructor
      · rintro ⟨x, hx, hxid⟩
        exact hxid ▸ of_decide_eq_true (mem_filter.1 hx).2
      · exact fun h => ⟨e, mem_filter.2 ⟨hmem, decide_eq_true h⟩, rfl⟩
    rw [hpart] at hmem
    obtain ⟨e₀, he₀, heq⟩ := mem_holdEvents.1 hmem
    rw [hids]
    split at heq
    · rename_i hdue
      subst heq
      exact ⟨fun _ => hdue, fun _ => hgen.symm⟩
    rename_i hdue
    subst heq
    obtain ⟨hmem₀, hd₀⟩ := mem_part.1 he₀
    obtain ⟨x, hx, hle⟩ := hs.owned e hmem₀
    rw [hd₀, hrow] at hx
    cases hx
    exact ⟨fun h => by omega, fun h => absurd h hdue⟩
  · obtain ⟨e, he, heid, -⟩ := hstored ev hev
    exact ⟨e, he, heid⟩

structure Retired (id : ℕ) (s : Store) : Prop where
  store : StoreInv s
  issued : id < s.nextID
  gone : ∀ e ∈ s.events, e.id ≠ id

theorem Retired.step {id : ℕ} (h : Retired id s) (call : Call) :
    Retired id (PushDigest.step s call) where
  store := h.store.step call
  issued := h.issued.trans_le (step_nextID h.store call)
  gone := fun e' he' hid => by
    obtain ⟨e, he, hide, -⟩ := step_event_origin h.store he' (hid ▸ h.issued)
    exact h.gone e he (hide.symm.trans hid)

theorem Retired.not_returned {id : ℕ} (h : Retired id s) (calls : List Call) (k : ClaimCall)
    {c' : PushDigestClaim} (hc' : c' ∈ (claimDuePushDigests (run PushDigest.step s calls) k).1) :
    id ∉ c'.ids := by
  have hlast : Retired id (run PushDigest.step s calls) :=
    run_invariant_all PushDigest.step (Retired id) (fun _ call h => h.step call) h calls
  intro hid
  have hreturned : c' ∈ returned (run PushDigest.step s calls) (.claim k) := hc'
  obtain ⟨k', r, hissue⟩ := returned_issue hlast.store hreturned
  obtain ⟨e, he, heid, -⟩ := hissue.ids id hid
  exact (hlast.step (.claim k)).gone e he heid

end

def phoneAlert (key : Char) (createdAt : ℤ) : PushDigestEnqueue where
  deviceID := "phone"
  channelID := "apns"
  dedupeKey := String.ofList (List.replicate 64 key)
  ruleID := "rule"
  labels := some []
  severity := "info"
  nodeOffline := false
  serviceDown := false
  groupIDs := []
  maintenanceScopeComplete := true
  windowSeconds := 30
  createdAt := createdAt

def hours (n : ℤ) : ℤ := seconds (n * 3600)

def enqueueAlert (key : Char) (createdAt : ℤ) : Call :=
  .enqueue createdAt [phoneAlert key createdAt]

def olderAlert : PushDigestEnqueue := phoneAlert 'a' 0
def newerAlert : PushDigestEnqueue := phoneAlert 'b' (hours 48 - seconds 90)

/-- One alert is almost two days old, the other a minute. -/
def agedStore : Store where
  states := [refreshState newerAlert (newStateRow olderAlert)]
  events := [newEventRow 0 olderAlert, newEventRow 1 newerAlert]
  nextID := 2

theorem agedStore_reachable : Reachable agedStore :=
  ⟨[enqueueAlert 'a' 0, enqueueAlert 'b' (hours 48 - seconds 90)], by decide +kernel⟩

def claimAt (now : ℤ) : ClaimCall := ⟨now, seconds 60, 50, fun _ => false, fun _ => false⟩

def agedClaim : ClaimCall := claimAt (hours 48 - seconds 30)

def agedHeld : PushDigestClaim :=
  (claimDuePushDigests agedStore agedClaim).1.head (by decide +kernel)

def bothSent : PushDigestSettlement := ⟨[0, 1], [], [], [], 0⟩

end LabTether.PushDigest
