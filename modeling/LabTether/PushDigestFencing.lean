import LabTether.PushDigestInvariant

/-!
Claims along a run of the push digest. A tracked run notes every claim that was returned and
which of them no settlement has ended yet. While an event of a claim is stored, the
device's state row is at the claim's generation or past it, and its lease is the claim's own
or was found expired; so an earlier claim cannot settle what a later one holds.
-/
namespace LabTether.PushDigest

open Table Transition List StateRow Option

def PushDigestClaim.ids (c : PushDigestClaim) : List ℕ := c.events.map fun e => e.id

def returned (s : Store) : Call → List PushDigestClaim
  | .claim k => (claimDuePushDigests s k).1
  | _ => []

def settled (s : Store) (c : PushDigestClaim) : Call → Bool
  | .settle deviceID generation outcome now =>
    match settlePushDigestClaim s deviceID generation outcome now with
    | .ok (true, _) => c.deviceID == deviceID && c.deliveryGeneration == generation
    | _ => false
  | _ => false

/-- A store with the claims returned so far and those not settled yet, oldest first. -/
structure Tracked where
  store : Store
  (issued outstanding : List PushDigestClaim)

def Tracked.start : Tracked := ⟨Store.empty, [], []⟩

def trackedStep (h : Tracked) (call : Call) : Tracked where
  store := step h.store call
  issued := h.issued ++ returned h.store call
  outstanding := (h.outstanding.filter fun c => !settled h.store c call) ++ returned h.store call

def latestClaim (d : String) (issued : List PushDigestClaim) : Option PushDigestClaim :=
  (part PushDigestClaim.deviceID d issued).getLast?

variable {e' : EventRow} {r : StateRow}

section

variable {s : Store} {call : Call} {d : String} {c : PushDigestClaim}

theorem step_nextID (hs : StoreInv s) (call : Call) : s.nextID ≤ (step s call).nextID := by
  cases call with
  | enqueue now raw =>
    rcases step_enqueue s now raw with ⟨-, -, heq⟩ | ⟨batch, -, heff⟩
    · rw [heq]
    · exact heff.nextID
  | claim k => exact le_rfl
  | settle d g outcome now =>
    by_cases h : Settles s d g outcome now
    · rw [step_settle_of_settles hs.keyed hs.keys h]
      exact (settleHeld_effect hs.keyed hs.keys h).nextID.ge
    · rw [step_settle_of_not hs.keyed hs.keys h]

/-- Ids are issued once: an event with an id from before was stored before. -/
theorem step_event_origin (hs : StoreInv s) (he' : e' ∈ (step s call).events)
    (hid : e'.id < s.nextID) :
    ∃ e ∈ s.events, e'.id = e.id ∧ e'.deviceID = e.deviceID ∧ e'.expiresAt = e.expiresAt := by
  cases call with
  | enqueue now raw =>
    rcases step_enqueue s now raw with ⟨-, -, heq⟩ | ⟨batch, -, heff⟩
    · exact ⟨e', heq ▸ he', rfl, rfl, rfl⟩
    · rcases (heff.kept e'.deviceID).events e' he' rfl with ⟨e, he, hd, hid', hexp, -⟩ | ⟨hnew, -⟩
      · exact ⟨e, he, hid', hd.symm, hexp⟩
      · omega
  | claim k => exact claim_event_origin hs he'
  | settle d g outcome now =>
    by_cases h : Settles s d g outcome now
    · rw [step_settle_of_settles hs.keyed hs.keys h] at he'
      obtain ⟨e, he, hrel⟩ := (settleHeld_effect hs.keyed hs.keys h).origin e' he'
      exact ⟨e, he, hrel.id, hrel.deviceID, hrel.expiresAt⟩
    · rw [step_settle_of_not hs.keyed hs.keys h] at he'
      exact ⟨e', he', rfl, rfl, rfl⟩

inductive RowMove (s : Store) (call : Call) (d : String) (r : StateRow) : Prop
  | emptied (h : part EventRow.deviceID d (step s call).events = [])
  | kept (r' : StateRow) (row' : rowOf deviceID d (step s call).states = some r')
      (same : SameClaim r r')
  | released (outcome : PushDigestSettlement) (now : ℤ) (r' : StateRow)
      (hcall : call = .settle d r.deliveryGeneration outcome now)
      (settles : Settles s d r.deliveryGeneration outcome now)
      (row' : rowOf deviceID d (step s call).states = some r')
      (generation : r'.deliveryGeneration = r.deliveryGeneration)
  | leased (k : ClaimCall) (hcall : call = .claim k) (free : isClaimable k.now r = true)
      (row' : rowOf deviceID d (step s call).states = some (leaseState k.leaseExpiresAt r))

theorem step_row (hs : StoreInv s) (call : Call)
    (hrow : rowOf deviceID d s.states = some r) : RowMove s call d r := by
  cases call with
  | enqueue now raw =>
    rcases step_enqueue s now raw with ⟨-, -, heq⟩ | ⟨batch, -, heff⟩
    · have hrow' : rowOf deviceID d (step s (.enqueue now raw)).states = some r := by
        rw [heq]
        exact hrow
      exact .kept r hrow' ⟨rfl, rfl, rfl⟩
    · obtain ⟨r', hrow', hsame⟩ := (heff.kept d).row r hrow
      exact .kept r' hrow' hsame
  | claim k =>
    cases claim_view (k := k) hs.keyed hs.keys d with
    | cleaned x hx hstale hrow' hevents' => exact .emptied hevents'
    | leased x hx hfree hrow' hevents' =>
      obtain rfl : x = r := some.inj (hx.symm.trans hrow)
      exact .leased k rfl hfree hrow'
    | untouched hrow' hevents' => exact .kept r (hrow'.trans hrow) ⟨rfl, rfl, rfl⟩
  | settle d' g outcome now =>
    by_cases h : Settles s d' g outcome now
    · have heq := step_settle_of_settles hs.keyed hs.keys h
      have heff := settleHeld_effect hs.keyed hs.keys h
      by_cases hd : d = d'
      · subst hd
        obtain ⟨x, hx, hg⟩ := h.row
        obtain rfl : x = r := some.inj (hx.symm.trans hrow)
        subst hg
        rcases heff.row with ⟨hnil, -⟩ | ⟨r', hrow', hg'⟩
        · exact .emptied (heq ▸ hnil)
        · exact .released outcome now r' rfl h (heq ▸ hrow') hg'
      · exact .kept r (heq ▸ (heff.otherRow d hd).trans hrow) ⟨rfl, rfl, rfl⟩
    · rw [← step_settle_of_not hs.keyed hs.keys h] at hrow
      exact .kept r hrow ⟨rfl, rfl, rfl⟩

theorem settled_of_settles (hs : StoreInv s) {outcome : PushDigestSettlement} {now : ℤ}
    (h : Settles s c.deviceID c.deliveryGeneration outcome now) :
    settled s c (.settle c.deviceID c.deliveryGeneration outcome now) = true := by
  obtain ⟨s', heq⟩ := (settlePushDigestClaim_true_iff hs.keyed hs.keys).2 h
  simp [settled, heq]

/-- What a call says with a claim it returns. -/
structure Issue (s : Store) (call : Call) (c : PushDigestClaim) (k : ClaimCall) (r : StateRow) :
    Prop where
  call_eq : call = .claim k
  row : rowOf deviceID c.deviceID s.states = some r
  free : isClaimable k.now r = true
  lease : c.leaseExpiresAt = k.leaseExpiresAt
  generation : c.deliveryGeneration = r.deliveryGeneration + 1
  row' : rowOf deviceID c.deviceID (step s call).states =
    some (leaseState k.leaseExpiresAt r)
  ids : ∀ id ∈ c.ids, ∃ e' ∈ (step s call).events, e'.id = id ∧ e'.deviceID = c.deviceID

theorem returned_issue (hs : StoreInv s) (hc : c ∈ returned s call) :
    ∃ k r, Issue s call c k r := by
  cases call with
  | enqueue now raw | settle d g outcome now => cases hc
  | claim k =>
    obtain ⟨htarget, hlease, r, hrow, hgen, hevents⟩ := claim_returned hs.keyed hs.keys hc
    obtain ⟨-, x, hx, hfree⟩ := ClaimCall.row_of_target hs.keyed htarget
    obtain rfl : x = r := some.inj (hx.symm.trans hrow)
    refine ⟨k, x, rfl, hrow, hfree, hlease, hgen, (claim_leased hs.keyed hs.keys htarget hrow).1,
      fun id hid => ?_⟩
    obtain ⟨ev, hev, rfl⟩ := mem_map.1 hid
    obtain ⟨e', he', rfl⟩ := mem_map.1 (hevents.mem_iff.1 hev)
    obtain ⟨hmem, hd⟩ := mem_part.1 (mem_filter.1 he').1
    exact ⟨e', hmem, rfl, hd⟩

theorem returned_once (hs : StoreInv s) (call : Call) :
    Keyed PushDigestClaim.deviceID (returned s call) := by
  cases call with
  | enqueue now raw | settle d g outcome now => exact nodup_nil
  | claim k => exact claimDuePushDigests_once hs.keyed

theorem Issue.device {k : ClaimCall} (h : Issue s call c k r)
    (hs' : StoreInv (step s call)) (he' : e' ∈ (step s call).events)
    (hid : e'.id ∈ c.ids) : e'.deviceID = c.deviceID := by
  obtain ⟨x, hx, hxid, hd⟩ := h.ids _ hid
  rw [← hs'.keys.ids.eq hx he' hxid]
  exact hd

end

variable {c : PushDigestClaim}

section

variable {h : Tracked} {call : Call}

/-- Claims and the state rows: while an event of a claim is stored, the row is at the claim's
generation or past it, and at that generation no later claim was returned. -/
structure Traced (h : Tracked) : Prop where
  store : StoreInv h.store
  issued_lt : ∀ c ∈ h.issued, ∀ id ∈ c.ids, id < h.store.nextID
  row : ∀ c ∈ h.issued, ∀ e ∈ h.store.events, e.id ∈ c.ids → e.deviceID = c.deviceID ∧
    ∃ r, rowOf deviceID c.deviceID h.store.states = some r ∧
      c.deliveryGeneration ≤ r.deliveryGeneration ∧
      (c.deliveryGeneration = r.deliveryGeneration → latestClaim c.deviceID h.issued = some c)

theorem Traced.start : Traced Tracked.start where
  store := StoreInv.empty
  issued_lt := fun c hc => by cases hc
  row := fun c hc => by cases hc

theorem latestClaim_append {d : String} {issued new : List PushDigestClaim}
    (hnew : part PushDigestClaim.deviceID d new = []) :
    latestClaim d (issued ++ new) = latestClaim d issued := by
  unfold latestClaim
  rw [part_append, hnew, append_nil]

theorem Traced.row_of_issued (hh : Traced h) (hc : c ∈ h.issued)
    (he' : e' ∈ (step h.store call).events) (hid : e'.id ∈ c.ids) : e'.deviceID = c.deviceID ∧
    ∃ r', rowOf deviceID c.deviceID (step h.store call).states = some r' ∧
      c.deliveryGeneration ≤ r'.deliveryGeneration ∧ (c.deliveryGeneration = r'.deliveryGeneration →
        latestClaim c.deviceID (h.issued ++ returned h.store call) = some c) := by
  obtain ⟨e, he, hid', hd', -⟩ := step_event_origin hh.store he' (hh.issued_lt c hc _ hid)
  obtain ⟨hd, r, hrow, hle, hlatest⟩ := hh.row c hc e he (hid' ▸ hid)
  have hdev := hd'.trans hd
  refine ⟨hdev, ?_⟩
  -- a claim returned for the device would have moved its row to a later generation
  have hnone : ∀ r', rowOf deviceID c.deviceID (step h.store call).states = some r' →
      r'.deliveryGeneration = r.deliveryGeneration →
      part PushDigestClaim.deviceID c.deviceID (returned h.store call) = [] := by
    intro r' hrow' hgen
    refine part_eq_nil fun hmem => ?_
    obtain ⟨c', hc', hcd⟩ := mem_map.1 hmem
    obtain ⟨k, x, hissue⟩ := returned_issue hh.store hc'
    have hx := hissue.row
    have hx' := hissue.row'
    rw [hcd, hrow] at hx
    rw [hcd, hrow'] at hx'
    cases hx
    cases hx'
    simp only [leaseState] at hgen
    omega
  cases step_row hh.store call hrow with
  | emptied hnil =>
    have hmem := mem_part.2 ⟨he', hdev⟩
    rw [hnil] at hmem
    cases hmem
  | kept r' hrow' hsame =>
    refine ⟨r', hrow', hsame.2.1 ▸ hle, fun heq => ?_⟩
    rw [latestClaim_append (hnone r' hrow' hsame.2.1)]
    exact hlatest (heq.trans hsame.2.1)
  | released outcome now r' hcall hsettles hrow' hgen =>
    refine ⟨r', hrow', hgen ▸ hle, fun heq => ?_⟩
    rw [latestClaim_append (hnone r' hrow' hgen)]
    exact hlatest (heq.trans hgen)
  | leased k hcall hfree hrow' =>
    refine ⟨_, hrow', hle.trans (Nat.le_succ _), fun heq => ?_⟩
    simp only [leaseState] at heq
    omega

theorem Traced.step (hh : Traced h) (call : Call) : Traced (trackedStep h call) := by
  have hs' : StoreInv (PushDigest.step h.store call) := hh.store.step call
  refine ⟨hs', fun c hc id hid => ?_, fun c hc e' he' hid => ?_⟩
  · rcases mem_append.1 hc with hold | hnew
    · exact (hh.issued_lt c hold id hid).trans_le (step_nextID hh.store call)
    · obtain ⟨k, r, hissue⟩ := returned_issue hh.store hnew
      obtain ⟨e', he', rfl, -⟩ := hissue.ids id hid
      exact hs'.keys.issued e' he'
  · rcases mem_append.1 hc with hold | hnew
    · exact hh.row_of_issued hold he' hid
    obtain ⟨k, r, hissue⟩ := returned_issue hh.store hnew
    refine ⟨hissue.device hs' he' hid, _, hissue.row', hissue.generation.le, fun _ => ?_⟩
    unfold latestClaim
    rw [trackedStep, part_append, (returned_once hh.store call).part_eq_singleton hnew]
    simp

variable {t : ℤ}

/-- No two claims that are unexpired at `t` share an event. -/
def Apart (t : ℤ) (c₁ c₂ : PushDigestClaim) : Prop :=
  t < c₁.leaseExpiresAt → t < c₂.leaseExpiresAt → ∀ id ∈ c₁.ids, id ∉ c₂.ids

/-- Outstanding claims at an instant `t` that no claim call has read past: the state row of a
claim with a stored event still has its lease, or the lease is over. -/
structure LeasesAt (t : ℤ) (h : Tracked) : Prop where
  traced : Traced h
  subset : ∀ c ∈ h.outstanding, c ∈ h.issued
  lease : ∀ c ∈ h.outstanding, ∀ e ∈ h.store.events, e.id ∈ c.ids → c.leaseExpiresAt ≤ t ∨
    ∃ r, rowOf deviceID c.deviceID h.store.states = some r ∧
      r.leaseExpiresAt = some c.leaseExpiresAt ∧ r.deliveryGeneration = c.deliveryGeneration
  apart : h.outstanding.Pairwise (Apart t)

theorem LeasesAt.start : LeasesAt t Tracked.start where
  traced := Traced.start
  subset := fun c hc => by cases hc
  lease := fun c hc => by cases hc
  apart := List.Pairwise.nil

theorem lease_le_of_claimable {now lease : ℤ} (h : isClaimable now r = true)
    (hlease : r.leaseExpiresAt = some lease) : lease ≤ now := by
  simp only [isClaimable, hlease, Bool.and_eq_true, decide_eq_true_eq] at h
  exact h.2

theorem LeasesAt.lease_of_outstanding (hh : LeasesAt t h)
    (hread : ∀ k, call = .claim k → k.now ≤ t) (hc : c ∈ h.outstanding)
    (hopen : settled h.store c call = false)
    (he' : e' ∈ (step h.store call).events) (hid : e'.id ∈ c.ids) : c.leaseExpiresAt ≤ t ∨
      ∃ r, rowOf deviceID c.deviceID (step h.store call).states = some r ∧
        r.leaseExpiresAt = some c.leaseExpiresAt ∧ r.deliveryGeneration = c.deliveryGeneration := by
  have hs := hh.traced.store
  have hlt := hh.traced.issued_lt c (hh.subset c hc) _ hid
  obtain ⟨e, he, hid', hd', -⟩ := step_event_origin hs he' hlt
  rcases hh.lease c hc e he (hid' ▸ hid) with hover | ⟨r, hrow, hlease, hgen⟩
  · exact .inl hover
  obtain ⟨hd, -⟩ := hh.traced.row c (hh.subset c hc) e he (hid' ▸ hid)
  cases step_row hs call hrow with
  | emptied hnil =>
    have hmem := mem_part.2 ⟨he', hd'.trans hd⟩
    rw [hnil] at hmem
    cases hmem
  | kept r' hrow' hsame => exact .inr ⟨r', hrow', hsame.2.2.trans hlease, hsame.2.1.trans hgen⟩
  | released outcome now r' hcall hsettles hrow' hgen' =>
    subst hcall
    rw [hgen] at hsettles hopen
    rw [settled_of_settles hs hsettles] at hopen
    cases hopen
  | leased k hcall hfree hrow' =>
    exact .inl ((lease_le_of_claimable hfree hlease).trans (hread k hcall))

/-- An outstanding claim that shares an event with a claim the call returns is expired. -/
theorem LeasesAt.expired_of_returned (hh : LeasesAt t h)
    (hread : ∀ k, call = .claim k → k.now ≤ t) {c c' : PushDigestClaim} (hc : c ∈ h.outstanding)
    (hc' : c' ∈ returned h.store call) {id : ℕ} (hid : id ∈ c.ids) (hid' : id ∈ c'.ids) :
    c.leaseExpiresAt ≤ t := by
  have hs := hh.traced.store
  obtain ⟨k, r, hissue⟩ := returned_issue hs hc'
  obtain ⟨e', he', rfl, hd'⟩ := hissue.ids id hid'
  have hlt := hh.traced.issued_lt c (hh.subset c hc) _ hid
  obtain ⟨e, he, hide, hde, -⟩ := step_event_origin hs he' hlt
  rw [hide] at hid
  rcases hh.lease c hc e he hid with hover | ⟨x, hx, hlease, -⟩
  · exact hover
  obtain ⟨hd, -⟩ := hh.traced.row c (hh.subset c hc) e he hid
  have hrow := hissue.row
  rw [← hd', hde, hd, hx] at hrow
  cases hrow
  exact (lease_le_of_claimable hissue.free hlease).trans (hread k hissue.call_eq)

theorem returned_apart (hs : StoreInv h.store) (call : Call) :
    (returned h.store call).Pairwise (Apart t) := by
  have hdevices := pairwise_map.1 (returned_once hs call)
  refine hdevices.imp_of_mem fun {c₁ c₂} h₁ h₂ hne _ _ id hid₁ hid₂ => hne ?_
  obtain ⟨k₁, r₁, hissue₁⟩ := returned_issue hs h₁
  obtain ⟨k₂, r₂, hissue₂⟩ := returned_issue hs h₂
  obtain ⟨e, he, rfl, hd⟩ := hissue₁.ids id hid₁
  rw [← hd]
  exact hissue₂.device (hs.step call) he hid₂

theorem LeasesAt.step (hh : LeasesAt t h) (hread : ∀ k, call = .claim k → k.now ≤ t) :
    LeasesAt t (trackedStep h call) where
  traced := hh.traced.step call
  subset := fun c hc => by
    rcases mem_append.1 hc with hold | hnew
    · exact mem_append_left _ (hh.subset c (mem_filter.1 hold).1)
    · exact mem_append_right _ hnew
  lease := fun c hc e' he' hid => by
    rcases mem_append.1 hc with hold | hnew
    · obtain ⟨hmem, hopen⟩ := mem_filter.1 hold
      exact hh.lease_of_outstanding hread hmem (by simpa using hopen) he' hid
    · obtain ⟨k, r, hissue⟩ := returned_issue hh.traced.store hnew
      exact .inr ⟨_, hissue.row', congrArg some hissue.lease.symm, hissue.generation.symm⟩
  apart := by
    refine pairwise_append.2 ⟨hh.apart.filter _, returned_apart hh.traced.store call, ?_⟩
    intro c hc c' hc' hlive hlive' id hid hid'
    have hover := hh.expired_of_returned hread (mem_filter.1 hc).1 hc' hid hid'
    omega

end

def tracked (calls : List Call) : Tracked := run trackedStep Tracked.start calls

theorem tracked_traced (calls : List Call) : Traced (tracked calls) :=
  run_invariant_all trackedStep Traced (fun _ call hh => hh.step call) Traced.start calls

theorem tracked_leases {calls : List Call} {t : ℤ} (hread : ∀ k, .claim k ∈ calls → k.now ≤ t) :
    LeasesAt t (tracked calls) := by
  refine run_invariant trackedStep (LeasesAt t) (fun h call hok hh => hh.step hok)
    LeasesAt.start fun call hcall k hk => ?_
  exact hread k (hk ▸ hcall)

theorem settle_other_generation {s : Store} (hs : StoreInv s) (hr : r ∈ s.states)
    {g : ℕ} (hg : g ≠ r.deliveryGeneration) (outcome : PushDigestSettlement) (now : ℤ) :
    step s (.settle r.deviceID g outcome now) = s := by
  refine step_settle_of_not hs.keyed hs.keys fun h => ?_
  obtain ⟨x, hx, hxg⟩ := h.row
  rw [rowOf_of_mem hs.keyed hr] at hx
  cases hx
  exact hg hxg.symm

/-- A settlement of a claim that is not the device's last, and that names an event of it,
changes nothing, even when its generation number has come round again. -/
theorem settle_superseded {h : Tracked} (hh : Traced h) (hc : c ∈ h.issued)
    (hlater : latestClaim c.deviceID h.issued ≠ some c) {outcome : PushDigestSettlement} {id : ℕ}
    (hid : id ∈ outcome.ids) (hown : id ∈ c.ids) (now : ℤ) :
    step h.store (.settle c.deviceID c.deliveryGeneration outcome now) = h.store := by
  refine step_settle_of_not hh.store.keyed hh.store.keys fun hset => hlater ?_
  obtain ⟨e, he, rfl, -, -⟩ := mem_heldIDs.1 (hset.exact.mem_iff.2 hid)
  obtain ⟨-, r, hrow, -, hlatest⟩ := hh.row c hc e he hown
  obtain ⟨x, hx, hxg⟩ := hset.row
  rw [hrow] at hx
  cases hx
  exact hlatest hxg.symm

/-- Every event has the one state row of its device, at its generation or past it. -/
theorem events_have_states (calls : List Call) : Keyed deviceID (tracked calls).store.states ∧
    ∀ e ∈ (tracked calls).store.events, ∃ r,
      rowOf deviceID e.deviceID (tracked calls).store.states = some r ∧
        e.deliveryGeneration ≤ r.deliveryGeneration :=
  ⟨(tracked_traced calls).store.keyed, (tracked_traced calls).store.owned⟩

end LabTether.PushDigest
