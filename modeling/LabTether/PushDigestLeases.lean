import LabTether.PushDigestIntake

/-!
What a claim does to the tables of the push digest. Its cleanup empties the devices it
selects; the devices it leases get the next generation, and their due events carry that
generation afterwards; every other device's rows are the same as before.
-/
namespace LabTether.PushDigest

open Table List StateRow

section

variable {s : Store} {d : String} {targets : List String}

theorem cleanupStates_state : rowOf deviceID d (cleanupStates s targets).states =
    if d ∈ targets then none else rowOf deviceID d s.states := by
  split
  · rename_i hd
    exact rowOf_deleteWhere_none fun r _ hr => decide_eq_true (hr ▸ hd)
  · rename_i hd
    exact rowOf_deleteWhere_other fun r _ hr => decide_eq_false (hr ▸ hd)

theorem cleanupStates_events : part EventRow.deviceID d (cleanupStates s targets).events =
    if d ∈ targets then [] else part EventRow.deviceID d s.events := by
  unfold cleanupStates
  rw [part_deleteWhere]
  split
  · rename_i hd
    exact deleteWhere_eq_nil fun r hr => by simpa [(mem_part.1 hr).2] using hd
  · rename_i hd
    exact deleteWhere_eq_self fun r hr => by simpa [(mem_part.1 hr).2] using hd

end

section

variable {events : List EventRow} {d : String} {now lease : ℤ} {r : StateRow} {n : ℕ}

theorem mem_dueIDs {id : ℕ} (h : id ∈ dueIDs events d now) :
    ∃ e ∈ events, e.id = id ∧ e.deviceID = d := by
  obtain ⟨e, he, hid⟩ := mem_map.1 h
  have hmem := (perm_insertionSort _ _).mem_iff.1 (mem_of_mem_take he)
  simp only [mem_filter, Bool.and_eq_true, beq_iff_eq, decide_eq_true_eq] at hmem
  exact ⟨e, hmem.1, hid, hmem.2.1.1⟩

theorem dueIDs_part : dueIDs (part EventRow.deviceID d events) d now = dueIDs events d now := by
  unfold dueIDs part
  rw [filter_filter]
  congr 4
  funext e
  by_cases hd : e.deviceID = d <;> simp [hd]

theorem part_holdEvents (ids : List ℕ) (g : ℕ) :
    part EventRow.deviceID d (holdEvents ids g events) =
      holdEvents ids g (part EventRow.deviceID d events) :=
  part_updateWhere fun _ => rfl

variable {g : ℕ} {e : EventRow}

theorem mem_holdEvents {ids : List ℕ} :
    e ∈ holdEvents ids g events ↔ ∃ e₀ ∈ events,
      if e₀.id ∈ ids then e = holdRow g e₀ else e = e₀ := by
  unfold holdEvents
  rw [mem_updateWhere]
  refine exists_congr fun e₀ => and_congr_right fun _ => ?_
  by_cases hid : e₀.id ∈ ids <;> simp [hid, eq_comm]

theorem holdEvents_device (h : Keyed (fun e : EventRow => e.id) events)
    (he : e ∈ holdEvents (dueIDs events d now) g events) (hid : e.id ∈ dueIDs events d now) :
    e.deviceID = d := by
  obtain ⟨e', he', hid', hdev'⟩ := mem_dueIDs hid
  obtain ⟨e₀, he₀, heq⟩ := mem_holdEvents.1 he
  split at heq
  all_goals
    subst heq
    rw [h.eq he' he₀ hid'] at hdev'
    exact hdev'

theorem part_holdEvents_other (h : Keyed (fun e : EventRow => e.id) events) {d' : String}
    (hd : d' ≠ d) (g : ℕ) : part EventRow.deviceID d' (holdEvents (dueIDs events d now) g events) =
      part EventRow.deviceID d' events := by
  rw [part_holdEvents]
  refine updateWhere_eq_self fun e he => ?_
  obtain ⟨hmem, hdev⟩ := mem_part.1 he
  refine decide_eq_false fun hid => hd ?_
  obtain ⟨e', he', hid', hdev'⟩ := mem_dueIDs hid
  rw [← hdev, ← hdev', h.eq he' hmem hid']

theorem holdEvents_keys (h : EventKeys events n) (ids : List ℕ) (g : ℕ) :
    EventKeys (holdEvents ids g events) n :=
  h.updateWhere (fun _ => rfl) fun _ => rfl

variable {acc : List EventRow × List PushDigestClaim} {rows : List StateRow}

theorem claimDevices_keys (rows : List StateRow) (h : EventKeys acc.1 n) :
    EventKeys (rows.foldl (claimDevice now lease) acc).1 n :=
  Transition.run_invariant_all (claimDevice now lease) (fun acc => EventKeys acc.1 n)
    (fun _ _ h => holdEvents_keys h _ _) h rows

theorem claimDevices_other (acc : List EventRow × List PushDigestClaim) (h : EventKeys acc.1 n)
    (hd : d ∉ rows.map deviceID) :
    part EventRow.deviceID d (rows.foldl (claimDevice now lease) acc).1 =
      part EventRow.deviceID d acc.1 := by
  induction rows generalizing acc with
  | nil => rfl
  | cons r rows ih =>
    rw [map_cons, mem_cons, not_or] at hd
    rw [foldl_cons, ih _ (holdEvents_keys h _ _) hd.2]
    exact part_holdEvents_other h.ids hd.1 _

theorem claimDevices_part (now lease : ℤ) (acc : List EventRow × List PushDigestClaim)
    (h : EventKeys acc.1 n) (hrows : Keyed deviceID rows) {r : StateRow} (hr : r ∈ rows) :
    part EventRow.deviceID r.deviceID (rows.foldl (claimDevice now lease) acc).1 =
      holdEvents (dueIDs acc.1 r.deviceID now) r.deliveryGeneration
        (part EventRow.deviceID r.deviceID acc.1) := by
  induction rows generalizing acc with
  | nil => cases hr
  | cons r₀ rows ih =>
    obtain ⟨hfresh, hrest⟩ := nodup_cons.1 hrows
    have hstep : EventKeys (claimDevice now lease acc r₀).1 n := holdEvents_keys h _ _
    rw [foldl_cons]
    rcases mem_cons.1 hr with rfl | hr
    · rw [claimDevices_other _ hstep hfresh]
      exact part_holdEvents _ _
    have hne : r.deviceID ≠ r₀.deviceID := fun he => hfresh (he ▸ mem_map_of_mem hr)
    have hpart : part EventRow.deviceID r.deviceID (claimDevice now lease acc r₀).1 =
        part EventRow.deviceID r.deviceID acc.1 := part_holdEvents_other h.ids hne _
    rw [ih _ hstep hrest hr, hpart, ← dueIDs_part, hpart, dueIDs_part]

theorem claimDevices_devices (now lease : ℤ) (acc : List EventRow × List PushDigestClaim)
    (rows : List StateRow) : (rows.foldl (claimDevice now lease) acc).2.map PushDigestClaim.deviceID =
      acc.2.map PushDigestClaim.deviceID ++ rows.map deviceID := by
  induction rows generalizing acc with
  | nil => simp
  | cons r rows ih =>
    rw [foldl_cons, ih]
    simp [claimDevice]

theorem claimDevices_claim (acc : List EventRow × List PushDigestClaim)
    (h : EventKeys acc.1 n) (hrows : Keyed deviceID rows)
    {c : PushDigestClaim} (hc : c ∈ (rows.foldl (claimDevice now lease) acc).2) :
    c ∈ acc.2 ∨ ∃ r ∈ rows, c.deviceID = r.deviceID ∧
      c.deliveryGeneration = r.deliveryGeneration ∧ c.leaseExpiresAt = lease ∧
      c.events.Perm (((part EventRow.deviceID r.deviceID
        (rows.foldl (claimDevice now lease) acc).1).filter fun e =>
          decide (e.id ∈ dueIDs acc.1 r.deviceID now)).map EventRow.toPushDigestEvent) := by
  induction rows generalizing acc with
  | nil => exact .inl hc
  | cons r₀ rows ih =>
    obtain ⟨hfresh, hrest⟩ := nodup_cons.1 hrows
    have hstep : EventKeys (claimDevice now lease acc r₀).1 n := holdEvents_keys h _ _
    rw [foldl_cons] at hc ⊢
    rcases ih _ hstep hrest hc with hacc | ⟨r, hr, hdev, hgen, hlease, hevents⟩
    · rcases mem_append.1 hacc with hacc | hnew
      · exact .inl hacc
      rw [mem_singleton] at hnew
      subst hnew
      refine .inr ⟨r₀, .head _, rfl, rfl, rfl, ?_⟩
      rw [claimDevices_other _ hstep hfresh]
      refine (perm_insertionSort _ _).trans (List.Perm.of_eq ?_)
      -- every row with one of the ids is of this device
      congr 1
      unfold part
      rw [filter_filter]
      refine filter_congr fun e he => ?_
      by_cases hid : e.id ∈ dueIDs acc.1 r₀.deviceID now
      · simp [holdEvents_device h.ids he hid]
      · simp [hid]
    · refine .inr ⟨r, .tail _ hr, hdev, hgen, hlease, ?_⟩
      have hne : r.deviceID ≠ r₀.deviceID := fun he => hfresh (he ▸ mem_map_of_mem hr)
      have hpart : part EventRow.deviceID r.deviceID (claimDevice now lease acc r₀).1 =
          part EventRow.deviceID r.deviceID acc.1 := part_holdEvents_other h.ids hne _
      rw [← dueIDs_part, hpart, dueIDs_part] at hevents
      exact hevents

variable {s : Store} {k : ClaimCall} {locked : String → Bool}

theorem mem_cleanupTargets (h : d ∈ cleanupTargets s now locked) :
    ∃ r ∈ s.states, r.deviceID = d ∧ isStale s now r = true := by
  have hmem := (perm_insertionSort _ _).mem_iff.1 (mem_of_mem_take h)
  obtain ⟨r, hr, hd⟩ := mem_map.1 hmem
  simp only [mem_filter, Bool.and_eq_true] at hr
  exact ⟨r, hr.1, hd, hr.2.1⟩

theorem mem_claimTargets {states : List StateRow} {limit : ℕ}
    (h : d ∈ claimTargets states now limit locked) :
    ∃ r ∈ states, r.deviceID = d ∧ isClaimable now r = true := by
  obtain ⟨r, hr, hd⟩ := mem_map.1 h
  have hmem := (perm_insertionSort _ _).mem_iff.1 (mem_of_mem_take hr)
  simp only [mem_filter, Bool.and_eq_true] at hmem
  exact ⟨r, hmem.1, hd, hmem.2.1⟩

theorem ClaimCall.row_of_target (hkeyed : Keyed deviceID s.states)
    (hd : d ∈ k.targets s) : d ∉ cleanupTargets s k.now k.lockedAtCleanup ∧
      ∃ r, rowOf deviceID d s.states = some r ∧ isClaimable k.now r = true := by
  obtain ⟨r, hr, rfl, hfree⟩ := mem_claimTargets hd
  obtain ⟨hmem, hkept⟩ := mem_deleteWhere.1 hr
  exact ⟨by simpa using hkept, r, rowOf_of_mem hkeyed hmem, hfree⟩

@[simp] theorem leaseState_deviceID (lease : ℤ) (r : StateRow) :
    (leaseState lease r).deviceID = r.deviceID := rfl

theorem claimDuePushDigests_state : rowOf deviceID d (claimDuePushDigests s k).2.states =
    (rowOf deviceID d (k.cleaned s).states).map fun r =>
      if decide (r.deviceID ∈ k.targets s) then leaseState k.leaseExpiresAt r else r :=
  rowOf_updateWhere fun _ _ => rfl

def ClaimCall.leased (k : ClaimCall) (s : Store) : List StateRow :=
  (updateWhere (fun r => decide (r.deviceID ∈ k.targets s)) (leaseState k.leaseExpiresAt)
    (k.cleaned s).states).filter fun r => decide (r.deviceID ∈ k.targets s)

open ClaimCall

section

variable (hkeyed : Keyed deviceID s.states)
include hkeyed

theorem ClaimCall.leased_keyed : Keyed deviceID (k.leased s) :=
  Keyed.filter (Keyed.updateWhere (f := leaseState k.leaseExpiresAt) (hkeyed.filter _)
    fun _ => rfl) _

theorem ClaimCall.mem_leased {r' : StateRow} : r' ∈ k.leased s ↔ r'.deviceID ∈ k.targets s ∧
      ∃ r, rowOf deviceID r'.deviceID s.states = some r ∧
        r' = leaseState k.leaseExpiresAt r := by
  unfold leased
  rw [mem_filter, mem_updateWhere, decide_eq_true_eq]
  constructor
  · rintro ⟨⟨r, hr, hrr⟩, htarget⟩
    refine ⟨htarget, r, ?_, ?_⟩
    · have hdev : r'.deviceID = r.deviceID := by
        subst hrr
        split <;> rfl
      rw [hdev]
      exact rowOf_of_mem hkeyed (mem_deleteWhere.1 hr).1
    · by_cases hsel : r.deviceID ∈ k.targets s
      · simpa [hsel] using hrr.symm
      · rw [if_neg (by simpa using hsel)] at hrr
        exact absurd (hrr ▸ htarget) hsel
  · rintro ⟨htarget, r, hrow, rfl⟩
    obtain ⟨hmem, -⟩ := rowOf_mem hrow
    obtain ⟨hkept, -⟩ := row_of_target hkeyed htarget
    rw [leaseState_deviceID] at htarget hkept
    exact ⟨⟨r, mem_deleteWhere.2 ⟨hmem, by simpa using hkept⟩, by simp [htarget]⟩, htarget⟩

theorem ClaimCall.mem_leased_devices :
    d ∈ (k.leased s).map deviceID ↔ d ∈ k.targets s := by
  constructor
  · intro h
    obtain ⟨r, hr, rfl⟩ := mem_map.1 h
    exact ((mem_leased hkeyed).1 hr).1
  intro h
  obtain ⟨-, r, hrow, -⟩ := row_of_target hkeyed h
  have hdev : (leaseState k.leaseExpiresAt r).deviceID = d := (rowOf_mem hrow).2
  refine mem_map.2 ⟨leaseState k.leaseExpiresAt r, ?_, hdev⟩
  rw [mem_leased hkeyed, hdev]
  exact ⟨h, r, hrow, rfl⟩

end

theorem ClaimCall.cleaned_part (hd : d ∉ cleanupTargets s k.now k.lockedAtCleanup) :
    part EventRow.deviceID d (k.cleaned s).events = part EventRow.deviceID d s.events := by
  unfold cleaned
  rw [cleanupStates_events, if_neg hd]

theorem ClaimCall.cleaned_dueIDs (hd : d ∉ cleanupTargets s k.now k.lockedAtCleanup) :
    dueIDs (k.cleaned s).events d k.now = dueIDs s.events d k.now := by
  rw [← dueIDs_part, cleaned_part hd, dueIDs_part]

theorem ClaimCall.cleaned_keys (hkeys : EventKeys s.events s.nextID) :
    EventKeys (k.cleaned s).events s.nextID :=
  hkeys.filter _

theorem claimDuePushDigests_keys (hkeys : EventKeys s.events s.nextID) :
    EventKeys (claimDuePushDigests s k).2.events (claimDuePushDigests s k).2.nextID :=
  claimDevices_keys _ (k.cleaned_keys hkeys)

theorem claimDuePushDigests_keyed (hkeyed : Keyed deviceID s.states) :
    Keyed deviceID (claimDuePushDigests s k).2.states :=
  Keyed.updateWhere (hkeyed.filter _) fun _ => rfl

theorem claimDuePushDigests_devices : (claimDuePushDigests s k).1.map PushDigestClaim.deviceID =
    (k.leased s).map deviceID :=
  claimDevices_devices k.now k.leaseExpiresAt ((k.cleaned s).events, []) (k.leased s)

theorem claimDuePushDigests_once (hkeyed : Keyed deviceID s.states) :
    Keyed PushDigestClaim.deviceID (claimDuePushDigests s k).1 := by
  unfold Keyed
  rw [claimDuePushDigests_devices]
  exact k.leased_keyed hkeyed

theorem mem_claimDuePushDigests_devices (hkeyed : Keyed deviceID s.states) :
    d ∈ (claimDuePushDigests s k).1.map PushDigestClaim.deviceID ↔ d ∈ k.targets s := by
  rw [claimDuePushDigests_devices, mem_leased_devices hkeyed]

inductive ClaimView (s : Store) (k : ClaimCall) (s' : Store) (d : String) : Prop
  | cleaned (r : StateRow) (row : rowOf deviceID d s.states = some r)
      (stale : isStale s k.now r = true) (row' : rowOf deviceID d s'.states = none)
      (events' : part EventRow.deviceID d s'.events = [])
  | leased (r : StateRow) (row : rowOf deviceID d s.states = some r)
      (free : isClaimable k.now r = true)
      (row' : rowOf deviceID d s'.states = some (leaseState k.leaseExpiresAt r))
      (events' : part EventRow.deviceID d s'.events =
        holdEvents (dueIDs s.events d k.now) (r.deliveryGeneration + 1)
          (part EventRow.deviceID d s.events))
  | untouched (row' : rowOf deviceID d s'.states = rowOf deviceID d s.states)
      (events' : part EventRow.deviceID d s'.events = part EventRow.deviceID d s.events)

variable (hkeyed : Keyed deviceID s.states) (hkeys : EventKeys s.events s.nextID)

include hkeyed hkeys

theorem claim_events_other (hd : d ∉ k.targets s) :
    part EventRow.deviceID d (claimDuePushDigests s k).2.events =
      part EventRow.deviceID d (k.cleaned s).events :=
  claimDevices_other ((k.cleaned s).events, []) (k.cleaned_keys hkeys)
    fun h => hd ((mem_leased_devices hkeyed).1 h)

theorem claim_cleaned (hd : d ∈ cleanupTargets s k.now k.lockedAtCleanup) :
    rowOf deviceID d (claimDuePushDigests s k).2.states = none ∧
      part EventRow.deviceID d (claimDuePushDigests s k).2.events = [] := by
  have hfree : d ∉ k.targets s := fun h => (row_of_target hkeyed h).1 hd
  rw [claimDuePushDigests_state, claim_events_other hkeyed hkeys hfree]
  unfold cleaned
  rw [cleanupStates_state, cleanupStates_events, if_pos hd, if_pos hd]
  exact ⟨rfl, rfl⟩

theorem claim_untouched (hd : d ∉ cleanupTargets s k.now k.lockedAtCleanup)
    (hfree : d ∉ k.targets s) : rowOf deviceID d (claimDuePushDigests s k).2.states =
        rowOf deviceID d s.states ∧
      part EventRow.deviceID d (claimDuePushDigests s k).2.events =
        part EventRow.deviceID d s.events := by
  rw [claimDuePushDigests_state, claim_events_other hkeyed hkeys hfree, cleaned_part hd]
  unfold cleaned
  rw [cleanupStates_state, if_neg hd]
  refine ⟨?_, rfl⟩
  cases hrow : rowOf deviceID d s.states with
  | none => rfl
  | some r =>
    have hdev : r.deviceID ∉ k.targets s := (rowOf_mem hrow).2 ▸ hfree
    simp [hdev]

theorem claim_leased {r : StateRow} (hd : d ∈ k.targets s)
    (hrow : rowOf deviceID d s.states = some r) :
    rowOf deviceID d (claimDuePushDigests s k).2.states =
        some (leaseState k.leaseExpiresAt r) ∧
      part EventRow.deviceID d (claimDuePushDigests s k).2.events =
        holdEvents (dueIDs s.events d k.now) (r.deliveryGeneration + 1)
          (part EventRow.deviceID d s.events) := by
  obtain ⟨hkept, -⟩ := row_of_target hkeyed hd
  obtain ⟨-, rfl⟩ := rowOf_mem hrow
  constructor
  · rw [claimDuePushDigests_state]
    unfold cleaned
    rw [cleanupStates_state, if_neg hkept, hrow]
    simp [hd]
  · have hleased : leaseState k.leaseExpiresAt r ∈ k.leased s :=
      (mem_leased hkeyed).2 ⟨hd, r, hrow, rfl⟩
    have h := claimDevices_part k.now k.leaseExpiresAt ((k.cleaned s).events, []) (k.cleaned_keys hkeys) (k.leased_keyed hkeyed) hleased
    rw [leaseState_deviceID, cleaned_dueIDs hkept, cleaned_part hkept] at h
    exact h

theorem claim_view (d : String) : ClaimView s k (claimDuePushDigests s k).2 d := by
  by_cases hclean : d ∈ cleanupTargets s k.now k.lockedAtCleanup
  · obtain ⟨r, hr, rfl, hstale⟩ := mem_cleanupTargets hclean
    obtain ⟨hrow', hevents'⟩ := claim_cleaned hkeyed hkeys hclean
    exact .cleaned r (rowOf_of_mem hkeyed hr) hstale hrow' hevents'
  by_cases hlease : d ∈ k.targets s
  · obtain ⟨-, r, hrow, hfree⟩ := row_of_target hkeyed hlease
    obtain ⟨hrow', hevents'⟩ := claim_leased hkeyed hkeys hlease hrow
    exact .leased r hrow hfree hrow' hevents'
  · obtain ⟨hrow', hevents'⟩ := claim_untouched hkeyed hkeys hclean hlease
    exact .untouched hrow' hevents'

/-- What a returned claim says: it is for a device that was free, under the next generation
of its row, and its events are the due ones of the device. -/
theorem claim_returned {c : PushDigestClaim} (hc : c ∈ (claimDuePushDigests s k).1) :
    c.deviceID ∈ k.targets s ∧ c.leaseExpiresAt = k.leaseExpiresAt ∧
      ∃ r, rowOf deviceID c.deviceID s.states = some r ∧
        c.deliveryGeneration = r.deliveryGeneration + 1 ∧
        c.events.Perm (((part EventRow.deviceID c.deviceID
          (claimDuePushDigests s k).2.events).filter fun e =>
            decide (e.id ∈ dueIDs s.events c.deviceID k.now)).map EventRow.toPushDigestEvent) := by
  rcases claimDevices_claim ((k.cleaned s).events, []) (k.cleaned_keys hkeys)
    (k.leased_keyed hkeyed) hc with hnil | ⟨r', hr', hdev, hgen, hlease, hevents⟩
  · cases hnil
  obtain ⟨htarget, r, hrow, rfl⟩ := (mem_leased hkeyed).1 hr'
  obtain ⟨hkept, -⟩ := row_of_target hkeyed htarget
  rw [cleaned_dueIDs hkept] at hevents
  rw [leaseState_deviceID] at hdev htarget hrow
  rw [hdev]
  exact ⟨htarget, hlease, r, hrow, hgen, hevents⟩

end

end LabTether.PushDigest
