import LabTether.PushDigestLeases
import LabTether.PushDigestOutcome

/-!
The invariant of the push digest store: one state row a device, distinct event ids and
dedupe keys, a state row for every event with a generation not below the event's, and no
more events of a device than its bound. Every call keeps it, at any clock readings.
-/
namespace LabTether.PushDigest

open GoStrings Table Transition List StateRow

structure StoreInv (s : Store) : Prop where
  keyed : Keyed deviceID s.states
  keys : EventKeys s.events s.nextID
  owned : ∀ e ∈ s.events, ∃ r, rowOf deviceID e.deviceID s.states = some r ∧
    e.deliveryGeneration ≤ r.deliveryGeneration
  bounded : ∀ d, (part EventRow.deviceID d s.events).length ≤ maxPushDigestEventsPerDevice
  named : ∀ d r, rowOf deviceID d s.states = some r → trimSpace d ≠ ""

theorem StoreInv.empty : StoreInv Store.empty where
  keyed := nodup_nil
  keys := ⟨nodup_nil, by simp [Store.empty], nodup_nil⟩
  owned := by simp [Store.empty]
  bounded := fun _ => Nat.zero_le _
  named := fun d r h => by cases h

/-- A step that leaves the claim of a device: its row keeps generation and lease, stored
events keep their holder, and what is new has a new id and no holder. -/
structure Kept (s s' : Store) (d : String) : Prop where
  row : ∀ r, rowOf deviceID d s.states = some r →
    ∃ r', rowOf deviceID d s'.states = some r' ∧ SameClaim r r'
  newRow : rowOf deviceID d s.states = none →
    ∀ r', rowOf deviceID d s'.states = some r' → r'.deliveryGeneration = 0
  events : ∀ e' ∈ s'.events, e'.deviceID = d →
    (∃ e ∈ s.events, e.deviceID = d ∧ e'.id = e.id ∧ e'.expiresAt = e.expiresAt ∧
      e'.deliveryGeneration = e.deliveryGeneration) ∨
    (s.nextID ≤ e'.id ∧ e'.deliveryGeneration = 0)

variable {s : Store}

theorem Kept.of_eq {s' : Store} {d : String}
    (hrow : rowOf deviceID d s'.states = rowOf deviceID d s.states)
    (hevents : part EventRow.deviceID d s'.events = part EventRow.deviceID d s.events) :
    Kept s s' d where
  row := fun r h => ⟨r, hrow.trans h, rfl, rfl, rfl⟩
  newRow := fun h r' h' => by
    rw [hrow, h] at h'
    cases h'
  events := fun e he hd => by
    have hmem : e ∈ part EventRow.deviceID d s.events := hevents ▸ mem_part.2 ⟨he, hd⟩
    obtain ⟨he', hd'⟩ := mem_part.1 hmem
    exact .inl ⟨e, he', hd', rfl, rfl, rfl⟩

section

variable {s s' : Store} {batch : List PushDigestEnqueue} {now : ℤ} {raw : List PushDigestEnqueue}

theorem EnqueueEffect.kept (h : EnqueueEffect s batch s') (d : String) : Kept s s' d where
  row := fun r hrow => by
    rw [h.states]
    exact upsertStates_some batch hrow
  newRow := fun hrow r' hrow' => by
    rw [h.states] at hrow'
    rcases upsertStates_none batch hrow with hnone | ⟨x, hx, hgen⟩
    · rw [hnone] at hrow'
      cases hrow'
    · rw [hx] at hrow'
      cases hrow'
      exact hgen
  events := fun e' he' hd => by
    obtain ⟨new, hnew, hrows⟩ := h.events
    rw [hnew] at he'
    rcases mem_append.1 he' with hold | hadd
    · exact .inl ⟨e', (mem_deleteWhere.1 hold).1, hd, rfl, rfl, rfl⟩
    · obtain ⟨hid, hgen, -⟩ := hrows e' hadd
      exact .inr ⟨hid, hgen⟩

theorem EnqueueEffect.inv (h : EnqueueEffect s batch s') (hs : StoreInv s)
    (hnamed : ∀ e ∈ batch, trimSpace e.deviceID ≠ "") : StoreInv s' where
  keyed := h.states ▸ upsertStates_keyed hs.keyed
  keys := h.keys hs.keys
  owned := fun e' he' => by
    rcases (h.kept e'.deviceID).events e' he' rfl with ⟨e, he, hd, -, -, hgen⟩ | ⟨-, hgen⟩
    · obtain ⟨r, hrow, hle⟩ := hs.owned e he
      obtain ⟨r', hrow', hsame⟩ := (h.kept e'.deviceID).row r (hd ▸ hrow)
      have := hsame.2.1
      exact ⟨r', hrow', by omega⟩
    have hmem : e'.deviceID ∈ s'.states.map deviceID := by
      obtain ⟨new, hnew, hrows⟩ := h.events
      rw [h.states, mem_devices_upsertStates]
      rw [hnew] at he'
      rcases mem_append.1 he' with hold | hadd
      · obtain ⟨r, hrow, -⟩ := hs.owned e' (mem_deleteWhere.1 hold).1
        obtain ⟨hr, hd⟩ := rowOf_mem hrow
        exact .inl (hd ▸ mem_map_of_mem hr)
      · exact .inr (hrows e' hadd).2.2
    cases hrow : rowOf deviceID e'.deviceID s'.states with
    | none => exact absurd hmem (rowOf_eq_none.1 hrow)
    | some r => exact ⟨r, rfl, by omega⟩
  bounded := fun d => h.bounded d (hs.bounded d)
  named := fun d r hrow => by
    obtain ⟨hr, rfl⟩ := rowOf_mem hrow
    have hmem : r.deviceID ∈ s'.states.map deviceID := mem_map_of_mem hr
    rw [h.states, mem_devices_upsertStates] at hmem
    rcases hmem with hold | hadd
    · obtain ⟨x, hx, hdev⟩ := mem_map.1 hold
      exact hs.named _ x (hdev ▸ rowOf_of_mem hs.keyed hx)
    · obtain ⟨e, he, hdev⟩ := mem_map.1 hadd
      exact hdev ▸ hnamed e he

theorem step_enqueue (s : Store) (now : ℤ) (raw : List PushDigestEnqueue) :
    (∃ e, prepareEnqueue now raw = .error e ∧ step s (.enqueue now raw) = s) ∨
      ∃ batch, prepareEnqueue now raw = .ok batch ∧
        EnqueueEffect s batch (step s (.enqueue now raw)) := by
  by_cases hraw : raw = []
  · subst hraw
    exact .inr ⟨[], rfl, enqueueBatch_effect s []⟩
  simp only [step, enqueuePushDigestEvents, if_neg hraw]
  cases hprep : prepareEnqueue now raw with
  | error e => exact .inl ⟨e, rfl, rfl⟩
  | ok batch => exact .inr ⟨batch, rfl, enqueueBatch_effect s batch⟩

theorem StoreInv.enqueue (hs : StoreInv s) : StoreInv (step s (.enqueue now raw)) := by
  rcases step_enqueue s now raw with ⟨-, -, heq⟩ | ⟨batch, hprep, heff⟩
  · rw [heq]
    exact hs
  · exact heff.inv hs (prepareEnqueue_eq_ok hprep).2

end

section

variable {s : Store} {k : ClaimCall}

theorem claim_event_origin (hs : StoreInv s) {e' : EventRow}
    (he' : e' ∈ (claimDuePushDigests s k).2.events) :
    ∃ e ∈ s.events, e'.id = e.id ∧ e'.deviceID = e.deviceID ∧ e'.expiresAt = e.expiresAt := by
  have hmem : e' ∈ part EventRow.deviceID e'.deviceID (claimDuePushDigests s k).2.events :=
    mem_part.2 ⟨he', rfl⟩
  cases claim_view (k := k) hs.keyed hs.keys e'.deviceID with
  | cleaned r hrow hstale hrow' hevents' =>
    rw [hevents'] at hmem
    cases hmem
  | leased r hrow hfree hrow' hevents' =>
    rw [hevents'] at hmem
    obtain ⟨e, he, heq⟩ := mem_holdEvents.1 hmem
    refine ⟨e, (mem_part.1 he).1, ?_⟩
    split at heq
    all_goals
      rw [heq]
      exact ⟨rfl, rfl, rfl⟩
  | untouched hrow' hevents' =>
    rw [hevents'] at hmem
    exact ⟨e', (mem_part.1 hmem).1, rfl, rfl, rfl⟩

theorem StoreInv.claim (hs : StoreInv s) : StoreInv (step s (.claim k)) where
  keyed := claimDuePushDigests_keyed hs.keyed
  keys := claimDuePushDigests_keys hs.keys
  owned := fun e' he' => by
    have hmem : e' ∈ part EventRow.deviceID e'.deviceID (claimDuePushDigests s k).2.events :=
      mem_part.2 ⟨he', rfl⟩
    cases claim_view (k := k) hs.keyed hs.keys e'.deviceID with
    | cleaned r hrow hstale hrow' hevents' =>
      rw [hevents'] at hmem
      cases hmem
    | leased r hrow hfree hrow' hevents' =>
      refine ⟨_, hrow', ?_⟩
      rw [hevents'] at hmem
      obtain ⟨e, he, heq⟩ := mem_holdEvents.1 hmem
      obtain ⟨he, hd⟩ := mem_part.1 he
      obtain ⟨x, hx, hle⟩ := hs.owned e he
      rw [hd, hrow] at hx
      cases hx
      split at heq
      · rw [heq]
        exact le_rfl
      · rw [heq]
        exact hle.trans (Nat.le_succ _)
    | untouched hrow' hevents' =>
      rw [hevents'] at hmem
      obtain ⟨r, hrow, hle⟩ := hs.owned e' (mem_part.1 hmem).1
      exact ⟨r, hrow'.trans hrow, hle⟩
  bounded := fun d => by
    cases claim_view (k := k) hs.keyed hs.keys d with
    | cleaned r hrow hstale hrow' hevents' =>
      rw [step, hevents']
      exact Nat.zero_le _
    | leased r hrow hfree hrow' hevents' =>
      rw [step, hevents']
      exact length_updateWhere.trans_le (hs.bounded d)
    | untouched hrow' hevents' =>
      rw [step, hevents']
      exact hs.bounded d
  named := fun d r' h' => by
    cases claim_view (k := k) hs.keyed hs.keys d with
    | cleaned r hrow hstale hrow' hevents' | leased r hrow hfree hrow' hevents' => exact hs.named d r hrow
    | untouched hrow' hevents' => exact hs.named d r' (hrow'.symm.trans h')

end

section

variable {s s' : Store} {d : String} {g : ℕ} {outcome : PushDigestSettlement} {now : ℤ}

theorem SettleEffect.inv (h : SettleEffect s d g outcome s') (hs : StoreInv s)
    (hsettles : Settles s d g outcome now) : StoreInv s' where
  keyed := h.keyed
  keys := h.keys
  owned := fun e' he' => by
    obtain ⟨e, he, hrel⟩ := h.origin e' he'
    obtain ⟨r, hrow, hle⟩ := hs.owned e he
    rw [hrel.deviceID]
    by_cases hd : e.deviceID = d
    · obtain ⟨x, hx, hg⟩ := hsettles.row
      rw [hd, hx] at hrow
      cases hrow
      rcases h.row with ⟨hnil, -⟩ | ⟨r', hrow', hg'⟩
      · have hmem := mem_part.2 ⟨he', hrel.deviceID.trans hd⟩
        rw [hnil] at hmem
        cases hmem
      · refine ⟨r', hd ▸ hrow', ?_⟩
        rcases hrel.generation with hgen | ⟨-, hgen⟩ <;> omega
    · refine ⟨r, (h.otherRow _ hd).trans hrow, ?_⟩
      rcases hrel.generation with hgen | ⟨hdev, -⟩
      · omega
      · exact absurd hdev hd
  bounded := fun d' => (h.length_le d').trans (hs.bounded d')
  named := fun d' r hrow => by
    by_cases hd : d' = d
    · exact hd ▸ hsettles.named
    · exact hs.named d' r ((h.otherRow d' hd).symm.trans hrow)

theorem StoreInv.settle (hs : StoreInv s) : StoreInv (step s (.settle d g outcome now)) := by
  by_cases h : Settles s d g outcome now
  · rw [step_settle_of_settles hs.keyed hs.keys h]
    exact (settleHeld_effect hs.keyed hs.keys h).inv hs h
  · rw [step_settle_of_not hs.keyed hs.keys h]
    exact hs

end

theorem StoreInv.step (hs : StoreInv s) : ∀ call, StoreInv (step s call)
  | .enqueue _ _ => hs.enqueue
  | .claim _ => hs.claim
  | .settle _ _ _ _ => hs.settle

theorem Reachable.inv (h : Reachable s) : StoreInv s := by
  obtain ⟨calls, rfl⟩ := h
  exact run_invariant_all step StoreInv (fun _ call hs => hs.step call) StoreInv.empty calls

end LabTether.PushDigest
