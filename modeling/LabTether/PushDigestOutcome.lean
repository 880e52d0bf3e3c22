import LabTether.PushDigestIntake

/-!
What a settlement does to the tables of the push digest. It takes effect exactly when its
four sets are a partition of the events that the device's generation holds, with every new
due time in the future. Then the sent and the discarded events go, the others are held by no
claim, and the state row is released or, with no event left, deleted.
-/
namespace LabTether.PushDigest

open GoStrings Table Transaction List StateRow Transition Except

section

variable {outcome : PushDigestSettlement} {now : ℤ} {acc out : List ℕ}

def PushDigestSettlement.ids (outcome : PushDigestSettlement) : List ℕ :=
  outcome.sent ++ outcome.deferred ++ outcome.discarded ++ outcome.retryAt.map Prod.fst

def PushDigestSettlement.FutureAt (outcome : PushDigestSettlement) (now : ℤ) : Prop :=
  (outcome.deferred ≠ [] → now < outcome.deferredUntil) ∧ ∀ x ∈ outcome.retryAt, now < x.2
  deriving Decidable

/-- Ids that a settlement may name together. -/
def Admissible (ids : List ℕ) : Prop :=
  ids.Nodup ∧ ids.length ≤ maxPushDigestEventsPerDevice

theorem Admissible.of_append {l : List ℕ} (h : Admissible (acc ++ l)) : Admissible acc := by
  refine ⟨h.1.of_append_left, ?_⟩
  have := h.2
  rw [length_append] at this
  omega

theorem addSettlementID_eq_ok (hacc : Admissible acc) {id : ℕ} :
    addSettlementID acc id = .ok out ↔ out = acc ++ [id] ∧ Admissible (acc ++ [id]) := by
  have hnodup : (acc ++ [id]).Nodup ↔ id ∉ acc := by
    rw [nodup_append_comm]
    simp [hacc.1]
  unfold addSettlementID Admissible
  rw [hnodup]
  split
  · rename_i hid
    simp [hid]
  rename_i hid
  split
  · rename_i hlen
    simp only [reduceCtorEq, false_iff, not_and, not_le]
    exact fun _ _ => hlen
  · rename_i hlen
    simp only [ok.injEq, eq_comm, hid, not_false_eq_true, true_and]
    exact ⟨fun h => ⟨h, not_lt.1 hlen⟩, fun h => h.1⟩

theorem foldlM_admissible {β : Type} {f : List ℕ → β → Except String (List ℕ)} (idOf : β → ℕ)
    (Ok : β → Prop) (hf : ∀ acc out x, Admissible acc →
      (f acc x = .ok out ↔ out = acc ++ [idOf x] ∧ Admissible (acc ++ [idOf x]) ∧ Ok x))
    (hacc : Admissible acc) (l : List β) : l.foldlM f acc = .ok out ↔
      out = acc ++ l.map idOf ∧ Admissible (acc ++ l.map idOf) ∧ ∀ x ∈ l, Ok x := by
  induction l generalizing acc with
  | nil =>
    rw [foldlM_nil]
    simp only [map_nil, append_nil, not_mem_nil, false_imp_iff, implies_true, and_true, hacc]
    exact ⟨fun h => (ok.inj h).symm, fun h => congrArg ok h.symm⟩
  | cons x l ih =>
    have hassoc : acc ++ (x :: l).map idOf = acc ++ [idOf x] ++ l.map idOf := by simp
    rw [foldlM_cons, bind_eq_ok, hassoc, forall_mem_cons]
    constructor
    · rintro ⟨mid, hmid, hrest⟩
      obtain ⟨rfl, hadm, hx⟩ := (hf _ _ _ hacc).1 hmid
      obtain ⟨hout, hall, hl⟩ := (ih hadm).1 hrest
      exact ⟨hout, hall, hx, hl⟩
    · rintro ⟨hout, hall, hx, hl⟩
      exact ⟨acc ++ [idOf x], (hf _ _ _ hacc).2 ⟨rfl, hall.of_append, hx⟩,
        (ih hall.of_append).2 ⟨hout, hall, hl⟩⟩

theorem addRetryID_eq_ok (hacc : Admissible acc) {entry : ℕ × ℤ} :
    addRetryID now acc entry = .ok out ↔
      out = acc ++ [entry.1] ∧ Admissible (acc ++ [entry.1]) ∧ now < entry.2 := by
  unfold addRetryID
  rw [bind_eq_ok]
  constructor
  · rintro ⟨mid, hmid, h⟩
    obtain ⟨rfl, hadm⟩ := (addSettlementID_eq_ok hacc).1 hmid
    split at h
    · cases h
    · rename_i hlate
      cases h
      exact ⟨rfl, hadm, not_le.1 hlate⟩
  · rintro ⟨rfl, hadm, hlate⟩
    exact ⟨_, (addSettlementID_eq_ok hacc).2 ⟨rfl, hadm⟩, if_neg (not_le.2 hlate)⟩

theorem addSettlementIDs_eq_ok {l : List ℕ} :
    l.foldlM addSettlementID [] = .ok out ↔ out = l ∧ Admissible l := by
  have hnil : Admissible [] := ⟨nodup_nil, Nat.zero_le _⟩
  have h : l.foldlM addSettlementID [] = .ok out ↔ _ := foldlM_admissible id (fun _ => True)
      (fun acc out x h => by rw [addSettlementID_eq_ok h, and_true, id]) hnil l
  simpa using h

theorem pushDigestPartition_eq_ok : pushDigestPartition outcome now = .ok out ↔
    out = outcome.ids ∧ Admissible outcome.ids ∧ outcome.FutureAt now := by
  unfold pushDigestPartition PushDigestSettlement.FutureAt
  rw [bind_eq_ok]
  constructor
  · rintro ⟨mid, hmid, h⟩
    obtain ⟨rfl, hadm⟩ := addSettlementIDs_eq_ok.1 hmid
    split at h
    · cases h
    rename_i hdeferred
    obtain ⟨hout, hall, hretry⟩ :=
      (foldlM_admissible Prod.fst (fun x => now < x.2) (fun _ _ _ h => addRetryID_eq_ok h) hadm
        outcome.retryAt).1 h
    refine ⟨hout, hall, fun hne => ?_, hretry⟩
    by_contra hle
    exact hdeferred ⟨hne, not_lt.1 hle⟩
  · rintro ⟨hout, hall, hdeferred, hretry⟩
    have hadm := hall.of_append
    refine ⟨_, addSettlementIDs_eq_ok.2 ⟨rfl, hadm⟩, ?_⟩
    rw [if_neg fun h => absurd (hdeferred h.1) (not_lt.2 h.2)]
    exact (foldlM_admissible Prod.fst (fun x => now < x.2) (fun _ _ _ h => addRetryID_eq_ok h) hadm
      outcome.retryAt).2 ⟨hout, hall, hretry⟩

variable {s s' : Store} {d : String} {g : ℕ}

theorem mem_heldIDs {id : ℕ} : id ∈ heldIDs s d g ↔
    ∃ e ∈ s.events, e.id = id ∧ e.deviceID = d ∧ e.deliveryGeneration = g := by
  simp only [heldIDs, isHeld, mem_map, mem_filter, Bool.and_eq_true, beq_iff_eq]
  exact exists_congr fun e => by rw [and_assoc, and_comm (a := e.id = id)]

theorem heldIDs_nodup (hkeys : EventKeys s.events s.nextID) : (heldIDs s d g).Nodup :=
  hkeys.ids.filter _

structure Settles (s : Store) (d : String) (g : ℕ) (outcome : PushDigestSettlement) (now : ℤ) :
    Prop where
  named : trimSpace d ≠ ""
  claimed : g ≠ 0
  admissible : Admissible outcome.ids
  future : outcome.FutureAt now
  row : ∃ r, rowOf deviceID d s.states = some r ∧ r.deliveryGeneration = g
  exact : (heldIDs s d g).Perm outcome.ids

theorem any_generation_iff (hkeyed : Keyed deviceID s.states) :
    (s.states.any fun r => r.deviceID == d && r.deliveryGeneration == g) = true ↔
      ∃ r, rowOf deviceID d s.states = some r ∧ r.deliveryGeneration = g := by
  simp only [any_eq_true, Bool.and_eq_true, beq_iff_eq]
  constructor
  · rintro ⟨r, hr, rfl, hg⟩
    exact ⟨r, rowOf_of_mem hkeyed hr, hg⟩
  · rintro ⟨r, hrow, hg⟩
    obtain ⟨hr, hd⟩ := rowOf_mem hrow
    exact ⟨r, hr, hd, hg⟩

/-- The two checks of the held events compare the sets. -/
theorem held_exact_iff (hkeys : EventKeys s.events s.nextID) (ids : List ℕ) :
    (¬ ((heldIDs s d g).any fun id => decide (id ∉ ids)) = true ∧
      (heldIDs s d g).length = ids.length) ↔ (heldIDs s d g).Perm ids := by
  constructor
  · rintro ⟨hall, hlen⟩
    have hsub : heldIDs s d g ⊆ ids := fun id hid => by
      by_contra hnot
      exact hall (any_eq_true.2 ⟨id, hid, by simpa using hnot⟩)
    exact (subperm_of_subset (heldIDs_nodup hkeys) hsub).perm_of_length_le hlen.ge
  · intro hperm
    refine ⟨fun hany => ?_, hperm.length_eq⟩
    obtain ⟨id, hid, hnot⟩ := any_eq_true.1 hany
    exact absurd (hperm.mem_iff.1 hid) (by simpa using hnot)

variable (hkeyed : Keyed deviceID s.states) (hkeys : EventKeys s.events s.nextID)
include hkeyed hkeys

/-- A settlement takes effect under `Settles`; in every other case the store stays. -/
theorem settlePushDigestClaim_spec :
    (Settles s d g outcome now ∧ settlePushDigestClaim s d g outcome now =
        .ok (true, settleHeld s d g outcome now)) ∨
      (¬ Settles s d g outcome now ∧ (settlePushDigestClaim s d g outcome now = .ok (false, s) ∨
        ∃ e, settlePushDigestClaim s d g outcome now = .error e)) := by
  unfold settlePushDigestClaim
  split
  · rename_i hblank
    exact .inr ⟨fun h => hblank.elim h.named h.claimed, .inl rfl⟩
  rename_i hnamed
  rw [not_or] at hnamed
  rcases hpart : pushDigestPartition outcome now with e | ids
  · refine .inr ⟨fun h => ?_, .inr ⟨e, rfl⟩⟩
    rw [pushDigestPartition_eq_ok.2 ⟨rfl, h.admissible, h.future⟩] at hpart
    cases hpart
  obtain ⟨rfl, hadm, hfuture⟩ := pushDigestPartition_eq_ok.1 hpart
  have hexact := held_exact_iff (d := d) (g := g) hkeys outcome.ids
  rw [ok_bind]
  dsimp only
  split_ifs with hrow hany hlen
  · exact .inr ⟨fun h => (hexact.2 h.exact).1 hany, .inr ⟨_, rfl⟩⟩
  · exact .inr ⟨fun h => hlen h.exact.length_eq, .inr ⟨_, rfl⟩⟩
  · have hperm := hexact.1 ⟨hany, not_not.1 hlen⟩
    have hrow' := (any_generation_iff hkeyed).1 hrow
    exact .inl ⟨⟨hnamed.1, hnamed.2, hadm, hfuture, hrow', hperm⟩, rfl⟩
  · exact .inr ⟨fun h => hrow ((any_generation_iff hkeyed).2 h.row), .inl rfl⟩

theorem settlePushDigestClaim_true_iff :
    (∃ s', settlePushDigestClaim s d g outcome now = .ok (true, s')) ↔
      Settles s d g outcome now := by
  rcases settlePushDigestClaim_spec hkeyed hkeys with ⟨h, heq⟩ | ⟨h, heq | ⟨e, heq⟩⟩
  · exact ⟨fun _ => h, fun _ => ⟨_, heq⟩⟩
  all_goals
    rw [heq]
    exact ⟨fun ⟨_, ht⟩ => (by cases ht), fun hs => absurd hs h⟩

theorem step_settle_of_settles (h : Settles s d g outcome now) :
    step s (.settle d g outcome now) = settleHeld s d g outcome now := by
  rcases settlePushDigestClaim_spec hkeyed hkeys with ⟨-, heq⟩ | ⟨hnot, -⟩
  · rw [step, heq]
  · exact absurd h hnot

theorem step_settle_of_not (h : ¬ Settles s d g outcome now) :
    step s (.settle d g outcome now) = s := by
  rcases settlePushDigestClaim_spec hkeyed hkeys with ⟨hs, -⟩ | ⟨-, heq | ⟨e, heq⟩⟩
  · exact absurd hs h
  all_goals rw [step, heq]

end

section

variable {s : Store} {d d' : String} {g : ℕ} {outcome : PushDigestSettlement} {now : ℤ}
  {events : List EventRow}

/-- Where an event of the store after a settlement comes from. -/
structure Released (d : String) (g : ℕ) (outcome : PushDigestSettlement) (e e' : EventRow) :
    Prop where
  id : e'.id = e.id
  deviceID : e'.deviceID = e.deviceID
  expiresAt : e'.expiresAt = e.expiresAt
  notRetired : e.deviceID = d → e.deliveryGeneration = g → e.id ∉ outcome.sent ++ outcome.discarded
  generation : e'.deliveryGeneration = e.deliveryGeneration ∨
    (e.deviceID = d ∧ e'.deliveryGeneration = 0)

theorem applyOutcome_keys {n : ℕ} (h : EventKeys events n) :
    EventKeys (applyOutcome d g outcome events) n := by
  refine run_invariant_all (retryEvent d g) (EventKeys · n)
    (fun _ _ h => h.updateWhere (fun _ => rfl) fun _ => rfl) ?_ _
  exact (h.filter _).updateWhere (fun _ => rfl) fun _ => rfl

theorem applyOutcome_other (hd : d' ≠ d) :
    part EventRow.deviceID d' (applyOutcome d g outcome events) =
      part EventRow.deviceID d' events := by
  have hskip : ∀ (q : EventRow → Bool), ∀ e ∈ part EventRow.deviceID d' events,
      (isHeld d g e && q e) = false := fun q e he => by
    simp [isHeld, (mem_part.1 he).2, hd]
  refine run_invariant_all (retryEvent d g)
    (fun t => part EventRow.deviceID d' t = part EventRow.deviceID d' events) (fun t x ht => ?_) ?_ _
  · unfold retryEvent
    rw [part_updateWhere (f := retryRow x.2) fun _ => rfl, ht]
    exact updateWhere_eq_self (hskip fun e => e.id == x.1)
  unfold deferEvents retireEvents
  rw [part_updateWhere (f := deferRow outcome.deferredUntil) fun _ => rfl, part_deleteWhere,
    deleteWhere_eq_self (hskip fun e => decide (e.id ∈ outcome.sent ++ outcome.discarded))]
  exact updateWhere_eq_self (hskip fun e => decide (e.id ∈ outcome.deferred))

theorem applyOutcome_length : (part EventRow.deviceID d' (applyOutcome d g outcome events)).length ≤
    (part EventRow.deviceID d' events).length := by
  refine run_invariant_all (retryEvent d g)
    (fun t => (part EventRow.deviceID d' t).length ≤ (part EventRow.deviceID d' events).length)
    (fun t x ht => ?_) ?_ _
  · unfold retryEvent
    rw [part_updateWhere (f := retryRow x.2) fun _ => rfl, length_updateWhere]
    exact ht
  · unfold deferEvents retireEvents
    rw [part_updateWhere (f := deferRow outcome.deferredUntil) fun _ => rfl, length_updateWhere, part_deleteWhere]
    exact length_deleteWhere_le

theorem isHeld_iff {e : EventRow} :
    isHeld d g e = true ↔ e.deviceID = d ∧ e.deliveryGeneration = g := by
  simp [isHeld]

theorem Released.updateWhere {t : List EventRow} {q : EventRow → Bool} {f : EventRow → EventRow}
    (hf : ∀ e, (f e).id = e.id ∧ (f e).deviceID = e.deviceID ∧ (f e).expiresAt = e.expiresAt ∧
      (f e).deliveryGeneration = 0) (ht : ∀ e' ∈ t, ∃ e ∈ events, Released d g outcome e e') :
    ∀ e' ∈ updateWhere (fun e => isHeld d g e && q e) f t,
      ∃ e ∈ events, Released d g outcome e e' := by
  intro e'' he''
  obtain ⟨e', he', hrw⟩ := mem_updateWhere.1 he''
  obtain ⟨e, he, hrel⟩ := ht e' he'
  refine ⟨e, he, ?_⟩
  split at hrw
  · rename_i hsel
    subst hrw
    obtain ⟨hid, hdev, hexp, hgen⟩ := hf e'
    rw [Bool.and_eq_true, isHeld_iff] at hsel
    have hd : e.deviceID = d := hrel.deviceID ▸ hsel.1.1
    exact ⟨hid.trans hrel.id, hdev.trans hrel.deviceID, hexp.trans hrel.expiresAt, hrel.notRetired,
      .inr ⟨hd, hgen⟩⟩
  · exact hrw ▸ hrel

theorem applyOutcome_origin :
    ∀ e' ∈ applyOutcome d g outcome events, ∃ e ∈ events, Released d g outcome e e' := by
  refine run_invariant_all (retryEvent d g)
    (fun t => ∀ e' ∈ t, ∃ e ∈ events, Released d g outcome e e')
    (fun t x ht => Released.updateWhere (fun _ => ⟨rfl, rfl, rfl, rfl⟩) ht) ?_ _
  refine Released.updateWhere (fun _ => ⟨rfl, rfl, rfl, rfl⟩) fun e he => ?_
  obtain ⟨hmem, hkept⟩ := mem_deleteWhere.1 he
  refine ⟨e, hmem, rfl, rfl, rfl, fun hd hg hid => ?_, .inl rfl⟩
  rw [isHeld_iff.2 ⟨hd, hg⟩, Bool.true_and, decide_eq_false_iff_not] at hkept
  exact hkept hid

variable {states : List StateRow}

theorem releaseState_keyed (h : Keyed deviceID states) :
    Keyed deviceID (releaseState d g events states) := by
  unfold releaseState
  dsimp only
  split
  · exact h.filter _
  · exact h.updateWhere fun _ => rfl

theorem releaseState_other (hd : d' ≠ d) :
    rowOf deviceID d' (releaseState d g events states) =
      rowOf deviceID d' states := by
  unfold releaseState
  dsimp only
  split
  · refine rowOf_deleteWhere_other fun r _ hr => ?_
    simp [hr, hd]
  rename_i nextDue _
  rw [rowOf_updateWhere (f := releaseRow nextDue _) fun _ _ => rfl]
  cases hrow : rowOf deviceID d' states with
  | none => rfl
  | some r =>
    obtain ⟨-, hr⟩ := rowOf_mem hrow
    simp [hr, hd]

theorem releaseState_row (hkeyed : Keyed deviceID states)
    {r : StateRow} (hrow : rowOf deviceID d states = some r)
    (hg : r.deliveryGeneration = g) : (part EventRow.deviceID d events = [] ∧
        rowOf deviceID d (releaseState d g events states) = none) ∨
      (part EventRow.deviceID d events ≠ [] ∧
        ∃ r', rowOf deviceID d (releaseState d g events states) = some r' ∧
          r'.deliveryGeneration = g) := by
  obtain ⟨hr, hdev⟩ := rowOf_mem hrow
  unfold releaseState
  dsimp only
  split
  · rename_i hmin
    rw [min?_eq_none_iff, map_eq_nil_iff] at hmin
    refine .inl ⟨hmin, rowOf_deleteWhere_none fun x hx hxd => ?_⟩
    rw [hkeyed.eq hx hr (hxd.trans hdev.symm)]
    simp [hdev, hg]
  · rename_i nextDue hmin
    refine .inr ⟨fun hnil => by simp [hnil] at hmin, ?_⟩
    rw [rowOf_updateWhere (f := releaseRow nextDue _) fun _ _ => rfl, hrow]
    exact ⟨_, rfl, by simp [hdev, hg, releaseRow]⟩

/-- What a settlement that takes effect does to the store. -/
structure SettleEffect (s : Store) (d : String) (g : ℕ) (outcome : PushDigestSettlement)
    (s' : Store) : Prop where
  keyed : Keyed deviceID s'.states
  keys : EventKeys s'.events s'.nextID
  nextID : s'.nextID = s.nextID
  origin : ∀ e' ∈ s'.events, ∃ e ∈ s.events, Released d g outcome e e'
  row : (part EventRow.deviceID d s'.events = [] ∧ rowOf deviceID d s'.states = none) ∨
    ∃ r', rowOf deviceID d s'.states = some r' ∧ r'.deliveryGeneration = g
  otherRow : ∀ d' ≠ d, rowOf deviceID d' s'.states = rowOf deviceID d' s.states
  otherEvents : ∀ d' ≠ d, part EventRow.deviceID d' s'.events = part EventRow.deviceID d' s.events
  length_le : ∀ d', (part EventRow.deviceID d' s'.events).length ≤
    (part EventRow.deviceID d' s.events).length

theorem settleHeld_effect (hkeyed : Keyed deviceID s.states)
    (hkeys : EventKeys s.events s.nextID) (h : Settles s d g outcome now) :
    SettleEffect s d g outcome (settleHeld s d g outcome now) := by
  obtain ⟨r, hrow, hg⟩ := h.row
  refine ⟨releaseState_keyed hkeyed, (applyOutcome_keys hkeys).filter _, rfl, fun e' he' => ?_, ?_,
    fun d' hd => releaseState_other hd, fun d' hd => ?_, fun d' => ?_⟩
  · exact applyOutcome_origin e' (mem_deleteWhere.1 he').1
  · exact (releaseState_row hkeyed hrow hg).imp id And.right
  · unfold settleHeld
    rw [part_deleteWhere, applyOutcome_other hd]
    refine deleteWhere_eq_self fun e he => ?_
    simp [(mem_part.1 he).2, hd]
  · unfold settleHeld
    rw [part_deleteWhere]
    exact length_deleteWhere_le.trans applyOutcome_length

theorem SettleEffect.sent_gone {s' : Store} (heff : SettleEffect s d g outcome s')
    (hkeys : EventKeys s.events s.nextID) (h : Settles s d g outcome now) {id : ℕ}
    (hid : id ∈ outcome.sent) : id < s'.nextID ∧ ∀ e' ∈ s'.events, e'.id ≠ id := by
  have hheld : id ∈ heldIDs s d g := by
    refine h.exact.mem_iff.2 ?_
    simp [PushDigestSettlement.ids, hid]
  obtain ⟨e, he, rfl, hd, hg⟩ := mem_heldIDs.1 hheld
  refine ⟨heff.nextID ▸ hkeys.issued e he, fun e' he' heq => ?_⟩
  obtain ⟨e₀, he₀, hrel⟩ := heff.origin e' he'
  have hsame : e₀ = e := hkeys.ids.eq he₀ he (hrel.id.symm.trans heq)
  subst hsame
  exact hrel.notRetired hd hg (by simp [hid])

end

end LabTether.PushDigest
