import LabTether.PushDigest
import LabTether.Transaction

/-!
What an enqueue does to the tables of the push digest: a device's state row keeps its claim,
expired events of the batch's devices go, and the new rows have new ids, no holder and a
dedupe key of their own. The loop over the batch counts every event once and never lets a
device pass its bound.
-/
namespace LabTether.PushDigest

open GoStrings Table Transaction Transition List Function StateRow

section

variable {now : ℤ} {e e' : PushDigestEnqueue} {raw events : List PushDigestEnqueue}

theorem normalizePushDigestEnqueue_device (h : normalizePushDigestEnqueue now e = .ok e') :
    trimSpace e'.deviceID ≠ "" := by
  simp only [normalizePushDigestEnqueue] at h
  split_ifs at h with h₁ h₂ h₃ h₄ h₅ h₆ h₇
  all_goals
    cases h
    rw [trimSpace_trimSpace]
    exact fun hd => h₂ (.inl hd)

theorem prepareEnqueue_eq_ok (h : prepareEnqueue now raw = .ok events) :
    events.length = raw.length ∧ ∀ e ∈ events, trimSpace e.deviceID ≠ "" := by
  unfold prepareEnqueue at h
  split at h
  · cases h
  obtain ⟨normalized, hmap, hsort⟩ := bind_eq_ok.1 h
  obtain rfl : normalized.insertionSort enqueueBefore = events := Except.ok.inj hsort
  obtain ⟨hmapped, hall⟩ := mapM_eq_ok hmap
  have hperm := perm_insertionSort enqueueBefore normalized
  refine ⟨by rw [hperm.length_eq, hmapped, length_map], fun e he => ?_⟩
  have hmem : e ∈ normalized := hperm.mem_iff.1 he
  rw [hmapped] at hmem
  obtain ⟨e₀, he₀, rfl⟩ := mem_map.1 hmem
  obtain ⟨e₁, h₁⟩ := hall e₀ he₀
  rw [h₁]
  exact normalizePushDigestEnqueue_device h₁

variable {d : String} {states : List StateRow} {batch : List PushDigestEnqueue}

/-- The device, generation and lease of a state row. -/
def SameClaim (r r' : StateRow) : Prop :=
  r'.deviceID = r.deviceID ∧ r'.deliveryGeneration = r.deliveryGeneration ∧
    r'.leaseExpiresAt = r.leaseExpiresAt

theorem SameClaim.trans {r₁ r₂ r₃ : StateRow} (h : SameClaim r₁ r₂) (h' : SameClaim r₂ r₃) :
    SameClaim r₁ r₃ :=
  ⟨h'.1.trans h.1, h'.2.1.trans h.2.1, h'.2.2.trans h.2.2⟩

theorem upsertState_some {r : StateRow} (h : rowOf deviceID d states = some r) :
    ∃ r', rowOf deviceID d (upsertState states e) = some r' ∧ SameClaim r r' := by
  unfold upsertState
  split
  · rw [rowOf_updateWhere (f := refreshState e) (fun _ _ => rfl), h]
    refine ⟨_, rfl, ?_⟩
    by_cases hp : r.deviceID == e.deviceID <;> simp [hp, SameClaim, refreshState]
  · rw [rowOf_append, h]
    exact ⟨r, rfl, rfl, rfl, rfl⟩

theorem upsertState_none (h : rowOf deviceID d states = none) :
    rowOf deviceID d (upsertState states e) = none ∨
      ∃ r, rowOf deviceID d (upsertState states e) = some r ∧
        r.deliveryGeneration = 0 := by
  unfold upsertState
  split
  · rw [rowOf_updateWhere (f := refreshState e) (fun _ _ => rfl), h]
    exact .inl rfl
  rw [rowOf_append, h]
  by_cases hd : e.deviceID = d
  · exact .inr ⟨newStateRow e, by simp [newStateRow, hd], rfl⟩
  · exact .inl (by simp [newStateRow, hd])

theorem mem_devices_upsertState {x : String} : x ∈ (upsertState states e).map deviceID ↔
      x ∈ states.map deviceID ∨ x = e.deviceID := by
  unfold upsertState
  split
  · rename_i he
    rw [keys_updateWhere (f := refreshState e) fun _ => rfl]
    exact ⟨Or.inl, fun h => h.elim id fun h => h ▸ he⟩
  · simp [newStateRow, eq_comm]

theorem upsertState_keyed (h : Keyed deviceID states) :
    Keyed deviceID (upsertState states e) := by
  unfold upsertState
  split
  · exact h.updateWhere fun _ => rfl
  · rename_i he
    exact h.append he

theorem upsertStates_some (batch : List PushDigestEnqueue) {r : StateRow}
    (h : rowOf deviceID d states = some r) :
    ∃ r', rowOf deviceID d (batch.foldl upsertState states) = some r' ∧
      SameClaim r r' := by
  induction batch generalizing states r with
  | nil => exact ⟨r, h, rfl, rfl, rfl⟩
  | cons e batch ih =>
    obtain ⟨r₁, h₁, hsame₁⟩ := upsertState_some (e := e) h
    obtain ⟨r₂, h₂, hsame₂⟩ := ih h₁
    exact ⟨r₂, h₂, hsame₁.trans hsame₂⟩

theorem upsertStates_none (batch : List PushDigestEnqueue)
    (h : rowOf deviceID d states = none) :
    rowOf deviceID d (batch.foldl upsertState states) = none ∨
      ∃ r, rowOf deviceID d (batch.foldl upsertState states) = some r ∧
        r.deliveryGeneration = 0 := by
  induction batch generalizing states with
  | nil => exact .inl h
  | cons e batch ih =>
    rcases upsertState_none (e := e) h with h₁ | ⟨r, h₁, hr⟩
    · exact ih h₁
    · obtain ⟨r', h', hsame⟩ := upsertStates_some batch h₁
      exact .inr ⟨r', h', hsame.2.1.trans hr⟩

theorem mem_devices_upsertStates {x : String} :
    x ∈ (batch.foldl upsertState states).map deviceID ↔
      x ∈ states.map deviceID ∨ x ∈ batch.map PushDigestEnqueue.deviceID := by
  induction batch generalizing states with
  | nil => simp
  | cons e batch ih => rw [foldl_cons, ih, mem_devices_upsertState, map_cons, mem_cons, or_assoc]

theorem upsertStates_keyed (h : Keyed deviceID states) :
    Keyed deviceID (batch.foldl upsertState states) :=
  run_invariant_all upsertState (Keyed deviceID) (fun _ _ h => upsertState_keyed h) h batch

end

section

variable {d : String} {t stored : List EventRow} {batch : List PushDigestEnqueue}

/-- A stored event that some event of the batch finds expired on its device. -/
def isPruned (batch : List PushDigestEnqueue) (r : EventRow) : Bool :=
  batch.any fun e => r.deviceID == e.deviceID && decide (r.expiresAt ≤ e.createdAt)

theorem pruneExpired_batch : batch.foldl pruneExpired t = deleteWhere (isPruned batch) t := by
  induction batch generalizing t with
  | nil => simp [deleteWhere, isPruned]
  | cons e batch ih =>
    rw [foldl_cons, ih]
    simp only [pruneExpired, deleteWhere, filter_filter]
    refine filter_congr fun r _ => ?_
    simp only [isPruned, any_cons, Bool.not_or]
    exact Bool.and_comm _ _

/-- The events of one device in a list of new events. -/
def countFor (d : String) (l : List PushDigestEnqueue) : ℕ :=
  (l.filter fun e => decide (e.deviceID = d)).length

theorem countFor_append_singleton (l : List PushDigestEnqueue) (e : PushDigestEnqueue) :
    countFor d (l ++ [e]) = countFor d l + if e.deviceID = d then 1 else 0 := by
  by_cases h : e.deviceID = d <;> simp [countFor, h]

/-- What the admission loop keeps: the room noted for a device is what the stored and the
queued events leave, and queued events fit. -/
structure IntakeFits (stored : List EventRow) (st : Intake) : Prop where
  unmet : ∀ d, st.availableByDevice d = none → countFor d st.toInsert = 0
  room : ∀ d a, st.availableByDevice d = some a →
    a + (part EventRow.deviceID d stored).length + countFor d st.toInsert =
      maxPushDigestEventsPerDevice
  fits : ∀ d, countFor d st.toInsert = 0 ∨
    (part EventRow.deviceID d stored).length + countFor d st.toInsert ≤ maxPushDigestEventsPerDevice

theorem IntakeFits.start : IntakeFits stored Intake.start :=
  ⟨fun _ _ => rfl, fun _ _ h => (Option.some_ne_none _ h.symm).elim, fun _ => .inl rfl⟩

def roomFor (stored : List EventRow) (st : Intake) (d : String) : ℤ :=
  (st.availableByDevice d).getD
    (maxPushDigestEventsPerDevice - (part EventRow.deviceID d stored).length)

variable {st : Intake} {e : PushDigestEnqueue}

section

variable (h : IntakeFits stored st)
include h

theorem IntakeFits.roomFor_eq (d : String) :
    roomFor stored st d + (part EventRow.deviceID d stored).length + countFor d st.toInsert =
      maxPushDigestEventsPerDevice := by
  unfold roomFor
  cases ha : st.availableByDevice d with
  | none =>
    have := h.unmet d ha
    simp only [Option.getD_none]
    omega
  | some a => exact h.room d a ha

theorem IntakeFits.note (d : String) : IntakeFits stored { st with
      availableByDevice := update st.availableByDevice d (some (roomFor stored st d)) } := by
  refine ⟨fun x hx => ?_, fun x a hx => ?_, h.fits⟩
  · by_cases hxd : x = d
    · simp [hxd] at hx
    · exact h.unmet x (by simpa [hxd] using hx)
  by_cases hxd : x = d
  · subst hxd
    obtain rfl : roomFor stored st x = a := by simpa using hx
    exact h.roomFor_eq x
  · exact h.room x a (by simpa [hxd] using hx)

theorem IntakeFits.queue (hroom : 0 < roomFor stored st e.deviceID)
    (keys : List (String × String)) :
    IntakeFits stored { st with
      queuedKeys := keys
      availableByDevice :=
        update (update st.availableByDevice e.deviceID
          (some (roomFor stored st e.deviceID))) e.deviceID
          (some (roomFor stored st e.deviceID - 1))
      toInsert := st.toInsert ++ [e] } := by
  have heq := h.roomFor_eq e.deviceID
  rw [update_idem]
  refine ⟨fun x hx => ?_, fun x a hx => ?_, fun x => ?_⟩ <;>
    simp [countFor_append_singleton] <;> by_cases hxd : e.deviceID = x
  · subst hxd
    simp at hx
  · have := h.unmet x (by simpa [Ne.symm hxd] using hx)
    simp [hxd, this]
  · subst hxd
    obtain rfl : roomFor stored st e.deviceID - 1 = a := by simpa using hx
    simp only [if_pos]
    omega
  · have := h.room x a (by simpa [Ne.symm hxd] using hx)
    simpa [hxd] using this
  · subst hxd
    simp only [if_pos]
    omega
  · simpa [hxd] using h.fits x

theorem admitEvent_fits : IntakeFits stored (admitEvent stored st e) := by
  have hnote := h.note e.deviceID
  simp only [admitEvent]
  iterate 3
    split
    · exact { hnote with }
  · rename_i hroom
    exact h.queue (not_le.1 hroom) _

end

/-- Every event that the loop has seen was queued, dropped or found twice. -/
def Intake.seen (st : Intake) : ℕ := st.toInsert.length + st.duplicates + st.dropped

theorem admitEvent_seen : (admitEvent stored st e).seen = st.seen + 1 := by
  simp only [admitEvent]
  iterate 3
    split
    · simp only [Intake.seen]
      omega
  · simp only [Intake.seen, length_append, length_singleton]
    omega

variable {x : PushDigestEnqueue}

theorem admitEvent_toInsert (hx : x ∈ (admitEvent stored st e).toInsert) :
    x ∈ st.toInsert ∨ x = e := by
  simp only [admitEvent] at hx
  iterate 3
    split at hx
    · exact .inl hx
  · simpa using hx

theorem admit_fits (batch : List PushDigestEnqueue) :
    IntakeFits stored (batch.foldl (admitEvent stored) Intake.start) :=
  run_invariant_all (admitEvent stored) (IntakeFits stored) (fun _ _ h => admitEvent_fits h)
    IntakeFits.start batch

theorem admit_seen (batch : List PushDigestEnqueue) :
    (batch.foldl (admitEvent stored) st).seen = st.seen + batch.length := by
  induction batch generalizing st with
  | nil => rfl
  | cons e batch ih =>
    rw [foldl_cons, ih, admitEvent_seen, length_cons]
    omega

theorem admit_toInsert (hx : x ∈ (batch.foldl (admitEvent stored) Intake.start).toInsert) :
    x ∈ batch := by
  refine run_invariant (admitEvent stored) (fun st => x ∈ st.toInsert → x ∈ batch)
    (fun st e (he : e ∈ batch) ih hx => ?_) (fun h => ?_) (fun _ h => h) hx
  · rcases admitEvent_toInsert hx with h | rfl
    · exact ih h
    · exact he
  · cases h

end

section

variable {d : String} {st : Inserts} {e : PushDigestEnqueue} {l : List PushDigestEnqueue}

/-- Device and dedupe key, the columns of the unique constraint. -/
def EventRow.uniqueKey (r : EventRow) : String × String := (r.deviceID, r.dedupeKey)

structure EventKeys (events : List EventRow) (nextID : ℕ) : Prop where
  ids : Keyed (fun r : EventRow => r.id) events
  issued : ∀ r ∈ events, r.id < nextID
  unique : Keyed EventRow.uniqueKey events

variable {events : List EventRow}

theorem EventKeys.mono {n m : ℕ} (h : EventKeys events n) (hnm : n ≤ m) : EventKeys events m :=
  ⟨h.ids, fun r hr => (h.issued r hr).trans_le hnm, h.unique⟩

theorem EventKeys.filter {n : ℕ} (h : EventKeys events n)
    (p : EventRow → Bool) : EventKeys (events.filter p) n :=
  ⟨h.ids.filter p, fun r hr => h.issued r (mem_filter.1 hr).1, h.unique.filter p⟩

theorem EventKeys.updateWhere {n : ℕ} {p : EventRow → Bool}
    {f : EventRow → EventRow} (h : EventKeys events n) (hid : ∀ r, (f r).id = r.id)
    (hkey : ∀ r, (f r).uniqueKey = r.uniqueKey) : EventKeys (updateWhere p f events) n := by
  refine ⟨h.ids.updateWhere hid, fun r' hr' => ?_, h.unique.updateWhere hkey⟩
  obtain ⟨r, hr, rfl⟩ := mem_updateWhere.1 hr'
  have := h.issued r hr
  split
  · rw [hid]
    exact this
  · exact this

theorem insertEvent_keys (h : EventKeys st.events st.nextID) :
    EventKeys (insertEvent st e).events (insertEvent st e).nextID := by
  unfold insertEvent
  split
  · exact h.mono (Nat.le_succ _)
  rename_i hfree
  have hnew : (newEventRow st.nextID e).uniqueKey ∉ st.events.map EventRow.uniqueKey := by
    intro hmem
    obtain ⟨r, hr, hk⟩ := mem_map.1 hmem
    obtain ⟨hdev, hkey⟩ := Prod.ext_iff.1 hk
    refine hfree (any_eq_true.2 ⟨r, hr, ?_⟩)
    simpa [newEventRow, EventRow.uniqueKey] using ⟨hdev, hkey⟩
  refine ⟨h.ids.append fun hmem => ?_, ?_, h.unique.append hnew⟩
  · obtain ⟨r, hr, hid⟩ := mem_map.1 hmem
    exact (h.issued r hr).ne hid
  · exact forall_mem_append.2 ⟨fun r hr => Nat.lt_succ_of_lt (h.issued r hr),
      forall_mem_singleton.2 (Nat.lt_succ_self _)⟩

variable (l : List PushDigestEnqueue)

theorem inserts_append (st : Inserts) : ∃ new, (l.foldl insertEvent st).events = st.events ++ new ∧
      st.nextID ≤ (l.foldl insertEvent st).nextID ∧
      ∀ r ∈ new, st.nextID ≤ r.id ∧ r.deliveryGeneration = 0 ∧
        r.deviceID ∈ l.map PushDigestEnqueue.deviceID := by
  induction l generalizing st with
  | nil => exact ⟨[], by simp, le_rfl, by simp⟩
  | cons e l ih =>
    obtain ⟨new, hnew, hle, hrows⟩ := ih (insertEvent st e)
    have hstep : st.nextID + 1 = (insertEvent st e).nextID := by
      unfold insertEvent
      split <;> rfl
    have hold : ∀ r ∈ new, st.nextID ≤ r.id ∧ r.deliveryGeneration = 0 ∧
        r.deviceID ∈ (e :: l).map PushDigestEnqueue.deviceID := fun r hr => by
      obtain ⟨hid, hgen, hdev⟩ := hrows r hr
      exact ⟨by omega, hgen, .tail _ hdev⟩
    rw [foldl_cons]
    by_cases hdup : st.events.any fun r => r.deviceID == e.deviceID && r.dedupeKey == e.dedupeKey
    · refine ⟨new, ?_, by omega, hold⟩
      rw [hnew, insertEvent, if_pos hdup]
    refine ⟨newEventRow st.nextID e :: new, ?_, by omega, ?_⟩
    · rw [hnew, insertEvent, if_neg hdup, append_assoc, singleton_append]
    · exact forall_mem_cons.2 ⟨⟨le_rfl, rfl, .head _⟩, hold⟩

theorem inserts_keys (h : EventKeys st.events st.nextID) :
    EventKeys (l.foldl insertEvent st).events (l.foldl insertEvent st).nextID :=
  run_invariant_all insertEvent (fun st => EventKeys st.events st.nextID)
    (fun _ _ h => insertEvent_keys h) h l

theorem inserts_length (st : Inserts) :
    (part EventRow.deviceID d (l.foldl insertEvent st).events).length ≤
      (part EventRow.deviceID d st.events).length + countFor d l := by
  induction l generalizing st with
  | nil => exact le_rfl
  | cons e l ih =>
    have hone : (part EventRow.deviceID d (insertEvent st e).events).length ≤
        (part EventRow.deviceID d st.events).length + countFor d [e] := by
      unfold insertEvent
      split
      · exact Nat.le_add_right _ _
      · by_cases hd : e.deviceID = d <;> simp [countFor, part, newEventRow, hd]
    have hcount : countFor d (e :: l) = countFor d [e] + countFor d l := by
      by_cases hd : e.deviceID = d <;> simp [countFor, hd, Nat.add_comm]
    have := ih (insertEvent st e)
    rw [foldl_cons]
    omega

theorem inserts_counted (st : Inserts) :
    (l.foldl insertEvent st).inserted + (l.foldl insertEvent st).duplicates =
      st.inserted + st.duplicates + l.length := by
  induction l generalizing st with
  | nil => rfl
  | cons e l ih =>
    have hone : (insertEvent st e).inserted + (insertEvent st e).duplicates =
        st.inserted + st.duplicates + 1 := by
      unfold insertEvent
      split <;> simp only <;> omega
    rw [foldl_cons, ih, hone, length_cons]
    omega

end

section

variable {s s' : Store} {now : ℤ} {raw batch : List PushDigestEnqueue}
  {result : PushDigestEnqueueResult}

/-- All that an enqueue of a batch does to the store. -/
structure EnqueueEffect (s : Store) (batch : List PushDigestEnqueue) (s' : Store) : Prop where
  states : s'.states = batch.foldl upsertState s.states
  events : ∃ new, s'.events = deleteWhere (isPruned batch) s.events ++ new ∧
    ∀ r ∈ new, s.nextID ≤ r.id ∧ r.deliveryGeneration = 0 ∧
      r.deviceID ∈ batch.map PushDigestEnqueue.deviceID
  nextID : s.nextID ≤ s'.nextID
  keys : EventKeys s.events s.nextID → EventKeys s'.events s'.nextID
  bounded : ∀ d, (part EventRow.deviceID d s.events).length ≤ maxPushDigestEventsPerDevice →
    (part EventRow.deviceID d s'.events).length ≤ maxPushDigestEventsPerDevice

theorem enqueueBatch_effect (s : Store) (batch : List PushDigestEnqueue) :
    EnqueueEffect s batch (enqueueBatch s batch).2 := by
  simp only [enqueueBatch, pruneExpired_batch]
  set stored := deleteWhere (isPruned batch) s.events with hstored
  set intake := batch.foldl (admitEvent stored) Intake.start with hintake
  let start : Inserts := ⟨stored, s.nextID, 0, intake.duplicates⟩
  obtain ⟨new, hnew, hle, hrows⟩ := inserts_append intake.toInsert start
  refine ⟨rfl, ⟨new, hnew, fun r hr => ?_⟩, hle, fun hkeys => ?_, fun d hd => ?_⟩
  · obtain ⟨hid, hgen, hdev⟩ := hrows r hr
    obtain ⟨e, he, hed⟩ := mem_map.1 hdev
    exact ⟨hid, hgen, hed ▸ mem_map_of_mem (admit_toInsert he)⟩
  · have hstart : EventKeys start.events start.nextID := hkeys.filter _
    exact inserts_keys intake.toInsert hstart
  have hlen : (part EventRow.deviceID d stored).length ≤
      (part EventRow.deviceID d s.events).length := by
    rw [hstored, part_deleteWhere]
    exact length_filter_le _ _
  have hins := inserts_length (d := d) intake.toInsert start
  have hfits : IntakeFits stored intake := admit_fits batch
  rcases hfits.fits d with hzero | hroom
  · rw [hzero] at hins
    exact hins.trans (hlen.trans hd)
  · exact hins.trans hroom

variable (h : enqueuePushDigestEvents s now raw = .ok (result, s'))
include h

theorem enqueuePushDigestEvents_eq_ok :
    (raw = [] ∧ result = ⟨0, 0, 0, []⟩ ∧ s' = s) ∨
      ∃ batch, prepareEnqueue now raw = .ok batch ∧ enqueueBatch s batch = (result, s') := by
  unfold enqueuePushDigestEvents at h
  split at h
  · rename_i hraw
    cases h
    exact .inl ⟨hraw, rfl, rfl⟩
  · obtain ⟨batch, hprep, hbatch⟩ := bind_eq_ok.1 h
    exact .inr ⟨batch, hprep, Except.ok.inj hbatch⟩

theorem enqueuePushDigestEvents_counted :
    result.inserted + result.duplicates + result.dropped = raw.length := by
  rcases enqueuePushDigestEvents_eq_ok h with ⟨rfl, rfl, -⟩ | ⟨batch, hprep, hbatch⟩
  · rfl
  obtain ⟨hlen, -⟩ := prepareEnqueue_eq_ok hprep
  obtain rfl : (enqueueBatch s batch).1 = result := congrArg Prod.fst hbatch
  simp only [enqueueBatch]
  set intake := batch.foldl (admitEvent (batch.foldl pruneExpired s.events)) Intake.start
  have hseen : intake.seen = 0 + batch.length := admit_seen batch
  have hins := inserts_counted intake.toInsert
    ⟨batch.foldl pruneExpired s.events, s.nextID, 0, intake.duplicates⟩
  simp only [Intake.seen] at hseen hins
  omega

end

end LabTether.PushDigest
