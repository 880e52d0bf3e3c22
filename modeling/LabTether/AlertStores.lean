import LabTether.AlertRuns
import LabTether.Transition

/-!
The memory and the PostgreSQL store of alert instances and silences, given the same calls at the
same clock readings. Both write one kind of row; the database also checks its constraints. Times
have its resolution, an id is a primary key, and which rules it knows does not change here.
-/
namespace LabTether.AlertStores

open GoStrings Alerting Table Telemetry Transition List

structure AlertSilence where
  id : ℕ
  (startsAt endsAt : ℤ)

structure Store extends World where
  silences : List AlertSilence

open Store

inductive Op
  | tick (now : ℤ)
  | create (ruleID fingerprint : String) (labels : Labels)
  | list (ruleID : String) (status : Option InstanceStatus) (offset limit : ℤ)
  | updateStatus (id : ℕ) (status : InstanceStatus)
  | updateLastFired (id : ℕ)
  | delete (id : ℕ)
  | createSilence (startsAt endsAt : ℤ)
  | deleteSilence (id : ℕ)

/-- What a call answers: an error, or the instances it returns. -/
abbrev Answer := Except String (List AlertInstance)

/-- The instances that match the filter, the latest change first. -/
def matching (w : World) (ruleID : String) (status : Option InstanceStatus) : List AlertInstance :=
  (w.instances.filter fun i => (trimSpace ruleID == "" || i.ruleID == trimSpace ruleID) &&
    status.all (i.status == ·)).insertionSort updatedBefore

def pageLimit (limit : ℤ) : ℕ := (if limit ≤ 0 then 50 else min limit 500).toNat

/-- The page `ListAlertInstancesContext` of the memory store cuts out. -/
def cutPage (offset limit : ℤ) (out : List AlertInstance) : List AlertInstance :=
  if 0 < offset ∧ out.length ≤ offset then []
  else if pageLimit limit < (out.drop offset.toNat).length then
    (out.drop offset.toNat).take (pageLimit limit)
  else out.drop offset.toNat

/-- A call on the instances. -/
def Store.answer {α : Type} (s : Store) (shown : α → List AlertInstance)
    (r : Except String α × World) : Answer × Store :=
  (r.1.map shown, { s with toWorld := r.2 })

/-- A DELETE by id, which fails if there is no such row. -/
def remove {α : Type} (missing : String) (id : α → ℕ) (gone : ℕ) (rows : List α)
    (put : List α → Store) (s : Store) : Answer × Store :=
  if rows.any (id · == gone) then (.ok [], put (deleteWhere (id · == gone) rows))
  else (.error missing, s)

variable (H : Sha256) (known : String → Bool) (s : Store)

def memory : Op → Answer × Store
  | .tick now => (.ok [], { s with clock := now })
  | .create ruleID fingerprint labels =>
    s.answer ([·]) (createAlertInstance H ruleID fingerprint labels s.toWorld)
  | .list ruleID status offset limit =>
    (.ok (cutPage offset limit (matching s.toWorld ruleID status)), s)
  | .updateStatus id status => s.answer ([·]) (updateAlertInstanceStatus id status s.toWorld)
  | .updateLastFired id => s.answer (fun _ => []) (updateAlertInstanceLastFired id s.toWorld)
  | .delete id =>
    remove "alert instance not found" AlertInstance.id id s.instances ({ s with instances := · }) s
  | .createSilence startsAt endsAt =>
    (.ok [], { s with silences := ⟨s.nextID, startsAt, endsAt⟩ :: s.silences, nextID := s.nextID + 1 })
  | .deleteSilence id =>
    remove "alert silence not found" AlertSilence.id id s.silences ({ s with silences := · }) s

/-- The UPDATE of `UpdateAlertInstanceStatusContext`. -/
def sqlMoveStatus (now : ℤ) (status : InstanceStatus) (i : AlertInstance) : AlertInstance :=
  let fires := i.status = .pending ∧ status = .firing
  { i with
    status := status
    updatedAt := now
    resolvedAt := if status = .resolved then some (i.resolvedAt.getD now) else i.resolvedAt
    firstFiredAt := if fires then some (i.firstFiredAt.getD now) else i.firstFiredAt
    lastFiredAt := if fires then now else i.lastFiredAt }

/-- The foreign key to the rules and the unique index over the active instances. -/
def admits (w : World) (ruleID fingerprint : String) (labels : Labels) : Bool :=
  (createAlertInstance H ruleID fingerprint labels w).1.toOption.any fun inst =>
    known inst.ruleID && !w.instances.any fun i => pairOf i == pairOf inst && isActive i

def postgres : Op → Answer × Store
  | .create ruleID fingerprint labels =>
    if admits H known s.toWorld ruleID fingerprint labels = false then (.error "constraint", s)
    else memory H s (.create ruleID fingerprint labels)
  | .list ruleID status offset limit =>
    (.ok (((matching s.toWorld ruleID status).drop offset.toNat).take (pageLimit limit)), s)
  | .updateStatus id status =>
    match instanceOf id s.toWorld with
    | none => (.error "alert instance not found", s)
    | some i =>
      if canTransitionInstanceStatus i.status status = false then
        (.error ("cannot transition alert instance from " ++ statusText i.status ++ " to " ++
          statusText status), s)
      else if i.status = status then (.ok [i], s)
      else (.ok [sqlMoveStatus s.clock status i],
        { s with toWorld := putInstance (sqlMoveStatus s.clock status i) s.toWorld })
  -- an UPDATE that finds no row is no error
  | .updateLastFired id =>
    (.ok [], { s with toWorld := (updateAlertInstanceLastFired id s.toWorld).2 })
  | .createSilence startsAt endsAt =>
    if endsAt ≤ startsAt then (.error "constraint", s)
    else memory H s (.createSilence startsAt endsAt)
  | op => memory H s op

def memoryActive : List AlertSilence :=
  s.silences.filter fun x => !(decide (s.clock < x.startsAt) || decide (x.endsAt < s.clock))

def postgresActive : List AlertSilence :=
  s.silences.filter fun x => decide (x.startsAt ≤ s.clock) && decide (s.clock < x.endsAt)

/-- The two stores, with the answers to the last call. -/
structure Both where
  (memory postgres : Store)
  answers : Answer × Answer

def start (clock : ℤ) : Both := ⟨⟨.start clock, []⟩, ⟨.start clock, []⟩, .ok [], .ok []⟩

def step (b : Both) (op : Op) : Both :=
  ⟨(memory H b.memory op).2, (postgres H known b.postgres op).2,
    (memory H b.memory op).1, (postgres H known b.postgres op).1⟩

/-- The calls agree, and so do the instances and the silences that are active now. -/
def Alike (b : Both) : Prop :=
  b.answers.1.toOption = b.answers.2.toOption ∧ b.memory.instances = b.postgres.instances ∧
    memoryActive b.memory = postgresActive b.postgres

/-- The database takes the row, the row to touch exists, and no silence ends at this instant. -/
def Agreeable : Op → Prop
  | .tick now => ∀ x ∈ s.silences, x.endsAt ≠ now
  | .create ruleID fingerprint labels => admits H known s.toWorld ruleID fingerprint labels ≠ false
  | .updateLastFired id => instanceOf id s.toWorld ≠ none
  | .createSilence startsAt endsAt => ¬ endsAt ≤ startsAt ∧ endsAt ≠ s.clock
  | _ => True

structure Inv (s : Store) : Prop where
  unfired : ∀ i ∈ s.instances, i.status = .pending → i.firstFiredAt = none
  silences : ∀ x ∈ s.silences, ¬ x.endsAt ≤ x.startsAt ∧ x.endsAt ≠ s.clock

variable {H known} {s : Store} {op : Op}

/-- A silence that ends now is active in the memory store only. -/
theorem active_iff (h : ∀ x ∈ s.silences, ¬ x.endsAt ≤ x.startsAt) :
    memoryActive s = postgresActive s ↔ ∀ x ∈ s.silences, x.endsAt ≠ s.clock := by
  constructor
  · intro heq x hx hend
    have hlong := h x hx
    have hactive : x ∈ memoryActive s := mem_filter.2 ⟨hx, by simp; omega⟩
    rw [heq] at hactive
    have := (mem_filter.1 hactive).2
    simp at this
    omega
  · intro hne
    refine filter_congr fun x hx => ?_
    have := hne x hx
    rw [Bool.eq_iff_iff]
    simp
    omega

theorem cutPage_eq (offset limit : ℤ) (out : List AlertInstance) :
    cutPage offset limit out = (out.drop offset.toNat).take (pageLimit limit) := by
  unfold cutPage
  split
  · rw [drop_of_length_le (by omega), take_nil]
  split
  · rfl
  · rw [take_of_length_le (by omega)]

variable {i : AlertInstance}

theorem sqlMoveStatus_eq (h : i.status = .pending → i.firstFiredAt = none) (now : ℤ)
    (status : InstanceStatus) : sqlMoveStatus now status i = moveStatus now status i := by
  unfold sqlMoveStatus moveStatus
  cases hr : i.resolvedAt <;> by_cases hp : i.status = .pending
  all_goals simp_all

theorem postgres_eq (hs : Inv s) (h : Agreeable H known s op) :
    (memory H s op).1.toOption = (postgres H known s op).1.toOption ∧
      (memory H s op).2 = (postgres H known s op).2 := by
  cases op with
  | create ruleID fingerprint labels =>
    rw [postgres, if_neg h]
    exact ⟨rfl, rfl⟩
  | createSilence startsAt endsAt =>
    rw [postgres, if_neg h.1]
    exact ⟨rfl, rfl⟩
  | list ruleID status offset limit =>
    rw [memory, postgres, cutPage_eq]
    exact ⟨rfl, rfl⟩
  | updateLastFired id =>
    obtain ⟨i, hi⟩ := Option.ne_none_iff_exists'.1 h
    simp [postgres, memory, answer, updateAlertInstanceLastFired, hi, Except.map]
  | updateStatus id status =>
    simp only [postgres, memory, answer, updateAlertInstanceStatus]
    rcases hi : instanceOf id s.toWorld with _ | i
    · exact ⟨rfl, rfl⟩
    dsimp only
    rw [sqlMoveStatus_eq (hs.unfired i (instanceOf_mem hi).1)]
    split
    · exact ⟨rfl, rfl⟩
    split <;> exact ⟨rfl, rfl⟩
  | tick | delete | deleteSilence => exact ⟨rfl, rfl⟩

theorem Inv.put (hs : Inv s) (hi : i.status = .pending → i.firstFiredAt = none) :
    Inv { s with toWorld := putInstance i s.toWorld } := by
  refine ⟨fun j hj => ?_, hs.silences⟩
  obtain ⟨r, hr, rfl⟩ := mem_updateWhere.1 hj
  split
  · exact hi
  · exact hs.unfired r hr

theorem Inv.step (hs : Inv s) (h : Agreeable H known s op) : Inv (memory H s op).2 := by
  fun_cases memory H s op
  case case1 => exact ⟨hs.unfired, fun x hx => ⟨(hs.silences x hx).1, h x hx⟩⟩
  case case2 =>
    exact ⟨forall_mem_append.2 ⟨hs.unfired, forall_mem_singleton.2 fun _ => rfl⟩, hs.silences⟩
  case case3 => exact hs
  case case4 id status =>
    fun_cases updateAlertInstanceStatus id status s.toWorld
    case case4 i hi hcan hne =>
      refine hs.put fun hp => ?_
      cases hst : i.status <;> simp_all [canTransitionInstanceStatus, moveStatus]
    all_goals exact hs
  case case5 id =>
    fun_cases updateAlertInstanceLastFired id s.toWorld
    case case2 i hi => exact hs.put (hs.unfired i (instanceOf_mem hi).1)
    · exact hs
  case case6 =>
    fun_cases remove
    · exact ⟨fun i hi => hs.unfired i (mem_deleteWhere.1 hi).1, hs.silences⟩
    · exact hs
  case case7 => exact ⟨hs.unfired, forall_mem_cons.2 ⟨h, hs.silences⟩⟩
  case case8 =>
    fun_cases remove
    · exact ⟨hs.unfired, fun x hx => hs.silences x (mem_deleteWhere.1 hx).1⟩
    · exact hs

theorem agreeable_of_alike (hs : Inv s) {answers : Answer × Answer}
    (h : Alike (step H known ⟨s, s, answers⟩ op)) : Agreeable H known s op := by
  obtain ⟨hanswer, -, hactive⟩ := h
  cases op with
  | tick now =>
    exact (active_iff (s := { s with clock := now }) fun x hx => (hs.silences x hx).1).1 hactive
  | create ruleID fingerprint labels =>
    intro hno
    rw [step, postgres, if_pos hno] at hanswer
    cases hanswer
  | updateLastFired id =>
    intro hno
    simp [step, postgres, memory, answer, updateAlertInstanceLastFired, hno, Except.map,
      Except.toOption] at hanswer
  | createSilence startsAt endsAt =>
    have hlt : ¬ endsAt ≤ startsAt := by
      intro hle
      rw [step, postgres, if_pos hle] at hanswer
      cases hanswer
    rw [step, postgres, if_neg hlt] at hactive
    have hnext := active_iff (s := (memory H s (.createSilence startsAt endsAt)).2)
      (forall_mem_cons.2 ⟨hlt, fun x hx => (hs.silences x hx).1⟩)
    exact ⟨hlt, hnext.1 hactive _ (.head _)⟩
  | updateStatus | list | delete | deleteSilence => exact trivial

/-- The two stores agree along a run exactly if the database admits every new row, only existing
instances are touched as fired, and no clock reading is the end of a silence. -/
theorem alert_stores_agree_iff (H : Sha256) (known : String → Bool) (clock : ℤ) (ops : List Op) :
    AllStates (step H known) Alike (start clock) ops ↔
      StepsMeet (step H known) (fun b => Agreeable H known b.memory) (start clock) ops := by
  refine allStates_iff_of_inv (I := fun b => Alike b → b.memory = b.postgres ∧ Inv b.memory)
    (fun b op hI hb => ?_) (fun _ => ⟨rfl, nofun, nofun⟩) ⟨rfl, rfl, rfl⟩
  obtain ⟨s, p, answers⟩ := b
  obtain ⟨(rfl : s = p), hs⟩ := hI hb
  refine ⟨fun hnext => ?_, agreeable_of_alike hs, fun h => ?_⟩
  · have h := agreeable_of_alike hs hnext
    exact ⟨(postgres_eq hs h).2, hs.step h⟩
  · obtain ⟨hanswer, hstore⟩ := postgres_eq hs h
    have hinv := hs.step h
    have hactive := (active_iff fun x hx => (hinv.silences x hx).1).2
      fun x hx => (hinv.silences x hx).2
    exact ⟨hanswer, congrArg (fun s : Store => s.instances) hstore,
      hactive.trans (congrArg postgresActive hstore)⟩

theorem silence_at_its_end : ¬ AllStates (step sampleHash fun _ => true) Alike (start 0)
    [.createSilence 0 5, .tick 5] := by
  intro h
  have hactive := h.last.2.2
  simp [run, step, start, memory, postgres, memoryActive, postgresActive] at hactive

end LabTether.AlertStores
