import LabTether.RecordStore
import LabTether.TableParts
import LabTether.Pool

/-!
The capacity of the schedule store (`postgres_schedules.go`). A creation takes the advisory
lock, counts and inserts; updates and deletions are single statements that do not take the lock.
Any number of requests run at once, and one may break off between two statements, which rolls
its transaction back. The inserted row is not visible before the commit, and only the holder of
the lock inserts, so INSERT and COMMIT are one step. For which principal the holder of the lock
has found room is recorded beside the store.
-/
namespace LabTether.ScheduleCapacity

open Table GoStrings BusinessRecords RecordStore Pool Pool.Process Transition List State

structure Store where
  db : DB
  /-- The task that holds the advisory lock. -/
  lock : Option ℕ
  /-- The principal for whom the holder of the lock has found room. -/
  counted : Option String

open Store

/-- The statements of updates are told apart from the others. -/
inductive Call
  | plain
  | update (id editor : String)

abbrev Program := Process Call Store (Except Err Unit)

def ownedBy (db : DB) (p : String) : ℕ :=
  db.schedules.countP fun r => decide (r.createdBy = p)

/-- The end of a transaction, which frees the lock. -/
def Store.unlock (s : Store) : Store := { s with lock := none, counted := none }

def Store.hasRoom (s : Store) (p : String) : Bool :=
  decide (s.db.schedules.length < maxScheduledTasksGlobal ∧
    ownedBy s.db p < maxScheduledTasksPerPrincipal)

variable (id : String)

/-- The INSERT of a creation that has found room, and the end of its transaction. -/
def insertCounted (task : NewSchedule) (room : Bool) : Program :=
  if room then
    atomically .plain fun s =>
      match insertRow ScheduleRow.id (newScheduleRow id task) s.db.schedules with
      | none => (.error .database, s.unlock)
      | some schedules => (.ok (), { s.unlock with db := { s.db with schedules := schedules } })
  else
    atomically .plain fun s => (.error (.message "scheduled task capacity exceeded"), s.unlock)

def countAndInsert (task : NewSchedule) : Program := do
  let room ← atomically .plain fun s => (s.hasRoom task.createdBy,
    if s.hasRoom task.createdBy then { s with counted := some task.createdBy } else s)
  insertCounted id task room

/-- `CreateScheduledTask` -/
def create (t : ℕ) (id : String) (task : NewSchedule) : Program := do
  await .plain fun s => if s.lock.isSome then none else some ((), { s with lock := some t })
  countAndInsert id task

/-- `UpdateScheduledTask` -/
def update (e : ScheduleEdit) : Program :=
  if e.isEmpty then pure (.ok ())
  else atomically (.update id (trimSpace e.editedBy)) fun s =>
    match updateScheduledTask s.db id e with
    | .ok ((), db) => (.ok (), { s with db })
    | .error err => (.error err, s)

/-- `DeleteScheduledTask` -/
def delete : Program :=
  atomically .plain fun s =>
    (if ∃ r ∈ s.db.schedules, r.id = id then .ok () else .error .notFound,
      { s with db := deleteScheduledTask s.db id })

inductive Request
  | create (id : String) (task : NewSchedule)
  | update (id : String) (e : ScheduleEdit)
  | delete (id : String)

def program (t : ℕ) : Request → Program
  | .create id task => create t id task
  | .update id e => update id e
  | .delete id => delete id

def system : System Call Store (Except Err Unit) Request Empty where
  program := program
  release t s := if s.lock = some t then s.unlock else s
  move := nofun
  answer := .error .database

def emptyStore : State Call Store (Except Err Unit) := ⟨⟨.empty, none, none⟩, []⟩

variable {id : String}

section

variable {H : Prop} {t : ℕ} {s s' : Store}

/-- The schedules of the principal, with the one that is about to be inserted. -/
def Store.claimed (s : Store) (p : String) : ℕ :=
  ownedBy s.db p + if s.counted = some p then 1 else 0

/-- An update leaves the owner, or hands the schedule to a principal who has room for it. -/
def Allowed : Call → Store → Prop
  | .plain, _ => True
  | .update id editor, s => editor = "" ∨ ∀ r ∈ s.db.schedules, r.id = id →
      r.createdBy = editor ∨ s.claimed editor < maxScheduledTasksPerPrincipal

/-- Under `H` the updates are the allowed ones and the limit of the principals holds too. -/
structure Inv (H : Prop) (s : Store) : Prop where
  keyed : Keyed ScheduleRow.id s.db.schedules
  holder : s.lock = none → s.counted = none
  total : s.db.schedules.length + (if s.counted.isSome then 1 else 0) ≤ maxScheduledTasksGlobal
  owned : H → ∀ p, s.claimed p ≤ maxScheduledTasksPerPrincipal

structure Guar (H : Prop) (t : ℕ) (s s' : Store) : Prop where
  inv : Inv H s'
  lock : ∀ t', t' ≠ t → s.lock = some t' → s'.lock = some t' ∧ s'.counted = s.counted

/-- The task holds the lock and has counted for this principal. -/
def Mine (t : ℕ) (counted : Option String) (s : Store) : Prop := s.lock = some t ∧ s.counted = counted

abbrev Others (H : Prop) (t : ℕ) : Store → Store → Prop := Rely (Inv H) (fun _ _ => False) (Guar H) t

abbrev Runs {α : Type} (H : Prop) (t : ℕ) (P : Store → Prop) (p : Process Call Store α)
    (Q : α → Store → Prop) : Prop :=
  Triple (fun n s => H → Allowed n s) (Others H t) (Guar H t) (fun s => Inv H s ∧ P s) p
    fun a s => Inv H s ∧ Q a s

theorem stable_inv {P : Store → Prop} (hP : Stable (Others H t) P) :
    Stable (Others H t) fun s => Inv H s ∧ P s :=
  fun s s' hr hs => ⟨hr.2.1, hP s s' hr hs.2⟩

theorem stable_mine (counted : Option String) : Stable (Others H t) (Mine t counted) := by
  rintro s s' ⟨-, -, hfalse | ⟨t', hne, hG⟩⟩ ⟨hlock, hcounted⟩
  · exact hfalse.elim
  · obtain ⟨hlock', hcounted'⟩ := hG.lock t (Ne.symm hne) hlock
    exact ⟨hlock', hcounted'.trans hcounted⟩

theorem Inv.unlock (hinv : Inv H s) : Inv H s.unlock where
  keyed := hinv.keyed
  holder _ := rfl
  total := (Nat.le_add_right _ _).trans hinv.total
  owned h p := (Nat.le_add_right _ _).trans (hinv.owned h p)

theorem Inv.guar_unlock (hinv : Inv H s) {c : Option String} (hmine : Mine t c s) :
    Guar H t s s.unlock := by
  refine ⟨hinv.unlock, fun t' hne ht' => ?_⟩
  rw [hmine.1, Option.some.injEq] at ht'
  exact absurd ht'.symm hne

theorem Inv.guar_db (hinv : Inv H s) {db : DB} (hkeyed : Keyed ScheduleRow.id db.schedules)
    (hlength : db.schedules.length ≤ s.db.schedules.length)
    (howned : H → ∀ p, ownedBy db p ≤ ownedBy s.db p ∨
      s.claimed p < maxScheduledTasksPerPrincipal ∧ ownedBy db p ≤ ownedBy s.db p + 1) :
    Guar H t s { s with db := db } := by
  refine ⟨⟨hkeyed, hinv.holder, ?_, fun h p => ?_⟩, fun _ _ hlock => ⟨hlock, rfl⟩⟩
  · have := hinv.total
    dsimp only
    omega
  have hold := hinv.owned h p
  have hnew := howned h p
  unfold claimed at hold hnew ⊢
  dsimp only
  omega

theorem runs_lock : Runs H t (fun _ => True)
    (await .plain fun s => if s.lock.isSome then none else some ((), { s with lock := some t }))
    fun _ => Mine t none := by
  refine triple_await (stable_inv stable_true) (fun _ => stable_inv (stable_mine none)) ?_
  intro s a s' ⟨hinv, _⟩ _ hstep
  split_ifs at hstep with hfree
  cases hstep
  have hlock : s.lock = none := by simpa using hfree
  have hcounted := hinv.holder hlock
  have hinv' : Inv H { s with lock := some t } := ⟨hinv.keyed, nofun, hinv.total, hinv.owned⟩
  refine ⟨⟨hinv', fun t' _ ht' => ?_⟩, hinv', rfl, hcounted⟩
  rw [hlock] at ht'
  cases ht'

theorem runs_count (p : String) : Runs H t (Mine t none)
    (atomically .plain fun s => (s.hasRoom p, if s.hasRoom p then { s with counted := some p } else s))
    fun room => Mine t (if room then some p else none) := by
  refine triple_atomically (stable_inv (stable_mine none)) (fun _ => stable_inv (stable_mine _)) ?_
  intro s ⟨hinv, hlock, hcounted⟩ _
  cases hroom : s.hasRoom p
  · exact ⟨⟨hinv, fun _ _ h => ⟨h, rfl⟩⟩, hinv, hlock, hcounted⟩
  obtain ⟨htotal, howned⟩ := of_decide_eq_true hroom
  have hinv' : Inv H { s with counted := some p } := by
    refine ⟨hinv.keyed, fun hnone => ?_, htotal, fun h q => ?_⟩
    · rw [hlock] at hnone
      cases hnone
    have hq := hinv.owned h q
    unfold claimed at hq ⊢
    rw [hcounted] at hq
    dsimp only
    split_ifs with hpq
    · cases hpq
      omega
    · simpa using hq
  refine ⟨⟨hinv', fun t' hne ht' => ?_⟩, hinv', hlock, rfl⟩
  rw [hlock, Option.some.injEq] at ht'
  exact absurd ht'.symm hne

theorem Inv.guar_insert (hinv : Inv H s) {r : ScheduleRow} (hmine : Mine t (some r.createdBy) s)
    {schedules : List ScheduleRow} (hins : insertRow ScheduleRow.id r s.db.schedules = some schedules) :
    Guar H t s { s.unlock with db := { s.db with schedules := schedules } } := by
  obtain ⟨hlock, hcounted⟩ := hmine
  obtain ⟨hfresh, rfl⟩ := insertRow_eq_some.1 hins
  refine ⟨⟨hinv.keyed.append hfresh, fun _ => rfl, ?_, fun h p => ?_⟩, fun t' hne ht' => ?_⟩
  · have htotal := hinv.total
    rw [hcounted] at htotal
    simpa [Store.unlock] using htotal
  · have howned := hinv.owned h p
    unfold claimed ownedBy at howned ⊢
    rw [hcounted] at howned
    simpa [Store.unlock, countP_append, countP_singleton] using howned
  · rw [hlock, Option.some.injEq] at ht'
    exact absurd ht'.symm hne

theorem runs_create (id : String) (task : NewSchedule) :
    Runs H t (fun _ => True) (create t id task) fun _ _ => True := by
  refine triple_bind runs_lock fun _ => triple_bind (runs_count task.createdBy) fun room => ?_
  cases room
  · refine triple_atomically (stable_inv (stable_mine none)) (fun _ => stable_inv stable_true) ?_
    intro s ⟨hinv, hmine⟩ _
    exact ⟨hinv.guar_unlock hmine, hinv.unlock, trivial⟩
  refine triple_atomically (stable_inv (stable_mine _)) (fun _ => stable_inv stable_true) ?_
  intro s ⟨hinv, hmine⟩ _
  cases hins : insertRow ScheduleRow.id (newScheduleRow id task) s.db.schedules with
  | none => exact ⟨hinv.guar_unlock hmine, hinv.unlock, trivial⟩
  | some schedules =>
    have hG := hinv.guar_insert (r := newScheduleRow id task) hmine hins
    exact ⟨hG, hG.inv, trivial⟩

theorem Inv.guar_update (hinv : Inv H s) {e : ScheduleEdit}
    (hallowed : H → Allowed (.update id (trimSpace e.editedBy)) s) : Guar H t s
      { s with db := updateSchedules s.db (fun r => decide (r.id = id)) (applyEdit e) } := by
  have hid : ∀ r : ScheduleRow, (applyEdit e r).id = r.id := fun _ => rfl
  refine hinv.guar_db (hinv.keyed.updateWhere hid) length_updateWhere.le fun h p => ?_
  by_cases hsame : ∀ r ∈ s.db.schedules, r.id = id → (applyEdit e r).createdBy = p → r.createdBy = p
  · refine .inl (countP_updateWhere_le fun r hr hrid hp => ?_)
    exact decide_eq_true (hsame r hr (of_decide_eq_true hrid) (of_decide_eq_true hp))
  -- Some row comes to `p`, who is then the editor and does not own it.
  push Not at hsame
  obtain ⟨r, hr, hrid, hnew, hold⟩ := hsame
  have heditor : trimSpace e.editedBy ≠ "" ∧ trimSpace e.editedBy = p := by
    simp only [applyEdit] at hnew
    split_ifs at hnew with hblank
    · exact absurd hnew hold
    · exact ⟨hblank, hnew⟩
  refine .inr ⟨?_, countP_updateWhere_le_succ hinv.keyed (fun _ _ h => of_decide_eq_true h) _⟩
  have hroom := ((hallowed h).resolve_left heditor.1) r hr hrid
  rw [heditor.2] at hroom
  exact hroom.resolve_left hold

theorem runs_update (id : String) (e : ScheduleEdit) :
    Runs H t (fun _ => True) (update id e) fun _ _ => True := by
  unfold update
  split_ifs with hedit
  · exact triple_pure (stable_inv stable_true) fun _ hs => hs
  refine triple_atomically (stable_inv stable_true) (fun _ => stable_inv stable_true) ?_
  intro s ⟨hinv, _⟩ hallowed
  rw [updateScheduledTask, if_neg hedit]
  split_ifs
  · have hG := hinv.guar_update (t := t) hallowed
    exact ⟨hG, hG.inv, trivial⟩
  · exact ⟨⟨hinv, fun _ _ h => ⟨h, rfl⟩⟩, hinv, trivial⟩

theorem runs_delete (id : String) : Runs H t (fun _ => True) (delete id) fun _ _ => True := by
  refine triple_atomically (stable_inv stable_true) (fun _ => stable_inv stable_true) ?_
  intro s ⟨hinv, _⟩ _
  have hG : Guar H t s { s with db := deleteScheduledTask s.db id } :=
    hinv.guar_db (hinv.keyed.filter _) length_deleteWhere_le fun _ p =>
      .inl (Sublist.countP_le filter_sublist)
  exact ⟨hG, hG.inv, trivial⟩

theorem system_sound (H : Prop) :
    Sound system (fun n s => H → Allowed n s) (Inv H) (fun _ _ => False) (Guar H) where
  kept _ _ _ _ hG := hG.inv
  moved _ _ _ hE := hE.elim
  program t c s hinv := by
    refine ensures_imp (fun _ _ _ => trivial) (?_ : Ensures _ _ _ _ (fun _ s => Inv H s ∧ True) s)
    cases c with
    | create id task => exact runs_create id task s ⟨hinv, trivial⟩
    | update id e => exact runs_update id e s ⟨hinv, trivial⟩
    | delete id => exact runs_delete id s ⟨hinv, trivial⟩
  release t s hinv := by
    show Guar H t s (if s.lock = some t then s.unlock else s)
    split_ifs with hlock
    · exact hinv.guar_unlock ⟨hlock, rfl⟩
    · exact ⟨hinv, fun _ _ h => ⟨h, rfl⟩⟩
  move e := nomatch e

theorem inv_emptyStore : Inv H emptyStore.shared :=
  ⟨nodup_nil, fun _ => rfl, Nat.zero_le _, fun _ _ => Nat.zero_le _⟩

end

section

variable (ops : List (Op Request Empty))

def after (ops : List (Op Request Empty)) : State Call Store (Except Err Unit) :=
  run (step system) emptyStore ops

theorem length_schedules_le : (after ops).shared.db.schedules.length ≤ maxScheduledTasksGlobal := by
  have hmeet : StepsMeet (step system) (Permitted fun n s => False → Allowed n s) emptyStore ops :=
    stepsMeet_of_all (fun p op => by cases op <;> simp [Permitted]) _ _
  have hinv := (invariant_run (system_sound False) (ready_start inv_emptyStore) hmeet).inv
  exact (Nat.le_add_right _ _).trans hinv.total

/-- Creations, updates and deletions in any order: if every update that changes the owner of a
schedule hands it to a principal with room for it, both limits hold. -/
theorem schedules_within_capacity
    (hops : StepsMeet (step system) (Permitted Allowed) emptyStore ops) :
    (after ops).shared.db.schedules.length ≤ maxScheduledTasksGlobal ∧
      ∀ p, ownedBy (after ops).shared.db p ≤ maxScheduledTasksPerPrincipal := by
  refine ⟨length_schedules_le ops, fun p => ?_⟩
  have hmeet : StepsMeet (step system) (Permitted fun n s => True → Allowed n s) emptyStore ops := by
    simpa using hops
  have hinv := (invariant_run (system_sound True) (ready_start inv_emptyStore) hmeet).inv
  exact (Nat.le_add_right _ _).trans (hinv.owned trivial p)

end

def creation (t : ℕ) (id : String) (task : NewSchedule) : List (Op Request Empty) :=
  .start (.create id task) :: replicate 3 (.advance t)

variable (p : String)

def blankSchedule : NewSchedule := ⟨"", "", "", [], "", true, p, 0, none⟩

def scheduleID (i : ℕ) : String := String.ofList (replicate i 'x')

theorem scheduleID_injective : Function.Injective scheduleID := by
  intro i j hij
  have hlist := congrArg String.toList hij
  simpa [scheduleID] using congrArg length hlist

/-- So many schedules of one principal and nothing else. -/
def filled (n : ℕ) : DB :=
  { DB.empty with
    schedules := (range n).map fun i => newScheduleRow (scheduleID i) (blankSchedule p) }

/-- So many schedules of one principal, and one of another. -/
def filledAndOne (q : String) (n : ℕ) : DB :=
  { filled p n with
    schedules := (filled p n).schedules ++ [newScheduleRow (scheduleID n) (blankSchedule q)] }

variable {p : String} {q : String} {n : ℕ} {ops : List (Op Request Empty)}

theorem shared_alone {s : Store} (hops : (after ops).shared = s) (n : ℕ) (c : Request) :
    (after (ops ++ .start c :: replicate n (.advance (after ops).tasks.length))).shared =
      (one^[n] (program (after ops).tasks.length c, s)).2 := by
  have happend : after (ops ++ .start c :: replicate n (.advance (after ops).tasks.length)) =
      run (step system) ⟨(after ops).shared, (after ops).tasks ++ [program (after ops).tasks.length c]⟩
        (replicate n (.advance (after ops).tasks.length)) := run_append ..
  rw [happend, hops, run_alone system n _ (program _ c, s)]

theorem shared_creation (hops : (after ops).shared = ⟨filled p n, none, none⟩)
    (hn : n ≤ maxScheduledTasksPerPrincipal)
    (howned : ownedBy (filled p n) q < maxScheduledTasksPerPrincipal) :
    ∃ ops, (after ops).shared = ⟨filledAndOne p q n, none, none⟩ := by
  have hroom : hasRoom ⟨filled p n, some (after ops).tasks.length, none⟩ q = true := by
    have hglobal : n < maxScheduledTasksGlobal := hn.trans_lt (by decide)
    simpa [hasRoom, filled] using ⟨hglobal, howned⟩
  have hins : insertRow ScheduleRow.id (newScheduleRow (scheduleID n) (blankSchedule q))
      (filled p n).schedules = some (filledAndOne p q n).schedules := by
    refine insertRow_eq_some.2 ⟨fun hmem => ?_, rfl⟩
    simp only [filled, map_map, mem_map, mem_range] at hmem
    obtain ⟨i, hi, heq⟩ := hmem
    exact hi.ne (scheduleID_injective heq)
  have hcounted : one^[2] (create (after ops).tasks.length (scheduleID n) (blankSchedule q),
      ⟨filled p n, none, none⟩) = (insertCounted (scheduleID n) (blankSchedule q) true,
        ⟨filled p n, some (after ops).tasks.length, some q⟩) := by
    show (insertCounted _ _ (hasRoom ⟨filled p n, some _, none⟩ q),
      if hasRoom ⟨filled p n, some _, none⟩ q then _ else _) = _
    rw [hroom]
    rfl
  refine ⟨_, (shared_alone hops 3 (.create (scheduleID n) (blankSchedule q))).trans ?_⟩
  rw [Function.iterate_succ_apply', program, hcounted, insertCounted, if_pos rfl, one_atomically, hins]
  rfl

theorem exists_filled (hn : n ≤ maxScheduledTasksPerPrincipal) :
    ∃ ops, (after ops).shared = ⟨filled p n, none, none⟩ := by
  induction n with
  | zero => exact ⟨[], rfl⟩
  | succ n ih =>
    obtain ⟨ops, hops⟩ := ih (by omega)
    have howned : ownedBy (filled p n) p ≤ n := countP_le_length.trans_eq (by simp [filled])
    have hsucc : filledAndOne p p n = filled p (n + 1) := by simp [filledAndOne, filled, range_succ]
    exact hsucc ▸ shared_creation hops (by omega) (by omega)

def renamedBy (editor : String) : ScheduleEdit :=
  ⟨some "renamed", none, none, none, none, none, none, editor⟩

theorem shared_update {db : DB} {e : ScheduleEdit} (hops : (after ops).shared = ⟨db, none, none⟩)
    (he : e.isEmpty = false) (hfound : ∃ r ∈ db.schedules, r.id = id) :
    ∃ ops, (after ops).shared.db = updateSchedules db (fun r => r.id = id) (applyEdit e) := by
  have hstore := shared_alone hops 1 (.update id e)
  have hedit : ¬e.isEmpty = true := ne_true_of_eq_false he
  rw [Function.iterate_one, program, update, if_neg hedit, one_atomically, updateScheduledTask,
    if_neg hedit, if_pos hfound] at hstore
  exact ⟨_, congrArg Store.db hstore⟩

theorem ownedBy_renamed (n : ℕ) : ownedBy (updateSchedules (filledAndOne "a" "b" n)
    (fun r => r.id = scheduleID n) (applyEdit (renamedBy "a"))) "a" = n + 1 := by
  have hlength : (updateSchedules (filledAndOne "a" "b" n) (fun r => r.id = scheduleID n)
      (applyEdit (renamedBy "a"))).schedules.length = n + 1 := by
    simp [updateSchedules, updateWhere, filledAndOne, filled]
  have htrim : trimSpace "a" = "a" := by decide
  rw [ownedBy, countP_eq_length.2, hlength]
  intro r hr
  obtain ⟨old, hold, rfl⟩ := mem_map.1 hr
  split_ifs with hid
  · simp [applyEdit, renamedBy, htrim]
  rcases mem_append.1 hold with hold | hold
  · obtain ⟨i, -, rfl⟩ := mem_map.1 hold
    exact decide_eq_true rfl
  · cases mem_singleton.1 hold
    exact absurd (decide_eq_true rfl) hid

/-- The full principal renames the schedule of another and owns one more than the limit. -/
theorem editor_exceeds_limit :
    ∃ ops, maxScheduledTasksPerPrincipal < ownedBy (after ops).shared.db "a" := by
  obtain ⟨_, hfilled⟩ := exists_filled (p := "a") (Nat.le_refl maxScheduledTasksPerPrincipal)
  have hroom : ownedBy (filled "a" maxScheduledTasksPerPrincipal) "b" = 0 := by
    simp [ownedBy, filled, countP_map, Function.comp_def, newScheduleRow, blankSchedule]
  obtain ⟨_, hone⟩ := shared_creation hfilled le_rfl (hroom.trans_lt (by decide))
  obtain ⟨ops, hops⟩ := shared_update (e := renamedBy "a") hone rfl
    ⟨_, mem_append_right _ mem_cons_self, rfl⟩
  have hcount := (congrArg (ownedBy · "a") hops).trans (ownedBy_renamed _)
  exact ⟨ops, (Nat.lt_succ_self _).trans_eq hcount.symm⟩

instance (n : Call) (s : Store) : Decidable (Allowed n s) :=
  match n with
  | .plain => .isTrue trivial
  | .update id editor => inferInstanceAs (Decidable (editor = "" ∨ ∀ r ∈ s.db.schedules, r.id = id →
      r.createdBy = editor ∨ s.claimed editor < maxScheduledTasksPerPrincipal))

theorem schedules_within_capacity_after_renaming :
    ownedBy (after (creation 0 "s" (blankSchedule "b") ++
      [.start (.update "s" (renamedBy "a")), .advance 1])).shared.db "a" = 1 ∧
    (after (creation 0 "s" (blankSchedule "b") ++
      [.start (.update "s" (renamedBy "a")), .advance 1])).shared.db.schedules.length ≤
        maxScheduledTasksGlobal ∧
    ∀ p, ownedBy (after (creation 0 "s" (blankSchedule "b") ++
      [.start (.update "s" (renamedBy "a")), .advance 1])).shared.db p ≤
        maxScheduledTasksPerPrincipal :=
  ⟨by decide +kernel, schedules_within_capacity _ (by decide +kernel)⟩

end LabTether.ScheduleCapacity
