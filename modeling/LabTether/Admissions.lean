import LabTether.GoStrings
import LabTether.KeyedLock
import LabTether.Transition

/-!
Admission of agent sockets. An attempt reserves capacity under the manager's mutex, and the
release function that it returns gives the capacity back once, however often it is called.
The release functions handed out so far are part of the state, so that a run is any
interleaving of attempts and calls of them.
-/
namespace LabTether.Admissions

open List Function Transition KeyedLock GoStrings

/-- A release function: the source it is for, and whether its `sync.Once` has run. -/
structure Reservation where
  sourceKey : String
  released : Bool

structure State where
  admissions : ℤ
  admissionsByKey : String → Option ℤ
  reservations : List Reservation

def State.empty : State := ⟨0, fun _ => none, []⟩

inductive AdmissionRejection
  | allowed | globalLimit | sourceLimit

variable (s : State)

def tryReserveAdmission (sourceKey : String) (globalLimit sourceLimit : ℤ) :
    State × AdmissionRejection :=
  if globalLimit ≤ 0 ∨ sourceLimit ≤ 0 then (s, .globalLimit)
  else
    let trimmed := trimSpace sourceKey
    let key := if trimmed = "" then "unknown" else trimmed
    let count := (s.admissionsByKey key).getD 0
    if s.admissions ≥ globalLimit then (s, .globalLimit)
    else if count ≥ sourceLimit then (s, .sourceLimit)
    else ({ admissions := s.admissions + 1
            admissionsByKey := update s.admissionsByKey key (some (count + 1))
            reservations := s.reservations ++ [⟨key, false⟩] }, .allowed)

def release (i : ℕ) : State :=
  match s.reservations[i]? with
  | some ⟨key, false⟩ =>
    let count := (s.admissionsByKey key).getD 0
    { admissions := if s.admissions > 0 then s.admissions - 1 else s.admissions
      admissionsByKey :=
        update s.admissionsByKey key (if count ≤ 1 then none else some (count - 1))
      reservations := s.reservations.set i ⟨key, true⟩ }
  | _ => s

inductive Op
  | attempt (sourceKey : String) (globalLimit sourceLimit : ℤ)
  | release (i : ℕ)

def step : Op → State
  | .attempt sourceKey globalLimit sourceLimit =>
    (tryReserveAdmission s sourceKey globalLimit sourceLimit).1
  | .release i => release s i

/-- The limits of an attempt are at most the given ones. -/
def Op.Within (globalLimit sourceLimit : ℕ) : Op → Prop
  | .attempt _ g l => g ≤ globalLimit ∧ l ≤ sourceLimit
  | .release _ => True

def isPending (r : Reservation) : Bool := !r.released

def isPendingFor (key : String) (r : Reservation) : Bool := !r.released && r.sourceKey == key

/-- The counters are the numbers of reservations granted and not yet released, and a source
without any has no entry. -/
structure Accounted : Prop where
  total : s.admissions = s.reservations.countP isPending
  bySource : ∀ key, s.admissionsByKey key =
    let n := s.reservations.countP (isPendingFor key)
    if n = 0 then none else some (n : ℤ)

structure Bounded (globalLimit sourceLimit : ℕ) : Prop where
  total : s.admissions ≤ globalLimit
  bySource : ∀ key, (s.admissionsByKey key).getD 0 ≤ sourceLimit

variable {s}

theorem Accounted.count (h : Accounted s) (key : String) :
    (s.admissionsByKey key).getD 0 = s.reservations.countP (isPendingFor key) := by
  rw [h.bySource]
  dsimp only
  split
  next hzero => rw [hzero]; rfl
  · rfl

theorem Accounted.step (h : Accounted s) (op : Op) : Accounted (step s op) := by
  cases op with
  | attempt sourceKey globalLimit sourceLimit =>
    simp only [Admissions.step]
    fun_cases tryReserveAdmission s sourceKey globalLimit sourceLimit <;> try exact h
    refine ⟨by simp [h.total, isPending], fun key' => ?_⟩
    simp only [countP_append, countP_singleton, update_apply]
    split_ifs <;> grind [isPendingFor, h.bySource key']
  | release i =>
    simp only [Admissions.step]
    fun_cases release s i <;> try exact h
    case case1 key hi count =>
      have hset := fun p => countP_set_add (y := ⟨key, true⟩) p hi
      refine ⟨?_, fun key' => ?_⟩
      · have := h.total
        grind [isPending]
      · simp only [update_apply]
        split_ifs <;> grind [isPendingFor, h.bySource key']

/-- An attempt is granted below its limits only, and a release lowers the counters. -/
theorem Bounded.step {globalLimit sourceLimit : ℕ} (h : Bounded s globalLimit sourceLimit) {op : Op}
    (hop : op.Within globalLimit sourceLimit) : Bounded (step s op) globalLimit sourceLimit := by
  obtain ⟨htotal, hsource⟩ := h
  cases op with
  | attempt sourceKey g l =>
    obtain ⟨hg, hl⟩ := hop
    simp only [Admissions.step]
    fun_cases tryReserveAdmission s sourceKey g l <;> try exact ⟨htotal, hsource⟩
    refine ⟨by dsimp only; omega, fun key' => ?_⟩
    simp only [update_apply]
    split_ifs <;> grind
  | release i =>
    simp only [Admissions.step]
    fun_cases release s i <;> try exact ⟨htotal, hsource⟩
    refine ⟨by dsimp only; split_ifs <;> omega, fun key' => ?_⟩
    simp only [update_apply]
    split_ifs <;> grind

/-- After any interleaving the counters say what is reserved, and they stay within the limits
of the attempts. -/
theorem admission_accounting (ops : List Op) (globalLimit sourceLimit : ℕ) :
    Accounted (run step .empty ops) ∧ ((∀ op ∈ ops, op.Within globalLimit sourceLimit) →
      Bounded (run step .empty ops) globalLimit sourceLimit) := by
  refine ⟨run_invariant_all step Accounted (fun _ op h => h.step op) ⟨rfl, fun _ => rfl⟩ ops,
    run_invariant step (Bounded · globalLimit sourceLimit) (fun _ _ hop h => h.step hop) ?_⟩
  exact ⟨Int.natCast_nonneg _, fun _ => Int.natCast_nonneg _⟩

end LabTether.Admissions
