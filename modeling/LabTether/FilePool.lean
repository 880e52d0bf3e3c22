import LabTether.KeyedLock
import LabTether.Transition

/-!
The pool of file sessions, for one connection whose configuration stays the same. Requests
capture a generation, look for the session, check it or connect anew outside of the mutex, and
release their lease; each block under the mutex is one step, and the idle reaper may run between
any two. A session is a number.
-/
namespace LabTether.FilePool

open KeyedLock Transition List

inductive Answer where
  | session (fs : ℕ)
  | configChanged
  | connectFailed
deriving DecidableEq

/-- Where a request stands between two blocks under the mutex. -/
inductive Phase where
  | leased (generation : ℕ)
  | checking (generation fs : ℕ)
  | connecting (generation : ℕ)
  | returned (answer : Answer)
  | released (answer : Answer)
deriving DecidableEq

open Phase

structure Sessions where
  generation : Option ℕ := none
  leases : ℕ := 0
  nextGen : ℕ := 0
  session : Option ℕ := none
  nextFS : ℕ := 0

structure State where
  pool : Sessions := {}
  requests : List Phase := []

variable (p : Sessions)

/-- `AcquireGeneration`, which makes a generation if there is none. -/
def acquireGeneration : Sessions × ℕ :=
  match p.generation with
  | some g => ({ p with leases := p.leases + 1 }, g)
  | none => ({ p with
      leases := p.leases + 1
      generation := some (p.nextGen + 1)
      nextGen := p.nextGen + 1 }, p.nextGen + 1)

def releaseGeneration : Sessions :=
  if p.leases ≤ 1 then
    { p with leases := 0, generation := if p.session = none then none else p.generation }
  else { p with leases := p.leases - 1 }

/-- The next block of `GetAtGeneration`. The health check or the connection attempt before it
has succeeded or not. -/
def getAtGeneration (ok : Bool) : Phase → Sessions × Phase
  | .leased g =>
    if p.generation ≠ some g then (p, .returned .configChanged)
    else
      match p.session with
      | some fs => (p, .checking g fs)
      | none => (p, .connecting g)
  | .checking g fs =>
    if ok then
      if p.session = some fs ∧ p.generation = some g then (p, .returned (.session fs))
      else (p, .returned .configChanged)
    else if p.session = some fs then ({ p with session := none }, .leased g)
    else (p, .returned .configChanged)
  | .connecting g =>
    if ok = false then (p, .returned .connectFailed)
    else if p.generation ≠ some g then (p, .returned .configChanged)
    else
      match p.session with
      | some fs => (p, .returned (.session fs))
      | none => ({ p with session := some p.nextFS, nextFS := p.nextFS + 1 },
          .returned (.session p.nextFS))
  | phase => (p, phase)

def reapIdle : Sessions :=
  if p.session = none then p else { p with session := none, generation := none }

inductive Op where
  | request
  | proceed (i : ℕ) (ok : Bool)
  | release (i : ℕ)
  | reap

def step (s : State) : Op → State
  | .request =>
    let (pool, g) := acquireGeneration s.pool
    ⟨pool, s.requests ++ [.leased g]⟩
  | .proceed i ok =>
    match s.requests[i]? with
    | none => s
    | some phase =>
      let (pool, phase) := getAtGeneration s.pool ok phase
      ⟨pool, s.requests.set i phase⟩
  | .release i =>
    match s.requests[i]? with
    | some (.returned answer) => ⟨releaseGeneration s.pool, s.requests.set i (.released answer)⟩
    | _ => s
  | .reap => ⟨reapIdle s.pool, s.requests⟩

/-- No request was told that the configuration has changed. -/
def NoFalseChange (s : State) : Prop :=
  .returned .configChanged ∉ s.requests ∧ .released .configChanged ∉ s.requests

def Phase.live : Phase → Bool
  | .leased _ | .checking .. | .connecting _ => true
  | _ => false

/-- A session is reaped only while no request is under way, and found dead by only one of the
requests that check it. -/
def Undisturbed (s : State) : Op → Prop
  | .reap => s.pool.session = none ∨ ∀ phase ∈ s.requests, phase.live = false
  | .proceed i false => ∀ g fs, s.requests[i]? = some (.checking g fs) →
      ∀ j, j ≠ i → ∀ g', s.requests[j]? ≠ some (.checking g' fs)
  | _ => True

section

def Fits (p : Sessions) : Phase → Prop
  | .leased g | .connecting g => p.generation = some g
  | .checking g fs => p.generation = some g ∧ p.session = some fs
  | .returned answer | .released answer => answer ≠ .configChanged

def Phase.unreleased : Phase → Bool
  | .released _ => false
  | _ => true

structure Inv (s : State) : Prop where
  fits : ∀ (i : ℕ) (phase : Phase), s.requests[i]? = some phase → Fits s.pool phase
  leases : s.pool.leases = s.requests.countP unreleased

variable {p : Sessions} {s : State} {phase : Phase}

theorem Fits.idle (h : Fits p phase) (hlive : phase.live = false) (p' : Sessions) :
    Fits p' phase := by
  cases phase with
  | returned answer | released answer => exact h
  | _ => cases hlive

/-- A block of one request: it ends well, and what others rely on stays unless the session is
found dead. -/
theorem fits_getAtGeneration (ok : Bool) (h : Fits p phase) :
    Fits (getAtGeneration p ok phase).1 (getAtGeneration p ok phase).2 ∧
      ((getAtGeneration p ok phase).2.unreleased = phase.unreleased) ∧
      (getAtGeneration p ok phase).1.leases = p.leases ∧
      ∀ other, Fits p other → (∀ g g' fs, ok = false → phase = .checking g fs →
        other ≠ .checking g' fs) → Fits (getAtGeneration p ok phase).1 other := by
  revert h
  fun_cases getAtGeneration p ok phase
  case case6 g fs hok hfs =>
    refine fun h => ⟨h.1, rfl, rfl, fun other hother hne => ?_⟩
    cases other with
    | checking g' fs' =>
      obtain rfl : fs = fs' := Option.some.inj (hfs.symm.trans hother.2)
      exact absurd rfl (hne g g' fs (by simpa using hok) rfl)
    | _ => exact hother
  case case11 hnone =>
    refine fun _ => ⟨nofun, rfl, rfl, fun other hother _ => ?_⟩
    cases other with
    | checking g' fs' => exact nomatch hnone.symm.trans hother.2
    | _ => exact hother
  all_goals
    intro h
    simp_all [Fits, unreleased]

theorem inv_step (op : Op) (h : Inv s) (hop : Undisturbed s op) : Inv (step s op) := by
  revert hop
  fun_cases step s op
  case case1 pool g hacquire =>
    intro _
    have hpool : Fits pool (.leased g) ∧ pool.leases = s.pool.leases + 1 ∧
        ∀ phase, Fits s.pool phase → Fits pool phase := by
      revert hacquire
      fun_cases acquireGeneration s.pool
      case case1 hg =>
        rintro ⟨⟩
        exact ⟨hg, rfl, fun phase hp => by cases phase <;> exact hp⟩
      case case2 hg =>
        rintro ⟨⟩
        refine ⟨rfl, rfl, fun phase hp => ?_⟩
        cases phase with
        | leased g | connecting g => exact nomatch hg.symm.trans hp
        | checking g fs => exact nomatch hg.symm.trans hp.1
        | _ => exact hp
    refine ⟨fun i phase hi => ?_, ?_⟩
    · rcases concat_cases hi with hi | ⟨-, rfl⟩
      · exact hpool.2.2 phase (h.fits i phase hi)
      · exact hpool.1
    · rw [hpool.2.1, h.leases, countP_append]
      rfl
  case case3 i ok phase hi pool next hnext =>
    intro hop
    obtain ⟨hfits, hsame, hleases, hothers⟩ := fits_getAtGeneration ok (h.fits i phase hi)
    rw [hnext] at hfits hsame hleases hothers
    refine ⟨fun j other hj => ?_, ?_⟩
    · rcases set_cases hj with ⟨-, rfl⟩ | ⟨hne, hj'⟩
      · exact hfits
      · refine hothers other (h.fits j other hj') ?_
        rintro g g' fs rfl rfl rfl
        exact hop g fs hi j hne g' hj'
    · have hcount := countP_set_add (y := next) unreleased hi
      rw [hsame] at hcount
      exact hleases.trans (h.leases.trans (Nat.add_right_cancel hcount).symm)
  case case4 i answer hi =>
    intro _
    have hcount := countP_set_add (y := .released answer) unreleased hi
    simp only [← h.leases, unreleased, if_true, Bool.false_eq_true, if_false] at hcount
    refine ⟨fun j other hj => ?_, ?_⟩
    · rcases set_cases hj with ⟨-, rfl⟩ | ⟨hne, hj'⟩
      · exact h.fits i _ hi
      unfold releaseGeneration
      split
      · -- the last lease: no other request is under way
        have hzero : (s.requests.set i (.released answer)).countP unreleased = 0 := by omega
        have hdone := countP_eq_zero.1 hzero other (mem_of_getElem? hj)
        cases other with
        | released other => exact h.fits j _ hj'
        | _ => exact absurd rfl hdone
      · exact h.fits j other hj'
    · unfold releaseGeneration
      split
      all_goals
        dsimp only
        omega
  case case6 =>
    intro hop
    fun_cases reapIdle s.pool
    · exact h
    case case2 hsome =>
      exact ⟨fun i phase hi => (h.fits i phase hi).idle (hop.resolve_left hsome phase
        (mem_of_getElem? hi)) _, h.leases⟩
  all_goals exact fun _ => h

/-- Requests of one configuration are never told that it has changed, in every run in which
the reaper and the health checks do not disturb them. -/
theorem no_false_change {ops : List Op} (h : StepsMeet step Undisturbed {} ops) :
    NoFalseChange (run step {} ops) := by
  have hinv : Inv (run step {} ops) :=
    h.last (fun _ op hs hop => inv_step op hs hop) ⟨fun _ _ hi => by simp at hi, rfl⟩
  constructor
  all_goals
    intro hmem
    obtain ⟨i, hi⟩ := mem_iff_getElem?.1 hmem
    exact hinv.fits i _ hi rfl

theorem one_request_served : NoFalseChange (run step {} [.request, .proceed 0 true]) :=
  no_false_change ⟨trivial, trivial, trivial⟩

/-- Two requests find the session dead: the first one drops it, and the second one is told that
the configuration has changed. -/
theorem second_dead_check_refused :
    let final := run step {} [.request, .proceed 0 true, .proceed 0 true, .release 0, .request,
      .request, .proceed 1 true, .proceed 2 true, .proceed 1 false, .proceed 2 false]
    final.requests[2]? = some (.returned .configChanged) ∧ ¬ NoFalseChange final := by
  intro final
  have h : final.requests[2]? = some (.returned .configChanged) := by decide
  exact ⟨h, fun hno => hno.1 (mem_of_getElem? h)⟩

end

end LabTether.FilePool
