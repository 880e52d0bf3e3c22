import LabTether.Transition

/-!
The snapshot cache of the web service coordinator. A load reads the manual services, then
the overrides, and publishes both; a save or delete writes the store and then drops the
cache. Each of these is a step of its own, and only one load runs at a time. What a table
holds is given by the number of writes it has taken, and a snapshot is the pair of numbers
that it has read. A write that fails changes nothing and drops nothing, so it is no step.
-/
namespace LabTether.WebServiceCache

open Transition Function

inductive Table where
  | manuals
  | overrides
deriving DecidableEq

inductive Load where
  | idle
  | begun
  | manualsRead (m : ℕ)
  | bothRead (m o : ℕ)
deriving DecidableEq

def snapshot (m o : ℕ) : Table → ℕ
  | .manuals => m
  | .overrides => o

structure State where
  /-- The number of the last write of each table. -/
  written : Table → ℕ := fun _ => 0
  /-- The writes whose save or delete has still to drop the cache. -/
  pending : List (Table × ℕ) := []
  storeCache : Option (Table → ℕ) := none
  storeLoad : Load := .idle

inductive Op where
  | write (t : Table)
  | invalidateStoreSnapshot (w : Table × ℕ)
  | loadStoreSnapshot
  | loadFails

variable (s : State)

/-- The next step of the load; it begins only when nothing is cached. -/
def advance : State :=
  match s.storeLoad with
  | .idle => if s.storeCache = none then { s with storeLoad := .begun } else s
  | .begun => { s with storeLoad := .manualsRead (s.written .manuals) }
  | .manualsRead m => { s with storeLoad := .bothRead m (s.written .overrides) }
  | .bothRead m o => { s with storeCache := some (snapshot m o), storeLoad := .idle }

def step : Op → State
  | .write t => { s with
      written := update s.written t (s.written t + 1)
      pending := (t, s.written t + 1) :: s.pending }
  | .invalidateStoreSnapshot w =>
    if w ∈ s.pending then { s with pending := s.pending.erase w, storeCache := none } else s
  | .loadStoreSnapshot => advance s
  | .loadFails => { s with storeLoad := .idle }

/-- What a listing shows that is not disturbed: the cache, or else the store. -/
def listing : Table → ℕ := s.storeCache.getD s.written

/-- Every write whose save or delete has returned is in the next listing. -/
def Reflects : Prop :=
  ∀ t v, v ≤ s.written t → (t, v) ∉ s.pending → v ≤ listing s t

/-- A load that is about to publish misses only writes that have still to drop the cache. -/
def PublishesFresh : Op → Prop
  | .loadStoreSnapshot =>
    ∀ m o, s.storeLoad = .bothRead m o →
      ∀ t v, v ≤ s.written t → (t, v) ∉ s.pending → v ≤ snapshot m o t
  | _ => True

theorem reflects_of_uncached {s : State} (h : s.storeCache = none) : Reflects s := by
  intro t v hv _
  rwa [listing, h, Option.getD_none]

theorem reflects_write {s : State} (t : Table) (h : Reflects s) : Reflects (step s (.write t)) := by
  intro u v hv hnew
  change v ≤ update s.written t (s.written t + 1) u at hv
  obtain ⟨hne, hold⟩ := not_or.1 (mt List.mem_cons.2 hnew)
  rcases hc : s.storeCache with _ | snap
  · exact reflects_of_uncached (s := step s (.write t)) hc u v hv hnew
  -- the new write is pending, so `v` is an older one
  have hle : v ≤ s.written u := by
    rcases eq_or_ne u t with rfl | hu
    · rw [update_self] at hv
      have : v ≠ s.written u + 1 := fun hv => hne (Prod.ext rfl hv)
      omega
    · rwa [update_of_ne hu] at hv
  have hlist := h u v hle hold
  rw [listing, hc] at hlist
  show v ≤ (s.storeCache.getD _) u
  rw [hc]
  exact hlist

/-- A published snapshot stays good unless the load missed a write that has returned. -/
theorem reflects_step_iff (op : Op) (h : Reflects s) :
    Reflects (step s op) ↔ PublishesFresh s op := by
  fun_cases step s op
  case case1 t => exact iff_of_true (reflects_write t h) trivial
  case case2 => exact iff_of_true (reflects_of_uncached rfl) trivial
  case case4 =>
    fun_cases advance s
    case case5 m o hl =>
      exact ⟨fun h m' o' hl' => by cases hl.symm.trans hl'; exact h, fun h => h m o hl⟩
    all_goals exact iff_of_true h fun m o hl => by simp_all
  all_goals exact iff_of_true h trivial

/-- In every state of a run the next listing shows what was saved before, exactly if every
load that publishes has read all writes that have returned. -/
theorem listings_reflect_writes_iff (ops : List Op) :
    AllStates step Reflects {} ops ↔ StepsMeet step PublishesFresh {} ops :=
  allStates_iff_stepsMeet reflects_step_iff (reflects_of_uncached rfl)

/-- A save between the read of the manual services and the publication: it has returned, no
load is in progress, and the snapshot without it stays published. -/
theorem save_during_load_lost :
    let final := run step {} [.loadStoreSnapshot, .loadStoreSnapshot, .write .manuals,
      .invalidateStoreSnapshot (.manuals, 1), .loadStoreSnapshot, .loadStoreSnapshot]
    final.storeLoad = .idle ∧ final.pending = [] ∧ final.written .manuals = 1 ∧
      listing final .manuals = 0 ∧ ¬ Reflects final := by
  intro final
  have hlist : listing final .manuals = 0 := by decide
  refine ⟨by decide, by decide, by decide, hlist, fun h => ?_⟩
  have hle := h .manuals 1 (by decide) (by decide)
  rw [hlist] at hle
  omega

end LabTether.WebServiceCache
