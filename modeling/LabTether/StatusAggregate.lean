import LabTether.Transition

/-!
Conditional requests for the status aggregate (`statusagg/handlers.go`). A tag is kept with the
fingerprint that was read for it, and a later request with that fingerprint is answered
not-modified. The fingerprint is read before the response is built or after it, and requests
share a build that is under way. Every read and write is a step of its own. A fingerprint stands
for its parts and a tag, which covers the time of its response, for the build; filter and scope
are in the key of the cache.
-/
namespace LabTether.StatusAggregate

open Transition Function List

/-- The parts of a fingerprint that change. -/
structure Fingerprint where
  generation : ℕ := 0
  processedJobs : ℕ := 0
  retentionError : String := ""
deriving DecidableEq

/-- A response, by the request that built it and the generation when it listed the assets. -/
structure Build where
  (request started : ℕ)
deriving DecidableEq

structure ETagCacheEntry where
  fingerprint : Fingerprint
  etag : Build

inductive Phase where
  | arrived
  | fingerprinted (fingerprint : Fingerprint)
  | checked (fingerprint : Option Fingerprint)
  | listed (fingerprint : Option Fingerprint) (started : ℕ)
  | waiting (fingerprint : Option Fingerprint) (build : Build)
  | built (fingerprint : Option Fingerprint) (build : Build)
  | done

structure Request where
  /-- The generation when the request arrived. -/
  arrived : ℕ
  cacheKey : String
  /-- The key of its build, which also covers the assets and the job count. -/
  buildKey : String
  /-- The tags that the header matches, unless it is blank. -/
  ifNoneMatch : Option (Build → Bool)
  phase : Phase := .arrived

structure State where
  current : Fingerprint := {}
  entries : String → Option ETagCacheEntry := fun _ => none
  building : String → Option Build := fun _ => none
  requests : ℕ → Option Request := fun _ => none
  /-- The answers of the fast path: the generation at the arrival, and the tag. -/
  notModified : List (ℕ × Build) := []

inductive Op where
  | broadcast
  | observe (processedJobs : ℕ) (retentionError : String)
  | arrive (id : ℕ) (cacheKey buildKey : String) (ifNoneMatch : Option (Build → Bool))
  | proceed (id : ℕ)
  | finish (buildKey : String)

def State.goto (s : State) (id : ℕ) (r : Request) (phase : Phase) : State :=
  { s with requests := update s.requests id (some { r with phase := phase }) }

def proceed (s : State) (id : ℕ) (r : Request) : State :=
  match r.phase with
  | .arrived =>
    if r.ifNoneMatch.isSome ∧ (s.entries r.cacheKey).isSome then
      s.goto id r (.fingerprinted s.current)
    else s.goto id r (.checked none)
  | .fingerprinted fp =>
    match s.entries r.cacheKey with
    | none => s.goto id r (.checked (some fp))
    | some e =>
      if e.fingerprint = fp ∧ r.ifNoneMatch.any (· e.etag) then
        { s.goto id r .done with notModified := (r.arrived, e.etag) :: s.notModified }
      else s.goto id r (.checked (some fp))
  | .checked fp => s.goto id r (.listed fp s.current.generation)
  | .listed fp started =>
    match s.building r.buildKey with
    | some b => s.goto id r (.waiting fp b)
    | none => { s.goto id r (.waiting fp ⟨id, started⟩) with
        building := update s.building r.buildKey (some ⟨id, started⟩) }
  | .waiting fp b => if s.building r.buildKey = some b then s else s.goto id r (.built fp b)
  | .built none b =>
    if r.ifNoneMatch.isSome then s.goto id r (.built (some s.current) b) else s.goto id r .done
  | .built (some fp) b => { s.goto id r .done with
      entries := update s.entries r.cacheKey (some ⟨fp, b⟩) }
  | .done => s

def step (s : State) : Op → State
  | .broadcast =>
    { s with current := { s.current with generation := s.current.generation + 1 } }
  | .observe jobs err =>
    { s with current := { s.current with processedJobs := jobs, retentionError := err } }
  | .arrive id cacheKey buildKey ifNoneMatch =>
    if (s.requests id).isSome then s
    else s.goto id ⟨s.current.generation, cacheKey, buildKey, ifNoneMatch, .arrived⟩ .arrived
  | .proceed id => (s.requests id).elim s (proceed s id)
  | .finish buildKey => { s with building := update s.building buildKey none }

/-- No tag is confirmed whose response was begun before a broadcast that the request could see. -/
def AnswersCurrent (s : State) : Prop := ∀ a ∈ s.notModified, a.1 ≤ a.2.started
  deriving Decidable

def Phase.storesCurrent : Phase → Bool
  | .built (some fp) b => fp.generation ≤ b.started
  | _ => true

/-- A tag is stored with a fingerprint that was read before the first broadcast after the start
of its build. -/
def storesCurrent (s : State) : Op → Bool
  | .proceed id => (s.requests id).all (·.phase.storesCurrent)
  | _ => true

def Request.Seen (r : Request) (generation : ℕ) : Prop :=
  r.arrived ≤ generation ∧ ∀ fp, r.phase = .fingerprinted fp → r.arrived ≤ fp.generation

structure Inv (s : State) : Prop where
  entries : ∀ key e, s.entries key = some e → e.fingerprint.generation ≤ e.etag.started
  requests : ∀ id r, s.requests id = some r → r.Seen s.current.generation
  answers : AnswersCurrent s

variable {s : State} {id : ℕ} {r : Request}

theorem Inv.goto (h : Inv s) {phase : Phase}
    (hr : { r with phase := phase }.Seen s.current.generation) : Inv (s.goto id r phase) := by
  refine ⟨h.entries, fun id' r' hr' => ?_, h.answers⟩
  simp only [State.goto, update_apply] at hr'
  split_ifs at hr'
  · cases hr'
    exact hr
  · exact h.requests id' r' hr'

theorem inv_proceed (h : Inv s) (hr : s.requests id = some r) (hstore : r.phase.storesCurrent) :
    Inv (proceed s id r) := by
  obtain ⟨harrived, hread⟩ := h.requests id r hr
  -- only a request that has read its fingerprint and not used it carries an obligation
  have hgoto : ∀ phase, (∀ fp, phase ≠ .fingerprinted fp) → Inv (s.goto id r phase) :=
    fun phase hphase => h.goto ⟨harrived, fun fp heq => absurd heq (hphase fp)⟩
  fun_cases proceed s id r
  case case1 =>
    refine h.goto ⟨harrived, fun fp heq => ?_⟩
    cases heq
    exact harrived
  case case4 fp hphase e he hmatch _ =>
    have hdone := hgoto .done nofun
    refine ⟨hdone.entries, hdone.requests, forall_mem_cons.2 ⟨?_, h.answers⟩⟩
    have hentry := h.entries _ e he
    rw [hmatch.1] at hentry
    exact Nat.le_trans (hread fp hphase) hentry
  case case8 fp started _ _ _ =>
    have hwait := hgoto (.waiting fp ⟨id, started⟩) nofun
    exact { hwait with }
  case case13 fp b hphase _ =>
    have hdone := hgoto .done nofun
    refine ⟨fun key e he => ?_, hdone.requests, hdone.answers⟩
    simp only [update_apply] at he
    split_ifs at he
    · cases he
      rw [hphase] at hstore
      exact of_decide_eq_true hstore
    · exact h.entries key e he
  all_goals first | exact h | exact hgoto _ nofun

theorem inv_step (s : State) (op : Op) (h : Inv s) (hstore : storesCurrent s op) :
    Inv (step s op) := by
  cases op with
  | broadcast =>
    exact { h with requests := fun id r hr => (h.requests id r hr).imp_left Nat.le_succ_of_le }
  | observe jobs err => exact { h with }
  | arrive id cacheKey buildKey ifNoneMatch =>
    unfold step
    dsimp only
    split_ifs
    · exact h
    · exact h.goto ⟨Nat.le_refl _, nofun⟩
  | proceed id =>
    cases hr : s.requests id with
    | none => simpa [step, hr] using h
    | some r =>
      rw [storesCurrent, hr] at hstore
      simpa [step, hr] using inv_proceed h hr hstore
  | finish buildKey => exact { h with }

/-- A confirmed tag is current after every run that stores its tags so. -/
theorem confirmed_tags_current (ops : List Op) (h : StepsMeet step (storesCurrent · ·) {} ops) :
    AnswersCurrent (run step {} ops) := by
  have hinit : Inv {} := ⟨nofun, nofun, nofun⟩
  exact (allStates_of_stepsMeet inv_step hinit h).last.answers

/-- Two requests with the header; `between` comes after the first response is built. -/
def twoRequests (between : List Op) : List Op :=
  .arrive 0 "|" "full" (some fun _ => true) :: replicate 3 (.proceed 0) ++
    .finish "full" :: .proceed 0 :: between ++ replicate 2 (.proceed 0) ++
    [.arrive 1 "|" "full" (some fun _ => true), .proceed 1, .proceed 1]

theorem confirmed_tag_without_broadcast : AnswersCurrent (run step {} (twoRequests [])) :=
  confirmed_tags_current _ (by decide)

theorem stale_tag_confirmed :
    (run step {} (twoRequests [.broadcast])).notModified = [(1, ⟨0, 0⟩)] := by
  decide

end LabTether.StatusAggregate
