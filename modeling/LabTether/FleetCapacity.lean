import LabTether.AgentCredentials

/-!
The size of the fleet. `ensureAgentFleetCapacity` counts under the capacity lock, but
`FinalizeAgentApproval` turns a prepared approval into an identity without that lock: it looks
at the approval's expiry in its `UPDATE` and commits later. If the approval expires in
between, another operation can take its place before the commit. The limit holds along the
runs in which no approval expires between that look and the commit.
-/
namespace LabTether.AgentEnrollment

open Pool Transition State Run

theorem timely_commitApproval {p : ℕ} {s : Store} : Timely True (.commitApproval p) s ↔
    ∀ row ∈ s.db.tokens.get p, s.clock < row.expiresAt := by
  constructor
  · exact fun h row hrow => h trivial p rfl row hrow
  · rintro h - p' ⟨⟩ row hrow
    exact h row hrow

instance (n : Statement) (s : Store) : Decidable (Timely True n s) :=
  match n with
  | .commitApproval _ => decidable_of_iff _ timely_commitApproval.symm
  | .lock _ => .isTrue fun _ _ h => nomatch h
  | .select => .isTrue fun _ _ h => nomatch h
  | .update => .isTrue fun _ _ h => nomatch h
  | .commit => .isTrue fun _ _ h => nomatch h
  | .rollback => .isTrue fun _ _ h => nomatch h

/-- The assets with an identity or an unexpired prepared approval, at the time of the state. -/
def Store.fleet (s : Store) : Finset String := s.db.enrolledOrReserved s.clock

/-- A run in which every approval is committed before it expires keeps to the limit. -/
theorem fleet_within_limit (c : Setting) (ops : List (Op Call ℕ))
    (h : StepsMeet (step (system c)) (Permitted (Timely True)) empty ops) :
    AllStates (step (system c)) (fun p => p.shared.fleet.card ≤ c.limit) empty ops := by
  rw [allStates_iff_runs]
  rintro pre ⟨post, rfl⟩
  have hpre := (stepsMeet_append.1 h).1
  exact (invariant_run (system_sound True c) (ready_empty True) hpre).inv.capacity trivial

def hubForOne : Setting := ⟨id, fun _ => true, 1⟩

def finalizeA : FinalizeRequest := ⟨0, "a", "host", "fp", "ed25519", 1000, 0, "t0"⟩

def approvalOfA : List (Op Call ℕ) :=
  .start (.prepareAgentApproval "a" 100) :: List.replicate 8 (.advance 0) ++
    .start (.finalizeAgentApproval finalizeA) :: List.replicate 8 (.advance 1)

def approvalOfB : List (Op Call ℕ) :=
  .start (.prepareAgentApproval "b" 100) :: List.replicate 8 (.advance 2)

/-- With a commit in time `b` is refused. -/
theorem fleet_within_limit_in_time :
    StepsMeet (step (system hubForOne)) (Permitted (Timely True)) empty
        (approvalOfA ++ [.advance 1] ++ approvalOfB) ∧
      AllStates (step (system hubForOne)) (fun p => p.shared.fleet.card ≤ hubForOne.limit)
        empty (approvalOfA ++ [.advance 1] ++ approvalOfB) := by
  have hmeet : StepsMeet (step (system hubForOne)) (Permitted (Timely True)) empty
      (approvalOfA ++ [.advance 1] ++ approvalOfB) := by decide +kernel
  exact ⟨hmeet, fleet_within_limit hubForOne _ hmeet⟩

/-- The approval of `a` expires before the commit, `b` takes its place, and both are there. -/
theorem expired_approval_exceeds_limit : hubForOne.limit = 1 ∧
      (run (step (system hubForOne)) empty
        (approvalOfA ++ [.env 101] ++ approvalOfB ++ [.advance 1])).shared.fleet.card = 2 := by
  decide +kernel

end LabTether.AgentEnrollment
