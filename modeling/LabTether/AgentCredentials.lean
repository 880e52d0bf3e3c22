import LabTether.AgentEnrollmentGrants

/-!
The life of agent credentials at any interleaving of the operations, from empty tables. A
removal and a rotation are dated by the database clock as their statements read it, as the
rows are; `live` is what the history says about the presence of an asset.
-/
namespace LabTether.AgentEnrollment

open Pool Transition State

/-- The hub's tables and the transactions in progress. -/
abbrev Run := State Statement Store Outcome

def Run.empty : Run := ⟨Store.empty, []⟩

variable {c : Setting}

theorem ready_empty (P : Prop) :
    Ready (Timely P) (Inv P c.limit) Tick (Guar P c.limit) Run.empty := ready_start inv_empty

theorem untimed (p : Run) (ops : List (Op Call ℕ)) :
    StepsMeet (step (system c)) (Permitted (Timely False)) p ops := by
  refine stepsMeet_of_all (fun q op => ?_) p ops
  cases op with
  | advance t => exact fun _ _ _ _ hfalse => hfalse.elim
  | _ => trivial

/-- A dead token stays dead and authenticates nothing. -/
def Buried (i : ℕ) (s s' : Store) : Prop :=
  Dead i s → Dead i s' ∧ s'.log.count (.heartbeat i) = s.log.count (.heartbeat i)

theorem Buried.trans {i : ℕ} {s₁ s₂ s₃ : Store} (h : Buried i s₁ s₂) (h' : Buried i s₂ s₃) :
    Buried i s₁ s₃ := by
  intro hdead
  obtain ⟨hdead₂, hcount⟩ := h hdead
  obtain ⟨hdead₃, hcount'⟩ := h' hdead₂
  exact ⟨hdead₃, hcount'.trans hcount⟩

theorem Dead.not_active {i : ℕ} {s : Store} (h : Dead i s) {r : AgentToken}
    (hr : s.db.tokens.get i = some r) : r.status = .revoked := by
  rcases h with ⟨x, hx, hrev⟩ | ⟨hnone, -⟩
  · rw [hr] at hx
    exact Option.some.inj hx ▸ hrev
  · rw [hr] at hnone
    cases hnone

theorem Guar.buried {P : Prop} {limit t i : ℕ} {s s' : Store} (h : Guar P limit t s s') :
    Buried i s s' := by
  intro hdead
  refine ⟨h.dead i hdead, ?_⟩
  obtain ⟨evs, hlog, -, -, hbeats⟩ := h.events
  have hzero : evs.count (.heartbeat i) = 0 := by
    refine List.count_eq_zero.2 fun hmem => ?_
    obtain ⟨r, hr, hact⟩ := hbeats i hmem
    have hrev := hdead.not_active hr
    rw [hact] at hrev
    cases hrev
  rw [hlog, List.count_append, hzero, Nat.add_zero]

theorem buried_run (p : Run) (h : Ready (Timely False) (Inv False c.limit) Tick
    (Guar False c.limit) p) (i : ℕ) (ops : List (Op Call ℕ)) :
    Buried i p.shared (run (step (system c)) p ops).shared := by
  refine relation_run (T := Buried i) (system_sound False c) (fun s hdead => ⟨hdead, rfl⟩)
    Buried.trans ?_ (fun _ _ _ _ hG => hG.buried) h (untimed p ops)
  rintro s s' - ⟨d, rfl⟩ hdead
  exact ⟨hdead, rfl⟩

/-- Credentials at any interleaving: an asset has at most one active token, a revoked token
stays revoked and authenticates no heartbeat, enrollment tokens are used at most `maxUses`
times, an asset that is there is rotated only by a single-use token from after its last
rotation, and one that was removed comes back only by such a token from after the removal. -/
theorem agent_credential_lifecycle (c : Setting) (ops more : List (Op Call ℕ)) :
    let p := run (step (system c)) Run.empty ops
    let p' := run (step (system c)) p more
    (∀ i j r r', p.shared.db.tokens.get i = some r → p.shared.db.tokens.get j = some r' →
      r.status = .active → r'.status = .active → r.assetID = r'.assetID → i = j) ∧
    (∀ i r, p.shared.db.tokens.get i = some r → r.status = .revoked →
      (∀ r', p'.shared.db.tokens.get i = some r' → r'.status = .revoked) ∧
        p'.shared.log.count (.heartbeat i) = p.shared.log.count (.heartbeat i)) ∧
    (∀ a token m, .enrolled a token m ∈ p.shared.log →
      p.shared.log.countP (Event.uses token.id) ≤ token.maxUses) ∧
    (∀ a, (p.shared.db.assets.get a).isSome = live a p.shared.log) ∧
    (∀ pre post a token m, p.shared.log = pre ++ .enrolled a token m :: post → live a pre →
      token.maxUses = 1 ∧ ∀ ev ∈ pre, ev.asset = some a → ev.stamp < token.createdAt) ∧
    (∀ pre post a token m r, p.shared.log = pre ++ .enrolled a token m :: post →
      .decommissioned a r ∈ pre → token.maxUses = 1 ∧ r < token.createdAt) ∧
    (∀ pre post a prepared m r, p.shared.log = pre ++ .approved a prepared m :: post →
      .decommissioned a r ∉ pre) := by
  intro p p'
  have hready := invariant_run (system_sound False c) (ready_empty False) (untimed Run.empty ops)
  have hinv : Inv False c.limit p.shared := hready.inv
  refine ⟨hinv.tokens.unique, fun i r hr hrev => ?_, fun a token m hmem => ?_,
    hinv.identities.live, fun pre post a token m hlog => ?_, fun pre post a token m r hlog => ?_,
    fun pre post a prepared m r hlog => ?_⟩
  · obtain ⟨hdead, hcount⟩ := buried_run p hready i more (.inl ⟨r, hr, hrev⟩)
    exact ⟨fun r' hr' => hdead.not_active hr', hcount⟩
  · exact (hinv.enrollments.used a token m hmem).2.1
  · exact (hinv.lawful pre _ post hlog).1
  · exact (hinv.lawful pre _ post hlog).2 r
  · exact hinv.lawful pre _ post hlog r

/-- At any interleaving an asset has an identity exactly while it is there, a removed one is there
again or has a tombstone, never both, and a token row counts its uses. -/
theorem enrollment_tables_agree (c : Setting) (ops : List (Op Call ℕ)) :
    let s := (run (step (system c)) Run.empty ops).shared
    (∀ a, (s.db.identities.get a).isSome ↔ (s.db.assets.get a).isSome) ∧
    (∀ a, (s.db.retired.get a).isSome → s.db.assets.get a = none) ∧
    (∀ a r, .decommissioned a r ∈ s.log →
      (s.db.assets.get a).isSome ∨ (s.db.retired.get a).isSome) ∧
    ∀ e r, s.db.enrollments.get e = some r → r.useCount = s.log.countP (Event.uses e) := by
  intro s
  have h : Inv False c.limit s :=
    (invariant_run (system_sound False c) (ready_empty False) (untimed Run.empty ops)).inv
  exact ⟨h.identities.enrolled, h.identities.absent, h.identities.gone,
    fun e r hr => (h.enrollments.counted e r hr).2.1⟩

end LabTether.AgentEnrollment
