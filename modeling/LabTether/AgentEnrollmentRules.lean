import LabTether.AgentEnrollmentCommits

/-!
Rules for the statements of a transaction. Each rule gives the state at the next statement
with `Quiet` from the state before: what the transaction has locked is as it was. Commits of
approvals are looked at only when `Timely` holds, which for a false `P` says nothing.
-/
namespace LabTether.AgentEnrollment

open Pool Pool.Process List Option

def Timely (P : Prop) (n : Statement) (s : Store) : Prop :=
  P → ∀ p, n = .commitApproval p → ∀ row, s.db.tokens.get p = some row → s.clock < row.expiresAt

/-- The statements of transaction `t` from state `s` on keep to its guarantee. -/
abbrev Meets {α : Type} (P : Prop) (limit t : ℕ) (p : Tx α) (s : Store) : Prop :=
  Ensures (Timely P) (Others P limit t) (Guar P limit t) p (fun _ _ => True) s

variable {P : Prop} {limit t : ℕ} {s : Store} {α β : Type} {n : Statement} {g : α → Tx β}

theorem meets_await {f : Store → Option (α × Store)} (h : Inv P limit s)
    (hf : ∀ s₁ a s₂, Quiet P t s s₁ → Inv P limit s₁ → Timely P n s₁ → f s₁ = some (a, s₂) →
      Guar P limit t s₁ s₂ ∧ Meets P limit t (g a) s₂) : Meets P limit t (await n f >>= g) s := by
  refine ensures_await (fun s₁ => Quiet P t s s₁ ∧ Inv P limit s₁) ?_ ⟨.refl s, h⟩ ?_
  · rintro s₁ s₂ hr ⟨hq, -⟩
    exact ⟨hq.trans hr.quiet, hr.2.1⟩
  · rintro s₁ a s₂ ⟨hq, hinv⟩ htimely hstep
    exact hf s₁ a s₂ hq hinv htimely hstep

theorem meets_pure (a : α) : Meets P limit t (pure a) s := ensures_done a

theorem meets_select {f : Store → α} (h : Inv P limit s)
    (hf : ∀ s₁, Quiet P t s s₁ → Inv P limit s₁ → Meets P limit t (g (f s₁)) s₁) :
    Meets P limit t (select f >>= g) s := by
  refine meets_await h fun s₁ a s₂ hq hinv _ hstep => ?_
  cases hstep
  exact ⟨.refl hinv, hf s₁ hq hinv⟩

theorem meets_lock {l : Lock} {g : Unit → Tx β} (h : Inv P limit s)
    (hf : ∀ s₁, Quiet P t s s₁ → Inv P limit s₁ → s₁.advisory l = some t →
      Meets P limit t (g ()) s₁) : Meets P limit t (lock t l >>= g) s := by
  refine meets_await h fun s₁ a s₂ hq hinv _ hstep => ?_
  split_ifs at hstep with hfree
  cases hstep
  have hG : Guar P limit t s₁ _ := .lock hinv hfree
  refine ⟨hG, hf _ (hq.trans (quiet_locks (fun l' hl' => ?_) (fun _ hk => hk) (le_rfl)))
    hG.inv (Function.update_self _ _ _)⟩
  rw [Function.update_apply]
  split_ifs
  · rfl
  · exact hl'

def Store.has (s : Store) : RowKey → Prop
  | .token i => (s.db.tokens.get i).isSome
  | .enrollment i => (s.db.enrollments.get i).isSome

theorem Inv.has_id (h : Inv P limit s) {k : RowKey} (hk : s.has k) : k.id < s.nextID := by
  cases k with
  | token i => exact h.tokens.ids i hk
  | enrollment i => exact h.enrollments.ids i hk

variable {ks : List RowKey}

theorem take_owned {k : RowKey} (hk : k ∈ ks) :
    (s.take t ks).rows k = some t := by
  simp [Store.take, hk]

theorem take_rows (k : RowKey) (hk : s.rows k = some t) :
    (s.take t ks).rows k = some t := by
  simp [Store.take, hk]

theorem guar_take (h : Inv P limit s) (ks : List RowKey) (hfree : ∀ k ∈ ks, s.free t k)
    (hhas : ∀ k ∈ ks, s.has k) : Guar P limit t s (s.take t ks) ∧ Quiet P t s (s.take t ks) := by
  refine ⟨Guar.take h (le_rfl) hfree (fun k hk => h.has_id (hhas k hk)) ?_,
    quiet_locks (fun _ hl => hl) take_rows (le_rfl)⟩
  exact fun i hi => .inl (hhas _ hi)

theorem meets_selectForUpdate {key : α → RowKey} {f : Store → Option α} {g : Option α → Tx β}
    (h : Inv P limit s) (hhas : ∀ s₁ a, Inv P limit s₁ → f s₁ = some a → s₁.has (key a))
    (hnone : ∀ s₁, Quiet P t s s₁ → Inv P limit s₁ → f s₁ = none → Meets P limit t (g none) s₁)
    (hsome : ∀ s₁ a, Quiet P t s (s₁.take t [key a]) → Inv P limit (s₁.take t [key a]) →
      f s₁ = some a → Meets P limit t (g (some a)) (s₁.take t [key a])) :
    Meets P limit t (selectForUpdate t key f >>= g) s := by
  refine meets_await h fun s₁ a s₂ hq hinv _ hstep => ?_
  rcases hf : f s₁ with _ | a
  · rw [hf] at hstep
    cases hstep
    exact ⟨.refl hinv, hnone s₁ hq hinv hf⟩
  rw [hf] at hstep
  dsimp only at hstep
  split_ifs at hstep with hfree
  cases hstep
  obtain ⟨hG, hq'⟩ := guar_take hinv [key a] (by simpa using hfree)
    (by simpa using hhas s₁ a hinv hf)
  exact ⟨hG, hsome s₁ a (hq.trans hq') hG.inv hf⟩

theorem meets_rollback (h : Inv P limit s) (failure : Failure) :
    Meets P limit t (rollback t failure) s := by
  refine meets_await h fun s₁ a s₂ _ hinv _ hstep => ?_
  cases hstep
  exact ⟨.finish hinv, meets_pure _⟩

structure Commits (P : Prop) (limit t : ℕ) (s : Store) (db : Db) (evs : List Event) : Prop where
  changed : Changed t s db evs
  inv : Inv P limit { s with db := db, log := s.log ++ evs }
  fleet : P → s.advisory .capacity ≠ some t →
    db.enrolledOrReserved s.clock ⊆ s.db.enrolledOrReserved s.clock

variable {db : Db} {evs : List Event}

theorem changed_owned
    (htoken : ∀ i, s.rows (.token i) ≠ some t → db.tokens.get i = s.db.tokens.get i)
    (henrollment : ∀ i, s.rows (.enrollment i) ≠ some t →
      db.enrollments.get i = s.db.enrollments.get i)
    (hidentity : ∀ a, s.advisory (.identity a) ≠ some t →
      db.assets.get a = s.db.assets.get a ∧ db.identities.get a = s.db.identities.get a ∧
        db.retired.get a = s.db.retired.get a) (htokens : ∀ i r', db.tokens.get i = some r' →
      s.advisory (.identity r'.assetID) = some t ∨ s.db.tokens.get i = some r')
    (hevents : ∀ ev ∈ evs, ∀ a, ev.asset = some a → s.advisory (.identity a) = some t)
    (huses : ∀ ev ∈ evs, ∀ e, ev.uses e = true → s.rows (.enrollment e) = some t)
    (hbeats : ∀ i, .heartbeat i ∈ evs → ∃ r, s.db.tokens.get i = some r ∧ r.status = .active)
    (hdead : ∀ i r r', s.db.tokens.get i = some r → r.status = .revoked →
      db.tokens.get i = some r' → r'.status = .revoked) : Changed t s db evs where
  token := fun i _ hi => htoken i hi
  absent := by
    intro i hi hnone
    rw [htoken i (by simp [hi]), hnone]
  enrollment := fun i _ hi => henrollment i hi
  identity := hidentity
  tokens := by
    intro i r' hr' ha
    rcases htokens i r' hr' with hown | hsame
    · exact absurd hown ha
    · exact ⟨r', hsame, rfl, .inl rfl⟩
  events := hevents
  uses := huses
  heartbeats := hbeats
  dead := hdead

theorem guar_statement (h : Inv P limit s) (hc : Changed t s db [])
    (hkept : ∀ i, (s.db.tokens.get i).isSome → (db.tokens.get i).isSome)
    (hinv : Inv P limit { s with db := db })
    (hfleet : db.enrolledOrReserved s.clock ⊆ s.db.enrolledOrReserved s.clock) :
    Guar P limit t s { s with db := db } := by
  have hG := Guar.change h hc (fun _ => .refl _ _) (fun _ => .refl _ _) (fun _ hk => hk)
    (fun i hnone _ hsome => ?_) (by simpa using hinv) fun _ _ => hfleet
  · simpa using hG
  · have hsome' := hkept i hsome
    rw [hnone] at hsome'
    cases hsome'

theorem meets_commit {write : Db → Db} (h : Inv P limit s)
    (hf : ∀ s₁, Quiet P t s s₁ → Inv P limit s₁ → Timely P n s₁ →
      Commits P limit t s₁ (write s₁.db) evs) : Meets P limit t (commit t write evs n) s := by
  refine meets_await h fun s₁ a s₂ hq hinv htimely hstep => ?_
  cases hstep
  have hc := hf s₁ hq hinv htimely
  exact ⟨.commit hinv hc.changed hc.inv hc.fleet, meets_pure _⟩

section

variable {a : String} {statuses : List TokenStatus} {images : List (ℕ × Option AgentToken)}

/-- The images are those of all rows of the asset with one of the statuses, which are locked. -/
structure Revoking (t : ℕ) (a : String) (statuses : List TokenStatus)
    (images : List (ℕ × Option AgentToken)) (s : Store) : Prop where
  owned : ∀ i v, (i, v) ∈ images → s.rows (.token i) = some t
  image : ∀ i v, (i, v) ∈ images → ∃ r now, s.db.tokens.get i = some r ∧ r.assetID = a ∧
    r.status ∈ statuses ∧ v = some (r.revoke now)
  all : ∀ i r, s.db.tokens.get i = some r → r.assetID = a → r.status ∈ statuses →
    i ∈ images.map Prod.fst

section

variable (h : Revoking t a statuses images s)
include h

theorem Revoking.quiet {s' : Store} (hq : Quiet P t s s') (ha : s.advisory (.identity a) = some t)
    (hrev : .revoked ∉ statuses) :
    Revoking t a statuses images s' where
  owned := fun i v hmem => hq.rows _ (h.owned i v hmem)
  image := by
    intro i v hmem
    rw [hq.token i (h.owned i v hmem)]
    exact h.image i v hmem
  all := by
    intro i r' hr' hasset hstatus
    obtain ⟨r, hr, hra, rfl | hrev'⟩ := hq.tokens a ha i r' hr' hasset
    · exact h.all i r' hr hra hstatus
    · rw [hrev'] at hstatus
      exact absurd hstatus hrev

theorem Revoking.row {i : ℕ} {r' : AgentToken} (hr' : (s.db.tokens.writeAll images).get i = some r') :
    (s.db.tokens.get i = some r' ∧ ¬ (r'.assetID = a ∧ r'.status ∈ statuses)) ∨
      ∃ r now, s.db.tokens.get i = some r ∧ r.assetID = a ∧ r' = r.revoke now := by
  rcases s.db.tokens.get_writeAll images i with ⟨hnot, hsame⟩ | ⟨v, hmem, hv⟩
  · rw [hsame] at hr'
    exact .inl ⟨hr', fun hh => hnot (h.all i r' hr' hh.1 hh.2)⟩
  · obtain ⟨r, now, hr, hra, -, hv'⟩ := h.image i v hmem
    rw [hv, hv'] at hr'
    exact .inr ⟨r, now, hr, hra, (some.inj hr').symm⟩

theorem Revoking.unowned {i : ℕ} (hi : s.rows (.token i) ≠ some t) :
    (s.db.tokens.writeAll images).get i = s.db.tokens.get i := by
  rcases s.db.tokens.get_writeAll images i with ⟨-, hsame⟩ | ⟨v, hmem, -⟩
  · exact hsame
  · exact absurd (h.owned i v hmem) hi

theorem Revoking.tame : Tame s.db.tokens (s.db.tokens.writeAll images) := by
  intro i r' hr'
  rcases h.row hr' with ⟨hr, -⟩ | ⟨r, now, hr, -, rfl⟩
  · exact ⟨r', hr, tokenStep_refl r'⟩
  · exact ⟨r, hr, tokenStep_revoke now r⟩

end

theorem meets_revokeTokens {g : List (ℕ × Option AgentToken) → Tx β} (h : Inv P limit s)
    (hf : ∀ s₁ images, Quiet P t s s₁ → Inv P limit s₁ → Revoking t a statuses images s₁ →
      Meets P limit t (g images) s₁) : Meets P limit t (revokeTokens t a statuses >>= g) s := by
  refine meets_await h fun s₁ images s₂ hq hinv _ hstep => ?_
  dsimp only at hstep
  split_ifs at hstep with hfree
  cases hstep
  generalize hids : (s₁.db.tokens.select fun _ r => decide (r.assetID = a ∧ r.status ∈ statuses)) =
    ids at *
  have hmem : ∀ i, i ∈ ids ↔
      ∃ r, s₁.db.tokens.get i = some r ∧ r.assetID = a ∧ r.status ∈ statuses := by
    intro i
    rw [← hids, Rows.mem_select]
    simp
  obtain ⟨hG, hq'⟩ := guar_take hinv (ids.map .token) (by simpa using hfree) (by
      intro k hk
      obtain ⟨i, hi, rfl⟩ := mem_map.1 hk
      obtain ⟨r, hr, -⟩ := (hmem i).1 hi
      simp [Store.has, hr])
  refine ⟨hG, hf _ _ (hq.trans hq') hG.inv ⟨fun i v hv => ?_, fun i v hv => ?_, fun i r hr ha hs => ?_⟩⟩
  · obtain ⟨j, hj, hpair⟩ := mem_map.1 hv
    obtain ⟨rfl, -⟩ := Prod.mk.inj hpair
    exact take_owned (mem_map_of_mem hj)
  · obtain ⟨j, hj, hpair⟩ := mem_map.1 hv
    obtain ⟨rfl, rfl⟩ := Prod.mk.inj hpair
    obtain ⟨r, hr, ha, hs⟩ := (hmem j).1 hj
    exact ⟨r, s₁.clock, hr, ha, hs, by simp [hr]⟩
  · simpa using (hmem i).2 ⟨r, hr, ha, hs⟩

/-- A token row that the transaction is about to insert. -/
structure Fresh (t k : ℕ) (s : Store) : Prop where
  owned : s.rows (.token k) = some t
  absent : s.db.tokens.get k = none
  id : k < s.nextID

theorem Fresh.quiet {k : ℕ} {s' : Store} (h : Fresh t k s) (hq : Quiet P t s s') : Fresh t k s' :=
  ⟨hq.rows _ h.owned, (hq.token k h.owned).trans h.absent, Nat.lt_of_lt_of_le h.id hq.nextID⟩

theorem Inv.next_free (h : Inv P limit s) {k : RowKey} (hk : s.nextID ≤ k.id) : s.rows k = none := by
  by_contra hne
  have hlt := h.locked k (isSome_iff_ne_none.2 hne)
  omega

theorem guar_insert (h : Inv P limit s) (k : RowKey) (hk : k.id = s.nextID) :
    Guar P limit t s { s.take t [k] with nextID := s.nextID + 1 } ∧
      Quiet P t s { s.take t [k] with nextID := s.nextID + 1 } := by
  refine ⟨Guar.take h (Nat.le_succ _) (fun k' hk' => ?_) (fun k' hk' => ?_) fun i hi => .inr ?_,
    quiet_locks (fun _ hl => hl) take_rows (Nat.le_succ _)⟩
  · rw [mem_singleton.1 hk']
    exact Store.free_iff.2 (.inl (h.next_free hk.ge))
  · rw [mem_singleton.1 hk']
    omega
  · rw [← mem_singleton.1 hi] at hk
    exact hk.ge

theorem meets_insertAgentToken {status : TokenStatus} {via : EnrolledVia} {ttl : ℕ}
    {g : ℕ × AgentToken → Tx β} (h : Inv P limit s)
    (hf : ∀ s₁ k token, Quiet P t s s₁ → Inv P limit s₁ → Fresh t k s₁ → token.assetID = a →
      token.status = status → Meets P limit t (g (k, token)) s₁) :
    Meets P limit t (insertAgentToken t a status via ttl >>= g) s := by
  refine meets_await h fun s₁ x s₂ hq hinv _ hstep => ?_
  cases hstep
  obtain ⟨hG, hq'⟩ := guar_insert (t := t) hinv (.token s₁.nextID) rfl
  refine ⟨hG, hf _ _ _ (hq.trans hq') hG.inv ⟨take_owned (.head _), ?_, ?_⟩ rfl rfl⟩
  · by_contra hne
    have hlt := hinv.tokens.ids _ (isSome_iff_ne_none.2 hne)
    omega
  · exact Nat.lt_succ_self _

end

end LabTether.AgentEnrollment
