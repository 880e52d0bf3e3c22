import Mathlib

/-!
Atomic transactions with an answer.
A transaction computes an answer and a next state, or an error that rolls back.
Its commit can be acknowledged, can be refused, or can take effect while the answer
is lost on the way back, so the caller's view and the state are separate results.
-/
namespace LabTether.Transaction

open List

variable {ε : Type*} {α β σ : Type} {f : α → Except ε β}

theorem bind_eq_ok {x : Except ε α} {b : β} : (x >>= f) = .ok b ↔ ∃ a, x = .ok a ∧ f a = .ok b := by
  cases x with
  | error e | ok a => simp [bind, Except.bind]

variable {e : ε}

theorem bind_eq_error {x : Except ε α} :
    (x >>= f) = .error e ↔ x = .error e ∨ ∃ a, x = .ok a ∧ f a = .error e := by
  cases x with
  | error e | ok a => simp [bind, Except.bind]

theorem ok_bind (a : α) (f : α → Except ε β) : ((Except.ok a : Except ε α) >>= f) = f a := rfl

theorem error_bind (e : ε) (f : α → Except ε β) :
    ((Except.error e : Except ε α) >>= f) = .error e := rfl

theorem mapM_eq_ok {f : α → Except ε α} {t t' : List α} (h : t.mapM f = .ok t') :
    t' = t.map (fun r => (f r).toOption.getD r) ∧ ∀ r ∈ t, ∃ r', f r = .ok r' := by
  induction t generalizing t' with
  | nil =>
    rw [mapM_nil] at h
    cases h
    simp
  | cons r t ih =>
    rw [mapM_cons] at h
    obtain ⟨r', hr, h⟩ := bind_eq_ok.1 h
    obtain ⟨rest, hrest, h⟩ := bind_eq_ok.1 h
    cases h
    obtain ⟨hmap, hall⟩ := ih hrest
    refine ⟨?_, forall_mem_cons.2 ⟨⟨r', hr⟩, hall⟩⟩
    rw [map_cons, hr, ← hmap]
    rfl

theorem mapM_ok_of_forall {f : α → Except ε α} {t : List α} (h : ∀ r ∈ t, ∃ r', f r = .ok r') :
    ∃ t', t.mapM f = .ok t' := by
  induction t with
  | nil => exact ⟨[], by rw [mapM_nil]; rfl⟩
  | cons r t ih =>
    obtain ⟨r', hr⟩ := h r (by simp)
    obtain ⟨rest, hrest⟩ := ih fun x hx => h x (by simp [hx])
    refine ⟨r' :: rest, ?_⟩
    rw [mapM_cons, hr, ok_bind, hrest]
    rfl

variable {l : List α}

theorem forM_eq_ok {f : α → Except ε Unit} : l.forM f = .ok () ↔ ∀ a ∈ l, f a = .ok () := by
  induction l with
  | nil =>
    constructor
    · intro _ a ha
      cases ha
    · intro _
      rfl
  | cons a l ih =>
    change (f a >>= fun _ => l.forM f) = .ok () ↔ _
    rw [bind_eq_ok, forall_mem_cons, ← ih]
    constructor
    · rintro ⟨_, ha, hl⟩
      exact ⟨ha, hl⟩
    · rintro ⟨ha, hl⟩
      exact ⟨(), ha, hl⟩

theorem forM_error {f : α → Except ε Unit} (h : l.forM f = .error e) : ∃ a ∈ l, f a = .error e := by
  induction l with
  | nil => cases h
  | cons a l ih =>
    rcases bind_eq_error.1 h with ha | ⟨-, -, h⟩
    · exact ⟨a, .head _, ha⟩
    · obtain ⟨b, hb, he⟩ := ih h
      exact ⟨b, .tail _ hb, he⟩

theorem mapM_error (h : l.mapM f = .error e) : ∃ a ∈ l, f a = .error e := by
  induction l with
  | nil =>
    rw [mapM_nil] at h
    cases h
  | cons a l ih =>
    rw [mapM_cons] at h
    rcases bind_eq_error.1 h with ha | ⟨b, -, h⟩
    · exact ⟨a, .head _, ha⟩
    rcases bind_eq_error.1 h with hl | ⟨bs, -, h⟩
    · obtain ⟨c, hc, he⟩ := ih hl
      exact ⟨c, .tail _ hc, he⟩
    · cases h

variable {f : σ → α → Except ε σ}

theorem foldlM_invariant (P : σ → Prop) {s s' : σ}
    (hstep : ∀ s a s', a ∈ l → P s → f s a = .ok s' → P s') (hs : P s)
    (h : l.foldlM f s = .ok s') : P s' := by
  induction l generalizing s with
  | nil =>
    rw [foldlM_nil] at h
    cases h
    exact hs
  | cons a l ih =>
    rw [foldlM_cons] at h
    obtain ⟨s₁, ha, h⟩ := bind_eq_ok.1 h
    exact ih (fun s b s' hb => hstep s b s' (by simp [hb])) (hstep s a s₁ (by simp) hs ha) h

/-- Each step of a batch brings about `Q` for its item, and no later step undoes it. -/
theorem foldlM_forall (P : σ → Prop) (Q : α → σ → Prop)
    {s s' : σ} (hstep : ∀ s a s', a ∈ l → P s → f s a = .ok s' → P s' ∧ Q a s')
    (hkeep : ∀ s a s' b, b ∈ l → Q b s → f s a = .ok s' → Q b s') (hs : P s)
    (h : l.foldlM f s = .ok s') : ∀ a ∈ l, Q a s' := by
  induction l generalizing s with
  | nil => simp
  | cons b l ih =>
    rw [foldlM_cons] at h
    obtain ⟨s₁, hb, hrest⟩ := bind_eq_ok.1 h
    obtain ⟨hP, hQ⟩ := hstep s b s₁ (by simp) hs hb
    intro a ha
    rcases mem_cons.1 ha with rfl | ha
    · exact foldlM_invariant (Q a) (fun s c s' _ => hkeep s c s' a (by simp)) hQ hrest
    · exact ih (fun s c s' hc => hstep s c s' (by simp [hc]))
        (fun s c s' d hd => hkeep s c s' d (by simp [hd])) hP hrest a ha

theorem foldlM_error {s : σ} (h : l.foldlM f s = .error e) : ∃ s' a, f s' a = .error e := by
  induction l generalizing s with
  | nil =>
    rw [foldlM_nil] at h
    cases h
  | cons a l ih =>
    rw [foldlM_cons] at h
    rcases bind_eq_error.1 h with ha | ⟨s', -, h⟩
    · exact ⟨s, a, ha⟩
    · exact ih h

inductive Ack
  /-- the caller sees the commit -/
  | delivered
  /-- the commit took effect and its response was lost -/
  | lost
  /-- the commit was refused, or the process stopped before it -/
  | aborted
deriving DecidableEq

/-- The caller's answer and the durable state. -/
def commit (ack : Ack) (refused : ε) (s : σ) (r : Except ε (β × σ)) : Except ε β × σ :=
  match r with
  | .error e => (.error e, s)
  | .ok (b, s') =>
    match ack with
    | .delivered => (.ok b, s')
    | .lost => (.error refused, s')
    | .aborted => (.error refused, s)

variable {ack : Ack} {refused : ε} {s : σ} {r : Except ε (β × σ)}

@[simp] theorem commit_error (e : ε) :
    commit ack refused s (.error e : Except ε (β × σ)) = (.error e, s) := rfl

theorem commit_state (P : σ → Prop) (hs : P s) (hr : ∀ b s', r = .ok (b, s') → P s') :
    P (commit ack refused s r).2 := by
  rcases r with e | p
  · exact hs
  cases ack with
  | delivered | lost => exact hr p.1 p.2 rfl
  | aborted => exact hs

theorem commit_eq_ok {b : β} (h : (commit ack refused s r).1 = .ok b) :
    r = .ok (b, (commit ack refused s r).2) := by
  rcases r with e | p
  · cases h
  cases ack with
  | delivered =>
    cases h
    rfl
  | lost | aborted => cases h

end LabTether.Transaction
