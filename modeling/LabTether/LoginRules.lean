import LabTether.LoginMoves

/-!
Rules for the calls of a request. Under the lock of a user the assertions of a task are those
that `Calm` keeps, and its calls touch no other user; outside it asserts nothing but where it
is with the lock.
-/
namespace LabTether.Login

open GoStrings KeyedLock Pool Pool.Process List

section

/-- A revocation of sessions names its user without white space around the id. -/
def Allowed : Call → Shared → Prop
  | .plain, _ => True
  | .revokeSessions userID, _ => trimSpace userID = userID

structure Guar (t : ℕ) (s s' : Shared) : Prop where
  inv : Inv s'
  step : Step t (fun u => s.holds t u) s s'
  uses : ∀ (i : ℕ) (use : Use), s.uses[i]? = some use → use.task ≠ t → s'.uses[i]? = some use

/-- What moves from outside do. -/
structure Outside (s s' : Shared) : Prop where
  inv : Inv s'
  step : ∀ t, Step t (fun _ => False) s s'
  uses : s'.uses = s.uses

abbrev Others (t : ℕ) : Shared → Shared → Prop := Rely Inv Outside Guar t

def Placed (t i : ℕ) (u : String) (place : Place) (s : Shared) : Prop :=
  s.uses[i]? = some (⟨t, u, place⟩ : Use)

variable {t i e : ℕ} {u : String} {place : Place} {s s' : Shared}

theorem Placed.others (h : Placed t i u place s) (hr : Others t s s') : Placed t i u place s' := by
  rcases hr.2.2 with hE | ⟨t', hne, hG⟩
  · rw [Placed, hE.uses]
    exact h
  · exact hG.uses i _ h (Ne.symm hne)

theorem Placed.holds (h : Placed t i u (.inside e) s) : s.holds t u := ⟨i, e, h⟩

theorem Placed.calm (h : Placed t i u (.inside e) s) (hr : Others t s s') : Calm t u s s' := by
  rcases hr.2.2 with hE | ⟨t', hne, hG⟩
  · have hstep := hE.step (t + 1)
    exact ⟨hstep.onward, hstep.apart u not_false, fun token htoken hmem =>
      (hstep.tokens token hmem).resolve_right fun hother => by
        have := hr.1.sound.taker htoken hother
        omega⟩
  · exact hG.step.calm hr.1 hne h.holds

/-- A call under the lock of `u`: it leaves the locks alone and touches no other user. -/
structure Acts (t : ℕ) (u : String) (s s' : Shared) : Prop where
  sound : Sound s'
  step : Step t (fun v => v = u) s s'
  locks : s'.locks = s.locks
  uses : s'.uses = s.uses

theorem Inv.of_sound (hinv : Inv s) (hsound : Sound s') (hlocks : s'.locks = s.locks)
    (huses : s'.uses = s.uses) : Inv s' := by
  refine ⟨?_, hsound⟩
  rw [hlocks, Shared.threads, huses]
  exact hinv.locks

theorem Acts.inv (h : Acts t u s s') (hinv : Inv s) : Inv s' := hinv.of_sound h.sound h.locks h.uses

theorem Acts.guar (h : Acts t u s s') (hinv : Inv s) (hholds : s.holds t u) : Guar t s s' where
  inv := h.inv hinv
  step := { h.step with apart := fun v hv => h.step.apart v fun heq => hv (heq ▸ hholds) }
  uses j use hj _ := by rw [h.uses, hj]

theorem Mild.acts (h : Mild (fun v => v = u) s s') (hinv : Inv s) (hlocks : s'.locks = s.locks)
    (huses : s'.uses = s.uses) : Acts t u s s' :=
  ⟨h.sound hinv.sound, h.step, hlocks, huses⟩

theorem guar_lock (hinv : Inv s) {locks : Locks String} {uses : List Use}
    (hlocks : KeyedLock.Inv locks (uses.map fun use => (use.key, use.place)))
    (huses : ∀ (i : ℕ) (use : Use), s.uses[i]? = some use → use.task ≠ t → uses[i]? = some use) :
    Guar t s { s with locks := locks, uses := uses } := by
  have hmild : ∀ mine, Mild mine s { s with locks := locks, uses := uses } := fun _ =>
    ⟨hinv.sound.users, fun _ _ => rfl, fun _ _ h => h, fun _ _ h => h, le_rfl, rfl, rfl,
      rfl, rfl, rfl⟩
  exact ⟨⟨hlocks, (hmild fun _ => False).sound hinv.sound⟩, (hmild _).step, huses⟩

variable {α β : Type} {P : Shared → Prop} {Q : α → Shared → Prop}

def Keeps (t : ℕ) (u : String) (P : Shared → Prop) : Prop :=
  ∀ s s', Sound s → Calm t u s s' → P s → P s'

/-- Outside of the lock, at place `P` with it. -/
abbrev Runs {α : Type} (t : ℕ) (P : Shared → Prop) (p : Program α) (Q : α → Shared → Prop) : Prop :=
  Triple Allowed (Others t) (Guar t) (fun s => Inv s ∧ P s) p fun a s => Inv s ∧ Q a s

/-- Under the lock of `u`, which the task has with use `i` and entry `e`. -/
def Inner {α : Type} (t : ℕ) (u : String) (P : Shared → Prop) (p : Program α)
    (Q : α → Shared → Prop) : Prop :=
  ∀ i e, Runs t (fun s => Placed t i u (.inside e) s ∧ P s) p
    fun a s => Placed t i u (.inside e) s ∧ Q a s

theorem stable_inner (hP : Keeps t u P) (i e : ℕ) :
    Stable (Others t) fun s => Inv s ∧ Placed t i u (.inside e) s ∧ P s :=
  fun s s' hr hs => ⟨hr.2.1, hs.2.1.others hr, hP s s' hs.1.sound (hs.2.1.calm hr) hs.2.2⟩

theorem keeps_pure (φ : Prop) : Keeps t u fun _ => φ := fun _ _ _ _ h => h

variable {P' : Shared → Prop}

theorem Keeps.and (h : Keeps t u P) (h' : Keeps t u P') :
    Keeps t u fun s => P s ∧ P' s :=
  fun s s' hs hc hP => ⟨h s s' hs hc hP.1, h' s s' hs hc hP.2⟩

theorem keeps_since (n : ℕ) : Keeps t u (Since u n) := fun _ _ _ hc h => hc.apart.since h

theorem keeps_noChallenge : Keeps t u (NoChallenge u) := fun _ _ _ hc h => hc.apart.noChallenge h

theorem keeps_cleared (retained : Option String) (sessions : List ℕ) :
    Keeps t u (Cleared u retained sessions) :=
  fun _ _ hs hc h => hc.cleared hs h

theorem inner_pure {a : α} (hQ : Keeps t u (Q a)) (h : ∀ s, P s → Q a s) : Inner t u P (pure a) Q :=
  fun i e => triple_pure (stable_inner hQ i e) fun s hs => ⟨hs.1, hs.2.1, h s hs.2.2⟩

theorem inner_atomically {f : Shared → α × Shared} (hP : Keeps t u P) (hQ : ∀ a, Keeps t u (Q a))
    (hf : ∀ s, Inv s → P s → Acts t u s (f s).2 ∧ Q (f s).1 (f s).2) :
    Inner t u P (atomically .plain f) Q := by
  intro i e
  refine triple_atomically (stable_inner hP i e) (fun a => stable_inner (hQ a) i e) ?_
  intro s ⟨hinv, hplaced, hs⟩ _
  obtain ⟨hacts, hQ'⟩ := hf s hinv hs
  refine ⟨hacts.guar hinv hplaced.holds, hacts.inv hinv, ?_, hQ'⟩
  rw [Placed, hacts.uses]
  exact hplaced

theorem Inv.acts_refl {s : Shared} (hinv : Inv s) : Acts t u s s :=
  Mild.acts ⟨hinv.sound.users, fun _ _ => rfl, fun _ _ h => h, fun _ _ h => h, le_rfl, rfl,
    rfl, rfl, rfl, rfl⟩ hinv rfl rfl

theorem inner_read {f : Shared → α} (hP : Keeps t u P) (hQ : ∀ a, Keeps t u (Q a))
    (hf : ∀ s, Inv s → P s → Q (f s) s) : Inner t u P (read .plain f) Q :=
  inner_atomically hP hQ fun s hinv hs => ⟨hinv.acts_refl, hf s hinv hs⟩

variable {p : Program α}

theorem inner_bind {g : α → Program β} {Q' : β → Shared → Prop} (hp : Inner t u P p Q)
    (hg : ∀ a, Inner t u (Q a) (g a) Q') : Inner t u P (p >>= g) Q' :=
  fun i e => triple_bind (hp i e) fun a => hg a i e

theorem inner_of_imp (himp : ∀ s, P s → P' s) (h : Inner t u P' p Q) : Inner t u P p Q :=
  fun i e s hs => h i e s ⟨hs.1, hs.2.1, himp s hs.2.2⟩

/-- A body that ends under the lock, whatever holds then. -/
abbrev Body (t : ℕ) (u : String) (P : Shared → Prop) (p : Program Unit) : Prop :=
  Inner t u P p fun _ _ => True

theorem body_pure : Body t u P (pure ()) := inner_pure (keeps_pure True) fun _ _ => trivial

end

section

variable {t i e : ℕ} {u : String} {place place' : Place} {s : Shared}

theorem guar_place (hinv : Inv s) (hplaced : Placed t i u place s) {locks : Locks String}
    (hlocks : KeyedLock.Inv locks (s.threads.set i (u, place'))) :
    Guar t s { s with locks := locks, uses := s.uses.set i ⟨t, u, place'⟩ } ∧
      Placed t i u place' { s with locks := locks, uses := s.uses.set i ⟨t, u, place'⟩ } := by
  have hi := (List.getElem?_eq_some_iff.1 hplaced).1
  refine ⟨guar_lock hinv ?_ fun j use => getElem?_set_other Use.task hplaced, by simp [Placed, hi]⟩
  rw [map_set]
  exact hlocks

theorem Placed.thread (h : Placed t i u place s) : s.threads[i]? = some (u, place) := by
  rw [Shared.threads, getElem?_map, h]
  rfl

theorem stable_placed (φ : Prop) (t i : ℕ) (u : String) (place : Place) :
    Stable (Others t) fun s => Inv s ∧ Placed t i u place s ∧ φ :=
  fun _ _ hr hs => ⟨hr.2.1, hs.2.1.others hr, hs.2.2⟩

theorem stable_outer (φ : Prop) (t : ℕ) : Stable (Others t) fun s => Inv s ∧ φ :=
  fun _ _ hr hs => ⟨hr.2.1, hs.2⟩

theorem guar_enter (hinv : Inv s) (t : ℕ) (u : String) : Guar t s { s with
      locks := (enter u s.locks).2
      uses := s.uses ++ [⟨t, u, .waiting (enter u s.locks).1⟩] } := by
  refine guar_lock hinv ?_ ?_
  · rw [map_append]
    exact hinv.locks.enter_new u
  · intro j use hj _
    rw [getElem?_append_left (List.getElem?_eq_some_iff.1 hj).1, hj]

theorem runs_lockUser (n : Call) (t : ℕ) (u : String) (htrim : ∀ s, Allowed n s → trimSpace u = u) :
    Runs t (fun _ => True) (lockUser n t u)
      fun p s => Placed t p.1 u (.inside p.2) s ∧ trimSpace u = u := by
  refine triple_bind (Q := fun p s => Inv s ∧ Placed t p.1 u (.waiting p.2) s ∧ trimSpace u = u)
    ?_ fun p => ?_
  · refine triple_await (stable_outer True t) (fun p => stable_placed _ t p.1 u _) ?_
    rintro s p s' ⟨hinv, -⟩ hallowed hstep
    cases hstep
    have hG := guar_enter hinv t u
    exact ⟨hG, hG.inv, getElem?_concat_length, htrim s hallowed⟩
  · refine triple_bind (Q := fun _ s => Inv s ∧ Placed t p.1 u (.inside p.2) s ∧ trimSpace u = u)
      (triple_await (stable_placed _ t p.1 u _) (fun _ => stable_placed _ t p.1 u _) ?_) fun _ =>
      triple_pure (stable_placed _ t p.1 u _) fun _ h => h
    rintro s a s' ⟨hinv, hplaced, hu⟩ - hstep
    obtain ⟨locks, hlock, hpair⟩ := Option.map_eq_some_iff.1 hstep
    obtain ⟨-, rfl⟩ := Prod.mk.inj hpair
    obtain ⟨hG, hplaced'⟩ := guar_place hinv hplaced (hinv.locks.lock hplaced.thread hlock)
    exact ⟨hG, hG.inv, hplaced', hu⟩

theorem runs_unlockUser (t i e : ℕ) (u : String) :
    Runs t (Placed t i u (.inside e)) (unlockUser t u i e) fun _ _ => True := by
  have hstable : ∀ place, Stable (Others t) fun s => Inv s ∧ Placed t i u place s :=
    fun _ _ _ hr hs => ⟨hr.2.1, hs.2.others hr⟩
  refine triple_bind (Q := fun _ s => Inv s ∧ Placed t i u (.leaving e) s)
    (triple_await (hstable _) (fun _ => hstable _) ?_) fun _ =>
    triple_await (hstable _) (fun _ => stable_outer True t) ?_
  · rintro s a s' ⟨hinv, hplaced⟩ - hstep
    cases hstep
    obtain ⟨hG, hplaced'⟩ := guar_place hinv hplaced (hinv.locks.unlock hplaced.thread)
    exact ⟨hG, hG.inv, hplaced'⟩
  · rintro s a s' ⟨hinv, hplaced⟩ - hstep
    cases hstep
    obtain ⟨hG, -⟩ := guar_place hinv hplaced (hinv.locks.leave hplaced.thread)
    exact ⟨hG, hG.inv, trivial⟩

theorem runs_underLock (n : Call) (t : ℕ) (u : String) {body : Program Unit}
    (htrim : ∀ s, Allowed n s → trimSpace u = u)
    (hbody : trimSpace u = u → Body t u (fun _ => True) body) :
    Runs t (fun _ => True) (underLock n t u body) fun _ _ => True := by
  refine triple_bind (runs_lockUser n t u htrim) fun p => ?_
  intro s hs
  have hinner := hbody hs.2.2 p.1 p.2
  refine triple_bind hinner (fun _ => ?_) s ⟨hs.1, hs.2.1, trivial⟩
  exact fun s' hs' => runs_unlockUser t p.1 p.2 u s' ⟨hs'.1, hs'.2.1⟩

end

end LabTether.Login
