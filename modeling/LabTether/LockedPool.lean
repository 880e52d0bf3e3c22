import LabTether.KeyedLock
import LabTether.Pool

/-!
Tasks that share data and the counted locks of `KeyedLock`. A task takes the lock of a key, does
its work and gives the lock back; between two of its calls the others move. `Discipline` says what
a task may do to the data without a lock and under the lock of a key. A task that has the lock of
a key may assert whatever the moves under other keys and without a lock keep; `sound` puts the
tasks together. Nothing here depends on the data or on the keys.
-/
namespace LabTether.LockedPool

open KeyedLock Pool Pool.Process List

section

structure Use (κ : Type) where
  task : ℕ
  key : κ
  place : Place

structure Shared (κ σ : Type) where
  data : σ
  locks : Locks κ
  uses : List (Use κ)

variable {ν κ σ α : Type} [DecidableEq κ]

abbrev Program (ν κ σ : Type) := Process ν (Shared κ σ)

def act (n : ν) (f : σ → α × σ) : Program ν κ σ α :=
  atomically n fun s => ((f s.data).1, { s with data := (f s.data).2 })

def lockKey (n : ν) (t : ℕ) (k : κ) : Program ν κ σ (ℕ × ℕ) := do
  let (i, e) ← atomically n fun s => ((s.uses.length, (enter k s.locks).1),
    { s with
      locks := (enter k s.locks).2
      uses := s.uses ++ [⟨t, k, .waiting (enter k s.locks).1⟩] })
  await n fun s => (lock e s.locks).map fun locks =>
    ((), { s with locks, uses := s.uses.set i ⟨t, k, .inside e⟩ })
  pure (i, e)

def unlockKey (n : ν) (t : ℕ) (k : κ) (i e : ℕ) : Program ν κ σ Unit := do
  atomically n fun s => ((),
    { s with locks := unlock e s.locks, uses := s.uses.set i ⟨t, k, .leaving e⟩ })
  atomically n fun s => ((),
    { s with locks := leave k e s.locks, uses := s.uses.set i ⟨t, k, .out⟩ })

def underLock (n : ν) (t : ℕ) (k : κ) (body : Program ν κ σ Unit) : Program ν κ σ Unit := do
  let (i, e) ← lockKey n t k
  body
  unlockKey n t k i e

def start (data : σ) : Shared κ σ := ⟨data, .empty, []⟩

end

/-- What the data always meets, and what may be done to it: by a task without a lock, by a task
that has the lock of a key, and from outside. -/
structure Discipline (κ σ : Type) where
  inv : σ → Prop
  free : ℕ → σ → σ → Prop
  held : ℕ → κ → σ → σ → Prop
  outer : σ → σ → Prop

section

variable {κ σ : Type} {D : Discipline κ σ}

def Shared.threads (s : Shared κ σ) : List (κ × Place) := s.uses.map fun use => (use.key, use.place)

def Placed (t i : ℕ) (k : κ) (place : Place) (s : Shared κ σ) : Prop :=
  s.uses[i]? = some (⟨t, k, place⟩ : Use κ)

def Shared.holds (s : Shared κ σ) (t : ℕ) (k : κ) : Prop := ∃ i e, Placed t i k (.inside e) s

structure Good (D : Discipline κ σ) (s : Shared κ σ) : Prop where
  locks : KeyedLock.Inv s.locks s.threads
  data : D.inv s.data

structure Guar (D : Discipline κ σ) (t : ℕ) (s s' : Shared κ σ) : Prop where
  good : Good D s'
  move : s'.data = s.data ∨ D.free t s.data s'.data ∨ ∃ k, s.holds t k ∧ D.held t k s.data s'.data
  uses : ∀ (i : ℕ) (use : Use κ), s.uses[i]? = some use → use.task ≠ t → s'.uses[i]? = some use

structure Outside (D : Discipline κ σ) (s s' : Shared κ σ) : Prop where
  good : Good D s'
  move : D.outer s.data s'.data
  uses : s'.uses = s.uses

abbrev Others (D : Discipline κ σ) (t : ℕ) : Shared κ σ → Shared κ σ → Prop :=
  Rely (Good D) (Outside D) (Guar D) t

/-- A move of the others that is not under a key of `mine`. -/
def Other (D : Discipline κ σ) (t : ℕ) (mine : κ → Prop) (d d' : σ) : Prop :=
  D.outer d d' ∨ ∃ u, u ≠ t ∧ (D.free u d d' ∨ ∃ k, ¬ mine k ∧ D.held u k d d')

/-- What a task may assert while the keys of `mine` are its own. -/
def Keeps (D : Discipline κ σ) (t : ℕ) (mine : κ → Prop) (P : σ → Prop) : Prop :=
  ∀ d d', D.inv d → D.inv d' → Other D t mine d d' → P d → P d'

variable {t i e : ℕ} {k : κ} {place : Place} {mine : κ → Prop} {s s' : Shared κ σ} {P P' : σ → Prop}

theorem Keeps.and (h : Keeps D t mine P) (h' : Keeps D t mine P') :
    Keeps D t mine fun d => P d ∧ P' d :=
  fun d d' hd hd' ho hP => ⟨h d d' hd hd' ho hP.1, h' d d' hd hd' ho hP.2⟩

theorem keeps_const (φ : Prop) : Keeps D t mine fun _ => φ := fun _ _ _ _ _ h => h

theorem Placed.others (h : Placed t i k place s) (hr : Others D t s s') :
    Placed t i k place s' := by
  rcases hr.2.2 with hE | ⟨t', hne, hG⟩
  · rw [Placed, hE.uses]
    exact h
  · exact hG.uses i _ h (Ne.symm hne)

theorem Placed.thread (h : Placed t i k place s) : s.threads[i]? = some (k, place) := by
  rw [Shared.threads, getElem?_map, h]
  rfl

theorem Good.holder (h : Good D s) {t' : ℕ} (ht : s.holds t k) (ht' : s.holds t' k) : t = t' := by
  obtain ⟨i, e, hi⟩ := ht
  obtain ⟨j, e', hj⟩ := ht'
  obtain rfl := h.locks.exclusive hi.thread hj.thread
  rw [Placed, hi, Option.some.injEq, Use.mk.injEq] at hj
  exact hj.1

theorem others_data (hr : Others D t s s') (hmine : ∀ k, mine k → s.holds t k) :
    s'.data = s.data ∨ Other D t mine s.data s'.data := by
  rcases hr.2.2 with hE | ⟨u, hne, hG⟩
  · exact .inr (.inl hE.move)
  rcases hG.move with hsame | hfree | ⟨k, hk, hheld⟩
  · exact .inl hsame
  · exact .inr (.inr ⟨u, hne, .inl hfree⟩)
  · refine .inr (.inr ⟨u, hne, .inr ⟨k, fun hmy => hne ?_, hheld⟩⟩)
    exact hr.1.holder hk (hmine k hmy)

theorem Keeps.others (h : Keeps D t mine P) (hr : Others D t s s')
    (hmine : ∀ k, mine k → s.holds t k) (hP : P s.data) : P s'.data := by
  rcases others_data hr hmine with hsame | hmove
  · rw [hsame]
    exact hP
  · exact h _ _ hr.1.data hr.2.1.data hmove hP

end

section

variable {ν κ σ α β : Type} {D : Discipline κ σ} {A : ν → Shared κ σ → Prop} {t : ℕ} {k : κ}
  {P : σ → Prop} {Q : α → σ → Prop}

def Runs {α : Type} (D : Discipline κ σ) (A : ν → Shared κ σ → Prop) (t : ℕ) (P : σ → Prop)
    (p : Program ν κ σ α) (Q : α → σ → Prop) : Prop :=
  Triple A (Others D t) (Guar D t) (fun s => Good D s ∧ P s.data) p fun a s => Good D s ∧ Q a s.data

/-- Under the lock of `k`, which the task has with use `i` and entry `e`. -/
def Inner {α : Type} (D : Discipline κ σ) (A : ν → Shared κ σ → Prop) (t : ℕ) (k : κ)
    (P : σ → Prop) (p : Program ν κ σ α) (Q : α → σ → Prop) : Prop :=
  ∀ i e, Triple A (Others D t) (Guar D t) (fun s => Good D s ∧ Placed t i k (.inside e) s ∧ P s.data)
    p fun a s => Good D s ∧ Placed t i k (.inside e) s ∧ Q a s.data

theorem stable_runs (hP : Keeps D t (fun _ => False) P) :
    Stable (Others D t) fun s => Good D s ∧ P s.data :=
  fun _ _ hr hs => ⟨hr.2.1, hP.others hr (fun _ h => h.elim) hs.2⟩

theorem stable_inner (hP : Keeps D t (· = k) P) (i e : ℕ) :
    Stable (Others D t) fun s => Good D s ∧ Placed t i k (.inside e) s ∧ P s.data := by
  intro s s' hr hs
  refine ⟨hr.2.1, hs.2.1.others hr, hP.others hr ?_ hs.2.2⟩
  rintro _ rfl
  exact ⟨i, e, hs.2.1⟩

theorem runs_pure {a : α} (hQ : Keeps D t (fun _ => False) (Q a)) (h : ∀ d, P d → Q a d) :
    Runs D A t P (pure a) Q :=
  triple_pure (stable_runs hQ) fun s hs => ⟨hs.1, h s.data hs.2⟩

theorem inner_pure {a : α} (hQ : Keeps D t (· = k) (Q a)) (h : ∀ d, P d → Q a d) :
    Inner D A t k P (pure a) Q :=
  fun i e => triple_pure (stable_inner hQ i e) fun s hs => ⟨hs.1, hs.2.1, h s.data hs.2.2⟩

variable {p : Program ν κ σ α} {g : α → Program ν κ σ β} {Q' : β → σ → Prop}

theorem runs_bind (hp : Runs D A t P p Q) (hg : ∀ a, Runs D A t (Q a) (g a) Q') :
    Runs D A t P (p >>= g) Q' :=
  triple_bind hp hg

theorem inner_bind (hp : Inner D A t k P p Q) (hg : ∀ a, Inner D A t k (Q a) (g a) Q') :
    Inner D A t k P (p >>= g) Q' :=
  fun i e => triple_bind (hp i e) fun a => hg a i e

variable {P' : σ → Prop}

theorem runs_of_imp (himp : ∀ d, P d → P' d) (h : Runs D A t P' p Q) : Runs D A t P p Q :=
  fun s hs => h s ⟨hs.1, himp _ hs.2⟩

theorem inner_of_imp (himp : ∀ d, P d → P' d) (h : Inner D A t k P' p Q) : Inner D A t k P p Q :=
  fun i e s hs => h i e s ⟨hs.1, hs.2.1, himp _ hs.2.2⟩

theorem inner_exists {ι : Type} {R : ι → σ → Prop}
    (h : ∀ x, Inner D A t k (R x) p Q) : Inner D A t k (fun d => ∃ x, R x d) p Q := by
  rintro i e s ⟨hgood, hplaced, x, hx⟩
  exact h x i e s ⟨hgood, hplaced, hx⟩

theorem inner_pull {φ : Prop} (h : φ → Inner D A t k P p Q) :
    Inner D A t k (fun d => φ ∧ P d) p Q := by
  rintro i e s ⟨hgood, hplaced, hφ, hs⟩
  exact h hφ i e s ⟨hgood, hplaced, hs⟩

theorem guar_data {s : Shared κ σ} {d : σ} (hs : Good D s) (hd : D.inv d)
    (hmove : d = s.data ∨ D.free t s.data d ∨ ∃ k, s.holds t k ∧ D.held t k s.data d) :
    Guar D t s { s with data := d } :=
  ⟨⟨hs.locks, hd⟩, hmove, fun _ _ h _ => h⟩

variable {n : ν} {f : σ → α × σ}

theorem runs_act (hP : Keeps D t (fun _ => False) P) (hQ : ∀ a, Keeps D t (fun _ => False) (Q a))
    (hf : ∀ d, D.inv d → P d → D.inv (f d).2 ∧ ((f d).2 = d ∨ D.free t d (f d).2) ∧
      Q (f d).1 (f d).2) : Runs D A t P (act n f) Q := by
  refine triple_atomically (stable_runs hP) (fun a => stable_runs (hQ a)) fun s hs _ => ?_
  obtain ⟨hinv, hmove, hq⟩ := hf s.data hs.1.data hs.2
  have hG := guar_data hs.1 hinv (hmove.imp_right .inl)
  exact ⟨hG, hG.good, hq⟩

theorem inner_act (hP : Keeps D t (· = k) P) (hQ : ∀ a, Keeps D t (· = k) (Q a))
    (hf : ∀ d, D.inv d → P d → D.inv (f d).2 ∧ ((f d).2 = d ∨ D.held t k d (f d).2) ∧
      Q (f d).1 (f d).2) : Inner D A t k P (act n f) Q := by
  intro i e
  refine triple_atomically (stable_inner hP i e) (fun a => stable_inner (hQ a) i e) fun s hs _ => ?_
  obtain ⟨hgood, hplaced, hs⟩ := hs
  obtain ⟨hinv, hmove, hq⟩ := hf s.data hgood.data hs
  have hG := guar_data hgood hinv (hmove.imp_right fun h => .inr ⟨k, ⟨i, e, hplaced⟩, h⟩)
  exact ⟨hG, hG.good, hplaced, hq⟩

variable {i e : ℕ} {place place' : Place} {s : Shared κ σ}

theorem stable_placed (hP : Keeps D t (fun _ => False) P) (i : ℕ) (place : Place) :
    Stable (Others D t) fun s => Good D s ∧ Placed t i k place s ∧ P s.data :=
  fun _ _ hr hs => ⟨hr.2.1, hs.2.1.others hr, hP.others hr (fun _ h => h.elim) hs.2.2⟩

variable {locks : Locks κ}

theorem guar_locks (hs : Good D s) {uses : List (Use κ)}
    (hlocks : KeyedLock.Inv locks (uses.map fun use => (use.key, use.place)))
    (huses : ∀ (i : ℕ) (use : Use κ), s.uses[i]? = some use → use.task ≠ t →
      uses[i]? = some use) : Guar D t s { s with locks := locks, uses := uses } :=
  ⟨⟨hlocks, hs.data⟩, .inl rfl, huses⟩

theorem guar_place (hs : Good D s) (hplaced : Placed t i k place s)
    (hlocks : KeyedLock.Inv locks (s.threads.set i (k, place'))) :
    Guar D t s { s with locks := locks, uses := s.uses.set i ⟨t, k, place'⟩ } ∧
      Placed t i k place' { s with locks := locks, uses := s.uses.set i ⟨t, k, place'⟩ } := by
  have hi := (List.getElem?_eq_some_iff.1 hplaced).1
  refine ⟨guar_locks hs ?_ fun j use => getElem?_set_other Use.task hplaced, by simp [Placed, hi]⟩
  rw [map_set]
  exact hlocks

variable [DecidableEq κ]

theorem guar_enter (hs : Good D s) (t : ℕ) (k : κ) : Guar D t s { s with
      locks := (enter k s.locks).2
      uses := s.uses ++ [⟨t, k, .waiting (enter k s.locks).1⟩] } := by
  refine guar_locks hs ?_ ?_
  · rw [map_append]
    exact hs.locks.enter_new k
  · intro j use hj _
    rw [getElem?_append_left (List.getElem?_eq_some_iff.1 hj).1, hj]

theorem triple_lockKey (n : ν) {φ : Prop} (hφ : ∀ s, A n s → φ)
    (hP : Keeps D t (fun _ => False) P) :
    Triple A (Others D t) (Guar D t) (fun s => Good D s ∧ P s.data) (lockKey n t k)
      fun p s => Good D s ∧ Placed t p.1 k (.inside p.2) s ∧ P s.data ∧ φ := by
  have hP' := hP.and (keeps_const φ)
  refine triple_bind (Q := fun p s => Good D s ∧ Placed t p.1 k (.waiting p.2) s ∧ P s.data ∧ φ)
    ?_ ?_
  · refine triple_atomically (stable_runs hP) (fun p => stable_placed hP' p.1 _) fun s hs hA => ?_
    have hG := guar_enter hs.1 t k
    exact ⟨hG, hG.good, getElem?_concat_length, hs.2, hφ s hA⟩
  intro p
  refine triple_bind (Q := fun _ s => Good D s ∧ Placed t p.1 k (.inside p.2) s ∧ P s.data ∧ φ)
    (triple_await (stable_placed hP' p.1 _) (fun _ => stable_placed hP' p.1 _) ?_) fun _ =>
    triple_pure (stable_placed hP' p.1 _) fun _ h => h
  rintro s a s' ⟨hgood, hplaced, hs⟩ - hstep
  obtain ⟨locks, hlock, hpair⟩ := Option.map_eq_some_iff.1 hstep
  obtain ⟨-, rfl⟩ := Prod.mk.inj hpair
  obtain ⟨hG, hplaced'⟩ := guar_place hgood hplaced (hgood.locks.lock hplaced.thread hlock)
  exact ⟨hG, hG.good, hplaced', hs⟩

theorem triple_unlockKey (n : ν) (t i e : ℕ) (k : κ) : Triple A (Others D t) (Guar D t)
      (fun s => Good D s ∧ Placed t i k (.inside e) s ∧ True) (unlockKey n t k i e)
      fun _ s => Good D s ∧ True := by
  have hstable := fun place => stable_placed (D := D) (t := t) (k := k) (keeps_const True) i place
  refine triple_bind (Q := fun _ s => Good D s ∧ Placed t i k (.leaving e) s ∧ True)
    (triple_atomically (hstable _) (fun _ => hstable _) ?_) fun _ =>
    triple_atomically (hstable _) (fun _ => stable_runs (keeps_const True)) ?_
  · rintro s ⟨hgood, hplaced, -⟩ -
    obtain ⟨hG, hplaced'⟩ := guar_place hgood hplaced (hgood.locks.unlock hplaced.thread)
    exact ⟨hG, hG.good, hplaced', trivial⟩
  · rintro s ⟨hgood, hplaced, -⟩ -
    obtain ⟨hG, -⟩ := guar_place hgood hplaced (hgood.locks.leave hplaced.thread)
    exact ⟨hG, hG.good, trivial⟩

/-- Work under the lock of a key; `φ` is what the permission to take the lock tells. -/
theorem runs_underLock (n : ν) {φ : Prop} (hφ : ∀ s, A n s → φ) {body : Program ν κ σ Unit}
    (hP : Keeps D t (fun _ => False) P) (hbody : φ → Inner D A t k P body fun _ _ => True) :
    Runs D A t P (underLock n t k body) fun _ _ => True := by
  refine triple_bind (triple_lockKey n hφ hP) fun p => triple_bind ?_ fun _ =>
    triple_unlockKey n t p.1 p.2 k
  rintro s ⟨hgood, hplaced, hs, hφs⟩
  exact hbody hφs p.1 p.2 s ⟨hgood, hplaced, hs⟩

end

section

variable {ν κ σ τ ε : Type} {D : Discipline κ σ} {A : ν → Shared κ σ → Prop}

/-- Tasks that run `program`, while `move` moves the data from outside. A task that is stopped
keeps the locks it has. -/
def system (program : ℕ → τ → Program ν κ σ Unit) (move : ε → σ → σ) :
    System ν (Shared κ σ) Unit τ ε where
  program := program
  release _ s := s
  move e s := { s with data := move e s.data }
  answer := ()

variable {program : ℕ → τ → Program ν κ σ Unit} {move : ε → σ → σ}

theorem sound (hprogram : ∀ t c, Runs D A t (fun _ => True) (program t c) fun _ _ => True)
    (hmove : ∀ e d, D.inv d → D.inv (move e d) ∧ D.outer d (move e d)) :
    Sound (system program move) A (Good D) (Outside D) (Guar D) where
  kept _ _ _ _ h := h.good
  moved _ _ _ h := h.good
  program t c s hs := ensures_imp (fun _ _ _ => trivial) (hprogram t c s ⟨hs, trivial⟩)
  release _ _ hs := ⟨hs, .inl rfl, fun _ _ h _ => h⟩
  move e s hs := ⟨⟨hs.locks, (hmove e s.data hs.data).1⟩, (hmove e s.data hs.data).2, rfl⟩

theorem good_start {d : σ} (hd : D.inv d) : Good D (start d : Shared κ σ) := ⟨inv_empty, hd⟩

end

end LabTether.LockedPool
