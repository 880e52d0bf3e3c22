import LabTether.Transition

/-!
Pools of tasks on a shared state. A task is a program of named calls; a call that is not
possible in a state waits. Any number of tasks run at once, one call at a time and in any
order; a task may be stopped between two calls, and the environment may move the state too.
`Ensures` says that the calls of one task meet its guarantee while the others keep to theirs,
as long as the calls that are made are permitted; `invariant_run` puts the tasks together.
Nothing here depends on the state or on the calls.
-/
namespace LabTether.Pool

open Relation Transition Option List

/-- Programs of calls named by `ν`; `none` is a call that has to wait. -/
inductive Process (ν σ α : Type) : Type 1
  | ret (a : α)
  | call {β : Type} (name : ν) (f : σ → Option (β × σ)) (k : β → Process ν σ α)

namespace Process

variable {ν σ α β : Type}

def bind : Process ν σ α → (α → Process ν σ β) → Process ν σ β
  | .ret a, g => g a
  | .call n f k, g => .call n f fun b => (k b).bind g

instance : Monad (Process ν σ) where
  pure := .ret
  bind := .bind

def await (n : ν) (f : σ → Option (α × σ)) : Process ν σ α := .call n f .ret

def atomically (n : ν) (f : σ → α × σ) : Process ν σ α := await n fun s => some (f s)

def read (n : ν) (f : σ → α) : Process ν σ α := atomically n fun s => (f s, s)

def next : Process ν σ α → Option ν
  | .ret _ => none
  | .call n _ _ => some n

end Process

open Process

section

variable {ν σ α β : Type} {A : ν → σ → Prop} {R G : σ → σ → Prop} {p : Process ν σ α} {s s' : σ}
  {Q : α → σ → Prop}

/-- The calls of the task that `A` permits meet `G`, and `Q` holds of its answer, while the
others move by `R`. -/
def Ensures (A : ν → σ → Prop) (R G : σ → σ → Prop) : Process ν σ α → (α → σ → Prop) → σ → Prop
  | .ret a, Q, s => ∀ s₁, ReflTransGen R s s₁ → Q a s₁
  | .call n f k, Q, s => ∀ s₁, ReflTransGen R s s₁ → A n s₁ → ∀ b s₂, f s₁ = some (b, s₂) →
      G s₁ s₂ ∧ Ensures A R G (k b) Q s₂

def Stable (R : σ → σ → Prop) (P : σ → Prop) : Prop := ∀ s s', R s s' → P s → P s'

variable {P : σ → Prop}

theorem Stable.star (h : Stable R P) (hs : P s) (hr : ReflTransGen R s s') : P s' := by
  induction hr with
  | refl => exact hs
  | tail _ hstep ih => exact h _ _ hstep ih

theorem stable_true : Stable R fun _ => True := fun _ _ _ _ => trivial

theorem Ensures.star (h : Ensures A R G p Q s) (hr : ReflTransGen R s s') :
    Ensures A R G p Q s' := by
  cases p with
  | ret a | call n f k => exact fun s₁ hr₁ => h s₁ (hr.trans hr₁)

theorem ensures_pure {a : α} (hP : Stable R P) (hs : P s)
    (hQ : ∀ s, P s → Q a s) : Ensures A R G (pure a : Process ν σ α) Q s :=
  fun s₁ hr => hQ s₁ (hP.star hs hr)

variable {g : α → Process ν σ β} {Q' : β → σ → Prop} {n : ν} {f : σ → Option (α × σ)}

theorem ensures_await (P : σ → Prop) (hP : Stable R P) (hs : P s)
    (hf : ∀ s₁ a s₂, P s₁ → A n s₁ → f s₁ = some (a, s₂) →
      G s₁ s₂ ∧ Ensures A R G (g a) Q' s₂) : Ensures A R G (await n f >>= g) Q' s :=
  fun s₁ hr hA a s₂ hfs => hf s₁ a s₂ (hP.star hs hr) hA hfs

/-- From every state with `P` the task keeps to its guarantee, and `Q` holds when it is over. -/
def Triple (A : ν → σ → Prop) (R G : σ → σ → Prop) (P : σ → Prop) (p : Process ν σ α)
    (Q : α → σ → Prop) : Prop :=
  ∀ s, P s → Ensures A R G p Q s

theorem triple_pure {a : α} (hQ : Stable R (Q a)) (h : ∀ s, P s → Q a s) :
    Triple A R G P (pure a) Q :=
  fun s hs => ensures_pure hQ (h s hs) fun _ h => h

theorem triple_await (hP : Stable R P) (hQ : ∀ a, Stable R (Q a))
    (hf : ∀ s a s', P s → A n s → f s = some (a, s') → G s s' ∧ Q a s') :
    Triple A R G P (await n f) Q := by
  intro s hs s₁ hr hA a s₂ hfs
  obtain ⟨hG, hQ₂⟩ := hf s₁ a s₂ (hP.star hs hr) hA hfs
  exact ⟨hG, ensures_pure (hQ a) hQ₂ fun _ h => h⟩

theorem triple_atomically {f : σ → α × σ} (hP : Stable R P) (hQ : ∀ a, Stable R (Q a))
    (hf : ∀ s, P s → A n s → G s (f s).2 ∧ Q (f s).1 (f s).2) :
    Triple A R G P (atomically n f) Q := by
  refine triple_await hP hQ fun s a s' hs hA hfs => ?_
  have hpair : f s = (a, s') := some.inj hfs
  have hmove := hf s hs hA
  rwa [hpair] at hmove

theorem ensures_bind (hp : Ensures A R G p Q s)
    (hg : ∀ a, Triple A R G (Q a) (g a) Q') : Ensures A R G (p >>= g) Q' s := by
  induction p generalizing s with
  | ret a => exact hg a s (hp s .refl)
  | call n f k ih =>
    intro s₁ hr hA b s₂ hfs
    obtain ⟨hG, hrest⟩ := hp s₁ hr hA b s₂ hfs
    exact ⟨hG, ih b hrest⟩

theorem triple_bind (hp : Triple A R G P p Q) (hg : ∀ a, Triple A R G (Q a) (g a) Q') :
    Triple A R G P (p >>= g) Q' :=
  fun s hs => ensures_bind (hp s hs) hg

theorem ensures_imp {Q' : α → σ → Prop} (himp : ∀ a s, Q a s → Q' a s)
    (h : Ensures A R G p Q s) : Ensures A R G p Q' s := by
  induction p generalizing s with
  | ret a => exact fun s₁ hr => himp a s₁ (h s₁ hr)
  | call n f k ih =>
    intro s₁ hr hA b s₂ hfs
    obtain ⟨hG, hrest⟩ := h s₁ hr hA b s₂ hfs
    exact ⟨hG, ih b hrest⟩

/-- What the calls of the task and of the others keep is there in the end. -/
theorem triple_frame {P F : σ → Prop} (hR : Stable R F) (hG : Stable G F)
    (hp : Triple A R G P p Q) : Triple A R G (fun s => P s ∧ F s) p fun a s => Q a s ∧ F s := by
  intro s ⟨hs, hF⟩
  have h := hp s hs
  clear hp hs
  induction p generalizing s with
  | ret a => exact fun s₁ hr => ⟨h s₁ hr, hR.star hF hr⟩
  | call n f k ih =>
    intro s₁ hr hA b s₂ hfs
    obtain ⟨hstep, hrest⟩ := h s₁ hr hA b s₂ hfs
    exact ⟨hstep, ih b s₂ (hG s₁ s₂ hstep (hR.star hF hr)) hrest⟩

end

section

variable {ν σ α κ ε : Type}

structure State (ν σ α : Type) : Type 1 where
  shared : σ
  tasks : List (Process ν σ α)

inductive Op (κ ε : Type)
  | start (c : κ)
  | advance (task : ℕ)
  | stop (task : ℕ)
  | env (e : ε)

/-- What the tasks run, what is left when one is stopped and how the environment moves. -/
structure System (ν σ α κ ε : Type) where
  program : ℕ → κ → Process ν σ α
  release : ℕ → σ → σ
  move : ε → σ → σ
  answer : α

variable (S : System ν σ α κ ε)

def State.advance (p : State ν σ α) (t : ℕ) : State ν σ α :=
  match p.tasks[t]? with
  | some (.call _ f k) =>
    match f p.shared with
    | some (b, s) => ⟨s, p.tasks.set t (k b)⟩
    | none => p
  | _ => p

def State.step (p : State ν σ α) : Op κ ε → State ν σ α
  | .start c => { p with tasks := p.tasks ++ [S.program p.tasks.length c] }
  | .advance t => p.advance t
  | .stop t =>
    match p.tasks[t]? with
    | some (.call _ _ _) => ⟨S.release t p.shared, p.tasks.set t (.ret S.answer)⟩
    | _ => p
  | .env e => { p with shared := S.move e p.shared }

variable {s : σ}

/-- One call of a task, which waits if the call is not possible. -/
def Process.one : Process ν σ α × σ → Process ν σ α × σ
  | (.call name f k, s) => (f s).elim (.call name f k, s) fun x => (k x.1, x.2)
  | x => x

theorem one_atomically (name : ν) (f : σ → α × σ) :
    one (atomically name f, s) = (.ret (f s).1, (f s).2) := rfl

/-- A task with which nothing interferes. -/
theorem run_alone (n : ℕ) (tasks : List (Process ν σ α)) (x : Process ν σ α × σ) :
    run (State.step S) ⟨x.2, tasks ++ [x.1]⟩ (replicate n (.advance tasks.length)) =
      ⟨(one^[n] x).2, tasks ++ [(one^[n] x).1]⟩ := by
  induction n generalizing x with
  | zero => rfl
  | succ n ih =>
    have hstep : State.advance ⟨x.2, tasks ++ [x.1]⟩ tasks.length =
        ⟨(one x).2, tasks ++ [(one x).1]⟩ := by
      obtain ⟨_ | ⟨_, f, _⟩, s⟩ := x
      · simp [State.advance, one]
      · cases h : f s <;> simp [State.advance, one, h]
    rw [replicate_succ, run_cons, State.step, hstep, ih]
    rfl

def Permitted (A : ν → σ → Prop) (p : State ν σ α) : Op κ ε → Prop
  | .advance t => ∀ task n, p.tasks[t]? = some task → task.next = some n → A n p.shared
  | _ => True

variable {p : State ν σ α} {t : ℕ}

theorem permitted_advance {A : ν → σ → Prop} :
    Permitted A p (.advance t : Op κ ε) ↔ ∀ n ∈ p.tasks[t]?.bind next, A n p.shared := by
  constructor
  · intro h n hn
    obtain ⟨task, htask, hnext⟩ := bind_eq_some_iff.1 hn
    exact h task n htask hnext
  · intro h task n htask hnext
    exact h n (bind_eq_some_iff.2 ⟨task, htask, hnext⟩)

instance decidablePermitted (A : ν → σ → Prop) [∀ n s, Decidable (A n s)] (p : State ν σ α)
    (op : Op κ ε) : Decidable (Permitted A p op) :=
  match op with
  | .advance _ => decidable_of_iff _ permitted_advance.symm
  | .start _ => .isTrue trivial
  | .stop _ => .isTrue trivial
  | .env _ => .isTrue trivial

variable {S} {A : ν → σ → Prop} {I : σ → Prop} {E : σ → σ → Prop} {G : ℕ → σ → σ → Prop}

def Rely (I : σ → Prop) (E : σ → σ → Prop) (G : ℕ → σ → σ → Prop) (t : ℕ) (s s' : σ) : Prop :=
  I s ∧ I s' ∧ (E s s' ∨ ∃ u, u ≠ t ∧ G u s s')

structure Sound (S : System ν σ α κ ε) (A : ν → σ → Prop) (I : σ → Prop) (E : σ → σ → Prop)
    (G : ℕ → σ → σ → Prop) : Prop where
  kept : ∀ t s s', I s → G t s s' → I s'
  moved : ∀ s s', I s → E s s' → I s'
  program : ∀ t c s, I s → Ensures A (Rely I E G t) (G t) (S.program t c) (fun _ _ => True) s
  release : ∀ t s, I s → G t s (S.release t s)
  move : ∀ e s, I s → E s (S.move e s)

structure Ready (A : ν → σ → Prop) (I : σ → Prop) (E : σ → σ → Prop) (G : ℕ → σ → σ → Prop)
    (p : State ν σ α) : Prop where
  inv : I p.shared
  tasks : ∀ t task, p.tasks[t]? = some task →
    Ensures A (Rely I E G t) (G t) task (fun _ _ => True) p.shared

theorem ensures_done (a : α) {R G : σ → σ → Prop} :
    Ensures A R G (.ret a) (fun _ _ => True) s := fun _ _ => trivial

/-- One task moves the shared state by its guarantee; the others stay ready. -/
theorem Ready.moved (h : Ready A I E G p) (hkept : ∀ t s s', I s → G t s s' → I s')
    {task : Process ν σ α} (hG : G t p.shared s)
    (htask : Ensures A (Rely I E G t) (G t) task (fun _ _ => True) s) :
    Ready A I E G ⟨s, p.tasks.set t task⟩ := by
  have hI := hkept t _ _ h.inv hG
  refine ⟨hI, fun u other hu => ?_⟩
  rcases set_cases hu with ⟨rfl, rfl⟩ | ⟨hne, hu⟩
  · exact htask
  · exact (h.tasks u other hu).star (.single ⟨h.inv, hI, .inr ⟨t, Ne.symm hne, hG⟩⟩)

variable (hS : Sound S A I E G)
include hS

theorem Ready.advance (h : Ready A I E G p)
    (hop : Permitted A p (.advance t : Op κ ε)) : Ready A I E G (p.advance t) ∧
      ((p.advance t).shared = p.shared ∨ G t p.shared (p.advance t).shared) := by
  unfold State.advance
  rcases htask : p.tasks[t]? with _ | task
  · exact ⟨h, .inl rfl⟩
  rcases task with a | ⟨n, f, k⟩
  · exact ⟨h, .inl rfl⟩
  dsimp only
  cases hf : f p.shared with
  | none => exact ⟨h, .inl rfl⟩
  | some r =>
    obtain ⟨hG, hrest⟩ := h.tasks t _ htask p.shared .refl (hop _ n htask rfl) r.1 r.2 hf
    exact ⟨h.moved hS.kept hG hrest, .inr hG⟩

theorem Ready.step (h : Ready A I E G p) {op : Op κ ε}
    (hop : Permitted A p op) : Ready A I E G (p.step S op) ∧ ((p.step S op).shared = p.shared ∨
      E p.shared (p.step S op).shared ∨ ∃ t, G t p.shared (p.step S op).shared) := by
  cases op with
  | start c =>
    refine ⟨⟨h.inv, fun u task hu => ?_⟩, .inl rfl⟩
    rcases concat_cases hu with hu | ⟨rfl, rfl⟩
    · exact h.tasks u task hu
    · exact hS.program _ c _ h.inv
  | advance t =>
    obtain ⟨hready, hmove⟩ := h.advance hS hop
    exact ⟨hready, hmove.imp_right fun hG => .inr ⟨t, hG⟩⟩
  | stop t =>
    simp only [State.step]
    rcases htask : p.tasks[t]? with _ | task
    · exact ⟨h, .inl rfl⟩
    cases task with
    | ret a => exact ⟨h, .inl rfl⟩
    | call n f k =>
      have hG := hS.release t p.shared h.inv
      exact ⟨h.moved hS.kept hG (ensures_done _), .inr (.inr ⟨t, hG⟩)⟩
  | env e =>
    have hE := hS.move e p.shared h.inv
    have hI := hS.moved _ _ h.inv hE
    refine ⟨⟨hI, fun u task hu => ?_⟩, .inr (.inl hE)⟩
    exact (h.tasks u task hu).star (.single ⟨h.inv, hI, .inl hE⟩)

omit hS in
theorem ready_start (hs : I s) : Ready A I E G (⟨s, []⟩ : State ν σ α) :=
  ⟨hs, fun _ _ h => nomatch h⟩

variable {ops : List (Op κ ε)}

theorem invariant_run (h : Ready A I E G p)
    (hops : StepsMeet (State.step S) (Permitted A) p ops) :
    Ready A I E G (run (State.step S) p ops) :=
  StepsMeet.last (fun _ _ hp hop => (hp.step hS hop).1) h hops

/-- A relation that every move is in, and that is transitive, links the ends of a run. -/
theorem relation_run {T : σ → σ → Prop} (hrefl : ∀ s, T s s)
    (htrans : ∀ {a b c}, T a b → T b c → T a c) (hE : ∀ s s', I s → E s s' → T s s')
    (hG : ∀ t s s', I s → G t s s' → T s s') (h : Ready A I E G p)
    (hops : StepsMeet (State.step S) (Permitted A) p ops) :
    T p.shared (run (State.step S) p ops).shared := by
  induction ops generalizing p with
  | nil => exact hrefl _
  | cons op ops ih =>
    obtain ⟨hnext, hmove⟩ := h.step hS hops.1
    refine htrans ?_ (ih hnext hops.2)
    rcases hmove with hsame | hE' | ⟨t, hG'⟩
    · rw [hsame]
      exact hrefl _
    · exact hE _ _ h.inv hE'
    · exact hG t _ _ h.inv hG'

end

-- Programs are verified by the rules; unfolding a whole program is slow.
attribute [irreducible] Ensures

end LabTether.Pool
