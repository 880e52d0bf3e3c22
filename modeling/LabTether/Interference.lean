import Mathlib

/-!
Programs of atomic calls on a shared state, run while others change the state too.
Between two calls of a program the state may move by any number of steps of a relation,
the rely. `Ensures` says that every call of the program meets a guarantee, under the rely;
its rules ask for assertions that the rely keeps. An execution may end anywhere, so the
guarantee also covers a program that is stopped half way.
-/
namespace LabTether.Interference

inductive Prog (σ α : Type) : Type 1
  | ret (a : α)
  | call {β : Type} (f : σ → β × σ) (k : β → Prog σ α)

namespace Prog

variable {σ α β : Type}

def bind : Prog σ α → (α → Prog σ β) → Prog σ β
  | .ret a, g => g a
  | .call f k, g => .call f fun b => (k b).bind g

instance : Monad (Prog σ) where
  pure := .ret
  bind := .bind

def atomically (f : σ → α × σ) : Prog σ α := .call f .ret

def read (f : σ → α) : Prog σ α := atomically fun s => (f s, s)

/-- The execution that nothing interferes with. -/
def alone : Prog σ α → σ → α × σ
  | .ret a, s => (a, s)
  | .call f k, s => (k (f s).1).alone (f s).2

@[simp] theorem alone_pure (a : α) (s : σ) : (pure a : Prog σ α).alone s = (a, s) := rfl

@[simp] theorem alone_atomically (f : σ → α × σ) (s : σ) : (atomically f).alone s = f s := rfl

@[simp] theorem alone_read (f : σ → α) (s : σ) : (read f).alone s = (f s, s) := rfl

@[simp] theorem alone_bind (p : Prog σ α) (g : α → Prog σ β) (s : σ) :
    (p >>= g).alone s = (g (p.alone s).1).alone (p.alone s).2 := by
  induction p generalizing s with
  | ret a => rfl
  | call f k ih => exact ih _ _

end Prog

open Prog Relation

variable {σ α β : Type} {R G : σ → σ → Prop} {p : Prog σ α} {s s' : σ} {tr : List (σ × σ)}
  {Q : α → σ → Prop}

/-- Executions with the transitions they make, those of the others included. -/
inductive Exec (R : σ → σ → Prop) : Prog σ α → σ → List (σ × σ) → σ → Prop
  | stop (p : Prog σ α) (s : σ) : Exec R p s [] s
  | env {p : Prog σ α} {s s₁ s' : σ} {tr : List (σ × σ)} (h : R s s₁) (rest : Exec R p s₁ tr s') :
      Exec R p s ((s, s₁) :: tr) s'
  | call {β : Type} {f : σ → β × σ} {k : β → Prog σ α} {s s' : σ} {tr : List (σ × σ)}
      (rest : Exec R (k (f s).1) (f s).2 tr s') : Exec R (.call f k) s ((s, (f s).2) :: tr) s'

theorem Exec.alone (R : σ → σ → Prop) (p : Prog σ α) (s : σ) :
    ∃ tr, Exec R p s tr (p.alone s).2 := by
  induction p generalizing s with
  | ret a => exact ⟨[], .stop _ _⟩
  | call f k ih =>
    obtain ⟨tr, h⟩ := ih (f s).1 (f s).2
    exact ⟨_, .call h⟩

theorem Exec.path (h : Exec R p s tr s') : ReflTransGen (fun a b => (a, b) ∈ tr) s s' := by
  induction h with
  | stop => exact .refl
  | env _ _ ih | call _ ih =>
    exact .head (.head _) (ReflTransGen.mono (fun _ _ h => .tail _ h) _ _ ih)

/-- The calls of the program meet `G`, and `Q` holds of its answer. -/
def Ensures (R G : σ → σ → Prop) : Prog σ α → (α → σ → Prop) → σ → Prop
  | .ret a, Q, s => Q a s
  | .call f k, Q, s => ∀ s₁, ReflTransGen R s s₁ →
      G s₁ (f s₁).2 ∧ Ensures R G (k (f s₁).1) Q (f s₁).2

def Stable (R : σ → σ → Prop) (P : σ → Prop) : Prop := ∀ s s', R s s' → P s → P s'

theorem Stable.star {P : σ → Prop} (h : Stable R P) (hs : P s) (hr : ReflTransGen R s s') :
    P s' := by
  induction hr with
  | refl => exact hs
  | tail _ hstep ih => exact h _ _ hstep ih

theorem Ensures.mono {Q' : α → σ → Prop} (h : Ensures R G p Q s)
    (hQ : ∀ a s, Q a s → Q' a s) : Ensures R G p Q' s := by
  induction p generalizing s with
  | ret a => exact hQ a s h
  | call f k ih => exact fun s₁ hr => ⟨(h s₁ hr).1, ih _ (h s₁ hr).2⟩

theorem Ensures.stable (hQ : ∀ a, Stable R (Q a)) : Stable R (Ensures R G p Q) := by
  intro s s' hstep h
  cases p with
  | ret a => exact hQ a s s' hstep h
  | call f k => exact fun s₁ hr => h s₁ (.head hstep hr)

theorem ensures_pure {a : α} (h : Q a s) : Ensures R G (pure a : Prog σ α) Q s := h

theorem ensures_bind {g : α → Prog σ β} {Q' : β → σ → Prop}
    (h : Ensures R G p (fun a s => Ensures R G (g a) Q' s) s) : Ensures R G (p >>= g) Q' s := by
  induction p generalizing s with
  | ret a => exact h
  | call f k ih => exact fun s₁ hr => ⟨(h s₁ hr).1, ih _ (h s₁ hr).2⟩

theorem ensures_atomically (P : σ → Prop) (hP : Stable R P) (hs : P s) {f : σ → α × σ}
    (hf : ∀ s, P s → G s (f s).2 ∧ Q (f s).1 (f s).2) : Ensures R G (atomically f) Q s :=
  fun s₁ hr => hf s₁ (hP.star hs hr)

/-- Soundness: along an execution an invariant of both sides holds, and every transition is
one of the others or meets `G`. -/
theorem Exec.guarantee {I : σ → Prop} (hR : Stable R I) (hG : ∀ s s', I s → G s s' → I s')
    (h : Exec R p s tr s') (hp : Ensures R G p Q s) (hs : I s) :
    (∀ t ∈ tr, I t.1 ∧ (R t.1 t.2 ∨ G t.1 t.2)) ∧ I s' := by
  -- the program may have been ready in an earlier state
  suffices hready : ∀ {s₀}, ReflTransGen R s₀ s → Ensures R G p Q s₀ →
      (∀ t ∈ tr, I t.1 ∧ (R t.1 t.2 ∨ G t.1 t.2)) ∧ I s' from hready .refl hp
  clear hp
  induction h with
  | stop => exact fun _ _ => ⟨by simp, hs⟩
  | env hstep _ ih =>
    intro s₀ hr hp
    obtain ⟨htr, hend⟩ := ih (hR _ _ hstep hs) (hr.tail hstep) hp
    exact ⟨List.forall_mem_cons.2 ⟨⟨hs, .inl hstep⟩, htr⟩, hend⟩
  | call _ ih =>
    intro s₀ hr hp
    obtain ⟨hcall, hrest⟩ := hp _ hr
    obtain ⟨htr, hend⟩ := ih (hG _ _ hs hcall) .refl hrest
    exact ⟨List.forall_mem_cons.2 ⟨⟨hs, .inr hcall⟩, htr⟩, hend⟩

end LabTether.Interference
