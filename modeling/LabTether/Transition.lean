import Mathlib

/-!
Runs of a deterministic transition system, as lists of operations.
An operation that is not possible in a state leaves the state as it is, so every
list of operations is a run. The rules here turn a fact about one step into a fact
about every state of every run, with a condition on the operations or on the state
an operation meets.
-/
namespace LabTether.Transition

open List

variable {σ ι : Type*} (step : σ → ι → σ)

def run (s : σ) (ops : List ι) : σ := ops.foldl step s

@[simp] theorem run_nil (s : σ) : run step s [] = s := rfl

@[simp] theorem run_cons (s : σ) (i : ι) (ops : List ι) :
    run step s (i :: ops) = run step (step s i) ops := rfl

@[simp] theorem run_append (s : σ) (ops₁ ops₂ : List ι) :
    run step s (ops₁ ++ ops₂) = run step (run step s ops₁) ops₂ := by
  simp [run]

variable {ops : List ι} {s : σ} {Ok : ι → Prop}

/-- A run all of whose steps meet `Ok` keeps whatever such steps keep. -/
theorem run_invariant (P : σ → Prop) (hstep : ∀ s i, Ok i → P s → P (step s i)) (hs : P s)
    (hops : ∀ i ∈ ops, Ok i) : P (run step s ops) := by
  induction ops generalizing s with
  | nil => exact hs
  | cons i ops ih => exact ih (hstep s i (hops i (by simp)) hs) fun j hj => hops j (by simp [hj])

theorem run_invariant_all (P : σ → Prop) (hstep : ∀ s i, P s → P (step s i))
    (hs : P s) (ops : List ι) : P (run step s ops) := by
  exact run_invariant step P (fun s i (_ : True) h => hstep s i h) hs fun _ _ => trivial

/-- Every step of the run meets `C` in the state it is taken in. -/
def StepsMeet (C : σ → ι → Prop) : σ → List ι → Prop
  | _, [] => True
  | s, i :: ops => C s i ∧ StepsMeet C (step s i) ops

instance decidableStepsMeet (C : σ → ι → Prop) [∀ s i, Decidable (C s i)] :
    ∀ s ops, Decidable (StepsMeet step C s ops)
  | _, [] => .isTrue trivial
  | s, i :: ops =>
    have := decidableStepsMeet C (step s i) ops
    inferInstanceAs (Decidable (_ ∧ _))

/-- `P` holds in every state of the run, the first and the last included. -/
def AllStates (P : σ → Prop) : σ → List ι → Prop
  | s, [] => P s
  | s, i :: ops => P s ∧ AllStates P (step s i) ops

instance decidableAllStates (P : σ → Prop) [DecidablePred P] :
    ∀ s ops, Decidable (AllStates step P s ops)
  | s, [] => inferInstanceAs (Decidable (P s))
  | s, i :: ops =>
    have := decidableAllStates P (step s i) ops
    inferInstanceAs (Decidable (_ ∧ _))

variable {step} {P : σ → Prop}

theorem AllStates.last (h : AllStates step P s ops) : P (run step s ops) := by
  induction ops generalizing s with
  | nil => exact h
  | cons i ops ih => exact ih h.2

theorem AllStates.next {i : ι} (h : AllStates step P s (i :: ops)) : P (step s i) := by
  cases ops with
  | nil => exact h.2
  | cons j ops => exact h.2.1

theorem allStates_iff_runs : AllStates step P s ops ↔ ∀ pre, pre <+: ops → P (run step s pre) := by
  induction ops generalizing s with
  | nil => simp [AllStates]
  | cons i ops ih =>
    constructor
    · rintro ⟨hs, hrest⟩ pre hpre
      cases pre with
      | nil => exact hs
      | cons j pre =>
        obtain ⟨rfl, hpre'⟩ := cons_prefix_cons.1 hpre
        exact ih.1 hrest pre hpre'
    · intro h
      refine ⟨h [] List.nil_prefix, ih.2 fun pre hpre => ?_⟩
      exact h (i :: pre) (cons_prefix_cons.2 ⟨rfl, hpre⟩)

variable {C : σ → ι → Prop}

theorem stepsMeet_of_all (h : ∀ s i, C s i) (s : σ) (ops : List ι) : StepsMeet step C s ops := by
  induction ops generalizing s with
  | nil => trivial
  | cons i ops ih => exact ⟨h s i, ih _⟩

theorem stepsMeet_append {ops ops' : List ι} : StepsMeet step C s (ops ++ ops') ↔
      StepsMeet step C s ops ∧ StepsMeet step C (run step s ops) ops' := by
  induction ops generalizing s with
  | nil => simp [StepsMeet]
  | cons i ops ih => simp [StepsMeet, ih, and_assoc]

theorem allStates_of_stepsMeet (hstep : ∀ s i, P s → C s i → P (step s i)) (hs : P s)
    (h : StepsMeet step C s ops) : AllStates step P s ops := by
  induction ops generalizing s with
  | nil => exact hs
  | cons i ops ih => exact ⟨hs, ih (hstep s i hs h.1) h.2⟩

variable {I : σ → Prop} {P : σ → Prop}

/-- When `C` is exactly what a step needs to keep `P`, a run keeps `P` throughout
iff every step meets `C`. `I` is what the steps can rely on as long as `P` holds. -/
theorem allStates_iff_of_inv (hstep : ∀ s i, I s → P s → I (step s i) ∧ (P (step s i) ↔ C s i))
    (hI : I s) (hs : P s) : AllStates step P s ops ↔ StepsMeet step C s ops := by
  induction ops generalizing s with
  | nil => exact ⟨fun _ => trivial, fun _ => hs⟩
  | cons i ops ih =>
    obtain ⟨hI', hiff⟩ := hstep s i hI hs
    constructor
    · intro h
      exact ⟨hiff.1 h.next, (ih hI' h.next).1 h.2⟩
    · intro h
      exact ⟨hs, (ih hI' (hiff.2 h.1)).2 h.2⟩

theorem allStates_iff_stepsMeet (hstep : ∀ s i, P s → (P (step s i) ↔ C s i)) (hs : P s) :
    AllStates step P s ops ↔ StepsMeet step C s ops :=
  allStates_iff_of_inv (I := fun _ => True) (fun s i _ hs => ⟨trivial, hstep s i hs⟩) trivial hs

variable {D : σ → ι → Prop} {C : σ → ι → Prop}

/-- A property that a step keeps exactly under `C` and never restores holds at the end of a
run iff it held at the start and every step met `C`. `I` and `D` are what the steps can rely on. -/
theorem last_iff_stepsMeet (hinv : ∀ s i, I s → D s i → I (step s i))
    (hstep : ∀ s i, I s → D s i → (P (step s i) ↔ P s ∧ C s i)) (hs : I s)
    (hops : StepsMeet step D s ops) : P (run step s ops) ↔ P s ∧ StepsMeet step C s ops := by
  induction ops generalizing s with
  | nil => exact ⟨fun h => ⟨h, trivial⟩, fun h => h.1⟩
  | cons i ops ih =>
    rw [run_cons, ih (hinv s i hs hops.1) hops.2, hstep s i hs hops.1]
    exact and_assoc

theorem StepsMeet.last (hinv : ∀ s i, I s → D s i → I (step s i)) (hs : I s)
    (hops : StepsMeet step D s ops) : I (run step s ops) :=
  (allStates_of_stepsMeet hinv hs hops).last

/-- Steps that meet `D` meet whatever follows from it under what the run keeps. -/
theorem StepsMeet.imp (hstep : ∀ s i, I s → D s i → I (step s i) ∧ C s i) (hs : I s)
    (hops : StepsMeet step D s ops) : StepsMeet step C s ops := by
  induction ops generalizing s with
  | nil => trivial
  | cons i ops ih =>
    obtain ⟨hnext, hC⟩ := hstep s i hs hops.1
    exact ⟨hC, ih hnext hops.2⟩

variable {τ : Type*} {l : List τ} {t u : ℕ} {x y : τ}

theorem concat_cases (h : (l ++ [x])[u]? = some y) : l[u]? = some y ∨ (u = l.length ∧ y = x) := by
  rw [getElem?_append] at h
  split_ifs at h with hlt
  · exact .inl h
  · rw [getElem?_singleton] at h
    split_ifs at h with hlast
    exact .inr ⟨by omega, (Option.some.inj h).symm⟩

theorem concat_of_some (h : l[u]? = some y) : (l ++ [x])[u]? = some y := by
  rw [getElem?_append_left (List.getElem?_eq_some_iff.1 h).1, h]

theorem set_cases (h : (l.set t x)[u]? = some y) :
    (u = t ∧ y = x) ∨ (u ≠ t ∧ l[u]? = some y) := by
  by_cases htu : u = t
  · subst htu
    rw [getElem?_set] at h
    split_ifs at h
    · exact .inl ⟨rfl, (Option.some.inj h).symm⟩
    · exact absurd rfl ‹_›
  · rw [getElem?_set_ne (Ne.symm htu)] at h
    exact .inr ⟨htu, h⟩

end LabTether.Transition
