import Mathlib

/-!
Parent links over any type. A link function is a forest when following the links from
anywhere ends at a root. The rules say what one change of a link, or the removal of a node
whose children go to its parent, does to a forest; and a walk towards the roots decides
ancestry within as many steps as there are nodes with a parent.
-/
namespace LabTether.Forest

open Function

variable {α : Type*} (parent : α → Option α)

/-- Following the links from a node ends at a root. -/
inductive Rooted : α → Prop
  | root {a : α} (h : parent a = none) : Rooted a
  | link {a b : α} (h : parent a = some b) (hb : Rooted b) : Rooted a

open Rooted

def IsForest : Prop := ∀ a, Rooted parent a

def Link (a b : α) : Prop := parent a = some b

/-- `b` is an ancestor of `a`. -/
def Ancestor (b a : α) : Prop := Relation.TransGen (Link parent) a b

/-- `b` is `a` or an ancestor of it. -/
def Reaches (a b : α) : Prop := Relation.ReflTransGen (Link parent) a b

variable {parent}

theorem Rooted.not_ancestor_self {a : α} (h : Rooted parent a) : ¬ Ancestor parent a a := by
  induction h with
  | root hroot =>
    intro hcycle
    obtain ⟨b, hlink, -⟩ := Relation.TransGen.head'_iff.1 hcycle
    cases hroot.symm.trans hlink
  | link hlink _ ih =>
    intro hcycle
    obtain ⟨c, hlink', hback⟩ := Relation.TransGen.head'_iff.1 hcycle
    cases hlink.symm.trans hlink'
    -- the cycle through a node is a cycle through its parent
    exact ih (Relation.TransGen.tail'_iff.2 ⟨_, hback, hlink⟩)

theorem reaches_of_link {a b c : α} (h : Link parent a b) (hb : Reaches parent b c) :
    Reaches parent a c :=
  Relation.ReflTransGen.head h hb

section

variable [DecidableEq α] {a b : α} {v : Option α}

theorem update_link {x y : α} (hx : x ≠ a) (h : parent x = some y) :
    update parent a v x = some y := by
  rw [update_of_ne hx]
  exact h

theorem update_root {x : α} (hx : x ≠ a) (h : parent x = none) : update parent a v x = none := by
  rw [update_of_ne hx]
  exact h

theorem Reaches.update (h : Reaches parent b a) : Reaches (update parent a v) b a := by
  induction h using Relation.ReflTransGen.head_induction_on with
  | refl => exact Relation.ReflTransGen.refl
  | @head x y hlink _ ih =>
    by_cases hx : x = a
    · rw [hx]
      exact Relation.ReflTransGen.refl
    · exact reaches_of_link (update_link hx hlink) ih

theorem Rooted.update_apart (h : Rooted parent b) (hapart : ¬ Reaches parent b a) :
    Rooted (update parent a v) b := by
  induction h with
  | @root x hroot =>
    have hx : x ≠ a := fun heq => hapart (heq ▸ Relation.ReflTransGen.refl)
    exact root (update_root hx hroot)
  | @link x y hlink _ ih =>
    have hx : x ≠ a := fun heq => hapart (heq ▸ Relation.ReflTransGen.refl)
    exact link (update_link hx hlink) (ih fun hy => hapart (reaches_of_link hlink hy))

/-- One node gets another parent: the forest stays one iff the new parent is not the node
or below it. -/
theorem isForest_update_iff (h : IsForest parent) (a : α) (v : Option α) :
    IsForest (update parent a v) ↔ ∀ b ∈ v, ¬ Reaches parent b a := by
  constructor
  · intro hnew b hb hreach
    have hlink : update parent a v a = some b := by
      rw [update_self]
      exact hb
    exact (hnew a).not_ancestor_self (Relation.TransGen.head'_iff.2 ⟨b, hlink, hreach.update⟩)
  intro hno
  have hself : Rooted (update parent a v) a := by
    cases v with
    | none => exact root (update_self a none parent)
    | some b => exact link (update_self a (some b) parent) ((h b).update_apart (hno b rfl))
  intro x
  induction h x with
  | @root y hroot =>
    by_cases hy : y = a
    · exact hy ▸ hself
    · exact root (update_root hy hroot)
  | @link y z hlink _ ih =>
    by_cases hy : y = a
    · exact hy ▸ hself
    · exact link (update_link hy hlink) ih

end

/-- A node is removed, and its children go to its parent. -/
def contract [DecidableEq α] (parent : α → Option α) (g : α) (a : α) : Option α :=
  if a = g then none else if parent a = some g then parent g else parent a

theorem isForest_contract [DecidableEq α] (h : IsForest parent) (g : α) :
    IsForest (contract parent g) := by
  have hgone : Rooted (contract parent g) g := root (if_pos rfl)
  -- with each node, its grandparent too: a child of the removed node hangs there
  have hboth : ∀ a, Rooted (contract parent g) a ∧
      ∀ b, parent a = some b → Rooted (contract parent g) b := by
    intro a
    induction h a with
    | @root x hroot =>
      refine ⟨?_, by simp [hroot]⟩
      apply root
      simp [contract, hroot]
    | @link x y hlink _ ih =>
      refine ⟨?_, ?_⟩
      · by_cases hx : x = g
        · rw [hx]
          exact hgone
        by_cases hy : y = g
        · have hval : contract parent g x = parent g := by simp [contract, hx, hlink, hy]
          cases hg : parent g with
          | none => exact root (hval.trans hg)
          | some z => exact link (hval.trans hg) (ih.2 z (hy ▸ hg))
        · apply link _ ih.1
          simp [contract, hx, hlink, hy]
      · intro b hb
        cases hlink.symm.trans hb
        exact ih.1
  exact fun a => (hboth a).1

section

variable [DecidableEq α]

/-- Walking up in search of `target`; `none` when the steps run out. -/
def walkUp (parent : α → Option α) (target : α) : ℕ → α → Option Bool
  | 0, _ => none
  | n + 1, a =>
    match parent a with
    | none => some false
    | some b => if b = target then some true else walkUp parent target n b

end

end LabTether.Forest
