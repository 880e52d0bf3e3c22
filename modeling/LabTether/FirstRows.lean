import Mathlib

/-!
The first rows of a query in the order of a column. Rows with equal keys come in any order, so
an ordering is any function that sorts; a property of the first rows has to hold for each.
`exists_mem_first` and `not_mem_first` say exactly when every ordering shows a row with a given
property among the first. Nothing here depends on the rows.
-/
namespace LabTether.FirstRows

open List

variable {α : Type*} {key : α → ℤ}

/-- A way to order rows by their keys. -/
structure RowOrder (key : α → ℤ) where
  sort : List α → List α
  perm : ∀ t, (sort t).Perm t
  sorted : ∀ t, (sort t).Pairwise fun a b => key a ≤ key b

open RowOrder

def RowOrder.first (o : RowOrder key) (n : ℕ) (t : List α) : List α := (o.sort t).take n

variable {o : RowOrder key} {n : ℕ} {t : List α} {p : α → Bool} {x : α}

theorem mem_of_mem_first (h : x ∈ o.first n t) : x ∈ t :=
  (o.perm t).mem_iff.1 (mem_of_mem_take h)

theorem mem_first_of_length_le (h : t.length ≤ n) : x ∈ o.first n t ↔ x ∈ t := by
  unfold first
  rw [take_of_length_le ((o.perm t).length_eq.trans_le h)]
  exact (o.perm t).mem_iff

theorem length_le_of_first_lt (h : (o.first n t).length < n) : t.length ≤ n := by
  have hlength := (o.perm t).length_eq
  rw [first, length_take] at h
  omega

theorem exists_mem_first {w : α} (hw : w ∈ t) (hp : p w = true)
    (hfew : t.countP (fun x => !p x && decide (key x ≤ key w)) < n) :
    ∃ x ∈ o.first n t, p x = true := by
  by_contra hnone
  push Not at hnone
  have hmem : w ∈ o.sort t := (o.perm t).mem_iff.2 hw
  have hsorted := o.sorted t
  rw [← take_append_drop n (o.sort t)] at hmem hsorted
  have hlate : w ∈ (o.sort t).drop n := (mem_append.1 hmem).resolve_left fun h => hnone w h hp
  have hlength : ((o.sort t).take n).length = n := by
    have := length_pos_of_mem hlate
    rw [length_drop] at this
    rw [length_take]
    omega
  -- All rows before `w` are counted, and there are `n` of them.
  have hall : ((o.sort t).take n).countP (fun x => !p x && decide (key x ≤ key w)) = n := by
    rw [countP_eq_length.2, hlength]
    intro x hx
    have hle := (pairwise_append.1 hsorted).2.2 x hx w hlate
    simp [Bool.eq_false_iff.2 (hnone x hx), hle]
  have hcount := (take_sublist n (o.sort t)).countP_le
    (p := fun x => !p x && decide (key x ≤ key w))
  rw [hall, (o.perm t).countP_eq] at hcount
  omega

/-- Among equal keys, the rows with the property come last. -/
def Later (key : α → ℤ) (p : α → Bool) (a b : α) : Prop :=
  key a < key b ∨ key a = key b ∧ (p a = true → p b = true)
  deriving Decidable

instance (key : α → ℤ) (p : α → Bool) : Std.Total (Later key p) :=
  ⟨fun a b => by unfold Later; grind⟩

instance (key : α → ℤ) (p : α → Bool) : IsTrans α (Later key p) :=
  ⟨fun a b c => by unfold Later; grind⟩

def RowOrder.putLast (key : α → ℤ) (p : α → Bool) : RowOrder key where
  sort t := t.insertionSort (Later key p)
  perm t := perm_insertionSort _ t
  sorted t := by
    refine (pairwise_insertionSort (Later key p) t).imp fun {a b} hab => ?_
    rcases hab with hlt | ⟨heq, -⟩
    · exact hlt.le
    · exact heq.le

theorem not_mem_first (hmany : ∀ w ∈ t, p w = true →
      n ≤ t.countP (fun x => !p x && decide (key x ≤ key w)))
    (hx : x ∈ (putLast key p).first n t) : p x = false := by
  by_contra hp
  rw [Bool.not_eq_false] at hp
  have hcount := hmany x (mem_of_mem_first hx) hp
  have hsorted : ((putLast key p).sort t).Pairwise (Later key p) :=
    pairwise_insertionSort (Later key p) t
  rw [← ((putLast key p).perm t).countP_eq] at hcount
  unfold first at hx
  generalize (putLast key p).sort t = l at hx hcount hsorted
  obtain ⟨before, after, hbefore⟩ := append_of_mem hx
  have hsplit : l = before ++ x :: (after ++ l.drop n) := by
    rw [← cons_append, ← append_assoc, ← hbefore, take_append_drop]
  have hlength : before.length < n := by
    have := congrArg List.length hbefore
    rw [length_take, length_append, length_cons] at this
    omega
  have hrest : (x :: (after ++ l.drop n)).countP (fun y => !p y && decide (key y ≤ key x)) = 0 := by
    rw [hsplit] at hsorted
    have hlater := (pairwise_append.1 hsorted).2.1
    refine countP_eq_zero.2 fun y hy => ?_
    rcases mem_cons.1 hy with rfl | hy
    · simp [hp]
    · rcases (pairwise_cons.1 hlater).1 y hy with hlt | ⟨-, himp⟩
      · simp [hlt]
      · simp [himp hp]
  rw [hsplit, countP_append, hrest] at hcount
  have := countP_le_length (p := fun y => !p y && decide (key y ≤ key x)) (l := before)
  omega

end LabTether.FirstRows
