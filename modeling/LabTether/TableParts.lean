import LabTether.Table

/-!
The rows of a table that share the value of one column, and the one row a key column
selects. An operation that works on the rows of one owner is described by what it does to
that owner's part; every other part is the same list as before.
-/
namespace LabTether.Table

open List

variable {α κ : Type*} [DecidableEq κ] (key : α → κ)

/-- The rows whose column has the value `k`, in table order. -/
def part (k : κ) (t : List α) : List α := t.filter fun r => decide (key r = k)

def rowOf (k : κ) (t : List α) : Option α := t.find? fun r => decide (key r = k)

variable {key} {k : κ} {t : List α} {p : α → Bool} {f : α → α} {r : α}

@[simp] theorem mem_part : r ∈ part key k t ↔ r ∈ t ∧ key r = k := by
  simp [part]

@[simp] theorem part_append (t' : List α) :
    part key k (t ++ t') = part key k t ++ part key k t' := by
  simp [part]

theorem part_deleteWhere : part key k (deleteWhere p t) = deleteWhere p (part key k t) := by
  simp [part, deleteWhere, filter_filter, Bool.and_comm]

theorem part_updateWhere (hf : ∀ r, key (f r) = key r) :
    part key k (updateWhere p f t) = updateWhere p f (part key k t) := by
  unfold part updateWhere
  rw [filter_map]
  congr 1
  refine filter_congr fun r _ => ?_
  by_cases hp : p r <;> simp [hp, hf]

omit [DecidableEq κ] in
theorem keys_updateWhere (hf : ∀ r, key (f r) = key r) :
    (updateWhere p f t).map key = t.map key := by
  unfold updateWhere
  rw [map_map]
  refine map_congr_left fun r _ => ?_
  by_cases hp : p r <;> simp [hp, hf]

omit [DecidableEq κ] in
theorem Keyed.updateWhere (h : Keyed key t) (hf : ∀ r, key (f r) = key r) :
    Keyed key (Table.updateWhere p f t) := by
  unfold Keyed
  rw [keys_updateWhere hf]
  exact h

theorem Keyed.part_eq_singleton (h : Keyed key t) (hr : r ∈ t) : part key (key r) t = [r] := by
  induction t with
  | nil => cases hr
  | cons x t ih =>
    obtain ⟨hfresh, hrest⟩ := nodup_cons.1 h
    rcases mem_cons.1 hr with rfl | hr
    · have hnil : part key (key r) t = [] := filter_eq_nil_iff.2 fun y hy hk =>
        hfresh (of_decide_eq_true hk ▸ mem_map_of_mem hy)
      simpa [part] using hnil
    · have hne : key x ≠ key r := fun he => hfresh (he ▸ mem_map_of_mem hr)
      simpa [part, hne] using ih hrest hr

theorem part_eq_nil (h : k ∉ t.map key) : part key k t = [] :=
  filter_eq_nil_iff.2 fun _ hr hk => h (of_decide_eq_true hk ▸ mem_map_of_mem hr)

theorem updateWhere_eq_self (h : ∀ r ∈ t, p r = false) : updateWhere p f t = t := by
  conv_rhs => rw [← map_id t]
  exact map_congr_left fun r hr => by simp [h r hr]

theorem deleteWhere_eq_self (h : ∀ r ∈ t, p r = false) : deleteWhere p t = t :=
  filter_eq_self.2 fun r hr => by simp [h r hr]

theorem deleteWhere_eq_nil (h : ∀ r ∈ t, p r = true) : deleteWhere p t = [] :=
  filter_eq_nil_iff.2 fun r hr => by simp [h r hr]

theorem rowOf_mem (h : rowOf key k t = some r) : r ∈ t ∧ key r = k := by
  refine ⟨mem_of_find?_eq_some h, ?_⟩
  simpa using find?_some h

theorem rowOf_eq_none : rowOf key k t = none ↔ k ∉ t.map key := by
  simp [rowOf]

theorem rowOf_of_mem (ht : Keyed key t) (hr : r ∈ t) : rowOf key (key r) t = some r := by
  cases h : rowOf key (key r) t with
  | none => exact absurd (mem_map_of_mem hr) (rowOf_eq_none.1 h)
  | some x => rw [ht.eq hr (rowOf_mem h).1 (rowOf_mem h).2.symm]

theorem rowOf_append (r : α) :
    rowOf key k (t ++ [r]) = (rowOf key k t).or (if key r = k then some r else none) := by
  by_cases h : key r = k <;> simp [rowOf, find?_append, h]

theorem rowOf_updateWhere (hf : ∀ r, p r = true → key (f r) = key r) :
    rowOf key k (updateWhere p f t) = (rowOf key k t).map fun r => if p r then f r else r := by
  unfold rowOf updateWhere
  rw [find?_map]
  congr 2
  funext r
  by_cases hp : p r
  · simp [hp, hf r hp]
  · simp [hp]

theorem rowOf_deleteWhere_none (h : ∀ r ∈ t, key r = k → p r = true) :
    rowOf key k (deleteWhere p t) = none := by
  rw [rowOf_eq_none]
  intro hk
  obtain ⟨r, hr, hrk⟩ := mem_map.1 hk
  obtain ⟨hmem, hp⟩ := mem_deleteWhere.1 hr
  rw [h r hmem hrk] at hp
  cases hp

theorem rowOf_deleteWhere_other (h : ∀ r ∈ t, key r = k → p r = false) :
    rowOf key k (deleteWhere p t) = rowOf key k t := by
  unfold rowOf deleteWhere
  rw [find?_filter]
  refine find?_congr fun r hr => ?_
  by_cases hk : key r = k
  · simp [hk, h r hr hk]
  · simp [hk]

theorem length_updateWhere : (updateWhere p f t).length = t.length := length_map _

theorem length_deleteWhere_le : (deleteWhere p t).length ≤ t.length := length_filter_le _ _

theorem countP_updateWhere_le {q : α → Bool}
    (h : ∀ r ∈ t, p r = true → q (f r) = true → q r = true) :
    (updateWhere p f t).countP q ≤ t.countP q := by
  unfold updateWhere
  rw [countP_map]
  refine countP_mono_left fun r hr hq => ?_
  simp only [Function.comp_apply] at hq
  split_ifs at hq with hp
  · exact h r hr hp hq
  · exact hq

omit [DecidableEq κ] in
theorem countP_updateWhere_le_succ (hkey : Keyed key t) (hp : ∀ r ∈ t, p r = true → key r = k)
    (q : α → Bool) : (updateWhere p f t).countP q ≤ t.countP q + 1 := by
  induction t with
  | nil => simp [updateWhere]
  | cons r t ih =>
    obtain ⟨hfresh, hkey'⟩ := nodup_cons.1 hkey
    by_cases hr : p r = true
    · have hrest : updateWhere p f t = t := updateWhere_eq_self fun x hx => by
        by_contra hx'
        have hkx := hp x (mem_cons_of_mem _ hx) (by simpa using hx')
        exact hfresh (mem_map.2 ⟨x, hx, hkx.trans (hp r mem_cons_self hr).symm⟩)
      have hcons : updateWhere p f (r :: t) = f r :: updateWhere p f t := by simp [updateWhere, hr]
      rw [hcons, hrest, countP_cons, countP_cons]
      split_ifs <;> omega
    · have hcons : updateWhere p f (r :: t) = r :: updateWhere p f t := by simp [updateWhere, hr]
      have := ih hkey' fun x hx => hp x (.tail _ hx)
      rw [hcons, countP_cons, countP_cons]
      omega

end LabTether.Table
