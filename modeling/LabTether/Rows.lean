import Mathlib

/-!
Tables by primary key. A table is the partial function from keys to rows together with a list
of keys that covers it, so that statements over all rows can be computed. Writing a row image
is the only change; how the images come about is up to the user.
-/
namespace LabTether

open Function List

structure Rows (κ ν : Type) where
  get : κ → Option ν
  keys : List κ
  covers : ∀ k, (get k).isSome → k ∈ keys

namespace Rows

variable {κ ν : Type}

def empty : Rows κ ν := ⟨fun _ => none, [], fun _ h => nomatch h⟩

def select (t : Rows κ ν) (p : κ → ν → Bool) : List κ :=
  t.keys.filter fun k => (t.get k).any (p k)

variable {t : Rows κ ν} {k : κ} {p : κ → ν → Bool}

theorem mem_select : k ∈ t.select p ↔ ∃ v, t.get k = some v ∧ p k v = true := by
  unfold select
  rw [mem_filter]
  constructor
  · rintro ⟨-, h⟩
    cases hv : t.get k with
    | none => simp [hv] at h
    | some v => exact ⟨v, rfl, by simpa [hv] using h⟩
  · rintro ⟨v, hv, hp⟩
    exact ⟨t.covers k (by simp [hv]), by simpa [hv] using hp⟩

theorem head?_select {v : ν} (hk : t.get k = some v) (hp : p k v = true)
    (huniq : ∀ k' v', t.get k' = some v' → p k' v' = true → k' = k) :
    (t.select p).head? = some k := by
  have hmem : k ∈ t.select p := mem_select.2 ⟨v, hk, hp⟩
  cases hhead : (t.select p).head? with
  | none =>
    rw [head?_eq_none_iff.1 hhead] at hmem
    cases hmem
  | some k' =>
    obtain ⟨v', hv', hp'⟩ := mem_select.1 (mem_of_mem_head? hhead)
    rw [huniq k' v' hv' hp']

variable [DecidableEq κ]

/-- Write one row image: `none` deletes the row. -/
def write (t : Rows κ ν) (k : κ) (v : Option ν) : Rows κ ν where
  get := update t.get k v
  keys := k :: t.keys
  covers := by
    intro k' h
    rw [update_apply] at h
    split_ifs at h with hk
    · simp [hk]
    · exact .tail _ (t.covers k' h)

@[simp] theorem get_write_self (t : Rows κ ν) (k : κ) (v : Option ν) : (t.write k v).get k = v :=
  update_self _ _ _

theorem get_write_of_ne (t : Rows κ ν) {k' : κ} (v : Option ν) (h : k' ≠ k) :
    (t.write k v).get k' = t.get k' :=
  update_of_ne h _ _

theorem get_write (t : Rows κ ν) (k k' : κ) (v : Option ν) :
    (t.write k v).get k' = if k' = k then v else t.get k' :=
  update_apply _ _ _ _

theorem write_cases {k' : κ} {v r : ν} (h : (t.write k (some v)).get k' = some r) :
    t.get k' = some r ∨ (k' = k ∧ r = v) := by
  rw [get_write] at h
  split_ifs at h with hk
  · exact .inr ⟨hk, (Option.some.inj h).symm⟩
  · exact .inl h

def writeAll (t : Rows κ ν) (images : List (κ × Option ν)) : Rows κ ν :=
  images.foldl (fun t image => t.write image.1 image.2) t

theorem get_writeAll (t : Rows κ ν) (images : List (κ × Option ν)) (k : κ) :
    (k ∉ images.map Prod.fst ∧ (t.writeAll images).get k = t.get k) ∨
      ∃ v, (k, v) ∈ images ∧ (t.writeAll images).get k = v := by
  induction images generalizing t with
  | nil => exact .inl ⟨by simp, rfl⟩
  | cons image images ih =>
    rcases ih (t.write image.1 image.2) with ⟨hnot, hget⟩ | ⟨v, hv, hget⟩
    · by_cases hk : k = image.1
      · subst hk
        exact .inr ⟨image.2, by simp, hget.trans (get_write_self _ _ _)⟩
      · exact .inl ⟨by simp [hk, hnot], hget.trans (get_write_of_ne _ _ hk)⟩
    · exact .inr ⟨v, .tail _ hv, hget⟩

def deleteAll (t : Rows κ ν) (ks : List κ) : Rows κ ν := t.writeAll (ks.map fun k => (k, none))

theorem get_deleteAll (t : Rows κ ν) (ks : List κ) (k : κ) :
    (t.deleteAll ks).get k = if k ∈ ks then none else t.get k := by
  unfold deleteAll
  rcases t.get_writeAll (ks.map fun k => (k, none)) k with ⟨hnot, hget⟩ | ⟨v, hmem, hget⟩
  · rw [hget, if_neg]
    simpa using hnot
  · obtain ⟨j, hj, hpair⟩ := mem_map.1 hmem
    obtain ⟨rfl, rfl⟩ := Prod.mk.inj hpair
    rw [hget, if_pos hj]

theorem of_get_deleteAll {ks : List κ} {v : ν}
    (h : (t.deleteAll ks).get k = some v) : t.get k = some v ∧ k ∉ ks := by
  rw [get_deleteAll] at h
  split_ifs at h with hk
  exact ⟨h, hk⟩

end Rows

end LabTether
