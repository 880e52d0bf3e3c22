import Mathlib

/-!
Locks by key, made on demand and counted. A thread that wants the lock of a key takes the
entry of the key, or a new one, and counts itself in; then it waits for the mutex of the
entry. When it is through it unlocks the mutex and counts itself out, and the last one
removes the entry. Each of the four is one step. Entries have an identity of their own, so
that a removed entry is not mistaken for the one made after it. `Inv` relates the entries to
where the threads are; nothing here depends on what the keys are or on what a thread does
inside.
-/
namespace LabTether.KeyedLock

open List Function Option

inductive Place
  | out
  | waiting (entry : ℕ)
  | inside (entry : ℕ)
  | leaving (entry : ℕ)
deriving DecidableEq

def Place.entry : Place → Option ℕ
  | .out => none
  | .waiting e => some e
  | .inside e => some e
  | .leaving e => some e

def Place.isInside : Place → Bool
  | .inside _ => true
  | _ => false

structure Locks (κ : Type*) where
  table : κ → Option ℕ
  users : ℕ → ℕ
  locked : ℕ → Bool
  next : ℕ

variable {κ : Type*}

def Locks.empty : Locks κ := ⟨fun _ => none, fun _ => 0, fun _ => false, 0⟩

/-- Take the entry of the key and count in. -/
def enter [DecidableEq κ] (k : κ) (L : Locks κ) : ℕ × Locks κ :=
  match L.table k with
  | some e => (e, { L with users := update L.users e (L.users e + 1) })
  | none => (L.next, {
      table := update L.table k (some L.next)
      users := update L.users L.next (L.users L.next + 1)
      locked := L.locked
      next := L.next + 1 })

def lock (e : ℕ) (L : Locks κ) : Option (Locks κ) :=
  if L.locked e then none else some { L with locked := update L.locked e true }

def unlock (e : ℕ) (L : Locks κ) : Locks κ := { L with locked := update L.locked e false }

/-- Count out, and remove the entry when nobody is left. -/
def leave [DecidableEq κ] (k : κ) (e : ℕ) (L : Locks κ) : Locks κ :=
  { L with
    users := update L.users e (L.users e - 1)
    table := if L.users e - 1 = 0 then update L.table k none else L.table }

section

variable {α : Type*} {l : List α} {i j : ℕ} {x y : α}

theorem countP_set_add (p : α → Bool) (hx : l[i]? = some x) :
    (l.set i y).countP p + (if p x then 1 else 0) = l.countP p + (if p y then 1 else 0) := by
  obtain ⟨hi, rfl⟩ := List.getElem?_eq_some_iff.1 hx
  rw [countP_set hi]
  split_ifs <;> grind

theorem set_same (h : l[i]? = some x) : l.set i x = l := by
  obtain ⟨hi, rfl⟩ := List.getElem?_eq_some_iff.1 h
  exact set_getElem_self hi

theorem index_unique {p : α → Bool} (h : l.countP p ≤ 1) (hx : l[i]? = some x)
    (hy : l[j]? = some y) (hpx : p x = true) (hpy : p y = true) : i = j := by
  by_contra hij
  wlog hlt : i < j generalizing i j x y
  · exact this hy hx hpy hpx (Ne.symm hij) (by omega)
  obtain ⟨hi, rfl⟩ := List.getElem?_eq_some_iff.1 hx
  have hmem : y ∈ l.drop (i + 1) := by
    refine mem_of_getElem? (i := j - (i + 1)) ?_
    rw [getElem?_drop, Nat.add_sub_of_le hlt, hy]
  have hrest : 0 < (l.drop (i + 1)).countP p := countP_pos_iff.2 ⟨y, hmem, hpy⟩
  have hdrop := (drop_sublist i l).countP_le (p := p)
  rw [drop_eq_getElem_cons hi, countP_cons_of_pos hpx] at hdrop
  omega

theorem getElem?_set_other {z : α} (f : α → ℕ) (hx : l[i]? = some x) (hz : l[j]? = some z)
    (hne : f z ≠ f x) : (l.set i y)[j]? = some z := by
  have hij : i ≠ j := by
    rintro rfl
    rw [hx, some.injEq] at hz
    exact hne (hz ▸ rfl)
  rw [getElem?_set_ne hij, hz]

end

section

def uses (e : ℕ) (t : κ × Place) : Bool := t.2.entry == some e

def holds (e : ℕ) (t : κ × Place) : Bool := t.2 == .inside e

structure Inv (L : Locks κ) (ts : List (κ × Place)) : Prop where
  counted : ∀ e, L.users e = ts.countP (uses e)
  held : ∀ e, ts.countP (holds e) = if L.locked e then 1 else 0
  entry : ∀ t ∈ ts, ∀ e, t.2.entry = some e → L.table t.1 = some e
  used : ∀ k e, L.table k = some e → 0 < L.users e ∧ e < L.next
  inj : ∀ k k' e, L.table k = some e → L.table k' = some e → k = k'

variable {L L' : Locks κ} {ts : List (κ × Place)} {k : κ} {x y : Place} {e i j : ℕ}

theorem inv_empty : Inv (Locks.empty : Locks κ) [] :=
  ⟨fun _ => rfl, fun _ => rfl, by simp, by simp [Locks.empty], by simp [Locks.empty]⟩

variable (h : Inv L ts)
include h

theorem Inv.append (k : κ) : Inv L (ts ++ [(k, .out)]) := by
  refine ⟨fun e => ?_, fun e => ?_, ?_, h.used, h.inj⟩
  · rw [h.counted e, countP_append]
    rfl
  · rw [countP_append, h.held e]
    rfl
  · exact forall_mem_append.2 ⟨h.entry, forall_mem_singleton.2 nofun⟩

theorem Inv.unused : L.users L.next = 0 := by
  rw [h.counted, countP_eq_zero]
  intro t ht huses
  have hlt := (h.used t.1 L.next (h.entry t ht L.next (by simpa [uses] using huses))).2
  omega

theorem Inv.counts (hi : ts[i]? = some (k, x)) (e : ℕ) :
    ((ts.set i (k, y)).countP (uses e) + (if x.entry = some e then 1 else 0) =
      L.users e + if y.entry = some e then 1 else 0) ∧
    ((ts.set i (k, y)).countP (holds e) + (if x = .inside e then 1 else 0) =
      (if L.locked e then 1 else 0) + if y = .inside e then 1 else 0) := by
  have huses := countP_set_add (y := (k, y)) (uses e) hi
  have hholds := countP_set_add (y := (k, y)) (holds e) hi
  rw [← h.counted e] at huses
  rw [h.held e] at hholds
  simp only [uses, holds, beq_iff_eq] at huses hholds ⊢
  exact ⟨huses, hholds⟩

theorem Inv.held_of_outside (hi : ts[i]? = some (k, x)) (hx : ∀ e, x ≠ .inside e)
    (hy : ∀ e, y ≠ .inside e) (e : ℕ) :
    (ts.set i (k, y)).countP (holds e) = if L.locked e then 1 else 0 := by
  have hc := (h.counts (y := y) hi e).2
  simpa [if_neg (hx e), if_neg (hy e)] using hc

theorem Inv.counted_enter (hi : ts[i]? = some (k, .out)) (e e' : ℕ) :
    update L.users e (L.users e + 1) e' = (ts.set i (k, .waiting e)).countP (uses e') := by
  have hc := (h.counts (y := .waiting e) hi e').1
  simp only [Place.entry, reduceCtorEq, if_false, some.injEq, Nat.add_zero] at hc
  by_cases he : e' = e
  · subst he
    simp only [if_true, update_self] at hc ⊢
    omega
  · rw [if_neg fun hh => he hh.symm] at hc
    simp only [update_of_ne he]
    omega

theorem Inv.enter [DecidableEq κ] (hi : ts[i]? = some (k, .out)) :
    Inv (enter k L).2 (ts.set i (k, .waiting (enter k L).1)) := by
  unfold KeyedLock.enter
  cases hk : L.table k with
  | some e =>
    refine ⟨h.counted_enter hi e, h.held_of_outside hi nofun nofun, fun t ht e' he' => ?_,
      fun k' e' hk' => ?_, h.inj⟩
    · rcases mem_or_eq_of_mem_set ht with ht | rfl
      · exact h.entry t ht e' he'
      · cases he'
        exact hk
    · obtain ⟨hpos, hlt⟩ := h.used k' e' hk'
      refine ⟨?_, hlt⟩
      simp only [update_apply]
      split_ifs <;> omega
  | none =>
    refine ⟨h.counted_enter hi L.next, h.held_of_outside hi nofun nofun, fun t ht e' he' => ?_,
      fun k' e' hk' => ?_, fun k₁ k₂ e' h₁ h₂ => ?_⟩
    · simp only [update_apply]
      rcases mem_or_eq_of_mem_set ht with ht | rfl
      · have hold := h.entry t ht e' he'
        have hne : t.1 ≠ k := fun hh => by rw [hh, hk] at hold; cases hold
        rw [if_neg hne]
        exact hold
      · cases he'
        exact if_pos rfl
    · simp only [update_apply] at hk' ⊢
      split_ifs at hk' with hkk
      · cases hk'
        exact ⟨by rw [if_pos rfl]; omega, Nat.lt_succ_self _⟩
      · obtain ⟨hpos, hlt⟩ := h.used k' e' hk'
        refine ⟨?_, by omega⟩
        split_ifs <;> omega
    simp only [update_apply] at h₁ h₂
    split_ifs at h₁ h₂ with hk₁ hk₂ hk₂
    · exact hk₁.trans hk₂.symm
    · cases h₁
      have := (h.used k₂ _ h₂).2
      omega
    · cases h₂
      have := (h.used k₁ _ h₁).2
      omega
    · exact h.inj k₁ k₂ e' h₁ h₂

theorem Inv.enter_new [DecidableEq κ] (k : κ) :
    Inv (KeyedLock.enter k L).2 (ts ++ [(k, .waiting (KeyedLock.enter k L).1)]) := by
  have hlast : (ts ++ [(k, Place.out)])[ts.length]? = some (k, .out) := getElem?_concat_length
  have henter := (h.append k).enter hlast
  rwa [set_append_right _ _ (Nat.le_refl _), Nat.sub_self, set_cons_zero] at henter

theorem Inv.relock (hi : ts[i]? = some (k, x)) (hx : x.entry = some e) (hy : y.entry = some e)
    {locked : ℕ → Bool}
    (hheld : ∀ e', (ts.set i (k, y)).countP (holds e') = if locked e' then 1 else 0) :
    Inv { L with locked } (ts.set i (k, y)) := by
  refine ⟨fun e' => ?_, hheld, fun t ht e' he' => ?_, h.used, h.inj⟩
  · have hc := (h.counts (y := y) hi e').1
    rw [hx, hy] at hc
    show L.users e' = _
    omega
  · rcases mem_or_eq_of_mem_set ht with ht | rfl
    · exact h.entry t ht e' he'
    · cases hy.symm.trans he'
      exact h.entry _ (mem_of_getElem? hi) e hx

theorem Inv.lock (hi : ts[i]? = some (k, .waiting e)) (hl : lock e L = some L') :
    Inv L' (ts.set i (k, .inside e)) := by
  unfold KeyedLock.lock at hl
  split at hl
  · cases hl
  rename_i hfree
  cases hl
  refine h.relock hi rfl rfl fun e' => ?_
  have hc := (h.counts (y := .inside e) hi e').2
  by_cases he : e' = e
  · subst he
    simp only [if_true, hfree] at hc ⊢
    simpa using hc
  · have hne : ¬ e = e' := fun hh => he hh.symm
    simpa [he, hne] using hc

theorem Inv.unlock (hi : ts[i]? = some (k, .inside e)) :
    Inv (unlock e L) (ts.set i (k, .leaving e)) := by
  refine h.relock hi rfl rfl fun e' => ?_
  have hc := (h.counts (y := .leaving e) hi e').2
  simp only [Place.inside.injEq, reduceCtorEq, if_false, Nat.add_zero] at hc
  simp only [update_apply]
  by_cases he : e' = e
  · subst he
    have hone : (if L.locked e' then 1 else 0) ≤ 1 := by split <;> omega
    simp only [if_true] at hc ⊢
    simp only [Bool.false_eq_true, if_false]
    omega
  · have hne : ¬ e = e' := fun hh => he hh.symm
    simpa [he, hne] using hc

theorem Inv.leave [DecidableEq κ] (hi : ts[i]? = some (k, .leaving e)) :
    Inv (leave k e L) (ts.set i (k, .out)) := by
  have hk : L.table k = some e := h.entry _ (mem_of_getElem? hi) e rfl
  have hcount : ∀ e', (KeyedLock.leave k e L).users e' = (ts.set i (k, .out)).countP (uses e') := by
    intro e'
    have hc := (h.counts (y := .out) hi e').1
    simp only [Place.entry, some.injEq, reduceCtorEq, if_false, Nat.add_zero] at hc
    by_cases he : e' = e
    · subst he
      simp only [KeyedLock.leave, update_self, if_true] at hc ⊢
      omega
    · rw [if_neg fun hh => he hh.symm] at hc
      simp only [KeyedLock.leave, update_of_ne he]
      omega
  -- an entry that goes is one that no thread counts on any more
  have htable : ∀ k' e', (KeyedLock.leave k e L).table k' = some e' → L.table k' = some e' ∧
      (e' = e → 1 < L.users e) := by
    intro k' e' hk'
    simp only [KeyedLock.leave] at hk'
    split at hk'
    · rw [update_apply] at hk'
      split_ifs at hk' with hkk
      exact ⟨hk', fun he => absurd (h.inj k' k e (he ▸ hk') hk) hkk⟩
    · exact ⟨hk', fun _ => by omega⟩
  refine ⟨hcount, h.held_of_outside hi nofun nofun, fun t ht e' he' => ?_, fun k' e' hk' => ?_, ?_⟩
  · have hmem : t ∈ ts := by
      rcases mem_or_eq_of_mem_set ht with ht | rfl
      · exact ht
      · cases he'
    have hold := h.entry t hmem e' he'
    have hused : 0 < (KeyedLock.leave k e L).users e' := by
      rw [hcount e']
      exact countP_pos_iff.2 ⟨t, ht, by simpa [uses] using he'⟩
    simp only [KeyedLock.leave] at hused ⊢
    split
    · rename_i hlast
      have hne : t.1 ≠ k := by
        intro hh
        rw [hh, hk] at hold
        cases hold
        rw [update_self] at hused
        omega
      rw [update_of_ne hne]
      exact hold
    · exact hold
  · obtain ⟨hold, hmany⟩ := htable k' e' hk'
    obtain ⟨hpos', hlt⟩ := h.used k' e' hold
    refine ⟨?_, hlt⟩
    by_cases he : e' = e
    · simp only [KeyedLock.leave, he, update_self]
      omega
    · simp only [KeyedLock.leave, update_of_ne he]
      exact hpos'
  · intro k₁ k₂ e' h₁ h₂
    exact h.inj k₁ k₂ e' (htable k₁ e' h₁).1 (htable k₂ e' h₂).1

/-- At most one thread is inside the section of a key. -/
theorem Inv.exclusive {e' : ℕ} (hi : ts[i]? = some (k, .inside e))
    (hj : ts[j]? = some (k, .inside e')) : i = j := by
  have he := h.entry _ (mem_of_getElem? hi) e rfl
  have he' := h.entry _ (mem_of_getElem? hj) e' rfl
  have hsame : e' = e := some.inj (he'.symm.trans he)
  subst hsame
  have hone : ts.countP (holds e') ≤ 1 := by
    rw [h.held]
    split <;> omega
  exact index_unique hone hi hj (by simp [holds]) (by simp [holds])

/-- A key has an entry exactly while a thread counts on it. -/
theorem Inv.table_iff (k : κ) : (L.table k).isSome ↔ ∃ t ∈ ts, t.1 = k ∧ t.2.entry.isSome := by
  constructor
  · intro hk
    obtain ⟨e, he⟩ := isSome_iff_exists.1 hk
    have hpos := (h.used k e he).1
    rw [h.counted, countP_pos_iff] at hpos
    obtain ⟨t, ht, huses⟩ := hpos
    have hentry : t.2.entry = some e := by simpa [uses] using huses
    exact ⟨t, ht, h.inj _ _ e (h.entry t ht e hentry) he, by simp [hentry]⟩
  · rintro ⟨t, ht, rfl, hs⟩
    obtain ⟨e, he⟩ := isSome_iff_exists.1 hs
    rw [h.entry t ht e he]
    rfl

end

end LabTether.KeyedLock
