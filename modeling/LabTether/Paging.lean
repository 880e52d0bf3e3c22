import Mathlib

/-!
Reading a table in pages, by an increasing key.
A page is the first rows after a position, in key order. `Covers` says that a list of
rows holds every row of the table between a position and the last key read; it is what a
reader needs to move its position there. It survives deletions, and insertions beyond the
last key; it does not survive a row that appears behind it.
-/
namespace LabTether.Paging

open List

variable {α : Type*} (key : α → ℕ)

/-- The rows after position `k`, in key order. -/
def after (k : ℕ) (rows : List α) : List α :=
  (rows.filter fun r => k < key r).insertionSort fun a b => key a ≤ key b

def page (k limit : ℕ) (rows : List α) : List α := (after key k rows).take limit

/-- The position after reading `l` from position `k`. -/
def lastKey (k : ℕ) (l : List α) : ℕ := (l.getLast?.map key).getD k

/-- Every key of the table from position `k` up to the last key of `l` is in `l`. -/
def Covers (k : ℕ) (l rows : List α) : Prop :=
  ∀ r ∈ rows, k < key r → key r ≤ lastKey key k l → key r ∈ l.map key

/-- The keys increase, from beyond position `k`. -/
def Ascends (k : ℕ) (l : List α) : Prop := (k :: l.map key).Pairwise (· < ·)

variable {key} {k limit : ℕ} {rows l l' : List α}

@[simp] theorem lastKey_nil : lastKey key k [] = k := rfl

theorem lastKey_append : lastKey key k (l ++ l') = lastKey key (lastKey key k l) l' := by
  unfold lastKey
  rw [getLast?_append]
  cases l'.getLast? <;> simp

theorem lastKey_mem : lastKey key k l ∈ k :: l.map key := by
  unfold lastKey
  rcases hlast : l.getLast? with _ | x
  · exact .head _
  · exact .tail _ (mem_map_of_mem (mem_of_getLast? hlast))

variable {r : α}

theorem lastKey_cons : lastKey key k (r :: l) = lastKey key (key r) l := by
  unfold lastKey
  rw [getLast?_cons]
  cases l.getLast? <;> rfl

theorem mem_after : r ∈ after key k rows ↔ r ∈ rows ∧ k < key r := by
  simp [after, mem_insertionSort]

theorem after_sorted : (after key k rows).Pairwise fun a b => key a ≤ key b :=
  pairwise_insertionSort _ _

theorem mem_of_mem_page (h : r ∈ page key k limit rows) : r ∈ rows :=
  (mem_after.1 (mem_of_mem_take h)).1

theorem page_covers : Covers key k (page key k limit rows) rows := by
  intro r hr hlt hle
  have hmem : r ∈ after key k rows := mem_after.2 ⟨hr, hlt⟩
  rw [← take_append_drop limit (after key k rows), mem_append] at hmem
  rcases hmem with hmem | hmem
  · exact mem_map_of_mem hmem
  -- a row that was cut off is not before the last row of the page
  have hsplit : (after key k rows).Pairwise fun a b => key a ≤ key b := after_sorted
  rw [← take_append_drop limit (after key k rows), pairwise_append] at hsplit
  have hlast : lastKey key k (page key k limit rows) ∈ (page key k limit rows).map key :=
    (mem_cons.1 lastKey_mem).resolve_left (by omega)
  obtain ⟨x, hx, heq⟩ := mem_map.1 hlast
  have hbeyond : key x ≤ key r := hsplit.2.2 x hx r hmem
  rw [le_antisymm hle (heq ▸ hbeyond)]
  exact hlast

theorem Covers.nil : Covers key k [] rows := by
  intro r _ hlt hle
  rw [lastKey_nil] at hle
  omega

theorem Covers.append (h : Covers key k l rows) (h' : Covers key (lastKey key k l) l' rows) :
    Covers key k (l ++ l') rows := by
  intro r hr hlt hle
  rw [lastKey_append] at hle
  rw [map_append]
  by_cases hin : key r ≤ lastKey key k l
  · exact mem_append_left _ (h r hr hlt hin)
  · exact mem_append_right _ (h' r hr (by omega) hle)

theorem Covers.subset (h : Covers key k l rows) {rows' : List α} (hsub : rows' ⊆ rows) :
    Covers key k l rows' := by
  intro r hr hlt hle
  exact h r (hsub hr) hlt hle

theorem Covers.insert (h : Covers key k l rows) {new : List α}
    (hnew : ∀ r ∈ new, lastKey key k l < key r) : Covers key k l (rows ++ new) := by
  intro r hr hlt hle
  rcases mem_append.1 hr with hr | hr
  · exact h r hr hlt hle
  · have hbeyond := hnew r hr
    omega

theorem lastKey_le {n : ℕ} (hk : k ≤ n) (hl : ∀ r ∈ l, key r ≤ n) : lastKey key k l ≤ n := by
  have hall : ∀ m ∈ k :: l.map key, m ≤ n := forall_mem_cons.2 ⟨hk, forall_mem_map.2 hl⟩
  exact hall _ lastKey_mem

theorem le_lastKey (h : Ascends key k l) : k ≤ lastKey key k l := by
  have hlast : lastKey key k l ∈ k :: l.map key := lastKey_mem
  rcases mem_cons.1 hlast with heq | hmem
  · exact heq.ge
  · exact ((pairwise_cons.1 h).1 _ hmem).le

theorem le_lastKey_of_mem (h : Ascends key k l) (hr : r ∈ l) : key r ≤ lastKey key k l := by
  obtain ⟨before, rest, rfl⟩ := append_of_mem hr
  have hrest : Ascends key (key r) rest := by
    have hasc := (pairwise_cons.1 h).2
    rw [map_append] at hasc
    exact (pairwise_append.1 hasc).2.1
  rw [lastKey_append, lastKey_cons]
  exact le_lastKey hrest

end LabTether.Paging
