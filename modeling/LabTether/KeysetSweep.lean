import Mathlib

/-!
A sweep over a table in batches, by a key with a linear order. A batch is the first rows after
the cursor in key order. A batch that is not full is all there is after the cursor, and after a
full one that many rows fewer are left. Nothing here depends on the rows.
-/
namespace LabTether.KeysetSweep

open List

variable {α κ : Type*} [LinearOrder κ] {key : α → κ}

/-- The key is after the cursor; no cursor is before everything. -/
def After (cursor : Option κ) (k : κ) : Prop := ∀ c ∈ cursor, c < k
  deriving Decidable

def ahead (key : α → κ) (cursor : Option κ) (rows : List α) : List α :=
  (rows.filter fun r => decide (After cursor (key r))).insertionSort fun a b => key a ≤ key b

def batch (key : α → κ) (size : ℕ) (cursor : Option κ) (rows : List α) : List α :=
  (ahead key cursor rows).take size

variable {cursor : Option κ} {rows : List α} {size : ℕ} {x : α}

theorem mem_ahead : x ∈ ahead key cursor rows ↔ x ∈ rows ∧ After cursor (key x) := by
  simp [ahead, mem_insertionSort]

theorem perm_ahead : (ahead key cursor rows).Perm
    (rows.filter fun r => decide (After cursor (key r))) := perm_insertionSort _ _

theorem sorted_ahead : (ahead key cursor rows).Pairwise fun a b => key a ≤ key b :=
  pairwise_insertionSort _ _

theorem mem_of_mem_batch (h : x ∈ batch key size cursor rows) :
    x ∈ rows ∧ After cursor (key x) := mem_ahead.1 (mem_of_mem_take h)

theorem mem_batch_of_short (hshort : (batch key size cursor rows).length < size) (hx : x ∈ rows)
    (hafter : After cursor (key x)) : x ∈ batch key size cursor rows := by
  unfold batch at hshort ⊢
  rw [length_take] at hshort
  rw [take_of_length_le (by omega)]
  exact mem_ahead.2 ⟨hx, hafter⟩

theorem length_batch_le : (batch key size cursor rows).length ≤ size := length_take_le _ _

theorem length_batch_of_not_mem (hx : x ∈ rows) (hafter : After cursor (key x))
    (hout : x ∉ batch key size cursor rows) : (batch key size cursor rows).length = size := by
  by_contra hne
  exact hout (mem_batch_of_short (lt_of_le_of_ne length_batch_le hne) hx hafter)

theorem mem_drop_of_not_mem_batch (hx : x ∈ rows) (hafter : After cursor (key x))
    (hout : x ∉ batch key size cursor rows) : x ∈ (ahead key cursor rows).drop size := by
  have hmem : x ∈ ahead key cursor rows := mem_ahead.2 ⟨hx, hafter⟩
  rw [← take_append_drop size (ahead key cursor rows)] at hmem
  exact (mem_append.1 hmem).resolve_left hout

theorem le_of_mem_drop {r : α} (hr : r ∈ batch key size cursor rows)
    (hx : x ∈ (ahead key cursor rows).drop size) : key r ≤ key x := by
  have hsorted : (ahead key cursor rows).Pairwise _ := sorted_ahead
  rw [← take_append_drop size (ahead key cursor rows)] at hsorted
  exact (pairwise_append.1 hsorted).2.2 r hr x hx

/-- How many rows after the cursor meet `p`. -/
def left (key : α → κ) (cursor : Option κ) (p : α → Bool) (rows : List α) : ℕ :=
  rows.countP fun r => decide (After cursor (key r)) && p r

variable {p : α → Bool}

theorem left_le : left key cursor p rows ≤ rows.countP p :=
  countP_mono_left fun _ _ h => (Bool.and_eq_true_iff.1 h).2

theorem left_sublist {rows' : List α} (h : rows'.Sublist rows) :
    left key cursor p rows' ≤ left key cursor p rows := h.countP_le

theorem left_eq_countP_ahead (p : α → Bool) :
    left key cursor p rows = (ahead key cursor rows).countP p := by
  rw [perm_ahead.countP_eq, countP_filter]
  unfold left
  congr 1
  funext r
  exact Bool.and_comm _ _

variable {last : α}

theorem le_last {r : α} (hr : r ∈ batch key size cursor rows)
    (hlast : (batch key size cursor rows).getLast? = some last) : key r ≤ key last := by
  have hsorted : (batch key size cursor rows).Pairwise fun a b => key a ≤ key b :=
    List.Pairwise.sublist (take_sublist _ _) sorted_ahead
  obtain ⟨front, hfront⟩ := getLast?_eq_some_iff.1 hlast
  rw [hfront] at hr hsorted
  rcases mem_append.1 hr with hr | hr
  · exact (pairwise_append.1 hsorted).2.2 r hr last mem_cons_self
  · exact (congrArg key (mem_singleton.1 hr)).le

/-- After a full batch of rows that meet `p`, there are so many fewer. -/
theorem left_last (hfull : (batch key size cursor rows).length = size)
    (hlast : (batch key size cursor rows).getLast? = some last)
    (hp : ∀ r ∈ batch key size cursor rows, p r = true) :
    left key (some (key last)) p rows + size ≤ left key cursor p rows := by
  have hmem : last ∈ batch key size cursor rows := mem_of_getLast? hlast
  have hafter : ∀ r : α, After (some (key last)) (key r) → After cursor (key r) :=
    fun r hr c hc => ((mem_of_mem_batch hmem).2 c hc).trans (hr _ rfl)
  have hsplit : ahead key cursor rows = batch key size cursor rows ++
      (ahead key cursor rows).drop size := (take_append_drop _ _).symm
  -- No row of the batch comes after its last row.
  have hnone : (batch key size cursor rows).countP
      (fun r => decide (After (some (key last)) (key r)) && p r) = 0 := by
    refine countP_eq_zero.2 fun r hr => ?_
    simp [After, le_last hr hlast]
  have hleft : left key (some (key last)) p rows = (ahead key cursor rows).countP
      (fun r => decide (After (some (key last)) (key r)) && p r) := by
    rw [← left_eq_countP_ahead]
    refine countP_congr fun r _ => ?_
    simp only [Bool.and_eq_true, decide_eq_true_eq]
    exact ⟨fun h => ⟨hafter r h.1, h⟩, fun h => h.2⟩
  have hall : (batch key size cursor rows).countP p = size := by rw [countP_eq_length.2 hp, hfull]
  have hrest : ((ahead key cursor rows).drop size).countP
      (fun r => decide (After (some (key last)) (key r)) && p r) ≤
      ((ahead key cursor rows).drop size).countP p :=
    countP_mono_left fun _ _ h => (Bool.and_eq_true_iff.1 h).2
  rw [hleft, left_eq_countP_ahead, hsplit, countP_append, countP_append, hnone, hall]
  omega

/-- A row that is not in a batch comes after its last row. -/
theorem lt_of_not_mem_batch (hkeys : (rows.map key).Nodup) (hx : x ∈ rows)
    (hafter : After cursor (key x)) (hout : x ∉ batch key size cursor rows)
    (hlast : (batch key size cursor rows).getLast? = some last) : key last < key x := by
  have hmem := mem_of_getLast? hlast
  have hle := le_of_mem_drop hmem (mem_drop_of_not_mem_batch hx hafter hout)
  refine lt_of_le_of_ne hle fun heq => hout ?_
  rwa [← inj_on_of_nodup_map hkeys (mem_of_mem_batch hmem).1 hx heq]

end LabTether.KeysetSweep
