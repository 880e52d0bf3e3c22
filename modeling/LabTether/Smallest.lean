import Mathlib

/-!
Keeping the smallest elements of a stream. The kept elements are an increasing list with
room for `k`; an element that comes to a full list takes the place of the largest, if it
is smaller. What is kept in the end are the first `k` elements of the sorted stream, in
whatever order the elements came.
-/
namespace LabTether.Smallest

open List

variable {α : Type*} [LinearOrder α]

/-- Take one more element into account. -/
def offer (k : ℕ) (kept : List α) (a : α) : List α :=
  if kept.length < k then kept.orderedInsert (· ≤ ·) a
  else
    match kept.getLast? with
    | none => kept
    | some largest => if a < largest then kept.dropLast.orderedInsert (· ≤ ·) a else kept

variable {l : List α} {a m : α} {k : ℕ}

theorem take_orderedInsert_of_lt (hm : l[k]? = some m) (ha : a < m) :
    (l.orderedInsert (· ≤ ·) a).take (k + 1) = (l.take k).orderedInsert (· ≤ ·) a := by
  induction l generalizing k with
  | nil => simp at hm
  | cons b l ih =>
    by_cases hab : a ≤ b
    · cases k with
      | zero | succ k => simp [orderedInsert, hab]
    cases k with
    | zero =>
      have hbm : b = m := by simpa using hm
      exact absurd (hbm ▸ ha.le) hab
    | succ k => simpa [orderedInsert, hab] using ih (by simpa using hm)

theorem take_orderedInsert_of_gt (hl : l.Pairwise (· ≤ ·)) (hm : l[k]? = some m) (ha : m < a) :
    (l.orderedInsert (· ≤ ·) a).take (k + 1) = l.take (k + 1) := by
  induction l generalizing k with
  | nil => simp at hm
  | cons b l ih =>
    have hbm : b ≤ m := by
      cases k with
      | zero => exact le_of_eq (by simpa using hm)
      | succ k => exact (pairwise_cons.1 hl).1 m (mem_of_getElem? (by simpa using hm))
    have hab : ¬ a ≤ b := not_le.2 (lt_of_le_of_lt hbm ha)
    cases k with
    | zero => simp [orderedInsert, hab]
    | succ k => simpa [orderedInsert, hab] using ih (pairwise_cons.1 hl).2 (by simpa using hm)

theorem offer_take {a : α} (k : ℕ) (hl : l.Pairwise (· ≤ ·)) (ha : a ∉ l) :
    offer k (l.take k) a = (l.orderedInsert (· ≤ ·) a).take k := by
  unfold offer
  by_cases hlt : l.length < k
  · rw [take_of_length_le hlt.le, if_pos hlt]
    refine (take_of_length_le ?_).symm
    rw [orderedInsert_length]
    omega
  rw [if_neg (by rw [length_take]; omega)]
  rcases k with _ | k
  · simp
  have hk : k < l.length := by omega
  have hm : l[k]? = some l[k] := getElem?_eq_getElem hk
  have hlast : (l.take (k + 1)).getLast? = some l[k] := by
    rw [getLast?_eq_getElem?, length_take, min_eq_left (by omega), getElem?_take_of_lt (by omega)]
    exact hm
  have hdrop : (l.take (k + 1)).dropLast = l.take k := by
    rw [dropLast_eq_take, length_take, take_take]
    congr 1
    omega
  rw [hlast]
  dsimp only
  rw [hdrop]
  split
  · rename_i h
    exact (take_orderedInsert_of_lt hm h).symm
  · rename_i h
    have hne : l[k] ≠ a := fun he => ha (he ▸ getElem_mem hk)
    exact (take_orderedInsert_of_gt hl hm (lt_of_le_of_ne (not_lt.1 h) hne)).symm

theorem foldl_offer (k : ℕ) (hl : l.Nodup) :
    l.foldl (offer k) [] = (l.insertionSort (· ≤ ·)).take k := by
  -- the fold keeps the first elements of the sorted list of all it has seen
  suffices h : ∀ (seen sorted : List α), sorted.Perm seen → sorted.Pairwise (· ≤ ·) →
      (seen ++ l).Nodup → ∃ t : List α, t.Perm (seen ++ l) ∧ t.Pairwise (· ≤ ·) ∧
        l.foldl (offer k) (sorted.take k) = t.take k by
    obtain ⟨t, hperm, hsorted, heq⟩ := h [] [] (.refl _) .nil hl
    have ht : t = l.insertionSort (· ≤ ·) :=
      (hperm.trans (perm_insertionSort _ l).symm).eq_of_pairwise' hsorted
        (pairwise_insertionSort _ l)
    rw [← ht, ← heq, take_nil]
  clear hl
  induction l with
  | nil => exact fun seen sorted hperm hsorted _ => ⟨sorted, by simpa using hperm, hsorted, rfl⟩
  | cons a l ih =>
    intro seen sorted hperm hsorted hnodup
    have hfresh : a ∉ sorted := by
      intro hmem
      exact (nodup_append.1 hnodup).2.2 a (hperm.mem_iff.1 hmem) a (.head _) rfl
    have hperm' : (sorted.orderedInsert (· ≤ ·) a).Perm (seen ++ [a]) :=
      (perm_orderedInsert _ a sorted).trans
        ((hperm.cons a).trans (perm_append_singleton a seen).symm)
    obtain ⟨t, ht, hts, heq⟩ := ih (seen ++ [a]) _ hperm' (hsorted.orderedInsert a _)
      (by simpa using hnodup)
    refine ⟨t, by simpa using ht, hts, ?_⟩
    rw [foldl_cons, offer_take k hsorted hfresh]
    exact heq

/-- The first `n` elements of a set, in increasing order. -/
structure IsPage (n : ℕ) (S : α → Prop) (l : List α) : Prop where
  sorted : l.Pairwise (· < ·)
  sound : ∀ x ∈ l, S x
  small : l.length ≤ n
  rest : ∀ x, S x → x ∉ l → l.length = n ∧ ∀ y ∈ l, y < x

section

variable {n i : ℕ} {S T : α → Prop} {l l' : List α} {a : α}

theorem IsPage.congr (h : IsPage n S l) (hST : ∀ x, S x ↔ T x) : IsPage n T l :=
  (funext fun x => propext (hST x) : S = T) ▸ h

/-- The elements of a page that another page of the same set lacks would not fit. -/
theorem IsPage.subset (h : IsPage n S l) (h' : IsPage n S l') : l ⊆ l' := by
  intro x hx
  by_contra hx'
  obtain ⟨hfull, hlt⟩ := h'.rest x (h.sound x hx) hx'
  have hsub : x :: l' ⊆ l := by
    refine cons_subset.2 ⟨hx, fun y hy => ?_⟩
    by_contra hyl
    exact lt_asymm (hlt y hy) ((h.rest y (h'.sound y hy) hyl).2 x hx)
  have hnodup : (x :: l').Nodup := nodup_cons.2 ⟨hx', h'.sorted.imp ne_of_lt⟩
  have hlen : (x :: l').length ≤ l.length := (subperm_of_subset hnodup hsub).length_le
  have := h.small
  rw [length_cons] at hlen
  omega

theorem IsPage.eq (h : IsPage n S l) (h' : IsPage n S l') : l = l' := by
  have hperm : l.Perm l' :=
    (perm_ext_iff_of_nodup (h.sorted.imp ne_of_lt) (h'.sorted.imp ne_of_lt)).2
      fun x => ⟨fun hx => h.subset h' hx, fun hx => h'.subset h hx⟩
  exact hperm.eq_of_pairwise' (h.sorted.imp le_of_lt) (h'.sorted.imp le_of_lt)

theorem IsPage.mem_of_short (h : IsPage n S l) (hshort : l.length < n) (ha : S a) : a ∈ l := by
  by_contra hal
  exact hshort.ne (h.rest a ha hal).1

theorem isPage_take (hl : l.Pairwise (· < ·)) : IsPage n (· ∈ l) (l.take n) := by
  refine ⟨hl.sublist (take_sublist _ _), fun x => mem_of_mem_take,
    length_take_le _ _, fun x hx hxt => ?_⟩
  have hdrop : x ∈ l.drop n := by
    rw [← take_append_drop n l] at hx
    exact (mem_append.1 hx).resolve_left hxt
  constructor
  · have := length_pos_of_mem hdrop
    rw [length_drop] at this
    rw [length_take]
    omega
  · rw [← take_append_drop n l] at hl
    exact fun y hy => (pairwise_append.1 hl).2.2 y hy x hdrop

theorem mem_drop_iff (hl : l.Pairwise (· < ·)) (hlast : (l.take n).getLast? = some a) {x : α} :
    x ∈ l.drop n ↔ x ∈ l ∧ a < x := by
  have hl' := hl
  rw [← take_append_drop n l] at hl'
  obtain ⟨hfront, -, hcross⟩ := pairwise_append.1 hl'
  refine ⟨fun hx => ⟨mem_of_mem_drop hx, hcross a (mem_of_getLast? hlast) x hx⟩, ?_⟩
  rintro ⟨hx, hax⟩
  rw [← take_append_drop n l] at hx
  refine (mem_append.1 hx).resolve_left fun hin => ?_
  obtain ⟨front, heq⟩ := getLast?_eq_some_iff.1 hlast
  rw [heq] at hin hfront
  rcases mem_append.1 hin with hin | hin
  · exact lt_asymm hax ((pairwise_append.1 hfront).2.2 x hin a (by simp))
  · exact hax.ne (mem_singleton.1 hin).symm

theorem sorted_of_nodup (hl : l.Nodup) : (l.insertionSort (· ≤ ·)).Pairwise (· < ·) := by
  have hnodup : (l.insertionSort (· ≤ ·)).Nodup := (perm_insertionSort _ l).nodup_iff.2 hl
  exact (pairwise_insertionSort _ l).imp₂ (fun _ _ hle hne => lt_of_le_of_ne hle hne) hnodup

/-- One more element, put at its place; the last one leaves a full page. -/
theorem IsPage.insert (h : IsPage n S l) (hi : i < n) (hlow : ∀ x ∈ l.take i, x < a)
    (hhigh : ∀ x ∈ l.drop i, a < x) :
    IsPage n (fun x => S x ∨ x = a) ((l.take i ++ a :: l.drop i).take n) := by
  have hsorted : (l.take i ++ a :: l.drop i).Pairwise (· < ·) := by
    have hl := h.sorted
    rw [← take_append_drop i l] at hl
    obtain ⟨h1, h2, h12⟩ := pairwise_append.1 hl
    exact pairwise_append.2 ⟨h1, pairwise_cons.2 ⟨hhigh, h2⟩,
      fun x hx => forall_mem_cons.2 ⟨hlow x hx, h12 x hx⟩⟩
  have hmem : ∀ x, x ∈ l.take i ++ a :: l.drop i ↔ x ∈ l ∨ x = a := by
    intro x
    conv_rhs => rw [← take_append_drop i l]
    simp only [mem_append, mem_cons]
    tauto
  have hpage := isPage_take (n := n) hsorted
  refine ⟨hpage.sorted, fun x hx => ?_, hpage.small, fun x hx hxt => ?_⟩
  · rcases (hmem x).1 (mem_of_mem_take hx) with hx | hx
    · exact .inl (h.sound x hx)
    · exact .inr hx
  by_cases hxm : x ∈ l.take i ++ a :: l.drop i
  · exact hpage.rest x hxm hxt
  -- an element that was left out before lies above the whole page, and so above `a`
  rw [hmem, not_or] at hxm
  obtain ⟨hfull, hlt⟩ := h.rest x (hx.resolve_right hxm.2) hxm.1
  have hax : a < x := by
    have hne : l.drop i ≠ [] := by
      rw [Ne, drop_eq_nil_iff]
      omega
    obtain ⟨y, hy⟩ := exists_mem_of_ne_nil _ hne
    exact (hhigh y hy).trans (hlt y (mem_of_mem_drop hy))
  refine ⟨by simp; omega, fun y hy => ?_⟩
  rcases (hmem y).1 (mem_of_mem_take hy) with hy | rfl
  · exact hlt y hy
  · exact hax

theorem le_foldl_max (l : List α) (a : α) : a ≤ l.foldl max a ∧ ∀ b ∈ l, b ≤ l.foldl max a := by
  induction l generalizing a with
  | nil => simp
  | cons c l ih =>
    obtain ⟨hle, hall⟩ := ih (max a c)
    exact ⟨(le_max_left a c).trans hle, forall_mem_cons.2 ⟨(le_max_right a c).trans hle, hall⟩⟩

end

end LabTether.Smallest
