import Mathlib

/-!
Items sorted into buckets by a key. Buckets stand in the order in which their keys were
first met, and the header of a bucket may depend on how many there were before it.
-/
namespace LabTether.Grouping

open List

structure Bucket (κ β α : Type*) where
  key : κ
  header : β
  items : List α

section

variable {κ β α : Type*}

def keys (bs : List (Bucket κ β α)) : List κ := bs.map Bucket.key

/-- Everything in the buckets, bucket after bucket. -/
def contents (bs : List (Bucket κ β α)) : List α := bs.flatMap Bucket.items

variable {b : Bucket κ β α}

theorem items_sublist {bs : List (Bucket κ β α)} (h : b ∈ bs) :
    b.items.Sublist (contents bs) := by
  unfold contents
  rw [flatMap_def]
  exact sublist_flatten_of_mem (mem_map_of_mem h)

variable [DecidableEq κ]

def put (header : ℕ → β) (key : κ) (a : α) (bs : List (Bucket κ β α)) : List (Bucket κ β α) :=
  if key ∈ keys bs then
    bs.map fun b => if b.key = key then { b with items := b.items ++ [a] } else b
  else bs ++ [⟨key, header bs.length, [a]⟩]

variable (classify : α → Option (κ × (ℕ → β)))

/-- One pass over a list: `classify` gives an item's key and the header of a new bucket, or
leaves the item out. -/
def sortPass (bs : List (Bucket κ β α)) (items : List α) :
    List (Bucket κ β α) :=
  items.foldl (fun bs a =>
    match classify a with
    | none => bs
    | some (key, header) => put header key a bs) bs

variable {header : ℕ → β} {key : κ} {a : α} {bs : List (Bucket κ β α)}

theorem keys_put : keys (put header key a bs) =
    if key ∈ keys bs then keys bs else keys bs ++ [key] := by
  unfold put
  split
  · unfold keys
    rw [map_map]
    apply map_congr_left
    intro b _
    simp only [Function.comp_apply]
    split <;> rfl
  · simp [keys]

theorem keys_put_nodup (h : (keys bs).Nodup) : (keys (put header key a bs)).Nodup := by
  rw [keys_put]
  split
  next => exact h
  next hkey =>
    apply List.Nodup.append h (nodup_singleton key)
    exact disjoint_singleton.2 hkey

theorem contents_put (h : (keys bs).Nodup) :
    (contents (put header key a bs)).Perm (contents bs ++ [a]) := by
  unfold put
  split
  next hkey =>
    induction bs with
    | nil => cases hkey
    | cons b bs ih =>
      obtain ⟨hhead, htail⟩ := nodup_cons.1 h
      simp only [contents, map_cons, flatMap_cons]
      by_cases hb : b.key = key
      · -- the bucket is found: by distinctness the rest is left alone
        have hrest : bs.map (fun b => if b.key = key then { b with items := b.items ++ [a] } else b)
            = bs := by
          apply (map_congr_left ?_).trans (map_id bs)
          intro c hc
          have hne : c.key ≠ key := by
            intro hck
            exact hhead (mem_map.2 ⟨c, hc, hck.trans hb.symm⟩)
          simp [hne]
        rw [hrest, if_pos hb, append_assoc, append_assoc]
        exact List.Perm.append_left _ perm_append_comm
      · have hkey : key ∈ keys bs := (mem_cons.1 hkey).resolve_left fun heq => hb heq.symm
        rw [if_neg hb, append_assoc]
        exact List.Perm.append_left _ (ih htail hkey)
  next => simp [contents]

theorem mem_put (h : b ∈ put header key a bs) :
    b ∈ bs ∨ (∃ c ∈ bs, c.key = key ∧ b = ⟨c.key, c.header, c.items ++ [a]⟩) ∨
      b = ⟨key, header bs.length, [a]⟩ := by
  unfold put at h
  split at h
  next =>
    obtain ⟨c, hc, rfl⟩ := mem_map.1 h
    split
    next hkey => exact .inr (.inl ⟨c, hc, hkey, rfl⟩)
    next => exact .inl hc
  next =>
    rcases mem_append.1 h with hb | hb
    · exact .inl hb
    · exact .inr (.inr (mem_singleton.1 hb))

/-- The items a pass does not leave out. -/
def taken (items : List α) : List α :=
  items.filter fun a => (classify a).isSome

theorem sortPass_spec (items : List α) (h : (keys bs).Nodup) :
    (keys (sortPass classify bs items)).Nodup ∧
      (contents (sortPass classify bs items)).Perm (contents bs ++ taken classify items) := by
  unfold sortPass taken
  induction items generalizing bs with
  | nil => simpa using h
  | cons a items ih =>
    rw [foldl_cons]
    rcases hclass : classify a with _ | entry
    · obtain ⟨hkeys, hperm⟩ := ih h
      refine ⟨hkeys, ?_⟩
      simpa [filter_cons, hclass] using hperm
    have hnodup : (keys (put entry.2 entry.1 a bs)).Nodup := keys_put_nodup h
    have hput : (contents (put entry.2 entry.1 a bs)).Perm (contents bs ++ [a]) := contents_put h
    obtain ⟨hkeys, hperm⟩ := ih hnodup
    refine ⟨hkeys, hperm.trans ?_⟩
    simpa [filter_cons, hclass] using
      hput.append_right (items.filter fun a => (classify a).isSome)

variable {k : κ}

theorem mem_keys_put : k ∈ keys (put header key a bs) ↔ k ∈ keys bs ∨ k = key := by
  rw [keys_put]
  split
  next h =>
    constructor
    · exact Or.inl
    · rintro (hk | rfl)
      · exact hk
      · exact h
  next => simp

/-- A key joins the list where it is met for the first time. -/
def meet (ks : List κ) (k : κ) : List κ := if k ∈ ks then ks else ks ++ [k]

theorem foldl_meet {ks met : List κ} : k ∈ met.foldl meet ks ↔ k ∈ ks ∨ k ∈ met := by
  induction met generalizing ks with
  | nil => simp
  | cons a met ih =>
    rw [foldl_cons, ih, meet]
    split <;> grind

theorem keys_sortPass (items : List α) : keys (sortPass classify bs items) =
    (items.filterMap fun a => (classify a).map Prod.fst).foldl meet (keys bs) := by
  unfold sortPass
  induction items generalizing bs with
  | nil => rfl
  | cons a items ih =>
    rw [foldl_cons, ih]
    cases hclass : classify a with
    | none => simp [hclass]
    | some entry => simp [hclass, keys_put, meet]

theorem mem_keys_sortPass {classify : α → Option (κ × (ℕ → β))} {items : List α}
    (h : k ∈ keys (sortPass classify bs items)) :
    k ∈ keys bs ∨ ∃ a ∈ items, ∃ entry ∈ classify a, entry.1 = k := by
  rw [keys_sortPass, foldl_meet] at h
  refine h.imp_right fun h => ?_
  obtain ⟨a, ha, hk⟩ := mem_filterMap.1 h
  obtain ⟨entry, hentry, rfl⟩ := Option.map_eq_some_iff.1 hk
  exact ⟨a, ha, entry, hentry, rfl⟩

/-- The items that a pass files under a key. -/
def filed (items : List α) (k : κ) : List α :=
  items.filter fun a => (classify a).map Prod.fst = some k

/-- Bucket `i` holds what `f` has for its key, under a header for place `i`. -/
structure Filed (H : ℕ → β → Prop) (f : κ → List α) (bs : List (Bucket κ β α)) : Prop where
  bucket : ∀ i b, bs[i]? = some b → b.items = f b.key ∧ H i b.header
  rest : ∀ k, k ∉ keys bs → f k = []

variable {H : ℕ → β → Prop} {f : κ → List α}

theorem Filed.put (h : Filed H f bs) (hH : ∀ i, H i (header i)) :
    Filed H (fun k => f k ++ if key = k then [a] else []) (put header key a bs) where
  rest k hk := by
    obtain ⟨hold, hne⟩ := not_or.1 (mt mem_keys_put.2 hk)
    simp [h.rest k hold, Ne.symm hne]
  bucket i b hb := by
    unfold Grouping.put at hb
    split at hb
    next =>
      rw [getElem?_map] at hb
      obtain ⟨c, hc, rfl⟩ := Option.map_eq_some_iff.1 hb
      obtain ⟨hitems, hheader⟩ := h.bucket i c hc
      split
      next hkey => exact ⟨by simp [hitems, hkey], hheader⟩
      next hkey => exact ⟨by simp [hitems, Ne.symm hkey], hheader⟩
    next hkey =>
      rw [getElem?_append] at hb
      split at hb
      next =>
        obtain ⟨hitems, hheader⟩ := h.bucket i b hb
        have hne : key ≠ b.key := fun heq => hkey (heq ▸ mem_map_of_mem (mem_of_getElem? hb))
        exact ⟨by simp [hitems, hne], hheader⟩
      next hlen =>
        rw [getElem?_singleton] at hb
        split_ifs at hb with hi
        cases hb
        obtain rfl : i = bs.length := by omega
        exact ⟨by simp [h.rest key hkey], hH _⟩

theorem Filed.sortPass (items : List α) (h : Filed H f bs)
    (hH : ∀ a entry, classify a = some entry → ∀ i, H i (entry.2 i)) :
    Filed H (fun k => f k ++ filed classify items k) (sortPass classify bs items) := by
  unfold Grouping.sortPass filed
  induction items generalizing bs f with
  | nil => simpa using h
  | cons a items ih =>
    rw [foldl_cons]
    rcases hclass : classify a with _ | entry
    · simpa [filter_cons, hclass] using ih h
    have hput : Filed H _ (Grouping.put entry.2 entry.1 a bs) := h.put (hH a entry hclass)
    have hsplit : ∀ k, (f k ++ if entry.1 = k then [a] else []) ++
        items.filter (fun a => (classify a).map Prod.fst = some k) =
        f k ++ (a :: items).filter fun a => (classify a).map Prod.fst = some k := by
      intro k
      by_cases hk : entry.1 = k <;> simp [hclass, hk]
    simpa only [hsplit] using ih hput

end

end LabTether.Grouping
