import Mathlib

/-!
Tables of rows, as the statements of a SQL transaction see them.
A table is the list of its rows; UPDATE rewrites the rows a predicate selects,
DELETE drops them, INSERT fails on a key that is already there. `Change` says
what one statement can do to a table, row by row, so that an invariant of rows
is proved once per kind of row change and not once per statement.
Nothing here depends on what the rows are.
-/
namespace LabTether.Table

open List

variable {α κ : Type*}

def updateWhere (p : α → Bool) (f : α → α) (t : List α) : List α :=
  t.map fun r => if p r then f r else r

def deleteWhere (p : α → Bool) (t : List α) : List α :=
  t.filter fun r => !p r

/-- INSERT under a primary key or unique constraint: `none` is the violation. -/
def insertRow [DecidableEq κ] (key : α → κ) (r : α) (t : List α) : Option (List α) :=
  if key r ∈ t.map key then none else some (t ++ [r])

def Keyed (key : α → κ) (t : List α) : Prop := (t.map key).Nodup

variable {t : List α} {p : α → Bool} {f : α → α} {r : α}

theorem mem_updateWhere : r ∈ updateWhere p f t ↔ ∃ x ∈ t, (if p x then f x else x) = r := by
  simp [updateWhere]

theorem mem_deleteWhere : r ∈ deleteWhere p t ↔ r ∈ t ∧ p r = false := by
  simp [deleteWhere]

theorem mem_updateWhere_of_not (hr : r ∈ t) (hp : p r = false) : r ∈ updateWhere p f t :=
  mem_updateWhere.2 ⟨r, hr, by simp [hp]⟩

theorem updateWhere_mem (hr : r ∈ t) (hp : p r = true) : f r ∈ updateWhere p f t :=
  mem_updateWhere.2 ⟨r, hr, by simp [hp]⟩

variable {key : α → κ}

theorem insertRow_eq_some [DecidableEq κ] {t t' : List α} :
    insertRow key r t = some t' ↔ key r ∉ t.map key ∧ t' = t ++ [r] := by
  unfold insertRow
  split
  · simp_all
  · simp_all [eq_comm]

section

variable (h : Keyed key t)
include h

theorem Keyed.eq {r s : α} (hr : r ∈ t) (hs : s ∈ t) (hk : key r = key s) : r = s :=
  inj_on_of_nodup_map h hr hs hk

theorem Keyed.map (hf : ∀ r ∈ t, key (f r) = key r) : Keyed key (t.map f) := by
  have hkeys : (t.map f).map key = t.map key := by
    rw [map_map]
    exact map_congr_left hf
  unfold Keyed
  rw [hkeys]
  exact h

theorem Keyed.filter (p : α → Bool) : Keyed key (t.filter p) :=
  List.Nodup.sublist (filter_sublist.map key) h

theorem Keyed.append (hr : key r ∉ t.map key) : Keyed key (t ++ [r]) := by
  unfold Keyed
  rw [map_append, nodup_append]
  refine ⟨h, by simp, ?_⟩
  intro a ha b hb
  rw [map_singleton, mem_singleton] at hb
  subst hb
  exact fun e => hr (e ▸ ha)

theorem Keyed.find?_eq {k : κ} (hp : ∀ r ∈ t, p r = true → key r = k) {r x : α}
    (hx : t.find? p = some x) (hr : r ∈ t) (hk : key r = k) : r = x :=
  h.eq hr (mem_of_find?_eq_some hx) (hk.trans (hp x (mem_of_find?_eq_some hx) (find?_some hx)).symm)

end

section

variable (key : α → κ) (Move : α → α → Prop) (New : α → Prop) (Gone : α → Prop)

/-- What one statement does to a table: rewrite rows by `Move`, insert a row that is
`New`, or drop rows that are `Gone`. -/
inductive Change : List α → List α → Prop
  | rewrite (t : List α) (f : α → α) (h : ∀ r ∈ t, f r = r ∨ Move r (f r)) :
      Change t (t.map f)
  | insert (t : List α) (r : α) (h : New r) (hk : key r ∉ t.map key) : Change t (t ++ [r])
  | delete (t : List α) (p : α → Bool) (h : ∀ r ∈ t, p r = false → Gone r) :
      Change t (t.filter p)

/-- What the statements of one transaction do to a table. -/
abbrev Changes : List α → List α → Prop := Relation.ReflTransGen (Change key Move New Gone)

variable {key Move New Gone} {t t' : List α}

theorem Change.refl (t : List α) : Change key Move New Gone t t := by
  have h : Change key Move New Gone t (t.map id) := .rewrite t id fun r _ => .inl rfl
  simpa using h

variable {p : α → Bool}

theorem Change.updateWhere {f : α → α} (h : ∀ r ∈ t, p r = true → Move r (f r)) :
    Change key Move New Gone t (Table.updateWhere p f t) := by
  refine .rewrite t _ fun r hr => ?_
  by_cases hp : p r = true
  · exact .inr (by simpa [hp] using h r hr hp)
  · exact .inl (by simp [hp])

theorem Change.deleteWhere (h : ∀ r ∈ t, p r = true → Gone r) :
    Change key Move New Gone t (Table.deleteWhere p t) :=
  .delete t _ fun r hr hp => h r hr (by simpa using hp)

theorem Change.insertRow [DecidableEq κ] {r : α} (hr : New r)
    (h : Table.insertRow key r t = some t') : Change key Move New Gone t t' := by
  obtain ⟨hk, rfl⟩ := insertRow_eq_some.1 h
  exact .insert t r hr hk

section

variable (h : Change key Move New Gone t t')
include h

/-- Where a row of the new table comes from. -/
theorem Change.mem_cases {r' : α} (hr' : r' ∈ t') :
    r' ∈ t ∨ (∃ r ∈ t, Move r r') ∨ (New r' ∧ key r' ∉ t.map key) := by
  cases h with
  | rewrite f hf =>
    obtain ⟨r, hr, rfl⟩ := mem_map.1 hr'
    rcases hf r hr with he | hm
    · exact .inl (he.symm ▸ hr)
    · exact .inr (.inl ⟨r, hr, hm⟩)
  | insert r hn hk =>
    rcases mem_append.1 hr' with hr | hr
    · exact .inl hr
    · rw [mem_singleton] at hr
      subst hr
      exact .inr (.inr ⟨hn, hk⟩)
  | delete p hp => exact .inl (mem_filter.1 hr').1

theorem Change.successor {r : α} (hr : r ∈ t) (hstay : ¬ Gone r) :
    r ∈ t' ∨ ∃ r' ∈ t', Move r r' := by
  cases h with
  | rewrite f hf =>
    have hm : f r ∈ t.map f := mem_map_of_mem hr
    rcases hf r hr with he | hmove
    · exact .inl (he ▸ hm)
    · exact .inr ⟨f r, hm, hmove⟩
  | insert x hn hk => exact .inl (mem_append_left _ hr)
  | delete p hp =>
    refine .inl (mem_filter.2 ⟨hr, ?_⟩)
    by_contra hpr
    exact hstay (hp r hr (by simpa using hpr))

theorem Change.persists {r : α} (hr : r ∈ t) (hfix : ∀ r', ¬ Move r r') (hstay : ¬ Gone r) :
    r ∈ t' :=
  (h.successor hr hstay).resolve_right fun ⟨r', _, hm⟩ => hfix r' hm

end

theorem Change.keyed (hkey : ∀ r r', Move r r' → key r' = key r)
    (h : Change key Move New Gone t t') (ht : Keyed key t) : Keyed key t' := by
  cases h with
  | rewrite f hf =>
    refine ht.map fun r hr => ?_
    rcases hf r hr with he | hm
    · rw [he]
    · exact hkey _ _ hm
  | insert r hn hk => exact ht.append hk
  | delete p hp => exact ht.filter p

variable {I : α → Prop}

/-- An invariant of rows that every rewrite keeps and every new row meets. -/
theorem Change.forall_mem (hmove : ∀ r r', I r → Move r r' → I r') (hnew : ∀ r, New r → I r)
    (h : Change key Move New Gone t t') (ht : ∀ r ∈ t, I r) :
    ∀ r ∈ t', I r := by
  intro r' hr'
  rcases h.mem_cases hr' with hr | ⟨r, hr, hm⟩ | ⟨hn, -⟩
  · exact ht r' hr
  · exact hmove r r' (ht r hr) hm
  · exact hnew r' hn

theorem Changes.keyed (hkey : ∀ r r', Move r r' → key r' = key r)
    (h : Changes key Move New Gone t t') (ht : Keyed key t) : Keyed key t' := by
  induction h with
  | refl => exact ht
  | tail _ hstep ih => exact hstep.keyed hkey ih

theorem Changes.forall_mem (hmove : ∀ r r', I r → Move r r' → I r') (hnew : ∀ r, New r → I r)
    (h : Changes key Move New Gone t t') (ht : ∀ r ∈ t, I r) :
    ∀ r ∈ t', I r := by
  induction h with
  | refl => exact ht
  | tail _ hstep ih => exact hstep.forall_mem hmove hnew ih

/-- Backward reasoning over a transaction: a row with a property that no new row has, and
that a rewrite cannot create, comes from a row that had it, related by `A`. -/
theorem Changes.origin {Q : α → Prop} {A : α → α → Prop} (hrefl : ∀ r, A r r)
    (htrans : ∀ r₁ r₂ r₃, A r₁ r₂ → A r₂ r₃ → A r₁ r₃)
    (hmove : ∀ r r', Move r r' → Q r' → Q r ∧ A r r') (hnew : ∀ r, New r → ¬ Q r)
    (h : Changes key Move New Gone t t') {r' : α} (hr' : r' ∈ t') (hq : Q r') :
    ∃ r ∈ t, Q r ∧ A r r' := by
  induction h generalizing r' with
  | refl => exact ⟨r', hr', hq, hrefl r'⟩
  | tail _ hstep ih =>
    rcases hstep.mem_cases hr' with hr | ⟨r, hr, hm⟩ | ⟨hn, -⟩
    · exact ih hr hq
    · obtain ⟨hqr, har⟩ := hmove r r' hm hq
      obtain ⟨x, hx, hqx, hax⟩ := ih hr hqr
      exact ⟨x, hx, hqx, htrans _ _ _ hax har⟩
    · exact absurd hq (hnew r' hn)

theorem Change.changes (h : Change key Move New Gone t t') : Changes key Move New Gone t t' :=
  Relation.ReflTransGen.single h

end

end LabTether.Table
