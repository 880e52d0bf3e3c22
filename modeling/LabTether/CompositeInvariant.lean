import LabTether.Composites

/-!
What the composite requests keep: one primary for each composite, which gives it its id,
two members at least, and no asset in two of them. Creating a composite and changing its
primary always keep it. Detaching the primary keeps it only when the composite is then
dissolved; otherwise the remaining members are left without one.
-/
namespace LabTether.Composites

open GoStrings Table Transaction Transition List Member

section

structure Consistent (rows : List Member) : Prop where
  onePrimary : ∀ r ∈ rows, ∃! p, p ∈ rows ∧ p.compositeID = r.compositeID ∧ p.role = .primary
  named : ∀ p ∈ rows, p.role = .primary → p.compositeID = p.memberAssetID
  twoMembers : ∀ r ∈ rows, 2 ≤ (members rows r.compositeID).length
  oneComposite : Keyed memberAssetID rows

variable {rows : List Member} {c m n : String} {r : Member}

theorem mem_members : r ∈ members rows c ↔ r ∈ rows ∧ r.compositeID = c := by
  simp [members]

theorem Consistent.intro (hkeyed : Keyed memberAssetID rows)
    (hnamed : ∀ p ∈ rows, p.role = .primary → p.compositeID = p.memberAssetID)
    (hprimary : ∀ r ∈ rows, ∃ p ∈ rows, p.compositeID = r.compositeID ∧ p.role = .primary)
    (htwo : ∀ r ∈ rows, 2 ≤ (members rows r.compositeID).length) : Consistent rows := by
  refine ⟨?_, hnamed, htwo, hkeyed⟩
  intro r hr
  obtain ⟨p, hp, hcomp, hrole⟩ := hprimary r hr
  refine ⟨p, ⟨hp, hcomp, hrole⟩, ?_⟩
  rintro q ⟨hq, hqcomp, hqrole⟩
  exact hkeyed.eq hq hp (by rw [← hnamed q hq hqrole, ← hnamed p hp hrole, hcomp, hqcomp])

theorem Consistent.primary (h : Consistent rows) (hr : r ∈ rows) :
    ⟨r.compositeID, r.compositeID, .primary⟩ ∈ rows := by
  obtain ⟨p, ⟨hp, hcomp, hrole⟩, -⟩ := h.onePrimary r hr
  have hmember := h.named p hp hrole
  obtain ⟨pc, pm, pr⟩ := p
  simp only at hcomp hmember hrole
  subst hcomp hmember hrole
  exact hp

theorem Consistent.member_of_own (h : Consistent rows) (hr : r ∈ rows) {q : Member} (hq : q ∈ rows)
    (hid : q.compositeID = r.memberAssetID) : r.compositeID = q.compositeID := by
  have hprimary := h.primary hq
  have heq := h.oneComposite.eq hr hprimary hid.symm
  rw [heq]

end

section

variable {assets : List String} {rows rows' : List Member} {primaryID : String}

theorem insertMember_ok {r : Member} (h : insertMember assets rows r = .ok rows') :
    r.memberAssetID ∉ rows.map memberAssetID ∧ rows' = rows ++ [r] := by
  unfold insertMember at h
  split at h
  · cases h
  split at h
  · cases h
  next hnew =>
    cases h
    exact ⟨hnew, rfl⟩

/-- What the checks of the request leave of a facet id. -/
structure Facet (primaryID facet : String) : Prop where
  trimmed : trimSpace facet = facet
  nonempty : facet ≠ ""
  other : facet ≠ primaryID

variable {facets : List String}

theorem checkFacets_ok {seen out : List String} (hseen : ∀ f ∈ seen, Facet primaryID f)
    (h : facets.foldlM (checkFacet primaryID) seen = .ok out) :
    (∀ f ∈ out, Facet primaryID f) ∧ out.length = seen.length + facets.length := by
  induction facets generalizing seen with
  | nil =>
    rw [foldlM_nil] at h
    cases h
    exact ⟨hseen, rfl⟩
  | cons facet facets ih =>
    rw [foldlM_cons] at h
    obtain ⟨mid, hmid, h⟩ := bind_eq_ok.1 h
    revert hmid
    fun_cases checkFacet primaryID seen facet
    all_goals rintro ⟨⟩
    rename_i hne hother _
    have hfacet : Facet primaryID (trimSpace facet) :=
      ⟨trimSpace_trimSpace facet, fun hblank => hne (.inl hblank), hother⟩
    obtain ⟨hall, hlen⟩ := ih (forall_mem_append.2 ⟨hseen, forall_mem_singleton.2 hfacet⟩) h
    refine ⟨hall, ?_⟩
    rw [hlen, length_append, length_singleton, length_cons]
    omega

theorem insertFacets_ok (hfacets : ∀ f ∈ facets, Facet primaryID f)
    (hkeyed : Keyed memberAssetID rows)
    (h : facets.foldlM (insertFacet assets primaryID) rows = .ok rows') :
    Keyed memberAssetID rows' ∧
      rows' = rows ++ facets.map fun f => ⟨primaryID, f, .facet⟩ := by
  induction facets generalizing rows with
  | nil =>
    rw [foldlM_nil] at h
    cases h
    exact ⟨hkeyed, by simp⟩
  | cons facet facets ih =>
    rw [foldlM_cons] at h
    obtain ⟨mid, hmid, h⟩ := bind_eq_ok.1 h
    have hfacet := hfacets facet (.head _)
    unfold insertFacet at hmid
    rw [hfacet.trimmed, if_neg (not_or.2 ⟨hfacet.nonempty, hfacet.other⟩)] at hmid
    obtain ⟨hnew, rfl⟩ := insertMember_ok hmid
    obtain ⟨hkeyed', hrows⟩ := ih (fun f hf => hfacets f (.tail _ hf)) (hkeyed.append hnew) h
    refine ⟨hkeyed', ?_⟩
    rw [hrows, append_assoc, map_cons, singleton_append]

theorem orServerError_ok {message : String} {result : Except StoreError (List Member)}
    (h : orServerError message result = .ok rows) : result = .ok rows := by
  cases result with
  | error e => cases h
  | ok rows =>
    cases h
    rfl

variable {primaryAssetID : String} {facetAssetIDs : List String}

theorem checkCreate_ok (h : checkCreate primaryAssetID facetAssetIDs = .ok (primaryID, facets)) :
    trimSpace primaryID = primaryID ∧ facets ≠ [] ∧ ∀ f ∈ facets, Facet primaryID f := by
  revert h
  fun_cases checkCreate primaryAssetID facetAssetIDs
  case case5 hfacets _ _ =>
    intro h
    obtain ⟨out, hout, hpair⟩ := bind_eq_ok.1 h
    obtain ⟨rfl, rfl⟩ := Prod.mk.inj (Except.ok.inj hpair)
    obtain ⟨hall, hlen⟩ := checkFacets_ok (by simp) hout
    refine ⟨trimSpace_trimSpace _, ?_, hall⟩
    intro hnil
    rw [hnil, length_nil, Nat.zero_add] at hlen
    exact hfacets (length_eq_zero_iff.1 hlen.symm)
  all_goals nofun

theorem create_ok {db : DB} (hkeyed : Keyed memberAssetID db.rows)
    (h : handleCreate db primaryAssetID facetAssetIDs = .ok rows') :
    ∃ primaryID facets, facets ≠ [] ∧ primaryID ∉ db.rows.map memberAssetID ∧
      Keyed memberAssetID rows' ∧ rows' = db.rows ++ ⟨primaryID, primaryID, .primary⟩ ::
        facets.map fun f => ⟨primaryID, f, .facet⟩ := by
  obtain ⟨⟨primaryID, facets⟩, hcheck, hstore⟩ := bind_eq_ok.1 h
  obtain ⟨htrimmed, hfacets, hall⟩ := checkCreate_ok hcheck
  have hcreate := orServerError_ok hstore
  unfold createComposite at hcreate
  simp only [htrimmed, if_neg hfacets] at hcreate
  split at hcreate
  · cases hcreate
  obtain ⟨mid, hmid, hrest⟩ := bind_eq_ok.1 hcreate
  obtain ⟨hnew, rfl⟩ := insertMember_ok hmid
  obtain ⟨hkeyed', hrows⟩ := insertFacets_ok hall (hkeyed.append hnew) hrest
  refine ⟨primaryID, facets, hfacets, hnew, hkeyed', ?_⟩
  rw [hrows, append_assoc, singleton_append]

theorem create_consistent {db : DB}
    (hdb : Consistent db.rows) (h : handleCreate db primaryAssetID facetAssetIDs = .ok rows') :
    Consistent rows' := by
  obtain ⟨primaryID, facets, hfacets, hnew, hkeyed, hrows⟩ := create_ok hdb.oneComposite h
  have hcomposite : ∀ r ∈ (⟨primaryID, primaryID, .primary⟩ : Member) ::
      facets.map (fun f => ⟨primaryID, f, .facet⟩), r.compositeID = primaryID :=
    forall_mem_cons.2 ⟨rfl, forall_mem_map.2 fun _ _ => rfl⟩
  have hnamed : ∀ p ∈ rows', p.role = .primary → p.compositeID = p.memberAssetID := by
    rw [hrows]
    exact forall_mem_append.2 ⟨hdb.named,
      forall_mem_cons.2 ⟨fun _ => rfl, forall_mem_map.2 fun _ _ => nofun⟩⟩
  apply Consistent.intro hkeyed hnamed
  · intro r hr
    rw [hrows] at hr ⊢
    rcases mem_append.1 hr with hr | hr
    · exact ⟨_, mem_append_left _ (hdb.primary hr), rfl, rfl⟩
    · exact ⟨_, mem_append_right _ (.head _), (hcomposite r hr).symm, rfl⟩
  intro r hr
  rw [hrows] at hr ⊢
  rw [members, filter_append, length_append]
  rcases mem_append.1 hr with hr | hr
  · have htwo := hdb.twoMembers r hr
    rw [members] at htwo
    omega
  have hall : ((⟨primaryID, primaryID, .primary⟩ : Member) ::
      facets.map fun f => ⟨primaryID, f, .facet⟩).filter (fun q => q.compositeID = r.compositeID) =
      (⟨primaryID, primaryID, .primary⟩ : Member) ::
        facets.map fun f => ⟨primaryID, f, .facet⟩ := by
    apply filter_eq_self.2
    intro q hq
    simp [hcomposite q hq, hcomposite r hr]
  have hlen : 0 < facets.length := length_pos_iff.2 hfacets
  rw [hall, length_cons, length_map]
  omega

variable {c n : String}

def changed (c n : String) (r : Member) : Member :=
  if r.compositeID = c then ⟨n, r.memberAssetID, if r.memberAssetID = n then .primary else .facet⟩
  else r

theorem updates_eq_map (c n : String) (rows : List Member) :
    rename c n (promote c n (demote c rows)) = rows.map (changed c n) := by
  unfold rename promote demote updateWhere
  rw [map_map, map_map]
  apply map_congr_left
  rintro ⟨rc, rm, rr⟩ _
  by_cases hc : rc = c
  · by_cases hm : rm = n
    all_goals cases rr <;> simp [changed, hc, hm]
  · simp [changed, hc]

theorem changePrimary_ok (h : changePrimary c n rows = .ok rows') :
    (∃ r ∈ rows, r.compositeID = trimSpace c ∧ r.memberAssetID = trimSpace n) ∧
      rows' = rows.map (changed (trimSpace c) (trimSpace n)) := by
  unfold changePrimary at h
  simp only at h
  split at h
  next hany =>
    cases h
    refine ⟨?_, updates_eq_map _ _ _⟩
    obtain ⟨r, hr, hmatch⟩ := any_eq_true.1 hany
    exact ⟨r, hr, by simpa using hmatch⟩
  · cases h

variable {r : Member}

theorem changed_of_ne (h : r.compositeID ≠ c) : changed c n r = r := if_neg h

theorem changed_of_eq (h : r.compositeID = c) :
    changed c n r = ⟨n, r.memberAssetID, if r.memberAssetID = n then .primary else .facet⟩ :=
  if_pos h

/-- The new id is a member of the composite, so no other composite has it. -/
theorem changed_composite_iff (hrows : Consistent rows) {q : Member} (hq : q ∈ rows)
    (hqc : q.compositeID = c) (hqn : q.memberAssetID = n) {s : Member} (hr : r ∈ rows)
    (hs : s ∈ rows) :
    (changed c n s).compositeID = (changed c n r).compositeID ↔ s.compositeID = r.compositeID := by
  have hfree : ∀ x ∈ rows, x.compositeID = n → x.compositeID = c := by
    intro x hx hxn
    rw [← hqc]
    exact (hrows.member_of_own hq hx (hxn.trans hqn.symm)).symm
  by_cases hsc : s.compositeID = c
  · by_cases hrc : r.compositeID = c
    · simp [changed_of_eq hsc, changed_of_eq hrc, hsc, hrc]
    rw [changed_of_eq hsc, changed_of_ne hrc]
    exact iff_of_false (fun heq => hrc (hfree r hr heq.symm)) fun heq => hrc (heq.symm.trans hsc)
  · by_cases hrc : r.compositeID = c
    · rw [changed_of_ne hsc, changed_of_eq hrc]
      exact iff_of_false (fun heq => hsc (hfree s hs heq)) fun heq => hsc (heq.trans hrc)
    · rw [changed_of_ne hsc, changed_of_ne hrc]

theorem changePrimary_consistent (hrows : Consistent rows) (h : changePrimary c n rows = .ok rows') :
    Consistent rows' := by
  obtain ⟨⟨q, hq, hqc, hqn⟩, rfl⟩ := changePrimary_ok h
  generalize trimSpace c = c at hqc ⊢
  generalize trimSpace n = n at hqn ⊢
  have hmember : ∀ r : Member, (changed c n r).memberAssetID = r.memberAssetID := by
    intro r
    unfold changed
    split <;> rfl
  apply Consistent.intro
  · exact hrows.oneComposite.map fun r _ => hmember r
  · intro p hp hrole
    obtain ⟨r, hr, rfl⟩ := mem_map.1 hp
    by_cases hc : r.compositeID = c
    · rw [changed_of_eq hc] at hrole ⊢
      by_cases hn : r.memberAssetID = n
      · exact hn.symm
      · simp [hn] at hrole
    · rw [changed_of_ne hc] at hrole ⊢
      exact hrows.named r hr hrole
  · intro p hp
    obtain ⟨r, hr, rfl⟩ := mem_map.1 hp
    by_cases hc : r.compositeID = c
    · refine ⟨changed c n q, mem_map_of_mem hq, ?_, ?_⟩
      · rw [changed_of_eq hqc, changed_of_eq hc]
      · rw [changed_of_eq hqc, if_pos hqn]
    have hown : changed c n ⟨r.compositeID, r.compositeID, .primary⟩ =
        ⟨r.compositeID, r.compositeID, .primary⟩ := changed_of_ne hc
    refine ⟨_, mem_map_of_mem (hrows.primary hr), ?_, ?_⟩
    · rw [hown, changed_of_ne hc]
    · rw [hown]
  · intro p hp
    obtain ⟨r, hr, rfl⟩ := mem_map.1 hp
    have hsame : (members (rows.map (changed c n)) (changed c n r).compositeID).length =
        (members rows r.compositeID).length := by
      unfold members
      rw [filter_map, length_map]
      congr 1
      apply filter_congr
      intro s hs
      simpa using changed_composite_iff hrows hq hqc hqn hr hs
    rw [hsame]
    exact hrows.twoMembers r hr

variable {m : String}

theorem members_deleteWhere {p : Member → Bool} (hp : ∀ s, s.compositeID = c → p s = false) :
    members (deleteWhere p rows) c = members rows c := by
  unfold members deleteWhere
  rw [filter_filter]
  apply filter_congr
  intro s _
  by_cases hs : s.compositeID = c
  · simp [hs, hp s hs]
  · simp [hs]

theorem members_removeMember :
    members (removeMember c m rows) c = (members rows c).filter fun r => r.memberAssetID ≠ m := by
  unfold members removeMember deleteWhere
  rw [filter_filter, filter_filter]
  apply filter_congr
  intro r _
  by_cases hc : r.compositeID = c
  all_goals simp [hc]

theorem length_members_removeMember (hkeyed : Keyed memberAssetID rows) (hr : r ∈ rows) :
    (members (removeMember r.compositeID r.memberAssetID rows) r.compositeID).length + 1 =
      (members rows r.compositeID).length := by
  have hnodup : ((members rows r.compositeID).map memberAssetID).Nodup := hkeyed.filter _
  have hmem : r.memberAssetID ∈ (members rows r.compositeID).map memberAssetID :=
    mem_map_of_mem (mem_members.2 ⟨hr, rfl⟩)
  have herase : ((members rows r.compositeID).filter
      fun q => q.memberAssetID ≠ r.memberAssetID).map memberAssetID =
      ((members rows r.compositeID).map memberAssetID).erase r.memberAssetID := by
    rw [hnodup.erase_eq_filter, filter_map]
    congr 1
    apply filter_congr
    intro q _
    by_cases hq : q.memberAssetID = r.memberAssetID
    all_goals simp [hq]
  have hlen := congrArg List.length herase
  have hpos := length_pos_of_mem hmem
  rw [length_map, length_erase_of_mem hmem, length_map] at hlen
  rw [length_map] at hpos
  rw [members_removeMember, hlen]
  omega

theorem dissolve_removeMember : dissolve c (removeMember c m rows) = dissolve c rows := by
  unfold dissolve removeMember deleteWhere
  rw [filter_filter]
  apply filter_congr
  intro r _
  by_cases hc : r.compositeID = c
  all_goals simp [hc]

theorem dissolve_consistent (h : Consistent rows) (c : String) : Consistent (dissolve c rows) := by
  have hmem : ∀ q, q ∈ dissolve c rows ↔ q ∈ rows ∧ q.compositeID ≠ c := by
    intro q
    simp [dissolve, mem_deleteWhere]
  have hkeyed : Keyed memberAssetID (dissolve c rows) := h.oneComposite.filter _
  apply Consistent.intro hkeyed
  · intro p hp hrole
    exact h.named p ((hmem p).1 hp).1 hrole
  · intro q hq
    obtain ⟨hq, hc⟩ := (hmem q).1 hq
    exact ⟨_, (hmem _).2 ⟨h.primary hq, hc⟩, rfl, rfl⟩
  intro q hq
  obtain ⟨hq, hc⟩ := (hmem q).1 hq
  have hsame : members (dissolve c rows) q.compositeID = members rows q.compositeID :=
    members_deleteWhere fun s hs => by simp [hs, hc]
  rw [hsame]
  exact h.twoMembers q hq

theorem mem_removeMember {q : Member} :
    q ∈ removeMember c m rows ↔ q ∈ rows ∧ (q.compositeID = c → q.memberAssetID ≠ m) := by
  simp [removeMember, mem_deleteWhere]

theorem removeFacet_consistent (h : Consistent rows) (hr : r ∈ rows) (hrole : r.role = .facet) :
    let rest := removeMember r.compositeID r.memberAssetID rows
    2 ≤ (members rest r.compositeID).length → Consistent rest := by
  intro rest hrest
  have hprimary : r.compositeID ≠ r.memberAssetID := by
    intro heq
    have hsame := h.oneComposite.eq hr (h.primary hr) heq.symm
    rw [hsame] at hrole
    cases hrole
  have hkeyed : Keyed memberAssetID rest := h.oneComposite.filter _
  apply Consistent.intro hkeyed
  · intro p hp hrole
    exact h.named p (mem_removeMember.1 hp).1 hrole
  · intro q hq
    refine ⟨_, mem_removeMember.2 ⟨h.primary (mem_removeMember.1 hq).1, ?_⟩, rfl, rfl⟩
    intro heq
    rw [show q.compositeID = r.compositeID from heq]
    exact hprimary
  · intro q hq
    by_cases hc : q.compositeID = r.compositeID
    · rw [hc]
      exact hrest
    have hsame : members rest q.compositeID = members rows q.compositeID :=
      members_deleteWhere fun s hs => by simp [hs, hc]
    rw [hsame]
    exact h.twoMembers q (mem_removeMember.1 hq).1

theorem removePrimary_inconsistent (h : Consistent rows) (hr : r ∈ rows) (hrole : r.role = .primary) :
    let rest := removeMember r.compositeID r.memberAssetID rows
    2 ≤ (members rest r.compositeID).length → ¬ Consistent rest := by
  intro rest hrest hafter
  obtain ⟨q, hq⟩ := exists_mem_of_length_pos (Nat.lt_of_lt_of_le Nat.zero_lt_two hrest)
  obtain ⟨hq, hqc⟩ := mem_members.1 hq
  have hprimary := hafter.primary hq
  rw [hqc] at hprimary
  exact (mem_removeMember.1 hprimary).2 rfl (h.named r hr hrole)

theorem detachMember_ok (h : detachMember c m rows = .ok rows') :
    ∃ r ∈ rows, r.compositeID = trimSpace c ∧ r.memberAssetID = trimSpace m ∧
      let rest := removeMember r.compositeID r.memberAssetID rows
      rows' = if (members rest r.compositeID).length ≤ 1 then dissolve r.compositeID rows
        else rest := by
  unfold detachMember at h
  simp only at h
  split at h
  next hany =>
    obtain ⟨r, hr, hmatch⟩ := any_eq_true.1 hany
    obtain ⟨hc, hm⟩ : r.compositeID = trimSpace c ∧ r.memberAssetID = trimSpace m := by
      simpa using hmatch
    refine ⟨r, hr, hc, hm, ?_⟩
    rw [← hc, ← hm] at h
    split at h
    next hone =>
      cases h
      exact dissolve_removeMember.trans (if_pos hone).symm
    next hmore =>
      cases h
      exact (if_neg hmore).symm
  · cases h

theorem detach_consistent_iff (hrows : Consistent rows) (h : detachMember c m rows = .ok rows') :
    Consistent rows' ↔ ∀ r ∈ rows, r.compositeID = trimSpace c → r.memberAssetID = trimSpace m →
      r.role = .primary → (members rows (trimSpace c)).length ≤ 2 := by
  obtain ⟨r, hr, hc, hm, rfl⟩ := detachMember_ok h
  have hlen := length_members_removeMember hrows.oneComposite hr
  have honly : ∀ q ∈ rows, q.memberAssetID = trimSpace m → q = r := fun q hq hqm =>
    hrows.oneComposite.eq hq hr (hqm.trans hm.symm)
  rw [← hc]
  split
  next hone =>
    have hgone := dissolve_consistent hrows r.compositeID
    constructor
    · intro _ q _ _ _ _
      omega
    · exact fun _ => hgone
  next hmore =>
    cases hrole : r.role with
    | primary =>
      constructor
      · intro hafter
        exact absurd hafter (removePrimary_inconsistent hrows hr hrole (by omega))
      · intro hcond
        have hsmall := hcond r hr rfl hm hrole
        omega
    | facet =>
      constructor
      · intro _ q hq _ hqm hqrole
        rw [honly q hq hqm, hrole] at hqrole
        cases hqrole
      · exact fun _ => removeFacet_consistent hrows hr hrole (by omega)

end

/-- An accepted detach does not name the primary of a composite of three or more. -/
def PrimaryStays (db : DB) : Op → Prop
  | .detach compositeID memberAssetID =>
    trimSpace compositeID ≠ "" → trimSpace memberAssetID ≠ "" →
      ∀ r ∈ db.rows, r.compositeID = trimSpace compositeID →
        r.memberAssetID = trimSpace memberAssetID → r.role = .primary →
        (members db.rows (trimSpace compositeID)).length ≤ 2
  | .create _ _ | .changePrimary _ _ => True

variable {db : DB} {rows : List Member} {op : Op}

theorem step_of_ok (h : handle db op = .ok rows) : (step db op).rows = rows := by
  rw [step, h]

variable {e : HttpError}

theorem step_of_error (h : handle db op = .error e) :
    step db op = db := by
  rw [step, h]

variable {c : String}

theorem handleChangePrimary_ok {n : String} (h : handleChangePrimary db c n = .ok rows) :
    changePrimary (trimSpace c) (trimSpace n) db.rows = .ok rows := by
  obtain ⟨-, -, h⟩ := bind_eq_ok.1 h
  split at h
  · cases h
  · exact orServerError_ok h

theorem handleDetach_ok {m : String} (h : handleDetach db c m = .ok rows) :
    trimSpace c ≠ "" ∧ trimSpace m ≠ "" ∧
      detachMember (trimSpace c) (trimSpace m) db.rows = .ok rows := by
  unfold handleDetach at h
  split at h
  · cases h
  next hc =>
    split at h
    · cases h
    next hm =>
      obtain ⟨-, -, h⟩ := bind_eq_ok.1 h
      exact ⟨hc, hm, orServerError_ok h⟩

theorem handleDetach_error {m : String} (h : handleDetach db c m = .error e) :
    trimSpace c = "" ∨ trimSpace m = "" ∨
      ∀ r ∈ db.rows, r.compositeID = trimSpace c → r.memberAssetID ≠ trimSpace m := by
  by_cases hc : trimSpace c = ""
  · exact .inl hc
  by_cases hm : trimSpace m = ""
  · exact .inr (.inl hm)
  refine .inr (.inr ?_)
  intro r hr hrc hrm
  have hcomposite : requireComposite db.rows c = .ok () := by
    unfold requireComposite
    rw [if_neg hc, if_neg]
    exact ne_nil_of_mem (mem_members.2 ⟨hr, hrc⟩)
  have hany : (db.rows.any fun r => r.compositeID = trimSpace c &&
      r.memberAssetID = trimSpace m) = true :=
    any_eq_true.2 ⟨r, hr, by simp [hrc, hrm]⟩
  unfold handleDetach at h
  rw [if_neg hc, if_neg hm, hcomposite, ok_bind] at h
  unfold detachMember at h
  simp only [trimSpace_trimSpace, hany, if_true] at h
  split at h <;> cases h

theorem step_consistent_iff (h : Consistent db.rows) (op : Op) :
    Consistent (step db op).rows ↔ PrimaryStays db op := by
  cases hop : handle db op with
  | error e =>
    rw [step_of_error hop]
    cases op with
    | create primaryAssetID facetAssetIDs | changePrimary compositeID primaryAssetID => exact ⟨fun _ => trivial, fun _ => h⟩
    | detach compositeID memberAssetID =>
      refine ⟨?_, fun _ => h⟩
      intro _ hc hm r hr hrc hrm _
      rcases handleDetach_error hop with hblank | hblank | hnone
      · exact absurd hblank hc
      · exact absurd hblank hm
      · exact absurd hrm (hnone r hr hrc)
  | ok rows =>
    rw [step_of_ok hop]
    cases op with
    | create primaryAssetID facetAssetIDs => exact ⟨fun _ => trivial, fun _ => create_consistent h hop⟩
    | changePrimary compositeID primaryAssetID =>
      exact ⟨fun _ => trivial, fun _ => changePrimary_consistent h (handleChangePrimary_ok hop)⟩
    | detach compositeID memberAssetID =>
      obtain ⟨hc, hm, hdetach⟩ := handleDetach_ok hop
      have hiff := detach_consistent_iff h hdetach
      rw [trimSpace_trimSpace, trimSpace_trimSpace] at hiff
      rw [hiff]
      exact ⟨fun hcond _ _ => hcond, fun hcond => hcond hc hm⟩

theorem empty_consistent : Consistent [] := by
  have hkeyed : Keyed memberAssetID [] := nodup_nil
  apply Consistent.intro hkeyed <;> simp

/-- Over every set of assets and every sequence of requests: the composites are consistent
in every state iff no accepted detach takes the primary of three or more members. -/
theorem composites_consistent_iff (assets : List String) (ops : List Op) :
    AllStates step (fun db => Consistent db.rows) ⟨assets, []⟩ ops ↔
      StepsMeet step PrimaryStays ⟨assets, []⟩ ops :=
  allStates_iff_stepsMeet (P := fun db : DB => Consistent db.rows)
    (fun _ op h => step_consistent_iff h op) empty_consistent

def detachPrimaryRun : List Op := [.create "p" ["a", "b"], .detach "p" "p"]

theorem composite_without_primary :
    ¬ Consistent (run step ⟨["p", "a", "b"], []⟩ detachPrimaryRun).rows := by
  intro h
  have hrows : (run step ⟨["p", "a", "b"], []⟩ detachPrimaryRun).rows =
      [⟨"p", "a", .facet⟩, ⟨"p", "b", .facet⟩] := by decide +kernel
  rw [hrows] at h
  have hprimary := h.primary (.head _)
  simp at hprimary

end LabTether.Composites
