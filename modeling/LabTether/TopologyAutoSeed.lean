import LabTether.TopologyRows

/-!
The auto-seed beside the rows that exist. Its zones and members are always stored: the
members of a seed are known assets, none of them twice. So only the connections of the seed
can make it fail.
-/
namespace LabTether.Topology

open Table Transaction Grouping List ZoneMember EdgeInfo

section

variable {s s' : State} {topologyID : ℕ}

theorem createZone_root (data : ZoneData) (h : s.layout = some topologyID) :
    ∃ s', createZone topologyID none data s = .ok s' ∧
      s'.zones = s.zones ++ [⟨s.nextID, topologyID, none, data⟩] := by
  unfold createZone
  rw [if_pos ⟨h, rfl⟩]
  exact ⟨_, rfl, rfl⟩

theorem hasZone_eq_true {id : ℕ} : hasZone s id = true ↔ id ∈ s.zones.map Zone.id := by
  simp [hasZone]

def KnownZones (s : State) (ids : List (String × ℕ)) : Prop := ∀ p ∈ ids, hasZone s p.2 = true

theorem createSeedZones_ok (zones : List SeedZone) {ids : List (String × ℕ)}
    (h : s.layout = some topologyID) (hids : KnownZones s ids) :
    ∃ ids' s', createSeedZones topologyID zones ids s = .ok (ids', s') ∧ ZoneWrite s s' ∧
      KnownZones s' ids' ∧ ids ⊆ ids' ∧ ∀ z ∈ zones, z.id ∈ ids'.map Prod.fst := by
  induction zones generalizing s ids with
  | nil => exact ⟨ids, s, rfl, ZoneWrite.refl s, hids, List.Subset.refl _, nofun⟩
  | cons z zones ih =>
    obtain ⟨mid, hcreate, hmid⟩ := createZone_root z.data h
    have hsame := createZone_zoneWrite hcreate
    have hknown : KnownZones mid ((z.id, s.nextID) :: ids) := by
      intro p hp
      rw [hasZone_eq_true, hmid, map_append]
      rcases mem_cons.1 hp with rfl | hp
      · exact mem_append_right _ (.head _)
      · exact mem_append_left _ (hasZone_eq_true.1 (hids p hp))
    obtain ⟨ids', s', hrest, hsame', hknown', hsub, hzones⟩ := ih (hsame.layout.trans h) hknown
    refine ⟨ids', s', ?_, hsame.trans hsame', hknown', ?_, ?_⟩
    · unfold createSeedZones
      rw [hcreate]
      exact hrest
    · exact fun p hp => hsub (.tail _ hp)
    · exact forall_mem_cons.2 ⟨mem_map.2 ⟨_, hsub (.head _), rfl⟩, hzones⟩

end

section

variable {s : State} {ids : List (String × ℕ)}

theorem lookup_isSome_of_mem {key : String} (h : key ∈ ids.map Prod.fst) :
    ∃ id, ids.lookup key = some id ∧ (key, id) ∈ ids := by
  cases hid : ids.lookup key with
  | none =>
    obtain ⟨p, hp, rfl⟩ := mem_map.1 h
    simpa using lookup_eq_none_iff.1 hid p hp
  | some id =>
    obtain ⟨before, after, hsplit, -⟩ := lookup_eq_some_iff.1 hid
    exact ⟨id, rfl, by simp [hsplit]⟩

theorem rewriteMembers_ok {members : List (ZoneMember String)} (hids : KnownZones s ids)
    (hmembers : ∀ m ∈ members, m.zoneID ∈ ids.map Prod.fst) :
    ∃ members', members.mapM (rewriteMember ids) = some members' ∧
      members'.map assetID = members.map assetID ∧
      ∀ m ∈ members', hasZone s m.zoneID = true := by
  induction members with
  | nil => exact ⟨[], rfl, rfl, nofun⟩
  | cons m members ih =>
    obtain ⟨id, hid, hmem⟩ := lookup_isSome_of_mem (hmembers m (.head _))
    obtain ⟨members', hrest, hassets, hzones⟩ := ih fun n hn => hmembers n (.tail _ hn)
    refine ⟨⟨id, m.assetID, m.position, m.sortOrder⟩ :: members', ?_, ?_, ?_⟩
    · simp [mapM_cons, rewriteMember, hid, hrest]
    · simp [hassets]
    · exact forall_mem_cons.2 ⟨hids _ hmem, hzones⟩

end

section

variable {s : State} {zoneID : ℕ} {members : List (ZoneMember ℕ)}

theorem insertMembers_ok (hzone : hasZone s zoneID = true)
    (hassets : ∀ m ∈ members, m.assetID ∈ s.inventory.assetIDs)
    (hnodup : (members.map assetID).Nodup)
    (hfree : ∀ m ∈ members, m.assetID ∉ s.members.map assetID) :
    ∃ s', members.foldlM (insertMember zoneID) s = .ok s' := by
  induction members generalizing s with
  | nil => exact ⟨s, rfl⟩
  | cons m members ih =>
    obtain ⟨hhead, htail⟩ := nodup_cons.1 hnodup
    have hinsert : insertMember zoneID s m =
        .ok { s with members := s.members ++ [{ m with zoneID := zoneID }] } := by
      unfold insertMember
      rw [if_pos ⟨hzone, hassets m (.head _), hfree m (.head _)⟩]
    have hfree' : ∀ n ∈ members, n.assetID ∉
        (s.members ++ [{ m with zoneID := zoneID }]).map assetID := by
      intro n hn hmem
      rw [map_append] at hmem
      rcases mem_append.1 hmem with hmem | hmem
      · exact hfree n (.tail _ hn) hmem
      · have heq : n.assetID = m.assetID := mem_singleton.1 hmem
        exact hhead (heq ▸ mem_map_of_mem hn)
    rw [foldlM_cons, hinsert, ok_bind]
    exact ih hzone (fun n hn => hassets n (.tail _ hn)) htail hfree'

theorem setMembers_ok (hzone : hasZone s zoneID = true)
    (hassets : ∀ m ∈ members, m.assetID ∈ s.inventory.assetIDs)
    (hnodup : (members.map assetID).Nodup) :
    ∃ s', setMembers zoneID members s = .ok s' := by
  apply insertMembers_ok ?_ ?_ hnodup
  · intro m hm hmem
    obtain ⟨old, hold, heq⟩ := mem_map.1 hmem
    have hkept := (mem_deleteWhere.1 (mem_deleteWhere.1 hold).1).2
    have hlisted : old.assetID ∈ members.map assetID := heq ▸ mem_map_of_mem hm
    simp [hlisted] at hkept
  · exact hzone
  · exact hassets

theorem setSeedMembers_ok {buckets : List (Bucket ℕ Unit (ZoneMember ℕ))}
    (hbuckets : ∀ b ∈ buckets, hasZone s b.key = true ∧
      (∀ m ∈ b.items, m.assetID ∈ s.inventory.assetIDs) ∧
      (b.items.map assetID).Nodup) :
    ∃ s', setSeedMembers buckets s = .ok s' ∧ ZoneWrite s s' := by
  induction buckets generalizing s with
  | nil => exact ⟨s, rfl, ZoneWrite.refl s⟩
  | cons b buckets ih =>
    obtain ⟨hzone, hassets, hnodup⟩ := hbuckets b (.head _)
    obtain ⟨mid, hmid⟩ := setMembers_ok hzone hassets hnodup
    obtain ⟨hsame, hzones⟩ := setMembers_zoneWrite hmid
    obtain ⟨s', hrest, hsame'⟩ := ih (s := mid) (by
      intro c hc
      have hc := hbuckets c (.tail _ hc)
      rw [hasZone_eq_true] at hc ⊢
      rw [hzones, hsame.inventory]
      exact hc)
    refine ⟨s', ?_, hsame.trans hsame'⟩
    unfold setSeedMembers
    rw [hmid]
    exact hrest

theorem membersByZone_contents (members : List (ZoneMember ℕ)) :
    (contents (membersByZone members)).Perm members := by
  have hempty : (keys ([] : List (Bucket ℕ Unit (ZoneMember ℕ)))).Nodup := nodup_nil
  have hperm := (sortPass_spec (fun m => some (m.zoneID, fun _ => ())) members hempty).2
  simpa [membersByZone, taken, contents] using hperm

theorem membersByZone_key {b : Bucket ℕ Unit (ZoneMember ℕ)} (hb : b ∈ membersByZone members) :
    ∃ m ∈ members, m.zoneID = b.key := by
  have hkey : b.key ∈ keys (membersByZone members) := mem_map_of_mem hb
  rcases mem_keys_sortPass hkey with hnil | ⟨m, hm, entry, hentry, heq⟩
  · exact absurd hnil not_mem_nil
  · cases hentry
    exact ⟨m, hm, heq⟩

end

section

variable {s s' : State} {topologyID : ℕ}

theorem seedInput_assetIDs (topologyID : ℕ) (inv : Inventory) :
    (seedInput topologyID inv).assets.map AssetInfo.id = inv.assetIDs := map_map ..

theorem membersByZone_ready {members : List (ZoneMember ℕ)}
    (hassets : members.map assetID =
      (seed (seedInput topologyID s.inventory)).members.map assetID)
    (hzones : ∀ m ∈ members, hasZone s m.zoneID = true) :
    ∀ b ∈ membersByZone members, hasZone s b.key = true ∧
      (∀ m ∈ b.items, m.assetID ∈ s.inventory.assetIDs) ∧
      (b.items.map assetID).Nodup := by
  intro b hb
  have hperm := membersByZone_contents members
  have hsub := items_sublist hb
  refine ⟨?_, ?_, ?_⟩
  · obtain ⟨m, hm, heq⟩ := membersByZone_key hb
    rw [← heq]
    exact hzones m hm
  · intro m hm
    have hmem : m.assetID ∈ members.map assetID := mem_map_of_mem (hperm.subset (hsub.subset hm))
    rw [hassets] at hmem
    obtain ⟨seeded, hseeded, heq⟩ := mem_map.1 hmem
    rw [← heq, ← seedInput_assetIDs topologyID]
    exact seed_members_known hseeded
  · have hnodup : ((seed (seedInput topologyID s.inventory)).members.map
        assetID).Nodup := by
      apply seed_members_nodup
      rw [seedInput_assetIDs]
      exact s.inventory.assets_distinct
    rw [← hassets] at hnodup
    exact ((hperm.map _).nodup_iff.2 hnodup).sublist (hsub.map _)

theorem persistSeed_eq (h : s.layout = some topologyID) :
    ∃ s', ZoneWrite s s' ∧ persistSeed topologyID (seed (seedInput topologyID s.inventory)) s =
      createSeedConnections (seed (seedInput topologyID s.inventory)).connections s' := by
  have hnone : KnownZones s [] := fun p hp => absurd hp not_mem_nil
  obtain ⟨ids, mid, hzones, hsame, hknown, -, hids⟩ :=
    createSeedZones_ok (seed (seedInput topologyID s.inventory)).zones h hnone
  obtain ⟨members, hrewrite, hassets, hmembers⟩ := rewriteMembers_ok hknown (by
    intro m hm
    obtain ⟨z, hz, heq⟩ := mem_map.1 (seed_members_zone hm)
    exact heq ▸ hids z hz)
  rw [← hsame.inventory] at hassets
  obtain ⟨s', hset, hsame'⟩ := setSeedMembers_ok (membersByZone_ready hassets hmembers)
  refine ⟨s', hsame.trans hsame', ?_⟩
  unfold persistSeed
  rw [hzones, ok_bind]
  simp only [hrewrite]
  rw [hset, ok_bind]

/-- The seeded connections end up in the table, or the auto-seed stops at one of them. -/
theorem createSeedConnections_cases (reqs : List NewConnection) (s : State) :
    (∃ rows, createAll (connectionLinked s) s.nextID reqs s.connections = .ok rows ∧
        createSeedConnections reqs s =
          .ok { s with connections := rows, nextID := s.nextID + reqs.length }) ∨
      ∃ rows, createAll (connectionLinked s) s.nextID reqs s.connections = .error rows ∧
        createSeedConnections reqs s =
          .error { s with connections := rows, nextID := s.nextID + reqs.length } := by
  unfold createSeedConnections
  split
  next rows hrows => exact .inl ⟨rows, hrows, rfl⟩
  next rows hrows => exact .inr ⟨rows, hrows, rfl⟩

theorem topologyAutoSeed_owned (h : Owned s) (hlayout : s.layout = some topologyID) :
    Owned (topologyAutoSeed topologyID s) := by
  obtain ⟨mid, hmid, hpersist⟩ := persistSeed_eq hlayout
  have h' := h.zoneWrite hmid
  obtain ⟨hok, herror⟩ := createAll_topologies mid.nextID
    (seed (seedInput topologyID s.inventory)).connections h'.connections
    (fun _ => connectionLinked_layout)
  unfold topologyAutoSeed
  split
  · exact h
  rw [hpersist]
  rcases createSeedConnections_cases _ mid with ⟨rows, hrows, heq⟩ | ⟨rows, hrows, heq⟩
  · rw [heq]
    exact h'.withConnections (hok rows hrows) _
  · rw [heq]
    exact (h'.withConnections (herror rows hrows) _).clearTopology topologyID

theorem EdgeInfo.key_injective (topologyID : ℕ) : Function.Injective (key topologyID) := by
  intro e e' h
  cases e
  cases e'
  simpa [key] using h

theorem seed_connection_keys (topologyID : ℕ) (inv : Inventory) :
    (seed (seedInput topologyID inv)).connections.map NewConnection.key =
      (inv.edges.filter importable).map (key topologyID) := by
  rw [seed_connections, map_map]
  rfl

theorem seed_connections_nodup (topologyID : ℕ) (inv : Inventory) :
    ((seed (seedInput topologyID inv)).connections.map NewConnection.key).Nodup := by
  rw [seed_connection_keys]
  exact (inv.edges_distinct.filter _).map (key_injective topologyID)

theorem seed_connections_linked (h : s.layout = some topologyID) :
    ∀ req ∈ (seed (seedInput topologyID s.inventory)).connections,
      connectionLinked s req = true := by
  intro req hreq
  rw [seed_connections] at hreq
  obtain ⟨e, he, rfl⟩ := mem_map.1 hreq
  obtain ⟨hsource, htarget⟩ := s.inventory.edges_linked e (mem_of_mem_filter he)
  have hlayout : s.layout = some (seedInput topologyID s.inventory).topologyID := h
  simp [connectionLinked, key, Inventory.assetIDs, hlayout, hsource, htarget]

/-- How an auto-seed ends: its connections are all stored beside the old rows, or one of them
fails and the canvas is empty. -/
theorem topologyAutoSeed_outcome (h : Owned s) (hlayout : s.layout = some topologyID)
    (hassets : s.inventory.assets ≠ []) :
    let reqs := (seed (seedInput topologyID s.inventory)).connections
    let s' := topologyAutoSeed topologyID s
    ∃ linked next, (∀ req ∈ reqs, linked req = true) ∧
      ((∃ rows, createAll linked next reqs s.connections = .ok rows ∧
          s'.connections = rows ∧ s'.dismissed = s.dismissed) ∨
        ∃ rows, createAll linked next reqs s.connections = .error rows ∧
          s'.connections = [] ∧ s'.dismissed = []) := by
  obtain ⟨mid, hmid, hpersist⟩ := persistSeed_eq hlayout
  have h' := h.zoneWrite hmid
  have hlayout' : mid.layout = some topologyID := hmid.layout.trans hlayout
  have hlinked := seed_connections_linked hlayout'
  rw [hmid.inventory] at hlinked
  refine ⟨connectionLinked mid, mid.nextID, hlinked, ?_⟩
  unfold topologyAutoSeed
  rw [if_neg hassets, hpersist, ← hmid.connections, ← hmid.dismissed]
  rcases createSeedConnections_cases _ mid with ⟨rows, hrows, heq⟩ | ⟨rows, hrows, heq⟩
  · rw [heq]
    exact .inl ⟨rows, hrows, rfl, rfl⟩
  rw [heq]
  have htopologies := (createAll_topologies mid.nextID _ h'.connections
    (fun _ => connectionLinked_layout)).2 rows hrows
  exact .inr ⟨rows, hrows, (h'.withConnections htopologies _).clearTopology_empty hlayout'⟩

end

end LabTether.Topology
