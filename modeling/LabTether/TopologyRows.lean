import LabTether.TopologyRequests
import LabTether.Transition

/-!
What the requests do to the rows a user makes. Writes to zones and members leave the
connections and dismissals alone, and zones, connections and dismissals belong to the one
layout.
-/
namespace LabTether.Topology

open Table Transaction List

section

variable {s s' : State}

/-- What a write to zones and members can do: the other rows stay, and a zone belongs to the
layout or to the topology of an older one. -/
structure ZoneWrite (s s' : State) : Prop where
  inventory : s'.inventory = s.inventory
  layout : s'.layout = s.layout
  zones : ∀ z ∈ s'.zones, s.layout = some z.topologyID ∨ z.topologyID ∈ s.zones.map Zone.topologyID
  connections : s'.connections = s.connections
  dismissed : s'.dismissed = s.dismissed

theorem ZoneWrite.of_zones (h : s'.zones = s.zones) (inventory : s'.inventory = s.inventory)
    (layout : s'.layout = s.layout) (connections : s'.connections = s.connections)
    (dismissed : s'.dismissed = s.dismissed) : ZoneWrite s s' :=
  ⟨inventory, layout, fun _ hz => .inr (mem_map_of_mem (h ▸ hz)), connections, dismissed⟩

theorem ZoneWrite.refl (s : State) : ZoneWrite s s := .of_zones rfl rfl rfl rfl rfl

theorem ZoneWrite.trans {s'' : State} (h : ZoneWrite s s') (h' : ZoneWrite s' s'') :
    ZoneWrite s s'' where
  inventory := h'.inventory.trans h.inventory
  layout := h'.layout.trans h.layout
  zones := by
    intro z hz
    rcases h'.zones z hz with hlayout | hold
    · exact .inl (h.layout.symm.trans hlayout)
    · obtain ⟨y, hy, heq⟩ := mem_map.1 hold
      rw [← heq]
      exact h.zones y hy
  connections := h'.connections.trans h.connections
  dismissed := h'.dismissed.trans h.dismissed

theorem mem_topologies_updateWhere {zones : List Zone} {p : Zone → Bool} {f : Zone → Zone}
    {z : Zone} (hz : z ∈ updateWhere p f zones) (hf : ∀ z, (f z).topologyID = z.topologyID) :
    z.topologyID ∈ zones.map Zone.topologyID := by
  obtain ⟨old, hold, rfl⟩ := mem_updateWhere.1 hz
  refine mem_map.2 ⟨old, hold, ?_⟩
  split
  · exact (hf old).symm
  · rfl

variable {parentZoneID : Option ℕ}

theorem createZone_zoneWrite {topologyID : ℕ} {data : ZoneData}
    (h : createZone topologyID parentZoneID data s = .ok s') : ZoneWrite s s' := by
  unfold createZone at h
  split at h
  next hcond =>
    cases h
    refine ⟨rfl, rfl, forall_mem_append.2 ⟨fun z hz => ?_, ?_⟩, rfl, rfl⟩
    · exact .inr (mem_map_of_mem hz)
    · exact forall_mem_singleton.2 (.inl hcond.1)
  next => cases h

theorem writeZone_zoneWrite {id : ℕ} {f : ZoneData → ZoneData}
    (h : writeZone id parentZoneID f s = .ok s') : ZoneWrite s s' := by
  revert h
  fun_cases writeZone id parentZoneID f s
  all_goals rintro ⟨⟩
  refine ⟨rfl, rfl, ?_, rfl, rfl⟩
  intro z hz
  exact .inr (mem_topologies_updateWhere hz fun _ => rfl)

theorem reorderZones_zoneWrite {updates : List ZoneReorder} (h : reorderZones updates s = .ok s') :
    ZoneWrite s s' := by
  apply foldlM_invariant (ZoneWrite s) ?_ (ZoneWrite.refl s) h
  intro mid u next _ hmid hnext
  exact hmid.trans (writeZone_zoneWrite hnext)

theorem deleteZone_zoneWrite {id : ℕ} (h : deleteZone id s = .ok s') : ZoneWrite s s' := by
  unfold deleteZone at h
  split at h
  · cases h
  cases h
  refine ⟨rfl, rfl, ?_, rfl, rfl⟩
  intro z hz
  obtain ⟨y, hy, heq⟩ := mem_map.1 (mem_topologies_updateWhere hz fun _ => rfl)
  rw [← heq]
  exact .inr (mem_topologies_updateWhere (mem_deleteWhere.1 hy).1 fun _ => rfl)

theorem insertMember_zoneWrite {zoneID : ℕ} {m : ZoneMember ℕ}
    (h : insertMember zoneID s m = .ok s') :
    ZoneWrite s s' ∧ s'.zones = s.zones := by
  unfold insertMember at h
  split at h
  · cases h
    exact ⟨.of_zones rfl rfl rfl rfl rfl, rfl⟩
  · cases h

theorem setMembers_zoneWrite {zoneID : ℕ} {members : List (ZoneMember ℕ)}
    (h : setMembers zoneID members s = .ok s') : ZoneWrite s s' ∧ s'.zones = s.zones := by
  refine foldlM_invariant (fun t => ZoneWrite s t ∧ t.zones = s.zones) ?_ ?_ h
  · intro mid m next _ hmid hnext
    obtain ⟨hsame, hzones⟩ := insertMember_zoneWrite hnext
    exact ⟨hmid.1.trans hsame, hzones.trans hmid.2⟩
  · exact ⟨.of_zones rfl rfl rfl rfl rfl, rfl⟩

end

section

variable (s : State)

theorem getOrCreateLayout_layout :
    (getOrCreateLayout s).1.layout = some (getOrCreateLayout s).2 := by
  unfold getOrCreateLayout
  split
  next h => exact h
  next => rfl

theorem getOrCreateLayout_stays {topologyID : ℕ} (h : s.layout = some topologyID) :
    (getOrCreateLayout s).1.layout = some topologyID := by
  simp [getOrCreateLayout, h]

@[simp] theorem getOrCreateLayout_inventory : (getOrCreateLayout s).1.inventory = s.inventory := by
  unfold getOrCreateLayout
  split <;> rfl

@[simp] theorem getOrCreateLayout_zones : (getOrCreateLayout s).1.zones = s.zones := by
  unfold getOrCreateLayout
  split <;> rfl

@[simp] theorem getOrCreateLayout_connections :
    (getOrCreateLayout s).1.connections = s.connections := by
  unfold getOrCreateLayout
  split <;> rfl

@[simp] theorem getOrCreateLayout_dismissed : (getOrCreateLayout s).1.dismissed = s.dismissed := by
  unfold getOrCreateLayout
  split <;> rfl

end

section

variable {s s' : State}

/-- Zones, connections and dismissals belong to the layout. -/
structure Owned (s : State) : Prop where
  zones : ∀ z ∈ s.zones, s.layout = some z.topologyID
  connections : InTopologies (fun t => s.layout = some t) s.connections
  dismissed : ∀ d ∈ s.dismissed, s.layout = some d.topologyID

theorem init_owned : Owned init := ⟨nofun, nofun, nofun⟩

variable (h : Owned s)
include h

theorem Owned.zoneWrite (hsame : ZoneWrite s s') : Owned s' := by
  constructor
  · intro z hz
    rw [hsame.layout]
    rcases hsame.zones z hz with hlayout | hold
    · exact hlayout
    · obtain ⟨y, hy, heq⟩ := mem_map.1 hold
      rw [← heq]
      exact h.zones y hy
  · rw [hsame.connections, hsame.layout]
    exact h.connections
  · rw [hsame.dismissed, hsame.layout]
    exact h.dismissed

theorem Owned.subset (hlayout : ∀ t, s.layout = some t → s'.layout = some t)
    (hzones : s'.zones ⊆ s.zones) (hconnections : s'.connections ⊆ s.connections)
    (hdismissed : s'.dismissed ⊆ s.dismissed) : Owned s' where
  zones z hz := hlayout _ (h.zones z (hzones hz))
  connections c hc := hlayout _ (h.connections c (hconnections hc))
  dismissed d hd := hlayout _ (h.dismissed d (hdismissed hd))

theorem Owned.getOrCreateLayout : Owned (getOrCreateLayout s).1 :=
  h.subset (fun _ => getOrCreateLayout_stays s) (by simp) (by simp) (by simp)

theorem Owned.resolveTopology (topologyID : Option ℕ) :
    Owned (resolveTopology topologyID s).1 := by
  cases topologyID with
  | none => exact h.getOrCreateLayout
  | some id => exact h

theorem Owned.clearTopology (topologyID : ℕ) : Owned (clearTopology topologyID s) :=
  h.subset (fun _ h => h) (filter_subset_self _) (filter_subset_self _) (filter_subset_self _)

variable {topologyID : ℕ}

theorem Owned.clearTopology_empty (hlayout : s.layout = some topologyID) :
    (Topology.clearTopology topologyID s).connections = [] ∧
      (Topology.clearTopology topologyID s).dismissed = [] := by
  constructor
  all_goals
    refine eq_nil_iff_forall_not_mem.2 fun x hx => ?_
    obtain ⟨hx, hkept⟩ := mem_deleteWhere.1 hx
  · have hmine := Option.some.inj (hlayout.symm.trans (h.connections x hx))
    simp [hmine] at hkept
  · have hmine := Option.some.inj (hlayout.symm.trans (h.dismissed x hx))
    simp [hmine] at hkept

theorem Owned.setInventory (inv : Inventory) : Owned (setInventory inv s) :=
  h.subset (fun _ h => h) (List.Subset.refl _) (filter_subset_self _) (filter_subset_self _)

theorem Owned.withConnections {rows : List Connection}
    (hrows : InTopologies (fun t => s.layout = some t) rows) (next : ℕ) :
    Owned { s with connections := rows, nextID := next } :=
  { h with connections := hrows }

variable {req : NewConnection}

omit h in
theorem connectionLinked_layout (h : connectionLinked s req = true) :
    s.layout = some req.key.topologyID := by
  simp only [connectionLinked, Bool.and_eq_true, decide_eq_true_eq] at h
  exact h.1.1

theorem storeConnection_owned (hok : storeConnection req s = .ok s') : Owned s' := by
  obtain ⟨rows, hrows, hok⟩ := bind_eq_ok.1 hok
  cases hok
  have htopologies := createConnection_topologies h.connections connectionLinked_layout hrows
  exact h.withConnections htopologies (s.nextID + 1)

variable {assetID : String}

theorem dismissAsset_owned (hok : dismissAsset topologyID assetID s = .ok s') :
    Owned s' := by
  revert hok
  fun_cases dismissAsset topologyID assetID s
  all_goals rintro ⟨⟩
  case case1 => exact h
  case case2 hlinked =>
    exact ⟨h.zones, h.connections,
      forall_mem_append.2 ⟨h.dismissed, forall_mem_singleton.2 hlinked.1⟩⟩

theorem undismissAsset_owned (hok : undismissAsset topologyID assetID s = .ok s') :
    Owned s' := by
  unfold undismissAsset at hok
  split at hok
  · cases hok
    exact h.subset (fun _ h => h) (List.Subset.refl _) (List.Subset.refl _) (filter_subset_self _)
  · cases hok

end

end LabTether.Topology
