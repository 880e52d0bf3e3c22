import LabTether.TopologyAutoSeed

/-!
Reading the topology. A read seeds a canvas that has no zones, also when the user has drawn
connections or dismissed assets on it. The seed then meets those rows: a connection of the
seed under the key of an active row fails and wipes the canvas, and one under the key of a
hidden row brings it back.
-/
namespace LabTether.Topology

open Transition List

section

variable {s : State}

theorem answer_owned {missing failed : String} {r : Except StoreError State} (h : Owned s)
    (hok : ∀ s', r = .ok s' → Owned s') : Owned (answer s missing failed r).state := by
  match r with
  | .ok s' => exact hok s' rfl
  | .error .notFound => exact h
  | .error .constraint => exact h

theorem placeAssets_owned {members : List (ZoneMember ℕ)}
    {buckets : List (Grouping.Bucket ℕ Unit Placement)} (h : Owned s) :
    Owned (placeAssets members buckets s).state := by
  fun_induction placeAssets members buckets s
  case case1 | case3 => exact h
  case case2 hset ih => exact ih (h.zoneWrite (setMembers_zoneWrite hset).1)

theorem withConnections_owned {rows : Except StoreError (List Connection)} {s' : State}
    (h : Owned s) (hrows : ∀ r, rows = .ok r → InTopologies (fun t => s.layout = some t) r)
    (hok : withConnections s rows = .ok s') : Owned s' := by
  cases rows with
  | error e => cases hok
  | ok r =>
    cases hok
    exact h.withConnections (hrows r rfl) s.nextID

theorem handleSetMembers_owned (zoneID : ℕ) (members : List (ZoneMember ℕ)) (h : Owned s) :
    Owned (handleSetMembers zoneID members s).state := by
  fun_cases handleSetMembers zoneID members s
  case case3 => exact answer_owned h fun s' hok => h.zoneWrite (setMembers_zoneWrite hok).1
  all_goals exact h

theorem handleReorderZones_owned (updates : List ZoneReorder) (h : Owned s) :
    Owned (handleReorderZones updates s).state := by
  unfold handleReorderZones
  iterate 3
    split
    · exact h
  · exact answer_owned h fun s' hok => h.zoneWrite (reorderZones_zoneWrite hok)

theorem handleAutoPlace_owned (placements : List Placement) (h : Owned s) :
    Owned (handleAutoPlace placements s).state := by
  unfold handleAutoPlace
  iterate 3
    split
    · exact h
  · exact placeAssets_owned h.getOrCreateLayout

theorem handleCreateZone_owned (topologyID parentZoneID : Option ℕ) (data : ZoneData)
    (h : Owned s) : Owned (handleCreateZone topologyID parentZoneID data s).state := by
  unfold handleCreateZone
  have h := h.resolveTopology topologyID
  simp only
  split
  · exact h
  · exact answer_owned h fun s' hok => h.zoneWrite (createZone_zoneWrite hok)

theorem handleCreateConnection_owned (topologyID : Option ℕ)
    (source target relationship label : String) (h : Owned s) :
    Owned (handleCreateConnection topologyID source target relationship label s).state := by
  unfold handleCreateConnection
  iterate 3
    split
    · exact h
  · have h := h.resolveTopology topologyID
    exact answer_owned h fun s' hok => storeConnection_owned h hok

theorem handleUpdateConnection_owned (id : ℕ) (relationship : String) (label : Option String)
    (h : Owned s) : Owned (handleUpdateConnection id relationship label s).state := by
  unfold handleUpdateConnection
  split
  · exact h
  · apply answer_owned h
    intro s' hok
    exact withConnections_owned h (fun r => updateConnection_topologies h.connections) hok

theorem handleDeleteConnection_owned (id : ℕ) (h : Owned s) :
    Owned (handleDeleteConnection id s).state := by
  apply answer_owned h
  intro s' hok
  exact withConnections_owned h (fun r => deleteConnection_topologies h.connections) hok

theorem handleDismiss_owned (assetID : String) (h : Owned s) :
    Owned (handleDismiss assetID s).state := by
  unfold handleDismiss
  split
  · exact h
  · exact answer_owned h.getOrCreateLayout fun s' hok => dismissAsset_owned h.getOrCreateLayout hok

theorem handleUndismiss_owned (assetID : String) (h : Owned s) :
    Owned (handleUndismiss assetID s).state := by
  unfold handleUndismiss
  split
  · exact h
  · exact answer_owned h.getOrCreateLayout
      fun s' hok => undismissAsset_owned h.getOrCreateLayout hok

theorem getTopology_owned (h : Owned s) : Owned (getTopology s) := by
  unfold getTopology
  simp only
  split
  · exact topologyAutoSeed_owned h.getOrCreateLayout (getOrCreateLayout_layout s)
  · exact h.getOrCreateLayout

theorem resetTopology_owned (h : Owned s) : Owned (resetTopology s) :=
  topologyAutoSeed_owned (h.getOrCreateLayout.clearTopology _) (getOrCreateLayout_layout s)

theorem step_owned (h : Owned s) (op : Op) : Owned (step s op) := by
  cases op with
  | get => exact getTopology_owned h
  | reset => exact resetTopology_owned h
  | createZone topologyID parentZoneID data => exact handleCreateZone_owned _ _ _ h
  | updateZone id parentZoneID data =>
    exact answer_owned h fun s' hok => h.zoneWrite (writeZone_zoneWrite hok)
  | deleteZone id => exact answer_owned h fun s' hok => h.zoneWrite (deleteZone_zoneWrite hok)
  | reorderZones updates => exact handleReorderZones_owned _ h
  | setMembers zoneID members => exact handleSetMembers_owned _ _ h
  | autoPlace placements => exact handleAutoPlace_owned _ h
  | createConnection topologyID source target relationship label =>
    exact handleCreateConnection_owned _ _ _ _ _ h
  | updateConnection id relationship label => exact handleUpdateConnection_owned _ _ _ h
  | deleteConnection id => exact handleDeleteConnection_owned _ h
  | dismiss assetID => exact handleDismiss_owned _ h
  | undismiss assetID => exact handleUndismiss_owned _ h
  | setInventory inv => exact h.setInventory inv

end

variable {s s' : State}

structure Kept (s s' : State) : Prop where
  drawn : ∀ c ∈ s.connections, c.userDefined = true → c ∈ s'.connections
  hidden : ∀ c ∈ s.connections, c.deleted = true → c ∈ s'.connections
  dismissed : ∀ d ∈ s.dismissed, d ∈ s'.dismissed

instance (s s' : State) : Decidable (Kept s s') :=
  decidable_of_iff ((∀ c ∈ s.connections, c.userDefined = true → c ∈ s'.connections) ∧
      (∀ c ∈ s.connections, c.deleted = true → c ∈ s'.connections) ∧
      ∀ d ∈ s.dismissed, d ∈ s'.dismissed)
    ⟨fun h => ⟨h.1, h.2.1, h.2.2⟩, fun h => ⟨h.drawn, h.hidden, h.dismissed⟩⟩

/-- The user has drawn, hidden and dismissed nothing. -/
def NothingMade (s : State) : Prop :=
  (∀ c ∈ s.connections, c.userDefined = false ∧ c.deleted = false) ∧ s.dismissed = []

/-- No row, active or hidden, stands where the seed would put a discovered edge. -/
def EdgesFree (s : State) : Prop :=
  ∀ c ∈ s.connections, ∀ e ∈ s.inventory.edges, importable e = true → e.key c.key.topologyID ≠ c.key

/-- The states in which a read is harmless. -/
def ReadHarmless (s : State) : Prop :=
  s.zones ≠ [] ∨ s.inventory.assets = [] ∨ NothingMade s ∨ EdgesFree s

theorem Kept.of_subset (hconnections : s.connections ⊆ s'.connections)
    (hdismissed : s'.dismissed = s.dismissed) : Kept s s' :=
  ⟨fun _ hc _ => hconnections hc, fun _ hc _ => hconnections hc, fun _ hd => hdismissed ▸ hd⟩

theorem NothingMade.kept (h : NothingMade s) (s' : State) : Kept s s' := by
  obtain ⟨hconnections, hdismissed⟩ := h
  refine ⟨?_, ?_, ?_⟩
  · intro c hc hdrawn
    rw [(hconnections c hc).1] at hdrawn
    cases hdrawn
  · intro c hc hhidden
    rw [(hconnections c hc).2] at hhidden
    cases hhidden
  · intro d hd
    rw [hdismissed] at hd
    exact absurd hd not_mem_nil

theorem Kept.nothingMade (h : Kept s s') (hconnections : s'.connections = [])
    (hdismissed : s'.dismissed = []) : NothingMade s := by
  constructor
  · intro c hc
    constructor
    · by_contra hdrawn
      have hmem := h.drawn c hc (by simpa using hdrawn)
      rw [hconnections] at hmem
      exact not_mem_nil hmem
    · by_contra hhidden
      have hmem := h.hidden c hc (by simpa using hhidden)
      rw [hconnections] at hmem
      exact not_mem_nil hmem
  · apply eq_nil_iff_forall_not_mem.2
    intro d hd
    have hmem := h.dismissed d hd
    rw [hdismissed] at hmem
    exact not_mem_nil hmem

variable {topologyID : ℕ}

theorem edgesFree_iff (h : Owned s) (hlayout : s.layout = some topologyID) :
    EdgesFree s ↔ ∀ c ∈ s.connections,
      c.key ∉ (seed (seedInput topologyID s.inventory)).connections.map NewConnection.key := by
  rw [seed_connection_keys]
  have hmine : ∀ c ∈ s.connections, c.key.topologyID = topologyID := by
    intro c hc
    exact Option.some.inj ((h.connections c hc).symm.trans hlayout)
  constructor
  · intro hfree c hc hmem
    obtain ⟨e, he, heq⟩ := mem_map.1 hmem
    obtain ⟨he, himport⟩ := mem_filter.1 he
    rw [← hmine c hc] at heq
    exact hfree c hc e he himport heq
  · intro hfree c hc e he himport heq
    rw [hmine c hc] at heq
    exact hfree c hc (mem_map.2 ⟨e, mem_filter.2 ⟨he, himport⟩, heq⟩)

theorem topologyAutoSeed_kept_iff (h : Owned s) (hlayout : s.layout = some topologyID)
    (hassets : s.inventory.assets ≠ []) :
    Kept s (topologyAutoSeed topologyID s) ↔ NothingMade s ∨ EdgesFree s := by
  rw [edgesFree_iff h hlayout]
  obtain ⟨linked, next, hlinked, houtcome⟩ := topologyAutoSeed_outcome h hlayout hassets
  have hnodup := seed_connections_nodup topologyID s.inventory
  constructor
  · intro hkept
    rcases houtcome with ⟨rows, hrows, hconnections, -⟩ | ⟨rows, -, hconnections, hdismissed⟩
    · have hhidden := hkept.hidden
      rw [hconnections] at hhidden
      exact .inr (createAll_kept hrows hhidden)
    · exact .inl (hkept.nothingMade hconnections hdismissed)
  rintro (hnothing | hfree)
  · exact hnothing.kept _
  -- distinct new keys are all inserted, so the auto-seed did not fail
  obtain ⟨rows', hok, hsub⟩ := createAll_fresh next hlinked hnodup hfree
  rcases houtcome with ⟨rows, hrows, hconnections, hdismissed⟩ | ⟨rows, hrows, -⟩
  · rw [hok] at hrows
    cases hrows
    rw [← hconnections] at hsub
    exact Kept.of_subset hsub hdismissed
  · rw [hok] at hrows
    cases hrows

theorem listZones_eq_nil (h : Owned s) :
    listZones (getOrCreateLayout s).1 (getOrCreateLayout s).2 = [] ↔ s.zones = [] := by
  have hall : listZones (getOrCreateLayout s).1 (getOrCreateLayout s).2 = s.zones := by
    unfold listZones
    rw [getOrCreateLayout_zones]
    apply filter_eq_self.2
    intro z hz
    have hmine := getOrCreateLayout_stays s (h.zones z hz)
    rw [getOrCreateLayout_layout] at hmine
    simpa using (Option.some.inj hmine).symm
  rw [hall]

theorem kept_getOrCreateLayout : Kept (getOrCreateLayout s).1 s' ↔ Kept s s' := by
  constructor
  · rintro ⟨hdrawn, hhidden, hdismissed⟩
    rw [getOrCreateLayout_connections] at hdrawn hhidden
    rw [getOrCreateLayout_dismissed] at hdismissed
    exact ⟨hdrawn, hhidden, hdismissed⟩
  · rintro ⟨hdrawn, hhidden, hdismissed⟩
    rw [← getOrCreateLayout_connections s] at hdrawn hhidden
    rw [← getOrCreateLayout_dismissed s] at hdismissed
    exact ⟨hdrawn, hhidden, hdismissed⟩

theorem getTopology_kept_iff (h : Owned s) : Kept s (getTopology s) ↔ ReadHarmless s := by
  have hself : Kept s (getOrCreateLayout s).1 :=
    Kept.of_subset (by simp) (getOrCreateLayout_dismissed s)
  unfold getTopology ReadHarmless
  simp only [listZones_eq_nil h]
  by_cases hzones : s.zones = []
  · rw [if_pos hzones]
    by_cases hassets : s.inventory.assets = []
    · have hseed : topologyAutoSeed (getOrCreateLayout s).2 (getOrCreateLayout s).1 =
          (getOrCreateLayout s).1 := by
        unfold topologyAutoSeed
        rw [getOrCreateLayout_inventory, if_pos hassets]
      rw [hseed]
      exact ⟨fun _ => .inr (.inl hassets), fun _ => hself⟩
    · have hassets' : (getOrCreateLayout s).1.inventory.assets ≠ [] := by
        rwa [getOrCreateLayout_inventory]
      have hiff := topologyAutoSeed_kept_iff h.getOrCreateLayout (getOrCreateLayout_layout s)
        hassets'
      rw [kept_getOrCreateLayout] at hiff
      rw [hiff]
      simp [NothingMade, EdgesFree, hzones, hassets]
  · rw [if_neg hzones]
    exact ⟨fun _ => .inl hzones, fun _ => hself⟩

/-- After any requests and any changes of the inventory, a read keeps what the user made
exactly when the canvas has a zone, or there is no asset, or the user has made nothing, or no
row stands where the seed would put a discovered edge. -/
theorem read_keeps_user_rows_iff (ops : List Op) :
    Kept (run step init ops) (getTopology (run step init ops)) ↔ ReadHarmless (run step init ops) :=
  getTopology_kept_iff (run_invariant_all step Owned (fun _ op h => step_owned h op) init_owned ops)

/-- After any requests every zone, connection and dismissal belongs to the one layout. -/
theorem rows_of_one_layout (ops : List Op) : Owned (run step init ops) :=
  run_invariant_all step Owned (fun _ op h => step_owned h op) init_owned ops

/-- Two machines and a dependency between them that the hub has discovered, and a third. -/
def threeAssets : Inventory where
  assets := [⟨⟨"a", "a", "docker", "container"⟩, ""⟩, ⟨⟨"b", "b", "docker", "container"⟩, ""⟩,
    ⟨⟨"c", "c", "docker", "container"⟩, ""⟩]
  groups := []
  edges := [⟨"a", "b", "depends_on"⟩]
  assets_distinct := by decide
  edges_linked := by decide
  edges_distinct := by decide

/-- The user draws the dependency before the canvas is first read, and dismisses an asset. -/
def drawnEdge : State :=
  run step init [.setInventory threeAssets,
    .createConnection none "a" "b" "depends_on" "mine", .dismiss "c"]

/-- The user draws the dependency and deletes it again. -/
def hiddenEdge : State :=
  run step init [.setInventory threeAssets,
    .createConnection none "a" "b" "depends_on" "mine", .deleteConnection 1]

/-- The read wipes the drawn connection with the dismissal, and brings the deleted one back. -/
theorem read_destroys_user_rows :
    (drawnEdge.connections = [⟨1, ⟨0, "a", "b", "depends_on"⟩, true, "mine", false⟩] ∧
        drawnEdge.dismissed = [⟨0, "c"⟩] ∧
        (getTopology drawnEdge).connections = [] ∧ (getTopology drawnEdge).dismissed = [] ∧
        ¬ Kept drawnEdge (getTopology drawnEdge)) ∧
      hiddenEdge.connections = [⟨1, ⟨0, "a", "b", "depends_on"⟩, true, "mine", true⟩] ∧
        (getTopology hiddenEdge).connections =
          [⟨1, ⟨0, "a", "b", "depends_on"⟩, false, "", false⟩] ∧
        ¬ Kept hiddenEdge (getTopology hiddenEdge) := by
  decide +kernel

end LabTether.Topology
