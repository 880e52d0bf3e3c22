import LabTether.TopologySeed

/-!
The tables of the topology canvas (`internal/topology/postgres_store.go` and
`postgres_members.go`) beside the inventory they refer to. Ids that the database draws are
numbers from a counter. Foreign keys and unique indexes are checked where a statement meets
them.
-/
namespace LabTether.Topology

open Table

structure Asset extends AssetInfo where
  groupID : String

/-- What the asset, group and edge stores list, with what their tables guarantee: asset ids
are primary keys, edges refer to assets and are unique. -/
structure Inventory where
  assets : List Asset
  groups : List (String × String)
  edges : List EdgeInfo
  assets_distinct : (assets.map fun a => a.id).Nodup
  edges_linked : ∀ e ∈ edges, e.sourceAssetID ∈ assets.map (fun a => a.id) ∧
    e.targetAssetID ∈ assets.map (fun a => a.id)
  edges_distinct : edges.Nodup

structure Zone where
  (id topologyID : ℕ)
  parentZoneID : Option ℕ
  data : ZoneData

structure Dismissal where
  topologyID : ℕ
  assetID : String
deriving DecidableEq

structure State where
  inventory : Inventory
  layout : Option ℕ
  zones : List Zone
  members : List (ZoneMember ℕ)
  connections : List Connection
  dismissed : List Dismissal
  nextID : ℕ

def Inventory.assetIDs (inv : Inventory) : List String := inv.assets.map fun a => a.id

variable (s : State)

def getOrCreateLayout : State × ℕ :=
  match s.layout with
  | some id => (s, id)
  | none => ({ s with layout := some s.nextID, nextID := s.nextID + 1 }, s.nextID)

variable (topologyID : ℕ)

def listZones : List Zone :=
  s.zones.filter fun z => z.topologyID = topologyID

def clearTopology (s : State) : State :=
  { s with
    members := deleteWhere (fun m => m.zoneID ∈ (listZones s topologyID).map Zone.id) s.members
    zones := deleteWhere (fun z => z.topologyID = topologyID) s.zones
    connections := deleteWhere (fun c => c.key.topologyID = topologyID) s.connections
    dismissed := deleteWhere (fun d => d.topologyID = topologyID) s.dismissed }

def hasZone (id : ℕ) : Bool := s.zones.any fun z => z.id = id

/-- The foreign key of `parent_zone_id`. -/
def parentExists (parentZoneID : Option ℕ) : Bool := parentZoneID.all (hasZone s)

def createZone (parentZoneID : Option ℕ) (data : ZoneData) (s : State) :
    Except StoreError State :=
  if s.layout = some topologyID ∧ parentExists s parentZoneID then
    .ok { s with
      zones := s.zones ++ [⟨s.nextID, topologyID, parentZoneID, data⟩]
      nextID := s.nextID + 1 }
  else .error .constraint

def writeZone (id : ℕ) (parentZoneID : Option ℕ) (f : ZoneData → ZoneData) (s : State) :
    Except StoreError State :=
  if hasZone s id = false then .error .notFound
  else if parentExists s parentZoneID = false then .error .constraint
  else .ok { s with
    zones := updateWhere (fun z => z.id = id)
      (fun z => { z with parentZoneID := parentZoneID, data := f z.data }) s.zones }

def updateZone (id : ℕ) (parentZoneID : Option ℕ) (data : ZoneData) (s : State) :
    Except StoreError State :=
  writeZone id parentZoneID (fun _ => data) s

structure ZoneReorder where
  zoneID : ℕ
  parentZoneID : Option ℕ
  sortOrder : ℤ

def reorderZones (updates : List ZoneReorder) (s : State) : Except StoreError State :=
  updates.foldlM (fun s u =>
    writeZone u.zoneID u.parentZoneID (fun data => { data with sortOrder := u.sortOrder }) s) s

/-- The children move to the zone's parent. A child that still points at the zone then (it
was its own parent) is left without one, and the members go with it. -/
def deleteZone (id : ℕ) (s : State) : Except StoreError State :=
  match s.zones.find? fun z => z.id = id with
  | none => .error .notFound
  | some zone =>
    let moved := updateWhere (fun z => z.parentZoneID = some id)
      (fun z => { z with parentZoneID := zone.parentZoneID }) s.zones
    let rest := deleteWhere (fun z => z.id = id) moved
    .ok { s with
      zones := updateWhere (fun z => z.parentZoneID = some id)
        (fun z => { z with parentZoneID := none }) rest
      members := deleteWhere (fun m => m.zoneID = id) s.members }

def insertMember (zoneID : ℕ) (s : State) (m : ZoneMember ℕ) : Except StoreError State :=
  if hasZone s zoneID ∧ m.assetID ∈ s.inventory.assetIDs ∧
      m.assetID ∉ s.members.map ZoneMember.assetID then
    .ok { s with members := s.members ++ [{ m with zoneID := zoneID }] }
  else .error .constraint

def setMembers (zoneID : ℕ) (members : List (ZoneMember ℕ)) (s : State) : Except StoreError State :=
  let elsewhere := deleteWhere (fun m => m.assetID ∈ members.map ZoneMember.assetID) s.members
  let others := deleteWhere (fun m => m.zoneID = zoneID) elsewhere
  members.foldlM (insertMember zoneID) { s with members := others }

def listMembers : List (ZoneMember ℕ) :=
  (s.members.filter fun m => m.zoneID ∈ (listZones s topologyID).map Zone.id).mergeSort
    fun m n => m.sortOrder ≤ n.sortOrder

def dismissAsset (assetID : String) (s : State) : Except StoreError State :=
  if ⟨topologyID, assetID⟩ ∈ s.dismissed then .ok s
  else if s.layout = some topologyID ∧ assetID ∈ s.inventory.assetIDs then
    .ok { s with dismissed := s.dismissed ++ [⟨topologyID, assetID⟩] }
  else .error .constraint

def undismissAsset (assetID : String) (s : State) : Except StoreError State :=
  if ⟨topologyID, assetID⟩ ∈ s.dismissed then
    .ok { s with dismissed := deleteWhere (fun d => d = ⟨topologyID, assetID⟩) s.dismissed }
  else .error .notFound

def connectionLinked (req : NewConnection) : Bool :=
  s.layout = some req.key.topologyID && req.key.sourceAssetID ∈ s.inventory.assetIDs &&
    req.key.targetAssetID ∈ s.inventory.assetIDs

def storeConnection (req : NewConnection) (s : State) : Except StoreError State := do
  let rows ← createConnection (connectionLinked s req) s.nextID req s.connections
  .ok { s with connections := rows, nextID := s.nextID + 1 }

/-- The inventory changes; rows that refer to an asset that is gone go with it. -/
def setInventory (inv : Inventory) (s : State) : State :=
  { s with
    inventory := inv
    members := s.members.filter fun m => m.assetID ∈ inv.assetIDs
    connections := s.connections.filter fun c =>
      c.key.sourceAssetID ∈ inv.assetIDs && c.key.targetAssetID ∈ inv.assetIDs
    dismissed := s.dismissed.filter fun d => d.assetID ∈ inv.assetIDs }

end LabTether.Topology
