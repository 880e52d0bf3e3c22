import LabTether.TopologyStore

/-!
The requests that read and change the topology canvas (`cmd/labtether/apiv2_topology*.go`), with
their checks and the auto-seed that a read of an empty canvas starts. The statements of the
auto-seed are not one transaction: each failure is followed by ClearTopology on what stands by
then.
-/
namespace LabTether.Topology

open GoStrings Grouping

structure ApiError where
  status : ℕ
  (code message : String)

def validation (message : String) : ApiError := ⟨400, "validation", message⟩

def internal (message : String) : ApiError := ⟨500, "internal", message⟩

/-- A request's error, if any, and the state it leaves. -/
structure Reply where
  error : Option ApiError
  state : State

variable (s : State)

def refuse (e : ApiError) : Reply := ⟨some e, s⟩

/-- How a handler answers for one call of the store, which changes nothing when it fails. -/
def answer (missing failed : String) : Except StoreError State → Reply
  | .ok s' => ⟨none, s'⟩
  | .error .notFound => refuse s ⟨404, "not_found", missing⟩
  | .error .constraint => refuse s (internal failed)

def maxTopologyMutationItems : ℕ := 1000
def maxTopologyIdentifierLength : ℕ := 255

def seedInput (topologyID : ℕ) (inv : Inventory) : SeedInput where
  topologyID := topologyID
  assets := inv.assets.map Asset.toAssetInfo
  groups := fun groupID => inv.groups.reverse.lookup groupID
  assetGroups := fun assetID =>
    ((inv.assets.find? fun a => a.id = assetID).map Asset.groupID).filter fun g => g ≠ ""
  edges := inv.edges

/-- The zones of the seed one by one; `ids` collects the database id of each. -/
def createSeedZones (topologyID : ℕ) :
    List SeedZone → List (String × ℕ) → State → Except State (List (String × ℕ) × State)
  | [], ids, s => .ok (ids, s)
  | z :: zs, ids, s =>
    match createZone topologyID none z.data s with
    | .ok s' => createSeedZones topologyID zs ((z.id, s.nextID) :: ids) s'
    | .error _ => .error s

/-- `seedToDBZoneID` applied to a member. -/
def rewriteMember (ids : List (String × ℕ)) (m : ZoneMember String) : Option (ZoneMember ℕ) :=
  (ids.lookup m.zoneID).map fun id => ⟨id, m.assetID, m.position, m.sortOrder⟩

/-- Members by zone. The order in which the zones are then visited is not fixed by the
source; here it is that of their first members. -/
def membersByZone (members : List (ZoneMember ℕ)) : List (Bucket ℕ Unit (ZoneMember ℕ)) :=
  sortPass (fun m => some (m.zoneID, fun _ => ())) [] members

def setSeedMembers : List (Bucket ℕ Unit (ZoneMember ℕ)) → State → Except State State
  | [], s => .ok s
  | b :: bs, s =>
    match setMembers b.key b.items s with
    | .ok s' => setSeedMembers bs s'
    | .error _ => .error s

def createSeedConnections (reqs : List NewConnection) (s : State) : Except State State :=
  match createAll (connectionLinked s) s.nextID reqs s.connections with
  | .ok rows => .ok { s with connections := rows, nextID := s.nextID + reqs.length }
  | .error rows => .error { s with connections := rows, nextID := s.nextID + reqs.length }

/-- The writes of the auto-seed, up to the first failure. -/
def persistSeed (topologyID : ℕ) (result : SeedResult) (s : State) : Except State State := do
  let (ids, s) ← createSeedZones topologyID result.zones [] s
  match result.members.mapM (rewriteMember ids) with
  | none => .error s
  | some members => do
    let s ← setSeedMembers (membersByZone members) s
    createSeedConnections result.connections s

def topologyAutoSeed (topologyID : ℕ) (s : State) : State :=
  if s.inventory.assets = [] then s
  else
    match persistSeed topologyID (seed (seedInput topologyID s.inventory)) s with
    | .ok s' => s'
    | .error s' => clearTopology topologyID s'

/-- GET /api/v2/topology. -/
def getTopology : State :=
  let (s, topologyID) := getOrCreateLayout s
  if listZones s topologyID = [] then topologyAutoSeed topologyID s else s

def resetTopology : State :=
  let (s, topologyID) := getOrCreateLayout s
  topologyAutoSeed topologyID (clearTopology topologyID s)

variable (topologyID : Option ℕ)

/-- A request that names no topology means the layout. -/
def resolveTopology (s : State) : State × ℕ :=
  match topologyID with
  | some id => (s, id)
  | none => getOrCreateLayout s

def handleCreateZone (parentZoneID : Option ℕ) (data : ZoneData) (s : State) : Reply :=
  let (s, topologyID) := resolveTopology topologyID s
  if data.label = "" then refuse s (validation "label is required")
  else answer s "failed to create zone" "failed to create zone" (createZone topologyID parentZoneID data s)

/-- One round of the loop over the members; it carries those checked so far. -/
def checkMember (zoneID : ℕ) (checked : List (ZoneMember ℕ)) (m : ZoneMember ℕ) :
    Except ApiError (List (ZoneMember ℕ)) :=
  let assetID := trimSpace m.assetID
  if assetID = "" ∨ maxTopologyIdentifierLength < assetID.utf8ByteSize then
    .error (validation "each member requires a valid asset_id")
  else if assetID ∈ checked.map ZoneMember.assetID then
    .error (validation "members must not contain duplicate asset_ids")
  else .ok (checked ++ [{ m with assetID := assetID, zoneID := zoneID }])

def handleSetMembers (zoneID : ℕ) (members : List (ZoneMember ℕ)) (s : State) : Reply :=
  if maxTopologyMutationItems < members.length then
    refuse s (validation "members exceeds maximum of 1000")
  else
    match members.foldlM (checkMember zoneID) [] with
    | .error e => refuse s e
    | .ok members =>
      answer s "failed to set members" "failed to set members" (setMembers zoneID members s)

def handleReorderZones (updates : List ZoneReorder) (s : State) : Reply :=
  if updates = [] then refuse s (validation "updates array is required")
  else if maxTopologyMutationItems < updates.length then
    refuse s (validation "updates exceeds maximum of 1000")
  else if ¬ (updates.map ZoneReorder.zoneID).Nodup then
    refuse s (validation "updates must not contain duplicate zone_ids")
  else answer s "zone not found" "failed to reorder zones" (reorderZones updates s)

structure Placement where
  assetID : String
  zoneID : ℕ

def checkPlacement (seen : List Placement) (p : Placement) : Except ApiError (List Placement) :=
  let assetID := trimSpace p.assetID
  if assetID = "" then .error (validation "each placement requires asset_id and zone_id")
  else if maxTopologyIdentifierLength < assetID.utf8ByteSize then
    .error (validation "placement identifiers are too long")
  else if assetID ∈ seen.map Placement.assetID then
    .error (validation "each asset may only be placed once per request")
  else .ok (seen ++ [{ p with assetID := assetID }])

/-- The members of a zone with the new ones behind them. The source adds `i` to a length
that already counts the `i` members appended before. -/
def mergePlacements (zoneID : ℕ) (existing : List (ZoneMember ℕ)) (new : List Placement) :
    List (ZoneMember ℕ) :=
  existing ++ new.zipIdx.map fun (p, i) =>
    ⟨zoneID, p.assetID, ⟨0, 0⟩, existing.length + i + i⟩

/-- Zone by zone; the members are those read before the loop. -/
def placeAssets (members : List (ZoneMember ℕ)) : List (Bucket ℕ Unit Placement) → State → Reply
  | [], s => ⟨none, s⟩
  | b :: bs, s =>
    let existing := members.filter fun m => m.zoneID = b.key
    match setMembers b.key (mergePlacements b.key existing b.items) s with
    | .ok s' => placeAssets members bs s'
    | .error _ => refuse s (internal "failed to place assets")

def handleAutoPlace (placements : List Placement) (s : State) : Reply :=
  if placements = [] then refuse s (validation "placements array is required")
  else if maxTopologyMutationItems < placements.length then
    refuse s (validation "placements exceeds maximum of 1000")
  else
    match placements.foldlM checkPlacement [] with
    | .error e => refuse s e
    | .ok placements =>
      let (s, topologyID) := getOrCreateLayout s
      placeAssets (listMembers s topologyID)
        (sortPass (fun p => some (p.zoneID, fun _ => ())) [] placements) s

def handleCreateConnection (sourceAssetID targetAssetID relationship label : String) (s : State) :
    Reply :=
  if relationship ∉ validRelationships then
    refuse s (validation ("invalid relationship type: " ++ relationship))
  else if sourceAssetID = "" ∨ targetAssetID = "" then
    refuse s (validation "source_asset_id and target_asset_id are required")
  else if sourceAssetID = targetAssetID then
    refuse s (validation "self-referencing connection not allowed")
  else
    let (s, topologyID) := resolveTopology topologyID s
    answer s "failed to create connection" "failed to create connection"
      (storeConnection ⟨⟨topologyID, sourceAssetID, targetAssetID, relationship⟩, true, label⟩ s)

/-- Rows of the connection table, put back into the state. -/
def withConnections (rows : Except StoreError (List Connection)) :
    Except StoreError State :=
  rows.map fun rows => { s with connections := rows }

def handleUpdateConnection (id : ℕ) (relationship : String) (label : Option String) (s : State) :
    Reply :=
  if relationship ≠ "" ∧ relationship ∉ validRelationships then
    refuse s (validation ("invalid relationship type: " ++ relationship))
  else
    answer s "connection not found" "failed to update connection"
      (withConnections s (updateConnection id relationship label s.connections))

def handleDeleteConnection (id : ℕ) (s : State) : Reply :=
  answer s "connection not found" "failed to delete connection"
    (withConnections s (deleteConnection id s.connections))

def handleDismiss (assetID : String) (s : State) : Reply :=
  if assetID = "" then refuse s (validation "asset_id is required")
  else
    let (s, topologyID) := getOrCreateLayout s
    answer s "failed to dismiss asset" "failed to dismiss asset" (dismissAsset topologyID assetID s)

def handleUndismiss (assetID : String) (s : State) : Reply :=
  if assetID = "" then refuse s (validation "asset id is required in path")
  else
    let (s, topologyID) := getOrCreateLayout s
    answer s "dismissed asset not found" "failed to undismiss asset"
      (undismissAsset topologyID assetID s)

inductive Op
  | get
  | reset
  | createZone (topologyID parentZoneID : Option ℕ) (data : ZoneData)
  | updateZone (id : ℕ) (parentZoneID : Option ℕ) (data : ZoneData)
  | deleteZone (id : ℕ)
  | reorderZones (updates : List ZoneReorder)
  | setMembers (zoneID : ℕ) (members : List (ZoneMember ℕ))
  | autoPlace (placements : List Placement)
  | createConnection (topologyID : Option ℕ)
      (sourceAssetID targetAssetID relationship label : String)
  | updateConnection (id : ℕ) (relationship : String) (label : Option String)
  | deleteConnection (id : ℕ)
  | dismiss (assetID : String)
  | undismiss (assetID : String)
  | setInventory (inv : Inventory)

def handle : Op → Reply
  | .get => ⟨none, getTopology s⟩
  | .reset => ⟨none, resetTopology s⟩
  | .createZone topologyID parentZoneID data => handleCreateZone topologyID parentZoneID data s
  | .updateZone id parentZoneID data =>
    answer s "zone not found" "failed to update zone" (updateZone id parentZoneID data s)
  | .deleteZone id => answer s "zone not found" "failed to delete zone" (deleteZone id s)
  | .reorderZones updates => handleReorderZones updates s
  | .setMembers zoneID members => handleSetMembers zoneID members s
  | .autoPlace placements => handleAutoPlace placements s
  | .createConnection topologyID source target relationship label =>
    handleCreateConnection topologyID source target relationship label s
  | .updateConnection id relationship label => handleUpdateConnection id relationship label s
  | .deleteConnection id => handleDeleteConnection id s
  | .dismiss assetID => handleDismiss assetID s
  | .undismiss assetID => handleUndismiss assetID s
  | .setInventory inv => ⟨none, setInventory inv s⟩

def step (op : Op) : State := (handle s op).state

def emptyInventory : Inventory where
  assets := []
  groups := []
  edges := []
  assets_distinct := List.nodup_nil
  edges_linked := fun _ h => absurd h List.not_mem_nil
  edges_distinct := List.nodup_nil

/-- The tables after the migrations, before any asset is known. -/
def init : State where
  inventory := emptyInventory
  layout := none
  zones := []
  members := []
  connections := []
  dismissed := []
  nextID := 0

end LabTether.Topology
