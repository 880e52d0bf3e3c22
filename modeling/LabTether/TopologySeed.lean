import LabTether.GoStrings
import LabTether.Grouping
import LabTether.TopologyConnections

/-!
The layout the hub proposes for an empty canvas (`internal/topology/seed.go`): zones by
group, by infrastructure host and by source, members on a grid inside them, and the
discovered edges as connections. All coordinates of a seeded layout are whole pixels, so
positions and sizes are integers. A Go map is a function here.
-/
namespace LabTether.Topology

open GoStrings Grouping List

structure Position where
  (x y : ℤ)

structure Size where
  (width height : ℤ)

/-- The columns of a zone that no other row refers to. -/
structure ZoneData where
  (label color icon : String)
  position : Position
  size : Size
  collapsed : Bool
  sortOrder : ℤ

structure SeedZone where
  id : String
  data : ZoneData

/-- The id of the zone is `Seed`'s or the store's. -/
structure ZoneMember (ι : Type) where
  zoneID : ι
  assetID : String
  position : Position
  sortOrder : ℤ

open ZoneMember

structure AssetInfo where
  (id label source type : String)

structure EdgeInfo where
  (sourceAssetID targetAssetID relationship : String)
deriving DecidableEq

structure SeedInput where
  topologyID : ℕ
  assets : List AssetInfo
  (groups assetGroups : String → Option String)
  edges : List EdgeInfo

structure SeedResult where
  zones : List SeedZone
  members : List (ZoneMember String)
  connections : List NewConnection

def infraHostTypes : List String :=
  ["host", "server", "hypervisor", "hypervisor-node", "nas", "container-host", "storage-controller"]

def isInfraHostType (assetType : String) : Bool := toLower (trimSpace assetType) ∈ infraHostTypes

def zoneColorPalette : List String := ["blue", "green", "purple", "amber", "rose", "cyan"]

/-- A two-column grid of cards, with a minimum. -/
def zoneAutoSize (memberCount : ℕ) : Size where
  width := max 300 ((min memberCount 2 : ℕ) * 280 + 40)
  height := max 120 (36 + (max 1 ((memberCount + 1) / 2) : ℕ) * 56 + 40)

def zoneGridPosition (index : ℕ) : Position := ⟨(index % 3 : ℕ) * 680, (index / 3 : ℕ) * 350⟩

def memberGridPosition (index : ℕ) : Position :=
  ⟨20 + (index % 2 : ℕ) * (280 + 20), 60 + (index / 2 : ℕ) * (80 + 20)⟩

def isAlphanum (c : Char) : Bool := ('a' ≤ c && c ≤ 'z') || ('0' ≤ c && c ≤ '9')

/-- Every run of other characters becomes one hyphen. -/
def hyphenateRuns : Bool → List Char → List Char
  | _, [] => []
  | inRun, c :: cs =>
    if isAlphanum c then c :: hyphenateRuns false cs
    else if inRun then hyphenateRuns true cs
    else '-' :: hyphenateRuns true cs

def sanitizeLabel (label : String) : String :=
  String.ofList (trimHyphens (hyphenateRuns false (toLower label).toList))

section

variable (input : SeedInput)

/-- `parentMap`: the last `contains` edge into an asset decides. -/
def parentOf (edges : List EdgeInfo) (assetID : String) : Option String :=
  (edges.filter fun e => e.relationship = "contains" && e.targetAssetID = assetID).getLast?.map
    EdgeInfo.sourceAssetID

/-- The asset's group, when it has one with a non-empty id. -/
def groupOf (assetID : String) : Option String :=
  (input.assetGroups assetID).filter fun groupID => groupID ≠ ""

/-- `hostZoneAssets`: an infrastructure host without a group has a zone of its own. -/
def hasHostZone (assetID : String) : Bool :=
  input.assets.any fun a => a.id = assetID && (groupOf input a.id).isNone && isInfraHostType a.type

/-- What `getOrCreateZone` makes when `counter` zones exist. -/
def newZone (label : String) (counter : ℕ) : SeedZone where
  id := "seed-zone-" ++ sanitizeLabel label ++ "-" ++ toString (counter + 1)
  data := {
    label := label
    color := zoneColorPalette.getD (counter % zoneColorPalette.length) ""
    icon := ""
    position := ⟨0, 0⟩
    size := ⟨640, 300⟩
    collapsed := false
    sortOrder := 0 }

/-- First pass. -/
def groupZone (asset : AssetInfo) : Option (String × (ℕ → SeedZone)) :=
  (groupOf input asset.id).map fun groupID =>
    let label := (input.groups groupID).getD ""
    ("group:" ++ groupID, newZone (if label = "" then groupID else label))

/-- Second pass. -/
def hostZone (asset : AssetInfo) : Option (String × (ℕ → SeedZone)) :=
  if (groupOf input asset.id).isSome then none
  else if isInfraHostType asset.type then
    some ("host:" ++ asset.id, newZone (if asset.label = "" then asset.id else asset.label))
  else none

/-- Third pass. The zone of a parent host exists by then, so its header is never used. -/
def otherZone (asset : AssetInfo) : Option (String × (ℕ → SeedZone)) :=
  if (groupOf input asset.id).isSome then none
  else if hasHostZone input asset.id then none
  else
    match (parentOf input.edges asset.id).filter (hasHostZone input) with
    | some parentID => some ("host:" ++ parentID, newZone "")
    | none =>
      if asset.source ≠ "" then some ("source:" ++ asset.source, newZone asset.source) else none

def zoneEntries : List (Bucket String SeedZone AssetInfo) :=
  sortPass (otherZone input) (sortPass (hostZone input) (sortPass (groupZone input) [] input.assets)
    input.assets) input.assets

/-- The size of a zone counts the members that are not shown inside their parent. -/
def topLevelCount (members : List AssetInfo) : ℕ :=
  let count := (members.filter fun m =>
    (parentOf input.edges m.id).isNone || isInfraHostType m.type).length
  if count = 0 then 1 else count

def placedZone (entry : Bucket String SeedZone AssetInfo × ℕ) : SeedZone :=
  let zone := entry.1.header
  { zone with data := { zone.data with
      sortOrder := entry.2
      position := zoneGridPosition entry.2
      size := zoneAutoSize (topLevelCount input entry.1.items) } }

def zoneMembers (entry : Bucket String SeedZone AssetInfo) : List (ZoneMember String) :=
  entry.items.zipIdx.map fun (asset, j) => ⟨entry.header.id, asset.id, memberGridPosition j, j⟩

def importable (e : EdgeInfo) : Bool :=
  e.relationship ≠ "contains" && e.relationship ∈ validRelationships

def EdgeInfo.key (topologyID : ℕ) (e : EdgeInfo) : ConnectionKey :=
  ⟨topologyID, e.sourceAssetID, e.targetAssetID, e.relationship⟩

def seed : SeedResult :=
  if input.assets = [] ∧ input.edges = [] then ⟨[], [], []⟩
  else {
    zones := (zoneEntries input).zipIdx.map (placedZone input)
    members := (zoneEntries input).flatMap zoneMembers
    connections := (input.edges.filter importable).map fun e => ⟨e.key input.topologyID, false, ""⟩ }

end

section

variable {input : SeedInput} {asset : AssetInfo}

theorem zoneEntries_spec : (keys (zoneEntries input)).Nodup ∧ (contents (zoneEntries input)).Perm
    (taken (groupZone input) input.assets ++ taken (hostZone input) input.assets ++
      taken (otherZone input) input.assets) := by
  have hempty : (keys ([] : List (Bucket String SeedZone AssetInfo))).Nodup := nodup_nil
  obtain ⟨hkeys₁, hperm₁⟩ := sortPass_spec (groupZone input) input.assets hempty
  obtain ⟨hkeys₂, hperm₂⟩ := sortPass_spec (hostZone input) input.assets hkeys₁
  obtain ⟨hkeys₃, hperm₃⟩ := sortPass_spec (otherZone input) input.assets hkeys₂
  exact ⟨hkeys₃, hperm₃.trans ((hperm₂.trans (hperm₁.append_right _)).append_right _)⟩

/-- No asset is filed by two of the passes. -/
theorem zone_passes (hmem : asset ∈ input.assets) :
    ((groupZone input asset).isSome → ¬ (hostZone input asset).isSome) ∧
      ((otherZone input asset).isSome →
        ¬ ((groupZone input asset).isSome ∨ (hostZone input asset).isSome)) := by
  rcases hgroup : groupOf input asset.id with _ | g
  case some => simp [groupZone, hostZone, otherZone, hgroup]
  cases hinfra : isInfraHostType asset.type with
  | true =>
    have hhost : hasHostZone input asset.id = true :=
      any_eq_true.2 ⟨asset, hmem, by simp [hgroup, hinfra]⟩
    simp [groupZone, otherZone, hgroup, hhost]
  | false => simp [groupZone, hostZone, hgroup, hinfra]

theorem contents_subset : contents (zoneEntries input) ⊆ input.assets := by
  intro a ha
  have ha := zoneEntries_spec.2.mem_iff.1 ha
  rw [mem_append, mem_append] at ha
  rcases ha with (ha | ha) | ha <;> exact mem_of_mem_filter ha

theorem contents_nodup (h : input.assets.Nodup) : (contents (zoneEntries input)).Nodup := by
  rw [zoneEntries_spec.2.nodup_iff]
  refine .append (.append (h.filter _) (h.filter _) fun a hgroup hhost => ?_) (h.filter _)
    fun a hearlier hother => ?_
  · obtain ⟨hmem, hgroup⟩ := mem_filter.1 hgroup
    exact (zone_passes hmem).1 hgroup (mem_filter.1 hhost).2
  · obtain ⟨hmem, hother⟩ := mem_filter.1 hother
    have hearlier := (mem_append.1 hearlier).imp of_mem_filter of_mem_filter
    exact (zone_passes hmem).2 hother hearlier

theorem zoneMembers_assetIDs (entry : Bucket String SeedZone AssetInfo) :
    (zoneMembers entry).map assetID = entry.items.map AssetInfo.id := by
  calc (zoneMembers entry).map assetID
      = entry.items.zipIdx.map (AssetInfo.id ∘ Prod.fst) := map_map ..
    _ = (entry.items.zipIdx.map Prod.fst).map AssetInfo.id := (map_map ..).symm
    _ = entry.items.map AssetInfo.id := by rw [zipIdx_map_fst]

theorem seed_zones : (seed input).zones = (zoneEntries input).zipIdx.map (placedZone input) := by
  unfold seed
  split
  next h => simp [zoneEntries, sortPass, h.1]
  next => rfl

theorem seed_members : (seed input).members = (zoneEntries input).flatMap zoneMembers := by
  unfold seed
  split
  next h => simp [zoneEntries, sortPass, h.1]
  next => rfl

theorem seed_assetIDs : (seed input).members.map assetID =
    (contents (zoneEntries input)).map AssetInfo.id := by
  simp [seed_members, contents, map_flatMap, zoneMembers_assetIDs]

theorem seed_members_nodup (h : (input.assets.map AssetInfo.id).Nodup) :
    ((seed input).members.map assetID).Nodup := by
  rw [seed_assetIDs]
  apply (contents_nodup (h.of_map _)).map_on
  intro a ha b hb hid
  exact inj_on_of_nodup_map h (contents_subset ha) (contents_subset hb) hid

variable {m : ZoneMember String}

theorem seed_members_known (hm : m ∈ (seed input).members) :
    m.assetID ∈ input.assets.map AssetInfo.id := by
  have hmem : m.assetID ∈ (seed input).members.map assetID := mem_map_of_mem hm
  rw [seed_assetIDs] at hmem
  obtain ⟨a, ha, hid⟩ := mem_map.1 hmem
  exact mem_map.2 ⟨a, contents_subset ha, hid⟩

theorem seed_members_zone (hm : m ∈ (seed input).members) :
    m.zoneID ∈ (seed input).zones.map SeedZone.id := by
  rw [seed_members] at hm
  rw [seed_zones, map_map]
  obtain ⟨entry, hentry, hm⟩ := mem_flatMap.1 hm
  obtain ⟨i, hi⟩ := mem_iff_getElem?.1 hentry
  obtain ⟨x, -, rfl⟩ := mem_map.1 hm
  exact mem_map.2 ⟨(entry, i), mk_mem_zipIdx_iff_getElem?.2 hi, rfl⟩

theorem seed_connections : (seed input).connections =
    (input.edges.filter importable).map fun e => ⟨e.key input.topologyID, false, ""⟩ := by
  unfold seed
  split
  next h => simp [h.2]
  next => rfl

end

end LabTether.Topology
