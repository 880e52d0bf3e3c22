import LabTether.TopologySeed

/-!
The layout that `Seed` proposes, as a whole. `Home` says by what an asset is placed: its group
first, then its being a host, then its parent host, then its source. The zones partition the
assets by home. A zone grows with its members while the rows of the grid do not, so a zone with
more than eight members at the top level reaches into the zone below it.
-/
namespace LabTether.Topology

open Grouping List ZoneMember

section

variable (input : SeedInput)

/-- The keys of the zones, in the order in which the three passes meet them. -/
def zoneKeys : List String :=
  ([groupZone input, hostZone input, otherZone input].flatMap fun pass =>
    input.assets.filterMap fun a => (pass a).map Prod.fst).foldl meet []

/-- The assets that the three passes file under a key. -/
def zoneAssets (key : String) : List AssetInfo :=
  filed (groupZone input) input.assets key ++ filed (hostZone input) input.assets key ++
    filed (otherZone input) input.assets key

end

section

variable {input : SeedInput} {i : ℕ} {entry : Bucket String SeedZone AssetInfo}

theorem keys_zoneEntries : keys (zoneEntries input) = zoneKeys input := by
  simp only [zoneEntries, zoneKeys, keys_sortPass, flatMap_cons, flatMap_nil, foldl_append]
  rfl

theorem filed_zoneEntries :
    Filed (fun i zone => ∃ label, zone = newZone label i) (zoneAssets input) (zoneEntries input) := by
  have hempty : Filed (fun i zone => ∃ label, zone = newZone label i) (fun _ : String => [])
      ([] : List (Bucket String SeedZone AssetInfo)) := ⟨nofun, fun _ _ => rfl⟩
  have hnew : ∀ a entry, groupZone input a = some entry ∨ hostZone input a = some entry ∨
      otherZone input a = some entry → ∀ i, ∃ label, entry.2 i = newZone label i := by
    intro a entry hentry
    obtain ⟨label, hlabel⟩ : ∃ label, entry.2 = newZone label := by
      cases hgroup : groupOf input a.id <;> grind [groupZone, hostZone, otherZone]
    exact fun i => ⟨label, congrFun hlabel i⟩
  refine ((hempty.sortPass _ _ ?_).sortPass _ _ ?_).sortPass _ _ ?_
  · exact fun a entry h => hnew a entry (.inl h)
  · exact fun a entry h => hnew a entry (.inr (.inl h))
  · exact fun a entry h => hnew a entry (.inr (.inr h))

theorem items_eq (h : entry ∈ zoneEntries input) : entry.items = zoneAssets input entry.key := by
  obtain ⟨i, hi⟩ := mem_iff_getElem?.1 h
  exact (filed_zoneEntries.bucket i entry hi).1

theorem newZone_id_inj {label label' : String} {i j : ℕ}
    (h : (newZone label i).id = (newZone label' j).id) : i = j := by
  -- the number is the run of digits at the end of the id
  have hnumber : ∀ label i, Nat.toDigits 10 (i + 1) =
      ((newZone label i).id.toList.reverse.takeWhile Char.isDigit).reverse := by
    intro label i
    have hdigits : ∀ c ∈ (Nat.toDigits 10 (i + 1)).reverse, c.isDigit = true := fun c hc =>
      Nat.isDigit_of_mem_toDigits (by decide) (by decide) (mem_reverse.1 hc)
    simp [newZone, takeWhile_append_of_pos hdigits]
  have hdigits : Nat.toDigits 10 (i + 1) = Nat.toDigits 10 (j + 1) := by
    rw [hnumber label i, h, ← hnumber]
  simpa using congrArg (fun ds => Nat.ofDigitChars 10 ds 0) hdigits

theorem header_inj {j : ℕ} {b c : Bucket String SeedZone AssetInfo}
    (hb : (zoneEntries input)[i]? = some b) (hc : (zoneEntries input)[j]? = some c)
    (heq : b.header.id = c.header.id) : i = j := by
  obtain ⟨label, hlabel⟩ := (filed_zoneEntries.bucket i b hb).2
  obtain ⟨label', hlabel'⟩ := (filed_zoneEntries.bucket j c hc).2
  rw [hlabel, hlabel'] at heq
  exact newZone_id_inj heq

end

/-- The two rectangles have no point in common. -/
def Apart (z w : ZoneData) : Prop :=
  z.position.x + z.size.width < w.position.x ∨ w.position.x + w.size.width < z.position.x ∨
    z.position.y + z.size.height < w.position.y ∨ w.position.y + w.size.height < z.position.y
deriving Decidable

theorem apart_iff {input : SeedInput} {b c : Bucket String SeedZone AssetInfo} {i j : ℕ}
    (h : i < j) : Apart (placedZone input (b, i)).data (placedZone input (c, j)).data ↔
      (i % 3 = j % 3 → (zoneAutoSize (topLevelCount input b.items)).height <
        (j / 3 - i / 3 : ℕ) * 350) := by
  simp only [Apart, placedZone, zoneGridPosition, zoneAutoSize]
  omega

/-- Zones overlap when one with more than eight members at the top level has another below. -/
theorem seed_zones_apart_iff (input : SeedInput) :
    (seed input).zones.Pairwise (fun z w => Apart z.data w.data) ↔
      ∀ i key, (zoneKeys input)[i]? = some key → i + 3 < (zoneKeys input).length →
        topLevelCount input (zoneAssets input key) ≤ 8 := by
  have hlen : (zoneKeys input).length = (zoneEntries input).length := by
    rw [← keys_zoneEntries, Grouping.keys, length_map]
  have hcount : ∀ i (hi : i < (zoneEntries input).length),
      (zoneKeys input)[i]? = some (zoneEntries input)[i].key ∧
        zoneAssets input (zoneEntries input)[i].key = (zoneEntries input)[i].items := by
    intro i hi
    rw [← keys_zoneEntries, Grouping.keys, getElem?_map, getElem?_eq_getElem hi]
    exact ⟨rfl, (filed_zoneEntries.bucket i _ (getElem?_eq_getElem hi)).1.symm⟩
  rw [seed_zones, pairwise_iff_getElem]
  simp only [getElem_map, getElem_zipIdx, length_map, length_zipIdx, Nat.zero_add, hlen]
  constructor
  · intro h i key hkey hi
    obtain ⟨hat, hassets⟩ := hcount i (by omega)
    obtain rfl := Option.some.inj (hat.symm.trans hkey)
    have hapart := (apart_iff (by omega)).1
      (h i (i + 3) (by omega) hi (by omega)) (by omega)
    rw [hassets]
    simp only [zoneAutoSize] at hapart
    omega
  · intro h i j hi hj hlt
    refine (apart_iff hlt).2 fun hcol => ?_
    obtain ⟨hat, hassets⟩ := hcount i hi
    have hle := h i _ hat (by omega)
    rw [hassets] at hle
    simp only [zoneAutoSize]
    omega

/-- Nine machines in one group and one in each of three others. -/
def crowded : SeedInput where
  topologyID := 0
  assets := "abcdefghixyz".toList.map fun c => ⟨c.toString, "", "", "vm"⟩
  groups := fun _ => none
  assetGroups := fun id => some (if id ∈ ["x", "y", "z"] then id else "rack")
  edges := []

theorem crowded_zones_overlap :
    ¬ (seed crowded).zones.Pairwise (fun z w => Apart z.data w.data) := by
  decide +kernel

/-- By what an asset is placed. -/
inductive Home where
  | group (id : String)
  | host (id : String)
  | source (name : String)

def Home.key : Home → String
  | .group id => "group:" ++ id
  | .host id => "host:" ++ id
  | .source name => "source:" ++ name

theorem Home.key_injective : Function.Injective Home.key := by
  intro h h' heq
  have hlist := congrArg String.toList heq
  cases h <;> cases h' <;> simp [Home.key, String.toList_inj] at hlist <;> rw [hlist]

/-- The group comes first, then the host itself, its parent host and the source. -/
def home (input : SeedInput) (asset : AssetInfo) : Option Home :=
  match groupOf input asset.id with
  | some groupID => some (.group groupID)
  | none =>
    if isInfraHostType asset.type then some (.host asset.id)
    else
      match (parentOf input.edges asset.id).filter (hasHostZone input) with
      | some parentID => some (.host parentID)
      | none => if asset.source ≠ "" then some (.source asset.source) else none

/-- The zones partition the placed assets by home. -/
structure Partitioned (input : SeedInput) : Prop where
  ids : ((seed input).zones.map SeedZone.id).Nodup
  order : (seed input).zones.map (fun z => z.data.sortOrder) =
    (range (seed input).zones.length).map Nat.cast
  zone : ∀ m ∈ (seed input).members, m.zoneID ∈ (seed input).zones.map SeedZone.id
  once : ((seed input).members.map assetID).Nodup
  placed : ∀ a ∈ input.assets, a.id ∈ (seed input).members.map assetID ↔ (home input a).isSome
  homes : ∀ m ∈ (seed input).members, ∀ m' ∈ (seed input).members, ∀ a ∈ input.assets,
    ∀ a' ∈ input.assets, m.assetID = a.id → m'.assetID = a'.id →
      (m.zoneID = m'.zoneID ↔ home input a = home input a')

section

variable {input : SeedInput} (h : (input.assets.map AssetInfo.id).Nodup)
include h

variable {asset : AssetInfo}

theorem hasHostZone_eq (ha : asset ∈ input.assets) (hgroup : groupOf input asset.id = none) :
    hasHostZone input asset.id = isInfraHostType asset.type := by
  unfold hasHostZone
  cases hinfra : isInfraHostType asset.type
  case true => exact any_eq_true.2 ⟨asset, ha, by simp [hgroup, hinfra]⟩
  refine any_eq_false.2 fun a hmem hany => ?_
  simp only [Bool.and_eq_true, decide_eq_true_eq] at hany
  rw [inj_on_of_nodup_map h hmem ha hany.1.1, hinfra] at hany
  cases hany.2

theorem mem_zoneAssets {key : String} : asset ∈ zoneAssets input key ↔
    asset ∈ input.assets ∧ (home input asset).map Home.key = some key := by
  simp only [zoneAssets, filed, mem_append, mem_filter, decide_eq_true_eq, ← and_or_left]
  refine and_congr_right fun ha => ?_
  rcases hgroup : groupOf input asset.id with _ | g
  case some => simp [groupZone, hostZone, otherZone, home, hgroup, Home.key]
  have hhost := hasHostZone_eq h ha hgroup
  cases hinfra : isInfraHostType asset.type <;> rw [hinfra] at hhost
  · cases hparent : (parentOf input.edges asset.id).filter (hasHostZone input) <;>
      by_cases hsource : asset.source = "" <;>
        simp [groupZone, hostZone, otherZone, home, hgroup, hinfra, hhost, hparent, hsource, Home.key]
  · simp [groupZone, hostZone, otherZone, home, hgroup, hinfra, hhost, Home.key]

theorem home_of_member {m : ZoneMember String} (hm : m ∈ (seed input).members)
    (ha : asset ∈ input.assets) (hid : m.assetID = asset.id) :
    ∃ b ∈ zoneEntries input, m.zoneID = b.header.id ∧
      (home input asset).map Home.key = some b.key := by
  rw [seed_members] at hm
  obtain ⟨b, hb, hm⟩ := mem_flatMap.1 hm
  obtain ⟨⟨a, j⟩, hj, rfl⟩ := mem_map.1 hm
  have hitem : a ∈ b.items := fst_mem_of_mem_zipIdx hj
  rw [items_eq hb, mem_zoneAssets h] at hitem
  obtain rfl : a = asset := inj_on_of_nodup_map h hitem.1 ha hid
  exact ⟨b, hb, rfl, hitem.2⟩

theorem seed_partitions : Partitioned input where
  ids := by
    rw [seed_zones, map_map, Nodup, pairwise_iff_getElem]
    intro i j hi hj hlt heq
    simp only [getElem_map, getElem_zipIdx] at heq
    exact hlt.ne (header_inj (getElem?_eq_getElem _) (getElem?_eq_getElem _) heq)
  order := by
    rw [seed_zones, map_map, length_map, length_zipIdx, range_eq_range', ← zipIdx_map_snd, map_map]
    rfl
  zone := fun m hm => seed_members_zone hm
  once := seed_members_nodup h
  placed := by
    intro a ha
    constructor
    · intro hmem
      obtain ⟨m, hm, hid⟩ := mem_map.1 hmem
      obtain ⟨b, -, -, hkey⟩ := home_of_member h hm ha hid
      simpa using congrArg Option.isSome hkey
    · intro hsome
      obtain ⟨place, hplace⟩ := Option.isSome_iff_exists.1 hsome
      have hfiled : a ∈ zoneAssets input place.key := (mem_zoneAssets h).2 ⟨ha, by rw [hplace]; rfl⟩
      have hkey : place.key ∈ keys (zoneEntries input) := by
        by_contra hnot
        rw [filed_zoneEntries.rest _ hnot] at hfiled
        cases hfiled
      obtain ⟨b, hb, hbkey⟩ := mem_map.1 hkey
      rw [← hbkey, ← items_eq hb] at hfiled
      rw [seed_assetIDs]
      exact mem_map_of_mem ((items_sublist hb).subset hfiled)
  homes := by
    intro m hm m' hm' a ha a' ha' hid hid'
    obtain ⟨b, hb, hzone, hkey⟩ := home_of_member h hm ha hid
    obtain ⟨c, hc, hzone', hkey'⟩ := home_of_member h hm' ha' hid'
    rw [hzone, hzone', ← (Option.map_injective Home.key_injective).eq_iff, hkey, hkey',
      Option.some.injEq]
    constructor
    · intro heq
      obtain ⟨i, hi⟩ := mem_iff_getElem?.1 hb
      obtain ⟨j, hj⟩ := mem_iff_getElem?.1 hc
      obtain rfl := header_inj hi hj heq
      rw [Option.some.inj (hi.symm.trans hj)]
    · intro heq
      rw [inj_on_of_nodup_map zoneEntries_spec.1 hb hc heq]

end

theorem seed_partitions_crowded : Partitioned crowded := seed_partitions (by decide +kernel)

end LabTether.Topology
