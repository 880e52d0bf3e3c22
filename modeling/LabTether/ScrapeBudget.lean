import LabTether.RemoteWriteRows

/-!
The size limit of a scrape (`internal/telemetry/promexport/collector.go`). `Collect` adds up an
estimate for every series and emits nothing when the sum is over the limit. The estimate counts
the name of a metric three times; the text of a family has it four times.
The name of a hub metric determines its descriptor, so the cache of these is left out.
-/
namespace LabTether.PromExport

open GoStrings Telemetry RemoteWrite List

structure AssetMeta where
  (name type group platform dockerHost dockerImage dockerStack : String)

structure LabeledMetric where
  metric : String
  value : BitVec 64
  labels : Labels
  collectedAt : ℤ

/-- What a scrape reads; a map is the list of its entries. -/
structure Source where
  latestSnapshots : List (String × List LabeledMetric)
  assetMetadata : String → AssetMeta
  hubSnapshots : List (String × List LabeledMetric)

def maxPrometheusSnapshotAssets : ℕ := 5000
def maxPrometheusAssetMetricSeries : ℕ := 10000
def maxPrometheusExportBytes : ℕ := 8 * 1024 * 1024

/-- A series; its name is without the common start of all names. -/
structure Series where
  (name help : String)
  labels : Labels
  value : BitVec 64

def assetLabels (assetID : String) (m : AssetMeta) : Labels := [
  ("asset_id", assetID), ("asset_name", m.name), ("asset_type", m.type), ("group", m.group),
  ("platform", m.platform), ("docker_host", m.dockerHost), ("docker_image", m.dockerImage),
  ("docker_stack", m.dockerStack)]

def assetInfo (assetID : String) (m : AssetMeta) : Series where
  name := "asset_info"
  help := "Static asset metadata gauge. Always 1. Use for PromQL label joins."
  labels := assetLabels assetID m
  value := 0x3ff0000000000000

def assetMetric (assetID : String) (m : AssetMeta) (s : LabeledMetric) : Series where
  name := sanitizeMetricName s.metric
  help := "LabTether metric: " ++ sanitizeMetricName s.metric
  labels := assetLabels assetID m ++ assetMetricLabelKeys.map fun key => (key, s.labels.get key)
  value := s.value

def hubMetric (scope metric : String) (labels : Labels) (value : BitVec 64) : Series where
  name := sanitizeMetricName metric
  help := "LabTether hub metric: " ++ metric
  labels := ("scope", scope) ::
    ((hubMetricLabelKeys scope metric).getD []).map fun key => (key, labels.get key)
  value := value

def validAssetExportMeta (assetID : String) (m : AssetMeta) : Bool :=
  (assetLabels assetID m).all fun e =>
    e.2.utf8ByteSize ≤ maxMetricIdentityBytes && !containsNUL e.2

def Series.valueBytes (s : Series) : ℕ := (s.labels.map fun e => e.2.utf8ByteSize).sum

def estimatedExportBytes (s : Series) : ℕ := 512 + 3 * s.name.utf8ByteSize + 3 * s.valueBytes

def exportIdentity (s : LabeledMetric) : String :=
  sanitizeMetricName s.metric ++ "\x00[" ++
    ",".intercalate (assetMetricLabelKeys.map fun key => jsonString (s.labels.get key)) ++ "]"

def preferredAssetMetricCandidate (incoming current : LabeledMetric) : Bool :=
  if incoming.collectedAt ≠ current.collectedAt then current.collectedAt < incoming.collectedAt
  else if isCanonical incoming.metric ≠ isCanonical current.metric then isCanonical incoming.metric
  else if incoming.metric ≠ current.metric then incoming.metric < current.metric
  else incoming.labels.json < current.labels.json

def addCandidate (target : List LabeledMetric) (incoming : LabeledMetric) : List LabeledMetric :=
  if collectorReserves incoming.metric then target
  else
    match target.find? fun s => exportIdentity s = exportIdentity incoming with
    | none => target ++ [incoming]
    | some current =>
      if preferredAssetMetricCandidate incoming current then
        target.map fun s => if exportIdentity s = exportIdentity incoming then incoming else s
      else target

def canonicalAssetMetrics (samples : List LabeledMetric) : List LabeledMetric :=
  (samples.foldl addCandidate []).insertionSort fun a b => exportIdentity a ≤ exportIdentity b

/-- What is prepared: the gauge of an asset, a sample of one, or a sample of the hub with its
normalized labels. -/
inductive Item
  | info (assetID : String) (m : AssetMeta)
  | metric (assetID : String) (m : AssetMeta) (s : LabeledMetric)
  | hub (scope : String) (s : LabeledMetric) (labels : Labels)
      (h : normalizeHubMetricLabels scope s.metric s.labels = .ok labels)

def Item.estimate : Item → ℕ
  | info assetID m => estimatedExportBytes (assetInfo assetID m)
  | metric assetID m s => estimatedExportBytes (assetMetric assetID m s)
  | hub scope s labels _ => estimatedExportBytes (hubMetric scope s.metric labels s.value)

def exportBytes (items : List Item) : ℕ := (items.map Item.estimate).sum

variable (src : Source)

/-- The samples of an asset, or of a scope of the hub. -/
abbrev Group := String × List LabeledMetric

def validAsset (g : Group) : Bool :=
  validAssetExportMeta g.1 (src.assetMetadata g.1) && g.2.all fun s =>
    s.metric ≠ "" && (metricSampleEnvelopeBytes
      ⟨g.1, "", s.metric, "export", s.value, zeroTime, s.labels⟩).toOption.isSome

def assetItems (g : Group) : List Item :=
  let m := src.assetMetadata g.1
  .info g.1 m :: (canonicalAssetMetrics g.2).map (.metric g.1 m)

def validHub (g : Group) : Bool :=
  g.2.all fun s =>
    match normalizeHubMetricLabels g.1 s.metric s.labels with
    | .error _ => true
    | .ok labels => (metricSampleEnvelopeBytes
      ⟨"", g.1, s.metric, expectedHubUnit s.metric, s.value, zeroTime, labels⟩).toOption.isSome

def hubItem (scope : String) (s : LabeledMetric) : Option Item :=
  match h : normalizeHubMetricLabels scope s.metric s.labels with
  | .error _ => none
  | .ok labels => some (.hub scope s labels h)

def hubItems (g : Group) : List Item := g.2.filterMap (hubItem g.1)

/-- The loops of `Collect` over the assets and over the scopes, with the samples read and the
estimate so far. -/
def prepare (maxSamples : ℕ) (valid : Group → Bool) (items : Group → List Item) :
    ℕ → ℕ → List Group → Option ℕ
  | _, bytes, [] => some bytes
  | rawSamples, bytes, g :: rest =>
    if maxSamples < rawSamples + g.2.length ∨ valid g = false ∨
      maxPrometheusExportBytes < bytes + exportBytes (items g) then none
    else prepare maxSamples valid items (rawSamples + g.2.length) (bytes + exportBytes (items g)) rest

def metricDesc (cache : List String) (sanitized : String) : Option (List String) :=
  if sanitized ∈ cache then some cache
  else if maxPrometheusAssetMetricSeries ≤ cache.length then none
  else some (sanitized :: cache)

def buildHubMetric (scope metric : String) (labels : Labels) (value : BitVec 64) : Option Series :=
  (normalizeHubMetricLabels (trimSpace scope) (trimSpace metric) labels).toOption.map fun labels =>
    hubMetric (trimSpace scope) (trimSpace metric) labels value

def Item.build (cache : List String) : Item → Option (Series × List String)
  | info assetID m => some (assetInfo assetID m, cache)
  | metric assetID m s =>
    (metricDesc cache (sanitizeMetricName s.metric)).map (assetMetric assetID m s, ·)
  | hub scope s labels _ => (buildHubMetric scope s.metric labels s.value).map (·, cache)

/-- An emitted series with its estimate, and whether it is the first of its family. -/
structure Entry extends Series where
  estimate : ℕ
  opens : Bool

def emit : List String → List String → List Item → List Entry
  | _, _, [] => []
  | cache, families, i :: rest =>
    match i.build cache with
    | none => emit cache families rest
    | some (s, cache) =>
      ⟨s, i.estimate, s.name ∉ families⟩ :: emit cache (s.name :: families) rest

def byName (groups : List Group) : List Group := groups.insertionSort (·.1 ≤ ·.1)

def items : List Item :=
  (byName src.latestSnapshots).flatMap (assetItems src) ++
    (byName src.hubSnapshots).flatMap hubItems

def collect : List Entry :=
  if maxPrometheusSnapshotAssets < src.latestSnapshots.length then []
  else
    match (prepare maxPrometheusAssetMetricSeries (validAsset src) (assetItems src) 0 0
      (byName src.latestSnapshots)).bind fun bytes =>
        prepare (3 * maxHubMetricSeriesPerScope) validHub hubItems 0 bytes
          (byName src.hubSnapshots) with
    | none => []
    | some _ => emit [] [] (items src)

/-- A way to print values. -/
structure Format where
  text : BitVec 64 → String
  short : ∀ value, (text value).utf8ByteSize ≤ 24

def escape (value : String) : String :=
  String.ofList (value.toList.flatMap fun c =>
    if c = '\n' then ['\\', 'n'] else if c = '\\' ∨ c = '"' then ['\\', c] else [c])

def labelPairs : String → Labels → String
  | _, [] => "\x7d"
  | separator, e :: rest => separator ++ e.1 ++ "=\"" ++ escape e.2 ++ "\"" ++ labelPairs "," rest

variable (format : Format)

/-- What a series adds to the text: its line, after the two lines of a family that it opens. -/
def Entry.text (e : Entry) : String :=
  (if e.opens then "# HELP " ++ metricPrefix ++ e.name ++ " " ++ e.help ++ "\n# TYPE " ++
    metricPrefix ++ e.name ++ " gauge\n" else "") ++
  metricPrefix ++ e.name ++ labelPairs "\x7b" e.labels ++ " " ++ format.text e.value ++ "\n"

def Entry.textBytes (e : Entry) : ℕ := (e.text format).utf8ByteSize

/-- The text within the limit, as every series adds at most its estimate. The text format sorts
the families, which keeps the length. -/
def Bounded (entries : List Entry) : Prop :=
  (entries.map (·.textBytes format)).sum ≤ maxPrometheusExportBytes ∧
    ∀ e ∈ entries, e.textBytes format ≤ e.estimate

def Series.escapedBytes (s : Series) : ℕ := (s.labels.map fun e => (escape e.2).utf8ByteSize).sum

/-- The name is short against the values of the labels. -/
def Series.ShortName (s : Series) : Prop :=
  s.name.utf8ByteSize + s.escapedBytes + (format.text s.value).utf8ByteSize ≤ 150 + 3 * s.valueBytes

section

variable {format} {s : Series} {n : ℕ} {cache : List String}

def keyBytes (keys : List String) : ℕ := (keys.map fun key => key.utf8ByteSize + 4).sum

theorem size_labelPairs {separator : String} (h : separator.utf8ByteSize = 1) (labels : Labels) :
    (labelPairs separator labels).utf8ByteSize = 1 + keyBytes (labels.map Prod.fst) +
      (labels.map fun e => (escape e.2).utf8ByteSize).sum := by
  induction labels generalizing separator with
  | nil => rfl
  | cons e labels ih =>
    have hrest : (labelPairs "," labels).utf8ByteSize = _ := ih (by decide)
    have hparts : "=\"".utf8ByteSize = 2 ∧ "\"".utf8ByteSize = 1 := by decide
    simp only [labelPairs, keyBytes, String.utf8ByteSize_append, map_cons, sum_cons] at hrest ⊢
    omega

theorem size_text (e : Entry) : e.textBytes format =
    (if e.opens then 43 + 2 * e.name.utf8ByteSize + e.help.utf8ByteSize else 0) + 13 +
      e.name.utf8ByteSize + keyBytes (e.labels.map Prod.fst) + e.escapedBytes +
      (format.text e.value).utf8ByteSize := by
  have hparts : "# HELP ".utf8ByteSize = 7 ∧ " ".utf8ByteSize = 1 ∧ "\n# TYPE ".utf8ByteSize = 8 ∧
    " gauge\n".utf8ByteSize = 7 ∧ "\n".utf8ByteSize = 1 ∧ metricPrefix.utf8ByteSize = 10 := by decide
  have hpairs : (labelPairs "\x7b" e.labels).utf8ByteSize = _ := size_labelPairs (by decide) e.labels
  unfold Entry.textBytes Entry.text Series.escapedBytes
  split
  all_goals
    simp only [String.utf8ByteSize_append, String.utf8ByteSize_empty, hparts, hpairs]
    omega

theorem size_escape (value : String) : (escape value).utf8ByteSize ≤ 2 * value.utf8ByteSize := by
  rw [utf8ByteSize_eq_sum, utf8ByteSize_eq_sum, escape, String.toList_ofList]
  induction value.toList with
  | nil => simp
  | cons c l ih =>
    have hpos := c.utf8Size_pos
    have hparts : '\\'.utf8Size = 1 ∧ 'n'.utf8Size = 1 := by decide
    rw [flatMap_cons, map_append, sum_append, map_cons, sum_cons]
    split_ifs
    all_goals simp only [map_cons, map_nil, sum_cons, sum_nil]
    all_goals omega

theorem escapedBytes_le (s : Series) : s.escapedBytes ≤ 2 * s.valueBytes := by
  rw [Series.escapedBytes, Series.valueBytes, Nat.two_mul, ← sum_map_add]
  exact sum_le_sum fun e _ => (size_escape e.2).trans_eq (Nat.two_mul _)

/-- An estimate is enough for the series, but for a long name where it opens its family. -/
def Enough (format : Format) (s : Series) (n : ℕ) : Prop :=
  ∀ opens, (Entry.mk s n opens).textBytes format ≤ n ↔ (opens = true → s.ShortName format)

theorem enough_of_small (hname : s.name.utf8ByteSize ≤ 28) (hhelp : s.help.utf8ByteSize ≤ 66)
    (hkeys : keyBytes (s.labels.map Prod.fst) ≤ 108) (hn : 512 + 3 * s.valueBytes ≤ n) :
    Enough format s n := by
  have hescaped := escapedBytes_le s
  have hvalue := format.short s.value
  intro opens
  rw [size_text]
  unfold Series.ShortName
  refine iff_of_true ?_ fun _ => by omega
  dsimp only
  split <;> omega

theorem enough_assetMetric (assetID : String) (m : AssetMeta) (sample : LabeledMetric) :
    Enough format (assetMetric assetID m sample)
      (estimatedExportBytes (assetMetric assetID m sample)) := by
  generalize hs : assetMetric assetID m sample = s
  have hkeys : s.labels.map Prod.fst =
      (assetLabels "" ⟨"", "", "", "", "", "", ""⟩).map Prod.fst ++ assetMetricLabelKeys := by
    simp [← hs, assetMetric, assetLabels, Function.comp_def]
  have hsum : keyBytes (s.labels.map Prod.fst) = 288 := by
    rw [hkeys]
    decide +kernel
  have hhelp : s.help.utf8ByteSize = 18 + s.name.utf8ByteSize := by
    rw [← hs, assetMetric, String.utf8ByteSize_append]
    rfl
  have hescaped := escapedBytes_le s
  have hvalue := format.short s.value
  intro opens
  rw [size_text, hsum, hhelp]
  unfold Series.ShortName estimatedExportBytes
  cases opens
  · simp only [Bool.false_eq_true, if_false, false_imp_iff, iff_true]
    omega
  · simp only [if_true, true_imp_iff]
    omega

theorem enough_hubMetric {scope metric : String} {raw labels : Labels} {value : BitVec 64}
    (h : normalizeHubMetricLabels scope metric raw = .ok labels)
    (hs : buildHubMetric scope metric labels value = some s) :
    Enough format s (estimatedExportBytes (hubMetric scope metric labels value)) := by
  obtain ⟨hkeys, hclean⟩ := normalizeHubMetricLabels_ok h
  have htrim : hubMetricLabelKeys (trimSpace scope) (trimSpace metric) =
      hubMetricLabelKeys scope metric := by
    unfold hubMetricLabelKeys
    rw [trimSpace_trimSpace, trimSpace_trimSpace]
  have hbuilt : hubMetric (trimSpace scope) (trimSpace metric) labels value = s := by
    rw [buildHubMetric, normalizeHubMetricLabels_idem (htrim.trans hkeys) hclean] at hs
    exact Option.some.inj hs
  obtain ⟨hname, hhelp, hsum⟩ := hubMetricLabelKeys_cases (P := fun m keys =>
    (sanitizeMetricName m).utf8ByteSize ≤ 28 ∧ ("LabTether hub metric: " ++ m).utf8ByteSize ≤ 66 ∧
      keyBytes ("scope" :: keys) ≤ 108) hkeys (by decide)
  rw [← hbuilt]
  refine enough_of_small hname hhelp ?_ ?_
  · simpa [hubMetric, htrim, hkeys, Function.comp_def] using hsum
  · have hscope := utf8ByteSize_trimSpace_le scope
    simp only [estimatedExportBytes, Series.valueBytes, hubMetric, htrim, map_cons, sum_cons]
    omega

theorem Item.enough {i : Item} {cache' : List String} (h : i.build cache = some (s, cache')) :
    Enough format s i.estimate := by
  cases i with
  | info assetID m =>
    cases h
    refine enough_of_small (s := assetInfo assetID m) (Nat.le_of_ble_eq_true rfl)
      (Nat.le_of_ble_eq_true rfl) (Nat.le_of_ble_eq_true rfl) ?_
    simp only [estimate, estimatedExportBytes]
    omega
  | metric assetID m sample =>
    obtain ⟨_, -, heq⟩ := Option.map_eq_some_iff.1 h
    obtain ⟨rfl, -⟩ := Prod.mk.inj heq
    exact enough_assetMetric assetID m sample
  | hub scope sample labels hlabels =>
    rw [build, Option.map_eq_some_iff] at h
    obtain ⟨_, hbuild, heq⟩ := h
    obtain ⟨rfl, -⟩ := Prod.mk.inj heq
    exact enough_hubMetric hlabels hbuild

theorem emit_spec (format : Format) (cache families : List String) (items : List Item) :
    ((emit cache families items).map Entry.estimate).sum ≤ exportBytes items ∧
      ∀ e ∈ emit cache families items, e.textBytes format ≤ e.estimate ↔
        (e.opens = true → e.ShortName format) := by
  unfold exportBytes
  induction items generalizing cache families with
  | nil => exact ⟨le_rfl, by simp [emit]⟩
  | cons i items ih =>
    unfold emit
    rw [map_cons, sum_cons]
    split
    · obtain ⟨hsum, hall⟩ := ih cache families
      exact ⟨hsum.trans (Nat.le_add_left _ _), hall⟩
    next s cache' hbuild =>
      obtain ⟨hsum, hall⟩ := ih cache' (s.name :: families)
      rw [map_cons, sum_cons]
      exact ⟨Nat.add_le_add_left hsum _, forall_mem_cons.2 ⟨Item.enough hbuild _, hall⟩⟩

theorem prepare_some {maxSamples raw bytes : ℕ} {valid : Group → Bool} {f : Group → List Item}
    {groups : List Group} (h : prepare maxSamples valid f raw bytes groups = some n)
    (hbytes : bytes ≤ maxPrometheusExportBytes) :
    n = bytes + exportBytes (groups.flatMap f) ∧ n ≤ maxPrometheusExportBytes := by
  induction groups generalizing raw bytes with
  | nil =>
    cases h
    exact ⟨rfl, hbytes⟩
  | cons g groups ih =>
    unfold prepare at h
    split_ifs at h with hstop
    obtain ⟨hn, hle⟩ := ih h (by omega)
    refine ⟨?_, hle⟩
    rw [hn, flatMap_cons, exportBytes, exportBytes, exportBytes, map_append, sum_append, Nat.add_assoc]

theorem collect_cases : collect src = [] ∨
    (collect src = emit [] [] (items src) ∧ exportBytes (items src) ≤ maxPrometheusExportBytes) := by
  unfold collect
  split
  · exact .inl rfl
  split
  · exact .inl rfl
  next n hn =>
    obtain ⟨bytes, hassets, hhubs⟩ := Option.bind_eq_some_iff.1 hn
    obtain ⟨rfl, hle⟩ := prepare_some hassets (Nat.zero_le _)
    obtain ⟨rfl, hle⟩ := prepare_some hhubs hle
    refine .inr ⟨rfl, ?_⟩
    rw [items, exportBytes, map_append, sum_append]
    rwa [Nat.zero_add] at hle

/-- The limit is a real bound, and the estimate of every series one, exactly where the first series
of each family of the snapshot has a short name. -/
theorem scrape_bounded_iff (format : Format) (src : Source) : Bounded format (collect src) ↔
    (collect src ≠ [] → ∀ e ∈ emit [] [] (items src), e.opens = true → e.ShortName format) := by
  rcases collect_cases src with hnone | ⟨hall, hle⟩
  · simp [hnone, Bounded]
  rw [hall]
  obtain ⟨hsum, henough⟩ := emit_spec format [] [] (items src)
  constructor
  · exact fun h _ e he => (henough e he).1 (h.2 e he)
  · intro h
    have hfits : ∀ e ∈ emit [] [] (items src), e.textBytes format ≤ e.estimate :=
      fun e he => (henough e he).2 (h (ne_nil_of_mem he) e he)
    exact ⟨(sum_le_sum hfits).trans (hsum.trans hle), hfits⟩

/-- A metric name of 200 characters takes more than its estimate. -/
theorem long_name_underestimated : ¬ Bounded ⟨fun _ => "0", fun _ => by decide⟩ (collect
    ⟨[("nas", [⟨String.ofList (replicate 200 'a'), 0, [], 0⟩])],
      fun _ => ⟨"", "", "", "", "", "", ""⟩, []⟩) := by
  refine fun h => absurd h.2 ?_
  decide +kernel

end

end LabTether.PromExport
