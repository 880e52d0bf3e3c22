import LabTether.Telemetry
import LabTether.Transaction

/-!
Writing metric samples (`internal/persistence/postgres_metric_ingestion.go` and
`telemetry_sample_bounds.go`). A batch is checked as a whole and then sample by sample; what is
written is the normalized form of each sample. Times have the resolution of the database, a
microsecond, and a time outside its range fails the insert.
-/
namespace LabTether.Telemetry

open GoStrings Transaction List

def maxMetricSamplesPerAppend : ℕ := 50000
def maxMetricAppendBytes : ℕ := 64 * 1024 * 1024
def maxHubMetricSeriesPerScope : ℕ := 1024

/-- One round of the loop of `validateMetricSampleBatch`, with the bytes so far. -/
def addSampleBytes (totalBytes : ℕ) (entry : MetricSample × ℕ) : Except String ℕ :=
  match metricSampleEnvelopeBytes entry.1 with
  | .error e => .error ("metric sample " ++ toString entry.2 ++ ": " ++ e)
  | .ok sampleBytes =>
    if maxMetricAppendBytes < totalBytes + sampleBytes then
      .error "metric sample batch byte limit exceeded"
    else .ok (totalBytes + sampleBytes)

def validateMetricSampleBatch (samples : List MetricSample) : Except String ℕ :=
  if maxMetricSamplesPerAppend < samples.length then
    .error "metric sample batch count limit exceeded"
  else samples.zipIdx.foldlM addSampleBytes 0

def hubMetricSeriesKey (sample : MetricSample) : String :=
  sample.metric ++ "\x00" ++ if sample.labels = [] then "\x7b\x7d" else sample.labels.json

/-- The samples to write, and the hub series met so far with their scopes. -/
structure Incoming where
  (assetSamples hubSamples : List MetricSample)
  hubSeries : List (String × String)

/-- A sample without a time is of now. -/
def stampedAt (now collectedAt : ℤ) : ℤ := if collectedAt = zeroTime then now else collectedAt

def trimAssetSample (now : ℤ) (sample : MetricSample) : MetricSample :=
  { sample with
    assetID := trimSpace sample.assetID
    scope := trimSpace sample.scope
    metric := trimSpace sample.metric
    unit := trimSpace sample.unit
    collectedAt := stampedAt now sample.collectedAt }

/-- One round of the loop of `AppendSamples`. -/
def addIncoming (now : ℤ) (st : Incoming) (sample : MetricSample) : Except String Incoming :=
  if trimSpace sample.scope ≠ "" then do
    let sm ← normalizeHubMetricSample { sample with scope := trimSpace sample.scope }
    let series := (sm.scope, hubMetricSeriesKey sm)
    let hubSeries := if series ∈ st.hubSeries then st.hubSeries else st.hubSeries ++ [series]
    if maxHubMetricSeriesPerScope < (hubSeries.filter fun e => e.1 = sm.scope).length then
      .error "hub metric snapshot series limit exceeded"
    else .ok ⟨st.assetSamples,
      st.hubSamples ++ [{ sm with collectedAt := stampedAt now sm.collectedAt }], hubSeries⟩
  else
    let sm := trimAssetSample now sample
    if sm.assetID = "" ∨ sm.metric = "" ∨ sm.unit = "" then
      .error "asset metric sample requires non-empty asset_id, metric, and unit"
    else .ok ⟨st.assetSamples ++ [sm], st.hubSamples, st.hubSeries⟩

/-- The range of `timestamptz`, as microseconds since 1970. -/
def storableTime (t : ℤ) : Prop := -210866803200000000 ≤ t ∧ t < 9224318016000000000
  deriving Decidable

/-- What a call wrote, and how many samples of unknown assets it left out. -/
structure Appended where
  (assetSamples hubSamples : List MetricSample)
  skipped : ℕ
deriving DecidableEq

/-- `AppendSamples`. Samples of unknown assets are reported in an error after the commit. -/
def appendSamples (now : ℤ) (knownAsset : String → Bool) (samples : List MetricSample) :
    Except String Appended :=
  if samples = [] then .ok ⟨[], [], 0⟩
  else do
    let _ ← validateMetricSampleBatch samples
    let st ← samples.foldlM (addIncoming now) ⟨[], [], []⟩
    if ∀ sm ∈ st.assetSamples ++ st.hubSamples, storableTime sm.collectedAt then
      .ok ⟨st.assetSamples.filter fun sm => knownAsset sm.assetID, st.hubSamples,
        (st.assetSamples.filter fun sm => !knownAsset sm.assetID).length⟩
    else .error "timestamp out of range"

section

variable {s s' : MetricSample}

def labelBytes (labels : Labels) : ℕ := if labels = [] then 0 else labels.json.utf8ByteSize

structure Envelope (s : MetricSample) : Prop where
  finite : isFinite s.value = true
  fields : ∀ f ∈ limitedFields s, f.2.1.utf8ByteSize ≤ f.2.2 ∧ containsNUL f.2.1 = false
  count : s.labels.length ≤ maxMetricLabelsPerSample
  keys : ∀ e ∈ s.labels, e.1 ≠ "" ∧ e.1.utf8ByteSize ≤ maxMetricLabelKeyBytes ∧
    containsNUL e.1 = false
  values : ∀ e ∈ s.labels, e.2.utf8ByteSize ≤ maxMetricLabelValueBytes ∧ containsNUL e.2 = false
  labelBytes : labelBytes s.labels ≤ maxMetricLabelsBytes
  total : 32 + ((limitedFields s).map fun f => f.2.1.utf8ByteSize).sum +
    Telemetry.labelBytes s.labels ≤ maxMetricSampleBytes

theorem exists_envelopeBytes_iff : (∃ n, metricSampleEnvelopeBytes s = .ok n) ↔ Envelope s := by
  have hbytes : (if s.labels = [] then 0 else s.labels.json.utf8ByteSize) =
      Telemetry.labelBytes s.labels := rfl
  unfold metricSampleEnvelopeBytes
  simp only [hbytes]
  constructor
  · rintro ⟨n, h⟩
    iterate 7
      split at h
      · cases h
    next hfinite _ hfields hcount hkeys hvalues hbytes htotal =>
      rw [find?_eq_none] at hfields
      simp only [Bool.or_eq_true, decide_eq_true_eq, not_or, not_lt, Bool.not_eq_true] at hfields
      simp only [any_eq_true, Bool.or_eq_true, decide_eq_true_eq, not_exists, not_and, not_or,
        not_lt, Bool.not_eq_true] at hkeys hvalues
      exact ⟨by simpa using hfinite, hfields, by omega,
        fun e he => ⟨(hkeys e he).1.1, (hkeys e he).1.2, (hkeys e he).2⟩, hvalues,
        Nat.le_of_not_lt hbytes, Nat.le_of_not_lt htotal⟩
  · intro h
    refine ⟨32 + ((limitedFields s).map fun f => f.2.1.utf8ByteSize).sum +
      Telemetry.labelBytes s.labels, ?_⟩
    have hfields : (limitedFields s).find? (fun f => f.2.2 < f.2.1.utf8ByteSize ||
        containsNUL f.2.1) = none := by
      rw [find?_eq_none]
      intro f hf
      obtain ⟨hsize, hnul⟩ := h.fields f hf
      simp only [hnul, Bool.or_false, decide_eq_true_eq]
      omega
    have hkeys : ¬ (s.labels.any fun e =>
        e.1 = "" || maxMetricLabelKeyBytes < e.1.utf8ByteSize || containsNUL e.1) = true := by
      simp only [any_eq_true, not_exists, not_and]
      intro e he
      obtain ⟨hne, hsize, hnul⟩ := h.keys e he
      simp only [hne, hnul, decide_false, Bool.false_or, Bool.or_false, decide_eq_true_eq]
      omega
    have hvalues : ¬ (s.labels.any fun e =>
        maxMetricLabelValueBytes < e.2.utf8ByteSize || containsNUL e.2) = true := by
      simp only [any_eq_true, not_exists, not_and]
      intro e he
      obtain ⟨hsize, hnul⟩ := h.values e he
      simp only [hnul, Bool.or_false, decide_eq_true_eq]
      omega
    rw [if_neg (by simp [h.finite]), hfields]
    rw [if_neg (Nat.not_lt.2 h.count), if_neg hkeys, if_neg hvalues,
      if_neg (Nat.not_lt.2 h.labelBytes), if_neg (Nat.not_lt.2 h.total)]

/-- Part of a text, in length and in characters. -/
structure Within (a b : String) : Prop where
  size : a.utf8ByteSize ≤ b.utf8ByteSize
  chars : ∀ c ∈ a.toList, c ∈ b.toList

theorem Within.refl (a : String) : Within a a := ⟨le_rfl, fun _ h => h⟩

theorem Within.trim (a : String) : Within (trimSpace a) a :=
  ⟨utf8ByteSize_trimSpace_le a, fun _ h => mem_trimSpace h⟩

theorem Within.no_nul {a b : String} (h : Within a b) (hb : containsNUL b = false) :
    containsNUL a = false := by
  simp only [containsNUL, any_eq_false] at hb ⊢
  exact fun c hc => hb c (h.chars c hc)

theorem Envelope.mono (h : Envelope s) (hid : Within s'.assetID s.assetID)
    (hscope : Within s'.scope s.scope) (hmetric : Within s'.metric s.metric)
    (hunit : Within s'.unit s.unit) (hvalue : s'.value = s.value) (hlabels : s'.labels = s.labels) :
    Envelope s' := by
  have hfields := h.fields
  have htotal := h.total
  have h1 := hid.size
  have h2 := hscope.size
  have h3 := hmetric.size
  have h4 := hunit.size
  simp only [limitedFields, mem_cons, not_mem_nil, or_false, forall_eq_or_imp, forall_eq] at hfields
  simp only [limitedFields, map_cons, map_nil, sum_cons, sum_nil] at htotal
  obtain ⟨⟨hf1, hn1⟩, ⟨hf2, hn2⟩, ⟨hf3, hn3⟩, hf4, hn4⟩ := hfields
  constructor
  · rw [hvalue]
    exact h.finite
  · simp only [limitedFields, mem_cons, not_mem_nil, or_false, forall_eq_or_imp, forall_eq]
    exact ⟨⟨by omega, hid.no_nul hn1⟩, ⟨by omega, hscope.no_nul hn2⟩,
      ⟨by omega, hmetric.no_nul hn3⟩, by omega, hunit.no_nul hn4⟩
  · rw [hlabels]
    exact h.count
  · rw [hlabels]
    exact h.keys
  · rw [hlabels]
    exact h.values
  · rw [hlabels]
    exact h.labelBytes
  · simp only [limitedFields, map_cons, map_nil, sum_cons, sum_nil, hlabels]
    omega

end

section

variable {scope metric : String} {labels ls : Labels} {keys : List String}

theorem hubMetricLabelKeys_cases {P : String → List String → Prop}
    (h : hubMetricLabelKeys scope metric = some keys)
    (hP : ∀ e ∈ [("alerts_firing", []), ("alerts_rules", []),
      ("alert_evaluation_duration_ms", ["rule_id", "rule_name"]),
      ("site_reliability_score", ["site_id", "site_name"]),
      ("synthetic_latency_ms", ["check_id", "check_name", "check_type"]),
      ("synthetic_status", ["check_id", "check_name", "check_type"])], P e.1 e.2) :
    P (trimSpace metric) keys := by
  unfold hubMetricLabelKeys at h
  split at h <;> cases h
  all_goals next hmetric => exact hmetric ▸ hP (_, _) (by simp)

def CleanLabel (labels : Labels) (e : String × String) : Prop :=
  (∃ value, (e.1, value) ∈ labels ∧ e.2 = trimSpace value) ∧ (hasSuffix e.1 "_id" = true → e.2 ≠ "")

variable {e : String × String}

theorem normalizeHubLabel_ok {key : String}
    (h : normalizeHubLabel scope metric labels key = .ok e) :
    e.1 = key ∧ CleanLabel labels e := by
  revert h
  fun_cases normalizeHubLabel scope metric labels key
  all_goals rintro ⟨⟩
  rename_i value hvalue hid
  obtain ⟨before, after, hsplit, -⟩ := lookup_eq_some_iff.1 hvalue
  refine ⟨rfl, ⟨value, by simp [hsplit], rfl⟩, fun hsuffix hempty => hid ?_⟩
  exact Bool.and_eq_true_iff.2 ⟨hsuffix, decide_eq_true hempty⟩

theorem mapM_normalizeHubLabel_ok (h : keys.mapM (normalizeHubLabel scope metric labels) = .ok ls) :
    ls.map Prod.fst = keys ∧ ∀ e ∈ ls, CleanLabel labels e := by
  induction keys generalizing ls with
  | nil =>
    rw [mapM_nil] at h
    cases h
    simp
  | cons key keys ih =>
    rw [mapM_cons] at h
    obtain ⟨e, he, h⟩ := bind_eq_ok.1 h
    obtain ⟨rest, hrest, h⟩ := bind_eq_ok.1 h
    cases h
    obtain ⟨hkey, hclean⟩ := normalizeHubLabel_ok he
    obtain ⟨hkeys, hall⟩ := ih hrest
    exact ⟨by rw [map_cons, hkey, hkeys], forall_mem_cons.2 ⟨hclean, hall⟩⟩

theorem normalizeHubMetricLabels_ok (h : normalizeHubMetricLabels scope metric labels = .ok ls) :
    hubMetricLabelKeys scope metric = some (ls.map Prod.fst) ∧ ∀ e ∈ ls, CleanLabel labels e := by
  revert h
  fun_cases normalizeHubMetricLabels scope metric labels
  case case2 hkeys =>
    rintro ⟨⟩
    simp [hkeys]
  case case5 hkeys _ _ =>
    intro h
    obtain ⟨hfst, hclean⟩ := mapM_normalizeHubLabel_ok h
    exact ⟨by rw [hkeys, hfst], hclean⟩
  all_goals nofun

theorem lookup_of_mem_nodup (hnodup : (ls.map Prod.fst).Nodup) (he : e ∈ ls) :
    ls.lookup e.1 = some e.2 := by
  cases hlookup : ls.lookup e.1 with
  | none => simpa using lookup_eq_none_iff.1 hlookup e he
  | some value =>
    obtain ⟨before, after, hsplit, -⟩ := lookup_eq_some_iff.1 hlookup
    rw [inj_on_of_nodup_map hnodup he (by simp [hsplit] : (e.1, value) ∈ ls) rfl]

theorem normalizeHubMetricLabels_idem
    (hkeys : hubMetricLabelKeys scope metric = some (ls.map Prod.fst))
    (hclean : ∀ e ∈ ls, CleanLabel labels e) : normalizeHubMetricLabels scope metric ls = .ok ls := by
  have hnodup : (ls.map Prod.fst).Nodup :=
    hubMetricLabelKeys_cases (P := fun _ keys => keys.Nodup) hkeys (by decide)
  have hlabel : ∀ e ∈ ls, normalizeHubLabel scope metric ls e.1 = .ok e := by
    intro e he
    obtain ⟨⟨value, -, hvalue⟩, hid⟩ := hclean e he
    have htrim : trimSpace e.2 = e.2 := by rw [hvalue, trimSpace_trimSpace]
    have hcheck : ¬ (hasSuffix e.1 "_id" && e.2 = "") = true := by simpa using hid
    unfold normalizeHubLabel
    rw [lookup_of_mem_nodup hnodup he]
    simp only [htrim]
    rw [if_neg hcheck]
  have hmapM : ∀ l : Labels, (∀ e ∈ l, e ∈ ls) →
      (l.map Prod.fst).mapM (normalizeHubLabel scope metric ls) = .ok l := by
    intro l hl
    induction l with
    | nil =>
      rw [map_nil, mapM_nil]
      rfl
    | cons e l ih =>
      rw [map_cons, mapM_cons, hlabel e (hl e (.head _)), ok_bind, ih fun f hf => hl f (.tail _ hf)]
      rfl
  unfold normalizeHubMetricLabels
  rw [hkeys]
  simp only [map_eq_nil_iff, length_map, ne_eq, not_true_eq_false, if_false]
  split
  next hnil => rw [hnil]
  next => exact hmapM ls fun _ h => h

end

section

variable {sample sm : MetricSample} {now : ℤ}

structure StoredAsset (sm : MetricSample) : Prop where
  assetID : trimSpace sm.assetID = sm.assetID ∧ sm.assetID ≠ ""
  metric : trimSpace sm.metric = sm.metric ∧ sm.metric ≠ ""
  scope : sm.scope = ""
  envelope : Envelope sm
  time : sm.collectedAt ≠ zeroTime

structure StoredHub (sm : MetricSample) : Prop where
  assetID : sm.assetID = ""
  normal : normalizeHubMetricSample sm = .ok sm
  schema : hubMetricLabelKeys sm.scope sm.metric = some (sm.labels.map Prod.fst)
  scope : sm.scope.utf8ByteSize ≤ maxMetricIdentityBytes ∧ containsNUL sm.scope = false
  metric : sm.metric.utf8ByteSize ≤ maxMetricNameBytes
  values : ∀ e ∈ sm.labels, e.2.utf8ByteSize ≤ maxMetricLabelValueBytes ∧ containsNUL e.2 = false
  time : sm.collectedAt ≠ zeroTime

theorem stampedAt_ne (hnow : now ≠ zeroTime) (t : ℤ) : stampedAt now t ≠ zeroTime := by
  unfold stampedAt
  split
  · exact hnow
  · assumption

theorem trimAssetSample_stored (hnow : now ≠ zeroTime) (h : Envelope sample)
    (hscope : trimSpace sample.scope = "") (hid : trimSpace sample.assetID ≠ "")
    (hmetric : trimSpace sample.metric ≠ "") : StoredAsset (trimAssetSample now sample) where
  assetID := ⟨trimSpace_trimSpace _, hid⟩
  metric := ⟨trimSpace_trimSpace _, hmetric⟩
  scope := hscope
  envelope := h.mono (Within.trim _) (Within.trim _) (Within.trim _) (Within.trim _) rfl rfl
  time := stampedAt_ne hnow _

theorem normalizeHubMetricSample_ok (h : normalizeHubMetricSample sample = .ok sm) :
    sample.assetID = "" ∧ trimSpace sample.scope ≠ "" ∧
      trimSpace sample.unit = expectedHubUnit (trimSpace sample.metric) ∧
      ∃ ls, normalizeHubMetricLabels (trimSpace sample.scope) (trimSpace sample.metric)
          sample.labels = .ok ls ∧
        sm = ⟨sample.assetID, trimSpace sample.scope, trimSpace sample.metric,
          trimSpace sample.unit, sample.value, sample.collectedAt, ls⟩ := by
  unfold normalizeHubMetricSample at h
  simp only at h
  split at h
  · cases h
  next hscope =>
    obtain ⟨ls, hls, h⟩ := bind_eq_ok.1 h
    split at h
    · cases h
    next hunit =>
      cases h
      push Not at hscope hunit
      exact ⟨hscope.2, hscope.1, hunit, ls, hls, rfl⟩

/-- Normalizing is done once; after it a sample is stored as it is. -/
theorem normalizeHubMetricSample_stored (hnow : now ≠ zeroTime) (henv : Envelope sample)
    (h : normalizeHubMetricSample sample = .ok sm) :
    StoredHub { sm with collectedAt := stampedAt now sm.collectedAt } := by
  obtain ⟨hid, hscope, hunit, ls, hls, rfl⟩ := normalizeHubMetricSample_ok h
  obtain ⟨hkeys, hclean⟩ := normalizeHubMetricLabels_ok hls
  have hfields := henv.fields
  simp only [limitedFields, mem_cons, not_mem_nil, or_false, forall_eq_or_imp, forall_eq] at hfields
  obtain ⟨-, ⟨hsize, hnul⟩, ⟨hmetric, -⟩, -⟩ := hfields
  refine ⟨hid, ?_, hkeys, ⟨?_, (Within.trim _).no_nul hnul⟩, ?_, ?_, stampedAt_ne hnow _⟩
  · have hagain := normalizeHubMetricLabels_idem hkeys hclean
    unfold normalizeHubMetricSample
    simp only [trimSpace_trimSpace]
    rw [if_neg (by simp [hscope, hid]), hagain, ok_bind, if_neg (by simp [hunit])]
  · exact Nat.le_trans (Within.trim _).size hsize
  · exact Nat.le_trans (Within.trim _).size hmetric
  · intro e he
    obtain ⟨⟨value, hmem, hvalue⟩, -⟩ := hclean e he
    obtain ⟨hshort, hclear⟩ := henv.values _ hmem
    rw [hvalue]
    exact ⟨Nat.le_trans (Within.trim _).size hshort, (Within.trim _).no_nul hclear⟩

variable {samples : List MetricSample}

theorem validateMetricSampleBatch_ok {n : ℕ} (h : validateMetricSampleBatch samples = .ok n) :
    ∀ s ∈ samples, Envelope s := by
  unfold validateMetricSampleBatch at h
  split at h
  · cases h
  have hstep : ∀ (total : ℕ) (e : MetricSample × ℕ) (total' : ℕ),
      addSampleBytes total e = .ok total' → Envelope e.1 := by
    intro total e total' hok
    unfold addSampleBytes at hok
    split at hok
    · cases hok
    next bytes hbytes => exact exists_envelopeBytes_iff.1 ⟨bytes, hbytes⟩
  have hall := foldlM_forall (fun _ => True) (fun (e : MetricSample × ℕ) (_ : ℕ) => Envelope e.1)
    (fun total e total' _ _ hok => ⟨trivial, hstep total e total' hok⟩)
    (fun _ _ _ _ _ henv _ => henv) trivial h
  intro s hs
  obtain ⟨i, hi⟩ := getElem?_of_mem hs
  exact hall (s, i) (mk_mem_zipIdx_iff_getElem?.2 hi)

/-- What has been taken in so far is in its stored form. -/
def Incoming.Clean (st : Incoming) : Prop :=
  (∀ sm ∈ st.assetSamples, StoredAsset sm) ∧ ∀ sm ∈ st.hubSamples, StoredHub sm

theorem addIncoming_clean {st st' : Incoming} (hnow : now ≠ zeroTime) (henv : Envelope sample)
    (hclean : st.Clean) (h : addIncoming now st sample = .ok st') : st'.Clean := by
  revert h
  fun_cases addIncoming now st sample
  case case1 =>
    intro h
    obtain ⟨sm, hsm, h⟩ := bind_eq_ok.1 h
    dsimp only at h
    split_ifs at h
    all_goals
      cases h
      refine ⟨hclean.1, forall_mem_append.2 ⟨hclean.2, forall_mem_singleton.2 ?_⟩⟩
      refine normalizeHubMetricSample_stored hnow ?_ hsm
      exact henv.mono (Within.refl _) (Within.trim _) (Within.refl _) (Within.refl _) rfl rfl
  case case2 => nofun
  case case3 hscope _ hfields =>
    rintro ⟨⟩
    push Not at hscope hfields
    refine ⟨forall_mem_append.2 ⟨hclean.1, forall_mem_singleton.2 ?_⟩, hclean.2⟩
    exact trimAssetSample_stored hnow henv hscope hfields.1 hfields.2.1

/-- Everything a call writes is in its stored form, at a time the database can hold. -/
theorem appendSamples_stored {knownAsset : String → Bool} {written : Appended}
    (hnow : now ≠ zeroTime) (h : appendSamples now knownAsset samples = .ok written) :
    (∀ sm ∈ written.assetSamples, StoredAsset sm ∧ storableTime sm.collectedAt) ∧
      ∀ sm ∈ written.hubSamples, StoredHub sm ∧ storableTime sm.collectedAt := by
  unfold appendSamples at h
  split at h
  · cases h
    simp
  obtain ⟨n, hvalid, h⟩ := bind_eq_ok.1 h
  obtain ⟨st, hst, h⟩ := bind_eq_ok.1 h
  have henv := validateMetricSampleBatch_ok hvalid
  have hclean : st.Clean := foldlM_invariant Incoming.Clean
    (fun _ s _ hs hclean hstep => addIncoming_clean hnow (henv s hs) hclean hstep)
    ⟨by simp, by simp⟩ hst
  split at h
  next htimes =>
    cases h
    refine ⟨?_, ?_⟩
    · intro sm hsm
      have hsm := mem_of_mem_filter hsm
      exact ⟨hclean.1 sm hsm, htimes sm (mem_append_left _ hsm)⟩
    · intro sm hsm
      exact ⟨hclean.2 sm hsm, htimes sm (mem_append_right _ hsm)⟩
  · cases h

end

end LabTether.Telemetry
