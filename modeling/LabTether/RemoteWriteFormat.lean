import LabTether.RemoteWriteLabels

/-!
The remote-write request of accepted samples, read by its schema: one series for each label
set, its labels in order, its timestamps increasing, and the samples as they were given.
-/
namespace LabTether.RemoteWrite

open Telemetry Transaction Grouping Protobuf List

section

variable {sample : SampleWithLabels}

structure Acceptable (sample : SampleWithLabels) : Prop where
  time : 0 < sample.timestamp
  some_label : sample.labels ≠ []
  count : sample.labels.length ≤ maxLabelsPerSample
  metric : (sample.labels.lookup "__name__").any validMetricName = true
  labels : ∀ e ∈ sample.labels, validLabelName e.1 = true ∧ ShortLabel e ∧ containsNUL e.2 = false
  total : 24 + (sample.labels.map fun e => e.1.utf8ByteSize + e.2.utf8ByteSize).sum ≤ maxSampleBytes

theorem validateLabel_eq_ok {e : String × String} : validateLabel e = .ok () ↔
    validLabelName e.1 = true ∧ ShortLabel e ∧ containsNUL e.2 = false := by
  fun_cases validateLabel e
  case case1 h =>
    refine iff_of_false nofun ?_
    rintro ⟨hname, ⟨hshort, -⟩, -⟩
    simp only [hname, Bool.not_true, Bool.false_or, decide_eq_true_eq] at h
    omega
  case case2 hvalue =>
    refine iff_of_false nofun ?_
    rintro ⟨-, ⟨-, hshort⟩, hnul⟩
    simp only [hnul, Bool.or_false, decide_eq_true_eq] at hvalue
    omega
  case case3 h hvalue =>
    simp only [Bool.or_eq_true, Bool.not_eq_true', decide_eq_true_eq, not_or,
      Bool.not_eq_false, not_lt, Bool.not_eq_true] at h hvalue
    exact ⟨fun _ => ⟨h.1, ⟨h.2, hvalue.1⟩, hvalue.2⟩, fun _ => rfl⟩

theorem validateSample_eq_ok : validateSample sample = .ok () ↔ Acceptable sample := by
  unfold validateSample
  constructor
  · intro h
    iterate 3
      split at h
      · cases h
    next htime hcount hmetric =>
    obtain ⟨_, hlabels, h⟩ := bind_eq_ok.1 h
    split at h
    · cases h
    next htotal =>
    push Not at hcount
    exact ⟨by omega, hcount.1, hcount.2, by simpa using hmetric,
      fun e he => validateLabel_eq_ok.1 (forM_eq_ok.1 hlabels e he), by omega⟩
  · intro h
    have htime := h.time
    have hlabels := forM_eq_ok.2 fun e he => validateLabel_eq_ok.2 (h.labels e he)
    rw [if_neg (by omega), if_neg (by simpa using ⟨h.some_label, h.count⟩), if_neg (by simp [h.metric]),
      hlabels, ok_bind, if_neg (by have := h.total; omega)]

theorem Acceptable.metric_mem (h : Acceptable sample) :
    ∃ metric, ("__name__", metric) ∈ sample.labels := by
  obtain ⟨metric, hlookup, -⟩ := (Option.any_eq_true _ _).1 h.metric
  obtain ⟨before, after, hsplit, -⟩ := lookup_eq_some_iff.1 hlookup
  exact ⟨metric, by simp [hsplit]⟩

end

section

/-- What the grouping loop has done with the samples so far. -/
structure Grouped (samples : List SampleWithLabels) (order : List WriteSeries) : Prop where
  keys : (keys order).Nodup
  contents : (contents order).Perm samples
  items : ∀ b ∈ order, ∀ s ∈ b.items, labelFingerprint s.labels = b.key
  header : ∀ b ∈ order, ∃ s ∈ b.items, b.header = sortedLabels s.labels

variable {samples : List SampleWithLabels} {sample : SampleWithLabels}
  {order order' : List WriteSeries}

theorem Grouped.put (h : Grouped samples order) (sample : SampleWithLabels) :
    Grouped (samples ++ [sample]) (put (fun _ => sortedLabels sample.labels)
      (labelFingerprint sample.labels) sample order) where
  keys := keys_put_nodup h.keys
  contents := (contents_put h.keys).trans (h.contents.append_right [sample])
  items := by
    intro b hb s hs
    rcases mem_put hb with hb | ⟨c, hc, hkey, rfl⟩ | rfl
    · exact h.items b hb s hs
    · rcases mem_append.1 hs with hs | hs
      · exact h.items c hc s hs
      · rw [mem_singleton.1 hs]
        exact hkey.symm
    · rw [mem_singleton.1 hs]
  header := by
    intro b hb
    rcases mem_put hb with hb | ⟨c, hc, -, rfl⟩ | rfl
    · exact h.header b hb
    · obtain ⟨s, hs, heq⟩ := h.header c hc
      exact ⟨s, mem_append_left _ hs, heq⟩
    · exact ⟨sample, .head _, rfl⟩

theorem foldlM_addSample (h : Grouped samples order) {rest : List SampleWithLabels}
    (hrun : rest.foldlM addSample order = .ok order') :
    (∀ s ∈ rest, Acceptable s) ∧ Grouped (samples ++ rest) order' := by
  induction rest generalizing samples order with
  | nil =>
    rw [foldlM_nil] at hrun
    cases hrun
    simpa using h
  | cons s rest ih =>
    rw [foldlM_cons] at hrun
    obtain ⟨mid, hstep, hrun⟩ := bind_eq_ok.1 hrun
    unfold addSample at hstep
    split at hstep
    · cases hstep
    next hvalid =>
      cases hstep
      obtain ⟨hall, hgrouped⟩ := ih (h.put s) hrun
      rw [append_assoc] at hgrouped
      exact ⟨forall_mem_cons.2 ⟨validateSample_eq_ok.1 hvalid, hall⟩, hgrouped⟩

theorem sortSamples_perm (b : WriteSeries) : (sortSamples b).items.Perm b.items :=
  perm_insertionSort _ _

theorem contents_sortSamples (order : List WriteSeries) :
    (contents (order.map sortSamples)).Perm (contents order) := by
  induction order with
  | nil => rfl
  | cons b order ih => exact (sortSamples_perm b).append ih

theorem Grouped.sorted (h : Grouped samples order) : Grouped samples (order.map sortSamples) where
  keys := by
    have hkeys : Grouping.keys (order.map sortSamples) = Grouping.keys order := by
      simp [Grouping.keys, sortSamples, Function.comp_def]
    rw [hkeys]
    exact h.keys
  contents := (contents_sortSamples order).trans h.contents
  items := by
    intro b hb s hs
    obtain ⟨c, hc, rfl⟩ := mem_map.1 hb
    exact h.items c hc s ((sortSamples_perm c).mem_iff.1 hs)
  header := by
    intro b hb
    obtain ⟨c, hc, rfl⟩ := mem_map.1 hb
    obtain ⟨s, hs, heq⟩ := h.header c hc
    exact ⟨s, (sortSamples_perm c).mem_iff.2 hs, heq⟩

theorem increasing_of_sorted {l : List SampleWithLabels}
    (hsorted : l.Pairwise fun a b => a.timestamp ≤ b.timestamp) (h : repeatsTimestamp l = false) :
    l.Pairwise fun a b => a.timestamp < b.timestamp := by
  induction l with
  | nil => exact List.Pairwise.nil
  | cons a l ih =>
    obtain ⟨ha, hl⟩ := pairwise_cons.1 hsorted
    rcases l with _ | ⟨b, l⟩
    · exact pairwise_singleton _ _
    simp only [repeatsTimestamp, Bool.or_eq_false_iff, decide_eq_false_iff_not] at h
    refine pairwise_cons.2 ⟨?_, ih hl h.2⟩
    have hab := ha b (.head _)
    intro c hc
    rcases mem_cons.1 hc with rfl | hc
    · omega
    · have hbc := (pairwise_cons.1 hl).1 c hc
      omega

theorem requestSeries_spec (h : requestSeries samples = .ok order) :
    (∀ s ∈ samples, Acceptable s) ∧ Grouped samples order ∧
      ∀ b ∈ order, b.items.Pairwise fun a b => a.timestamp < b.timestamp := by
  obtain ⟨grouped, hgroup, hsort⟩ := bind_eq_ok.1 h
  have hnil : Grouped [] [] := ⟨nodup_nil, List.Perm.nil, by simp, by simp⟩
  obtain ⟨hall, hgrouped⟩ := foldlM_addSample hnil hgroup
  obtain ⟨horder, hok⟩ := mapM_eq_ok hsort
  have heq : ∀ b ∈ grouped, sortSeries b = .ok (sortSamples b) ∧
      repeatsTimestamp (sortSamples b).items = false := by
    intro b hb
    obtain ⟨c, hc⟩ := hok b hb
    unfold sortSeries at hc ⊢
    split at hc
    · cases hc
    next hrepeat => simpa using hrepeat
  have hmap : order = grouped.map sortSamples := by
    rw [horder]
    apply map_congr_left
    intro b hb
    rw [(heq b hb).1]
    rfl
  rw [hmap]
  refine ⟨hall, hgrouped.sorted, ?_⟩
  intro b hb
  obtain ⟨c, hc, rfl⟩ := mem_map.1 hb
  exact increasing_of_sorted (pairwise_insertionSort _ _) (heq c hc).2

end

section

def TimeSeries.labelSet (t : TimeSeries) : Multiset (String × String) := t.labels

open TimeSeries

def SampleWithLabels.labelSet (s : SampleWithLabels) : Multiset (String × String) := s.labels

/-- The series carry the samples: one series for each label set, the labels and the
timestamps in order, and nothing lost, added or changed. -/
structure Carries (series : List TimeSeries) (samples : List SampleWithLabels) : Prop where
  distinct : (series.map labelSet).Nodup
  covers : ∀ labels, labels ∈ series.map labelSet ↔
    labels ∈ samples.map SampleWithLabels.labelSet
  named : ∀ t ∈ series, NameFirst t.labels
  increasing : ∀ t ∈ series, t.samples.Pairwise fun a b => a.timestamp < b.timestamp
  points : (series.flatMap fun t => t.samples.map fun p => (t.labelSet, p.timestamp, p.value)).Perm
    (samples.map fun s => (s.labelSet, s.timestamp, s.value))

/-- What the types of the source give: labels form a map, a time is an `int64`. -/
structure GoSample (s : SampleWithLabels) : Prop where
  labels : IsMap s.labels
  time : s.timestamp < 2 ^ 63

variable {samples : List SampleWithLabels} {order : List WriteSeries} {b : WriteSeries}

section

variable (h : Grouped samples order)
include h

variable {s : SampleWithLabels} (hall : ∀ s ∈ samples, Acceptable s)
include hall

theorem Grouped.sortedLabels_eq (hb : b ∈ order)
    (hs : s ∈ b.items) : s ∈ samples ∧ sortedLabels s.labels = b.header := by
  have hmem : ∀ s ∈ b.items, s ∈ samples := fun s hs =>
    h.contents.mem_iff.1 ((items_sublist hb).subset hs)
  have hshort : ∀ s ∈ b.items, ∀ e ∈ sortedLabels s.labels, ShortLabel e := fun s hs e he =>
    ((hall s (hmem s hs)).labels e ((sortedLabels_perm s.labels).mem_iff.1 he)).2.1
  obtain ⟨first, hfirst, hheader⟩ := h.header b hb
  refine ⟨hmem s hs, ?_⟩
  rw [hheader]
  apply fingerprint_inj (hshort s hs) (hshort first hfirst)
  rw [← labelFingerprint_eq, ← labelFingerprint_eq, h.items b hb s hs, h.items b hb first hfirst]

theorem Grouped.labelSet_eq (hb : b ∈ order)
    (hs : s ∈ b.items) :
    (timeSeries b).labelSet = s.labelSet := by
  have hheader := (h.sortedLabels_eq hall hb hs).2
  unfold labelSet SampleWithLabels.labelSet timeSeries
  rw [← hheader]
  exact Multiset.coe_eq_coe.2 (sortedLabels_perm s.labels)

variable (hgo : ∀ s ∈ samples, GoSample s)
include hgo

theorem Grouped.key_eq {b c : WriteSeries} (hb : b ∈ order) (hc : c ∈ order)
    (heq : (timeSeries b).labelSet = (timeSeries c).labelSet) : b.key = c.key := by
  obtain ⟨s, hs, -⟩ := h.header b hb
  obtain ⟨t, ht, -⟩ := h.header c hc
  rw [h.labelSet_eq hall hb hs, h.labelSet_eq hall hc ht] at heq
  have hmap := (hgo s (h.sortedLabels_eq hall hb hs).1).labels
  rw [← h.items b hb s hs, ← h.items c hc t ht, labelFingerprint_eq, labelFingerprint_eq,
    sortedLabels_eq_of_perm hmap (Multiset.coe_eq_coe.1 heq)]

theorem Grouped.bounded (hcount : samples.length ≤ maxSamplesPerRequest) (hb : b ∈ order) :
    Bounded (timeSeries b) := by
  obtain ⟨first, hfirst, -⟩ := h.header b hb
  obtain ⟨hmem, hheader⟩ := h.sortedLabels_eq hall hb hfirst
  have hperm : b.header.Perm first.labels := hheader ▸ sortedLabels_perm first.labels
  refine ⟨?_, ?_, ?_, ?_⟩
  · exact hperm.length_eq.trans_le (hall first hmem).count
  · intro e he
    exact ((hall first hmem).labels e (hperm.mem_iff.1 he)).2.1
  · have hlen := (items_sublist hb).length_le
    rw [h.contents.length_eq] at hlen
    simp only [timeSeries, length_map]
    omega
  · intro p hp
    obtain ⟨s, hs, rfl⟩ := mem_map.1 hp
    have hs := (h.sortedLabels_eq hall hb hs).1
    exact ⟨(hall s hs).time, (hgo s hs).time⟩

theorem Grouped.carries
    (htimes : ∀ b ∈ order, b.items.Pairwise fun a b => a.timestamp < b.timestamp) :
    Carries (order.map timeSeries) samples where
  distinct := by
    rw [map_map]
    refine pairwise_map.2 ?_
    refine (pairwise_map.1 h.keys).imp_of_mem fun {b c} hb hc hne heq => hne ?_
    exact h.key_eq hall hgo hb hc heq
  covers := by
    intro labels
    rw [map_map]
    constructor
    · intro hlabels
      obtain ⟨b, hb, rfl⟩ := mem_map.1 hlabels
      obtain ⟨s, hs, -⟩ := h.header b hb
      exact mem_map.2 ⟨s, (h.sortedLabels_eq hall hb hs).1, (h.labelSet_eq hall hb hs).symm⟩
    · intro hlabels
      obtain ⟨s, hs, rfl⟩ := mem_map.1 hlabels
      obtain ⟨b, hb, hsb⟩ := mem_flatMap.1 (h.contents.mem_iff.2 hs)
      exact mem_map.2 ⟨b, hb, h.labelSet_eq hall hb hsb⟩
  named := by
    intro t ht
    obtain ⟨b, hb, rfl⟩ := mem_map.1 ht
    obtain ⟨s, hs, hheader⟩ := h.header b hb
    have hmem := (h.sortedLabels_eq hall hb hs).1
    obtain ⟨metric, hmetric⟩ := (hall s hmem).metric_mem
    change NameFirst b.header
    rw [hheader]
    exact sortedLabels_nameFirst (hgo s hmem).labels hmetric
  increasing := by
    intro t ht
    obtain ⟨b, hb, rfl⟩ := mem_map.1 ht
    exact pairwise_map.2 (htimes b hb)
  points := by
    have hpoints : ((order.map timeSeries).flatMap fun t =>
        t.samples.map fun p => (t.labelSet, p.timestamp, p.value)) =
        (Grouping.contents order).map fun s => (s.labelSet, s.timestamp, s.value) := by
      rw [flatMap_map, Grouping.contents, map_flatMap]
      apply flatMap_congr
      intro b hb
      simp only [timeSeries, map_map]
      apply map_congr_left
      intro s hs
      rw [← h.labelSet_eq hall hb hs]
      rfl
    rw [hpoints]
    exact h.contents.map _

end

/-- The body of accepted samples holds the layout of some series: every embedded message
after its exact length, nothing after the last. The reader gets these series back, and they
carry the samples. -/
theorem write_request_format (snappy : Compression) (samples : List SampleWithLabels)
    (hgo : ∀ s ∈ samples, GoSample s) (hne : samples ≠ []) {body : Bytes}
    (h : serializeWriteRequest snappy samples = .ok body) :
    ∃ series, snappy.decode body = some (layout series) ∧
      decodeWriteRequest (layout series) = some series ∧ Carries series samples := by
  unfold serializeWriteRequest at h
  rw [if_neg hne] at h
  split at h
  · cases h
  next hcount =>
  obtain ⟨order, horder, h⟩ := bind_eq_ok.1 h
  obtain ⟨hall, hgrouped, htimes⟩ := requestSeries_spec horder
  have hbounded : ∀ b ∈ order, Bounded (timeSeries b) := fun b hb =>
    hgrouped.bounded hall hgo (by omega) hb
  refine ⟨order.map timeSeries, ?_, ?_, hgrouped.carries hall hgo htimes⟩
  · simp only [appendSeries_layout hbounded] at h
    split at h
    · cases h
    · cases h
      exact snappy.lossless _
  · apply decodeWriteRequest_layout
    intro t ht
    obtain ⟨b, hb, rfl⟩ := mem_map.1 ht
    exact hbounded b hb

/-- Bytes stored as they are. -/
def noCompression : Compression where
  encode bytes := bytes
  decode bytes := some bytes
  lossless _ := rfl
  bounded bytes := by omega

theorem write_request_format_up :
    let samples : List SampleWithLabels := [⟨[("zone", "a"), ("__name__", "up")], 1, 7⟩]
    let body := layout [⟨[("__name__", "up"), ("zone", "a")], [⟨1, 7⟩]⟩]
    serializeWriteRequest noCompression samples = .ok body ∧
      ∃ series, noCompression.decode body = some (layout series) ∧
        decodeWriteRequest (layout series) = some series ∧ Carries series samples := by
  have hbody : serializeWriteRequest noCompression [⟨[("zone", "a"), ("__name__", "up")], 1, 7⟩] =
      .ok (layout [⟨[("__name__", "up"), ("zone", "a")], [⟨1, 7⟩]⟩]) := by
    decide +kernel
  refine ⟨hbody, write_request_format noCompression _ ?_ (by simp) hbody⟩
  intro s hs
  rw [mem_singleton.1 hs]
  exact ⟨by simp [IsMap], by decide⟩

/-- A capital letter comes before an underscore, so the name of the metric, which stands
first, is out of order there. -/
theorem capital_label_out_of_order :
    let samples : List SampleWithLabels := [⟨[("Zone", "a"), ("__name__", "up")], 1, 7⟩]
    let series : TimeSeries := ⟨[("__name__", "up"), ("Zone", "a")], [⟨1, 7⟩]⟩
    serializeWriteRequest noCompression samples = .ok (layout [series]) ∧
      decodeWriteRequest (layout [series]) = some [series] ∧
      ¬ series.labels.Pairwise fun a b => a.1 < b.1 := by
  decide +kernel

end

end LabTether.RemoteWrite
