import LabTether.RemoteWriteWire

/-!
The bytes of a request are those of nested messages with exact lengths, and the reader gets
the series back. The sizes are computed before anything is written; they agree with what is
written as long as they fit 64 bits, which the limits on samples guarantee.
-/
namespace LabTether.RemoteWrite

open Protobuf List Field

variable (e : String × String)

def labelFields : List Field :=
  [⟨1, .bytes (stringBytes e.1)⟩, ⟨2, .bytes (stringBytes e.2)⟩]

def pointFields (p : Point) : List Field := [⟨1, .fixed64 p.value⟩, ⟨2, .varint (uint64 p.timestamp)⟩]

def labelMessage : Field := ⟨1, .bytes (encodeFields (labelFields e))⟩

def pointMessage (p : Point) : Field := ⟨2, .bytes (encodeFields (pointFields p))⟩

def seriesFields (t : TimeSeries) : List Field :=
  t.labels.map labelMessage ++ t.samples.map pointMessage

def seriesMessage (t : TimeSeries) : Field := ⟨1, .bytes (encodeFields (seriesFields t))⟩

/-- A `WriteRequest` in which every embedded message stands after its exact length. -/
def layout (series : List TimeSeries) : Bytes := encodeFields (series.map seriesMessage)

def SampleWithLabels.point (s : SampleWithLabels) : Point := ⟨s.value, s.timestamp⟩

open SampleWithLabels

def timeSeries (entry : WriteSeries) : TimeSeries :=
  ⟨entry.header, entry.items.map point⟩

def ShortLabel : Prop :=
  e.1.utf8ByteSize ≤ maxLabelNameBytes ∧ e.2.utf8ByteSize ≤ maxLabelValueBytes

/-- The limits a series of a request keeps. -/
structure Bounded (t : TimeSeries) : Prop where
  labels : t.labels.length ≤ maxLabelsPerSample
  short : ∀ e ∈ t.labels, ShortLabel e
  samples : t.samples.length ≤ maxSamplesPerRequest
  times : ∀ p ∈ t.samples, 0 < p.timestamp ∧ p.timestamp < 2 ^ 63

section

theorem length_stringBytes (s : String) : (stringBytes s).length = s.utf8ByteSize := by
  rw [Array.length_toList]
  rfl

theorem decodeString_stringBytes (s : String) : decodeString (stringBytes s) = some s := by
  unfold decodeString stringBytes
  rw [Array.toArray_toList]
  unfold String.fromUTF8?
  rw [dif_pos s.isValidUTF8]
  rfl

theorem uint64_lt (t : ℤ) : uint64 t < 2 ^ 64 := by
  unfold uint64
  omega

theorem int64_uint64 {t : ℤ} (h : 0 < t ∧ t < 2 ^ 63) : int64 (uint64 t) = t := by
  have hmod : t % 2 ^ 64 = t := by omega
  unfold int64 uint64
  rw [hmod]
  split <;> omega

theorem length_varint_le {n : ℕ} (h : n < 2 ^ 64) : (varint n).length ≤ 10 := by
  have hsize : n.size ≤ 64 := Nat.size_le.2 h
  rw [← sizeVarint_eq h]
  unfold sizeVarint
  omega

theorem length_tag {number wireType : ℕ} (h : 8 * number + wireType < 128) :
    (tag number wireType).length = 1 := by
  simp [tag, varint, varintFrom, h]

variable {e : String × String} {p : Point} {t : TimeSeries}

theorem labelSize_eq (h : ShortLabel e) :
    labelSize e.1 e.2 = (encodeFields (labelFields e)).length := by
  obtain ⟨hname, hvalue⟩ := h
  unfold maxLabelNameBytes at hname
  unfold maxLabelValueBytes at hvalue
  have h1 := sizeBytes_eq (stringBytes e.1) (by rw [length_stringBytes]; omega)
  have h2 := sizeBytes_eq (stringBytes e.2) (by rw [length_stringBytes]; omega)
  rw [length_stringBytes] at h1 h2
  have hlen : (encodeFields (labelFields e)).length =
      1 + ((sized (stringBytes e.1)).length + (1 + (sized (stringBytes e.2)).length)) := by
    simp [encodeFields, labelFields, encode, Value.wireType, Value.encode, length_tag]
  rw [hlen, labelSize, h1, h2]
  omega

theorem sampleSize_eq : sampleSize p.timestamp = (encodeFields (pointFields p)).length := by
  have hlen : (encodeFields (pointFields p)).length =
      1 + (8 + (1 + (varint (uint64 p.timestamp)).length)) := by
    simp [encodeFields, pointFields, encode, Value.wireType, Value.encode, length_tag,
      length_littleEndian]
  rw [hlen, sampleSize, sizeVarint_eq (uint64_lt _)]
  omega

theorem labelSize_le (h : ShortLabel e) : (encodeFields (labelFields e)).length ≤ 1174 := by
  rw [← labelSize_eq h]
  obtain ⟨hname, hvalue⟩ := h
  unfold maxLabelNameBytes at hname
  unfold maxLabelValueBytes at hvalue
  have h1 := length_varint_le (n := e.1.utf8ByteSize) (by omega)
  have h2 := length_varint_le (n := e.2.utf8ByteSize) (by omega)
  rw [← sizeVarint_eq (by omega)] at h1 h2
  unfold labelSize sizeBytes
  omega

theorem sampleSize_le : (encodeFields (pointFields p)).length ≤ 20 := by
  rw [← sampleSize_eq]
  have h := length_varint_le (uint64_lt p.timestamp)
  rw [← sizeVarint_eq (uint64_lt _)] at h
  unfold sampleSize
  omega

theorem length_message {number : ℕ} {payload : Bytes} (hnumber : number < 15)
    (h : payload.length < 2 ^ 64) :
    (encode ⟨number, .bytes payload⟩).length = 1 + sizeBytes payload.length := by
  rw [sizeBytes_eq payload h]
  simp only [encode, Value.wireType, Value.encode, length_append,
    length_tag (show 8 * number + 2 < 128 by omega)]

theorem length_labelMessage (h : ShortLabel e) :
    (labelMessage e).encode.length = 1 + sizeBytes (labelSize e.1 e.2) := by
  have hle := labelSize_le h
  rw [labelSize_eq h]
  exact length_message (by omega) (by omega)

theorem length_pointMessage :
    (pointMessage p).encode.length = 1 + sizeBytes (sampleSize p.timestamp) := by
  have hle := sampleSize_le (p := p)
  rw [sampleSize_eq]
  exact length_message (by omega) (by omega)

theorem length_encodeFields_map {α : Type*} (message : α → Field) {size : α → ℕ} (items : List α)
    (h : ∀ a ∈ items, (message a).encode.length = size a) :
    (encodeFields (items.map message)).length = (items.map size).sum := by
  unfold encodeFields
  rw [length_flatMap, map_map]
  congr 1
  exact map_congr_left h

theorem length_seriesFields (h : Bounded t) : (encodeFields (seriesFields t)).length =
    (t.labels.map fun e => 1 + sizeBytes (labelSize e.1 e.2)).sum +
      (t.samples.map fun p => 1 + sizeBytes (sampleSize p.timestamp)).sum := by
  have hlabels := length_encodeFields_map labelMessage t.labels fun e he =>
    length_labelMessage (h.short e he)
  have hpoints := length_encodeFields_map pointMessage t.samples fun p _ =>
    length_pointMessage (p := p)
  rw [← hlabels, ← hpoints, seriesFields, encodeFields, flatMap_append, length_append]
  rfl

theorem length_seriesFields_lt (h : Bounded t) : (encodeFields (seriesFields t)).length < 2 ^ 20 :=
    by
  have hlabel : ∀ n ∈ t.labels.map fun e => 1 + sizeBytes (labelSize e.1 e.2), n ≤ 1185 := by
    simp only [mem_map]
    rintro n ⟨e, he, rfl⟩
    have hle := labelSize_le (h.short e he)
    rw [← labelSize_eq (h.short e he)] at hle
    have hvarint := length_varint_le (n := labelSize e.1 e.2) (by omega)
    rw [← sizeVarint_eq (by omega)] at hvarint
    unfold sizeBytes
    omega
  have hpoint : ∀ n ∈ t.samples.map fun p => 1 + sizeBytes (sampleSize p.timestamp), n ≤ 31 := by
    simp only [mem_map]
    rintro n ⟨p, -, rfl⟩
    have hle := sampleSize_le (p := p)
    rw [← sampleSize_eq] at hle
    have hvarint := length_varint_le (n := sampleSize p.timestamp) (by omega)
    rw [← sizeVarint_eq (by omega)] at hvarint
    unfold sizeBytes
    omega
  have hlabels := sum_le_card_nsmul _ 1185 hlabel
  have hpoints := sum_le_card_nsmul _ 31 hpoint
  have hcount := h.labels
  have hsamples := h.samples
  unfold maxLabelsPerSample at hcount
  unfold maxSamplesPerRequest at hsamples
  simp only [length_map, smul_eq_mul] at hlabels hpoints
  rw [length_seriesFields h]
  omega

variable {entry : WriteSeries}

theorem appendLabel_eq (h : ShortLabel e) (buf : Bytes) :
    appendLabel buf e = buf ++ (labelMessage e).encode := by
  unfold appendLabel
  rw [labelSize_eq h]
  simp [labelMessage, labelFields, encode, Value.wireType, Value.encode, sized, encodeFields]

theorem appendSample_eq (sample : SampleWithLabels) (buf : Bytes) :
    appendSample buf sample = buf ++ (pointMessage sample.point).encode := by
  have hsize : sampleSize sample.timestamp = _ := sampleSize_eq (p := sample.point)
  unfold appendSample
  rw [hsize]
  simp [pointMessage, pointFields, encode, Value.wireType, Value.encode, sized, encodeFields,
    point]

variable (h : Bounded (timeSeries entry))
include h

theorem appendTimeSeries_eq (buf : Bytes) :
    appendTimeSeries buf entry.header entry.items =
      buf ++ encodeFields (seriesFields (timeSeries entry)) := by
  have hlabels : entry.header.foldl appendLabel buf = _ :=
    foldl_append_pieces (fun e he => appendLabel_eq (h.short e he)) buf
  unfold appendTimeSeries
  rw [hlabels, foldl_append_pieces (fun s _ => appendSample_eq s)]
  simp [seriesFields, encodeFields, timeSeries, flatMap_map]

theorem timeSeriesSize_eq :
    timeSeriesSize entry.header entry.items =
      (encodeFields (seriesFields (timeSeries entry))).length := by
  rw [length_seriesFields h]
  simp [timeSeriesSize, timeSeries, point, Function.comp_def]

theorem appendSeries_eq (buf : Bytes) :
    appendSeries buf entry = buf ++ (seriesMessage (timeSeries entry)).encode := by
  unfold appendSeries
  rw [appendTimeSeries_eq h, timeSeriesSize_eq h]
  simp [seriesMessage, encode, Value.wireType, Value.encode, sized]

omit h

variable {order : List WriteSeries}

theorem appendSeries_layout (h : ∀ entry ∈ order, Bounded (timeSeries entry)) :
    order.foldl appendSeries [] = layout (order.map timeSeries) := by
  rw [foldl_append_pieces fun entry hentry => appendSeries_eq (h entry hentry)]
  simp [layout, encodeFields, flatMap_map]

/-- The buffer is allocated with the exact size. -/
theorem totalSize_eq (h : ∀ entry ∈ order, Bounded (timeSeries entry)) :
    totalSize order = (order.foldl appendSeries []).length := by
  rw [appendSeries_layout h, layout, map_map]
  have hsize : ∀ entry ∈ order, ((seriesMessage ∘ timeSeries) entry).encode.length =
      1 + sizeBytes (timeSeriesSize entry.header entry.items) := by
    intro entry hentry
    have hlt := length_seriesFields_lt (h entry hentry)
    rw [timeSeriesSize_eq (h entry hentry)]
    exact length_message (by omega) (by omega)
  rw [length_encodeFields_map _ order hsize]
  rfl

theorem totalSize_eq_up : let up := [("__name__", "up")]
    totalSize [⟨[], up, [⟨up, 1, 7⟩]⟩] = (appendSeries [] ⟨[], up, [⟨up, 1, 7⟩]⟩).length :=
  totalSize_eq (forall_mem_singleton.2 ⟨by decide, forall_mem_singleton.2 ⟨by decide, by decide⟩,
    by decide, forall_mem_singleton.2 (by decide)⟩)

end

section

variable {e : String × String} {p : Point} {t : TimeSeries}

theorem decodeMessage_encodeFields {α : Type} {field : α → Field → Option α} {default : α}
    {fields : List Field} (h : ∀ f ∈ fields, f.Fits) :
    decodeMessage field default (encodeFields fields) = fields.foldlM field default := by
  unfold decodeMessage
  rw [readFields_encodeFields h]
  rfl

theorem decodeLabel_message (h : ShortLabel e) :
    decodeLabel (encodeFields (labelFields e)) = some e := by
  obtain ⟨hname, hvalue⟩ := h
  unfold maxLabelNameBytes at hname
  unfold maxLabelValueBytes at hvalue
  unfold decodeLabel
  rw [decodeMessage_encodeFields]
  · simp [labelFields, labelField, decodeString_stringBytes]
  · simp only [labelFields, mem_cons, not_mem_nil, or_false, forall_eq_or_imp, forall_eq]
    simp only [Fits, Value.Fits, length_stringBytes]
    omega

theorem decodePoint_message (h : 0 < p.timestamp ∧ p.timestamp < 2 ^ 63) :
    decodePoint (encodeFields (pointFields p)) = some p := by
  unfold decodePoint
  rw [decodeMessage_encodeFields]
  · simp [pointFields, pointField, int64_uint64 h]
  · simp only [pointFields, mem_cons, not_mem_nil, or_false, forall_eq_or_imp, forall_eq]
    exact ⟨⟨by simp, by simp, trivial⟩, by simp, by simp, uint64_lt _⟩

/-- Messages that each add their item to a list add all their items. -/
theorem foldlM_messages {α β : Type} {field : α → Field → Option α} {message : β → Field}
    {items : List β} (f : List β → α)
    (h : ∀ b ∈ items, ∀ l, field (f l) (message b) = some (f (l ++ [b]))) (l : List β) :
    (items.map message).foldlM field (f l) = some (f (l ++ items)) := by
  induction items generalizing l with
  | nil => simp
  | cons b items ih =>
    rw [map_cons, foldlM_cons, h b (.head _)]
    simpa using ih (fun c hc => h c (.tail _ hc)) (l ++ [b])

theorem decodeTimeSeries_message (h : Bounded t) :
    decodeTimeSeries (encodeFields (seriesFields t)) = some t := by
  have hlabels : ∀ e ∈ t.labels, ∀ l, seriesField ⟨l, []⟩ (labelMessage e) =
      some ⟨l ++ [e], []⟩ := by
    intro e he l
    simp [seriesField, labelMessage, decodeLabel_message (h.short e he)]
  have hpoints : ∀ p ∈ t.samples, ∀ l, seriesField ⟨t.labels, l⟩ (pointMessage p) =
      some ⟨t.labels, l ++ [p]⟩ := by
    intro p hp l
    simp [seriesField, pointMessage, decodePoint_message (h.times p hp)]
  have hread := foldlM_messages (fun l => TimeSeries.mk l []) hlabels []
  unfold decodeTimeSeries
  rw [decodeMessage_encodeFields, seriesFields, foldlM_append, hread]
  · exact foldlM_messages (TimeSeries.mk t.labels) hpoints []
  intro f hf
  rcases mem_append.1 hf with hf | hf
  · obtain ⟨e, he, rfl⟩ := mem_map.1 hf
    have hle := labelSize_le (h.short e he)
    exact ⟨by simp [labelMessage], by simp [labelMessage], by simp [labelMessage, Value.Fits]; omega⟩
  · obtain ⟨p, -, rfl⟩ := mem_map.1 hf
    have hle := sampleSize_le (p := p)
    exact ⟨by simp [pointMessage], by simp [pointMessage], by simp [pointMessage, Value.Fits]; omega⟩

/-- The reader gets the series of a request back and leaves no byte. -/
theorem decodeWriteRequest_layout {series : List TimeSeries} (h : ∀ t ∈ series, Bounded t) :
    decodeWriteRequest (layout series) = some series := by
  have hseries : ∀ t ∈ series, ∀ s, requestField s (seriesMessage t) = some (s ++ [t]) := by
    intro t ht s
    simp [requestField, seriesMessage, decodeTimeSeries_message (h t ht)]
  unfold decodeWriteRequest layout
  rw [decodeMessage_encodeFields]
  · exact foldlM_messages id hseries []
  intro f hf
  obtain ⟨t, ht, rfl⟩ := mem_map.1 hf
  have hlt := length_seriesFields_lt (h t ht)
  exact ⟨by simp [seriesMessage], by simp [seriesMessage], by simp [seriesMessage, Value.Fits]; omega⟩

end

end LabTether.RemoteWrite
