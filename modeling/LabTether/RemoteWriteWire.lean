import LabTether.Grouping
import LabTether.Protobuf
import LabTether.RemoteWriteStore

/-!
The remote-write request body (`internal/telemetry/remotewrite/serialization.go` and
`client.go`), and the reading of it by the schema

    WriteRequest  (timeseries: repeated TimeSeries = 1)
    TimeSeries    (labels: repeated Label = 1, samples: repeated Sample = 2)
    Label         (name: string = 1, value: string = 2)
    Sample        (value: double = 1, timestamp: int64 = 2)

The reader is strict: it refuses every field that the schema does not have. The compression
is a parameter. The capacity of the buffer is the only use of the total size, which is kept
for that reason only.
-/
namespace LabTether.RemoteWrite

open Telemetry Grouping Protobuf

def maxLabelsPerSample : ℕ := 64
def maxLabelNameBytes : ℕ := 128
def maxLabelValueBytes : ℕ := 1024
def maxSampleBytes : ℕ := 24 * 1024

def errRequestBodyTooLarge : String := "remotewrite: request body exceeds limit"

def nameStart (c : Char) : Bool :=
  ('a' ≤ c && c ≤ 'z') || ('A' ≤ c && c ≤ 'Z') || c = '_'

def digit (c : Char) : Bool := '0' ≤ c && c ≤ '9'

def validName (extra : Char → Bool) : List Char → Bool
  | [] => false
  | c :: cs => (nameStart c || extra c) && cs.all fun c => nameStart c || extra c || digit c

def validMetricName (value : String) : Bool :=
  value.utf8ByteSize ≤ maxLabelValueBytes && validName (· = ':') value.toList

def validLabelName (value : String) : Bool := validName (fun _ => false) value.toList

def validateLabel (e : String × String) : Except String Unit :=
  if !validLabelName e.1 || maxLabelNameBytes < e.1.utf8ByteSize then
    .error "remotewrite: sample label name is invalid"
  else if maxLabelValueBytes < e.2.utf8ByteSize || containsNUL e.2 then
    .error "remotewrite: sample label value exceeds limit"
  else .ok ()

def validateSample (sample : SampleWithLabels) : Except String Unit :=
  if sample.timestamp ≤ 0 then .error "remotewrite: sample timestamp must be positive"
  else if sample.labels = [] ∨ maxLabelsPerSample < sample.labels.length then
    .error "remotewrite: sample label count is invalid"
  else if !((sample.labels.lookup "__name__").any validMetricName) then
    .error "remotewrite: sample metric name is invalid"
  else do
    sample.labels.forM validateLabel
    if maxSampleBytes <
        24 + (sample.labels.map fun e => e.1.utf8ByteSize + e.2.utf8ByteSize).sum then
      .error "remotewrite: sample exceeds byte limit"
    else .ok ()

def stringBytes (s : String) : Bytes := s.toByteArray.data.toList

def uint64 (t : ℤ) : ℕ := (t % 2 ^ 64).toNat

def int64 (n : ℕ) : ℤ := if n < 2 ^ 63 then n else (n : ℤ) - 2 ^ 64

def labelSize (name value : String) : ℕ :=
  2 + sizeBytes name.utf8ByteSize + sizeBytes value.utf8ByteSize

def sampleSize (timestamp : ℤ) : ℕ := 10 + sizeVarint (uint64 timestamp)

def timeSeriesSize (labels : Labels) (samples : List SampleWithLabels) : ℕ :=
  (labels.map fun pair => 1 + sizeBytes (labelSize pair.1 pair.2)).sum +
    (samples.map fun sample => 1 + sizeBytes (sampleSize sample.timestamp)).sum

variable (buf : Bytes)

def appendLabel (pair : String × String) : Bytes :=
  buf ++ tag 1 2 ++ varint (labelSize pair.1 pair.2) ++ tag 1 2 ++ sized (stringBytes pair.1) ++
    tag 2 2 ++ sized (stringBytes pair.2)

def appendSample (sample : SampleWithLabels) : Bytes :=
  buf ++ tag 2 2 ++ varint (sampleSize sample.timestamp) ++ tag 1 1 ++
    littleEndian 8 sample.value.toNat ++ tag 2 0 ++ varint (uint64 sample.timestamp)

def appendTimeSeries (labels : Labels) (samples : List SampleWithLabels) : Bytes :=
  samples.foldl appendSample (labels.foldl appendLabel buf)

/-- `writeSeries`: the sorted labels, and the samples under their fingerprint. -/
abbrev WriteSeries := Bucket (List ℕ) Labels SampleWithLabels

def addSample (order : List WriteSeries) (sample : SampleWithLabels) :
    Except String (List WriteSeries) :=
  match validateSample sample with
  | .error e => .error e
  | .ok _ => .ok (put (fun _ => sortedLabels sample.labels) (labelFingerprint sample.labels)
      sample order)

variable (entry : WriteSeries)

def sortSamples : WriteSeries :=
  ⟨entry.key, entry.header, entry.items.insertionSort fun a b => a.timestamp ≤ b.timestamp⟩

def repeatsTimestamp : List SampleWithLabels → Bool
  | a :: b :: rest => a.timestamp = b.timestamp || repeatsTimestamp (b :: rest)
  | _ => false

def sortSeries : Except String WriteSeries :=
  if repeatsTimestamp (sortSamples entry).items then
    .error "remotewrite: duplicate timestamp for one series"
  else .ok (sortSamples entry)

def totalSize (order : List WriteSeries) : ℕ :=
  (order.map fun entry => 1 + sizeBytes (timeSeriesSize entry.header entry.items)).sum

def appendSeries : Bytes :=
  appendTimeSeries (buf ++ tag 1 2 ++ varint (timeSeriesSize entry.header entry.items))
    entry.header entry.items

/-- The series of a request, in the order in which their labels were first met. -/
def requestSeries (samples : List SampleWithLabels) : Except String (List WriteSeries) := do
  let order ← samples.foldlM addSample []
  order.mapM sortSeries

/-- A compression that loses nothing and grows its input as little as Snappy may. -/
structure Compression where
  encode : Bytes → Bytes
  decode : Bytes → Option Bytes
  lossless : ∀ bytes, decode (encode bytes) = some bytes
  bounded : ∀ bytes, (encode bytes).length ≤ 32 + bytes.length + bytes.length / 6

/-- `SerializeWriteRequest`; no samples give no body. -/
def serializeWriteRequest (snappy : Compression) (samples : List SampleWithLabels) :
    Except String Bytes :=
  if samples = [] then .ok []
  else if maxSamplesPerRequest < samples.length then
    .error "remotewrite: sample count exceeds limit"
  else do
    let order ← requestSeries samples
    let compressed := snappy.encode (order.foldl appendSeries [])
    if maxRequestBodyBytes < compressed.length then .error errRequestBodyTooLarge
    else .ok compressed

structure Point where
  value : BitVec 64
  timestamp : ℤ
deriving DecidableEq

structure TimeSeries where
  labels : Labels
  samples : List Point
deriving DecidableEq

/-- A string field holds UTF-8 text. -/
def decodeString (payload : Bytes) : Option String := String.fromUTF8? ⟨payload.toArray⟩

def labelField (e : String × String) (f : Field) : Option (String × String) :=
  match f with
  | ⟨1, .bytes payload⟩ => (decodeString payload).map fun name => (name, e.2)
  | ⟨2, .bytes payload⟩ => (decodeString payload).map fun value => (e.1, value)
  | _ => none

def pointField (p : Point) (f : Field) : Option Point :=
  match f with
  | ⟨1, .fixed64 bits⟩ => some { p with value := bits }
  | ⟨2, .varint n⟩ => some { p with timestamp := int64 n }
  | _ => none

/-- A message is read by its fields; a field that is absent has its default. -/
def decodeMessage {α : Type} (field : α → Field → Option α) (default : α) (payload : Bytes) :
    Option α := do
  let fields ← readFields payload
  fields.foldlM field default

def decodeLabel : Bytes → Option (String × String) := decodeMessage labelField ("", "")

def decodePoint : Bytes → Option Point := decodeMessage pointField ⟨0, 0⟩

def seriesField (t : TimeSeries) (f : Field) : Option TimeSeries :=
  match f with
  | ⟨1, .bytes payload⟩ => (decodeLabel payload).map fun e => { t with labels := t.labels ++ [e] }
  | ⟨2, .bytes payload⟩ =>
    (decodePoint payload).map fun p => { t with samples := t.samples ++ [p] }
  | _ => none

def decodeTimeSeries : Bytes → Option TimeSeries := decodeMessage seriesField ⟨[], []⟩

def requestField (series : List TimeSeries) (f : Field) : Option (List TimeSeries) :=
  match f with
  | ⟨1, .bytes payload⟩ => (decodeTimeSeries payload).map fun t => series ++ [t]
  | _ => none

def decodeWriteRequest : Bytes → Option (List TimeSeries) := decodeMessage requestField []

end LabTether.RemoteWrite
