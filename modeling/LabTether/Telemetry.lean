import LabTether.GoStrings
import LabTether.Sha256

/-!
Metric samples and the limits on them (`internal/telemetry`). A label map is the list of its
entries, a sample value is the bit pattern of a double, and a time is a number of microseconds
since 1970. Strings are Unicode text.
-/
namespace LabTether.Telemetry

open GoStrings Sha256

/-- `map[string]string`, one entry for each key. -/
abbrev Labels := List (String × String)

instance lawfulPair : LawfulBEq (String × String) := inferInstance

/-- `labels[key]`, with the empty string for a key that is not there. -/
def Labels.get (labels : Labels) (key : String) : String := (labels.lookup key).getD ""

def Labels.sorted (labels : Labels) : Labels := labels.insertionSort fun a b => a.1 ≤ b.1

/-- The time that `time.Time.IsZero` recognises, the start of year 1. -/
def zeroTime : ℤ := -62135596800000000

def unixMilli (t : ℤ) : ℤ := t / 1000

/-- Neither an infinity nor a NaN: the exponent bits are not all ones. -/
def isFinite (value : BitVec 64) : Bool := value.extractLsb' 52 11 ≠ 0x7ff#11

structure MetricSample where
  (assetID scope metric unit : String)
  value : BitVec 64
  collectedAt : ℤ
  labels : Labels
deriving DecidableEq

def maxMetricNameBytes : ℕ := 256
def maxMetricUnitBytes : ℕ := 64
def maxMetricIdentityBytes : ℕ := 1024
def maxMetricLabelsPerSample : ℕ := 64
def maxMetricLabelKeyBytes : ℕ := 128
def maxMetricLabelValueBytes : ℕ := 1024
def maxMetricLabelsBytes : ℕ := 8 * 1024
def maxMetricSampleBytes : ℕ := 16 * 1024

def containsNUL (s : String) : Bool := s.toList.any (·.toNat = 0)

/-- `\uXXXX`. -/
def unicodeEscape (n : ℕ) : List Char :=
  ['\\', 'u', hexDigit (n / 4096 % 16), hexDigit (n / 256 % 16), hexDigit (n / 16 % 16),
    hexDigit (n % 16)]

/-- One character of a JSON string as `encoding/json` writes it, with HTML escaping. -/
def jsonChar (c : Char) : List Char :=
  let n := c.toNat
  if c = '"' then ['\\', '"']
  else if c = '\\' then ['\\', '\\']
  else if n = 8 then ['\\', 'b']
  else if n = 12 then ['\\', 'f']
  else if n = 10 then ['\\', 'n']
  else if n = 13 then ['\\', 'r']
  else if n = 9 then ['\\', 't']
  else if n < 32 ∨ c = '<' ∨ c = '>' ∨ c = '&' ∨ n = 0x2028 ∨ n = 0x2029 then unicodeEscape n
  else [c]

def jsonString (s : String) : String := "\"" ++ String.ofList (s.toList.flatMap jsonChar) ++ "\""

/-- `json.Marshal` of a label map: the entries by key. -/
def Labels.json (labels : Labels) : String :=
  "\x7b" ++ ",".intercalate (labels.sorted.map fun e => jsonString e.1 ++ ":" ++ jsonString e.2) ++
    "\x7d"

def limitedFields (s : MetricSample) : List (String × String × ℕ) := [
  ("asset_id", s.assetID, maxMetricIdentityBytes),
  ("scope", s.scope, maxMetricIdentityBytes),
  ("metric", s.metric, maxMetricNameBytes),
  ("unit", s.unit, maxMetricUnitBytes)]

def metricSampleEnvelopeBytes (s : MetricSample) : Except String ℕ :=
  let labelBytes := if s.labels = [] then 0 else s.labels.json.utf8ByteSize
  let total := 32 + ((limitedFields s).map fun f => f.2.1.utf8ByteSize).sum + labelBytes
  if isFinite s.value = false then .error "metric sample value must be finite"
  else
    match (limitedFields s).find? fun f => f.2.2 < f.2.1.utf8ByteSize || containsNUL f.2.1 with
    | some f => .error ("metric sample " ++ f.1 ++ " exceeds UTF-8/byte limit")
    | none =>
      if maxMetricLabelsPerSample < s.labels.length then
        .error "metric sample label count exceeds limit"
      else if s.labels.any fun e =>
          e.1 = "" || maxMetricLabelKeyBytes < e.1.utf8ByteSize || containsNUL e.1 then
        .error "metric sample label key exceeds UTF-8/byte limit"
      else if s.labels.any fun e =>
          maxMetricLabelValueBytes < e.2.utf8ByteSize || containsNUL e.2 then
        .error "metric sample label value exceeds UTF-8/byte limit"
      else if maxMetricLabelsBytes < labelBytes then
        .error "metric sample encoded label bytes exceed limit"
      else if maxMetricSampleBytes < total then .error "metric sample bytes exceed limit"
      else .ok total

/-- `HubMetricLabelKeys`: the label schema of a supported hub metric. -/
def hubMetricLabelKeys (scope metric : String) : Option (List String) :=
  match trimSpace scope, trimSpace metric with
  | "hub-alerts", "alerts_firing" | "hub-alerts", "alerts_rules" => some []
  | "hub-alerts", "alert_evaluation_duration_ms" => some ["rule_id", "rule_name"]
  | "hub-reliability", "site_reliability_score" => some ["site_id", "site_name"]
  | "hub-synthetic", "synthetic_latency_ms" | "hub-synthetic", "synthetic_status" =>
    some ["check_id", "check_name", "check_type"]
  | _, _ => none

def hasSuffix (s suffix : String) : Bool := suffix.toList.reverse.isPrefixOf s.toList.reverse

def hubMetricText (metric scope : String) : String :=
  "hub metric \"" ++ trimSpace metric ++ "\" in scope \"" ++ trimSpace scope ++ "\""

def normalizeHubLabel (scope metric : String) (labels : Labels) (key : String) :
    Except String (String × String) :=
  match labels.lookup key with
  | none => .error (hubMetricText metric scope ++ " requires label \"" ++ key ++ "\"")
  | some value =>
    if hasSuffix key "_id" && trimSpace value = "" then
      .error (hubMetricText metric scope ++ " requires non-empty identity label \"" ++ key ++ "\"")
    else .ok (key, trimSpace value)

def normalizeHubMetricLabels (scope metric : String) (labels : Labels) : Except String Labels :=
  match hubMetricLabelKeys scope metric with
  | none => .error ("unsupported hub metric \"" ++ trimSpace metric ++ "\" in scope \"" ++
      trimSpace scope ++ "\"")
  | some keys =>
    if keys = [] then
      if labels = [] then .ok []
      else .error (hubMetricText metric scope ++ " does not accept labels")
    else if labels.length ≠ keys.length then
      .error (hubMetricText metric scope ++ " requires labels [" ++ " ".intercalate keys ++ "]")
    else keys.mapM (normalizeHubLabel scope metric labels)

def expectedHubUnit : String → String
  | "alerts_firing" | "alerts_rules" => "count"
  | "alert_evaluation_duration_ms" => "ms"
  | "site_reliability_score" => "score"
  | "synthetic_latency_ms" => "ms"
  | "synthetic_status" => "status"
  | _ => ""

def normalizeHubMetricSample (s : MetricSample) : Except String MetricSample :=
  let scope := trimSpace s.scope
  let metric := trimSpace s.metric
  let unit := trimSpace s.unit
  if scope = "" ∨ s.assetID ≠ "" then
    .error "hub metric sample must set scope and must not set asset_id"
  else do
    let labels ← normalizeHubMetricLabels scope metric s.labels
    if unit ≠ expectedHubUnit metric then
      .error ("hub metric \"" ++ metric ++ "\" requires unit \"" ++ expectedHubUnit metric ++ "\"")
    else .ok { s with scope := scope, metric := metric, unit := unit, labels := labels }

end LabTether.Telemetry
