import LabTether.GoStrings
import LabTether.Transition

/-!
The device anchor in the metadata document of an asset: the merge of a heartbeat
(`upsertAssetHeartbeatTx`), the three heartbeat transactions around it and the asset edit
(`UpdateAsset`), which reads the asset and later rewrites the whole document. A heartbeat keeps
its asset locked from the upsert to the commit and is one step; the two statements of an edit
are two. The locale's `LOWER` is a parameter.
-/
namespace LabTether.AssetAnchor

open GoStrings Transition Function Option

section

/-- A metadata document: a JSON object of strings. -/
abbrev Metadata := String → Option String

def keyNameOverride : String := "name_override"

def keyAgentDeviceFingerprint : String := "agent_device_fingerprint"

def keyAgentDeviceKeyAlgorithm : String := "agent_device_key_alg"

def keyAgentIdentityVerifiedAt : String := "agent_identity_verified_at"

variable (m : Metadata) (key : String)

def Metadata.delete : Metadata := update m key none

/-- The `||` of two documents: the second wins. -/
def Metadata.concat (m' : Metadata) : Metadata := fun key => (m' key).or (m key)

/-- `BTRIM`: blanks only. -/
def btrim (s : String) : String :=
  String.ofList ((s.toList.dropWhile (· == ' ')).reverse.dropWhile (· == ' ')).reverse

/-- `NULLIF(BTRIM(metadata->>key), '')`. -/
def Metadata.text : Option String :=
  (m key).bind fun v => if btrim v = "" then none else some (btrim v)

/-- The value under a key, as it is stored, if it is not blank. -/
def Metadata.recorded : Option String :=
  (m key).filter fun v => btrim v != ""

/-- `CASE WHEN ... IS NOT NULL THEN jsonb_build_object(key, metadata->>key) ELSE '{}' END`. -/
def Metadata.keep : Metadata :=
  fun key' => if key' = key then m.recorded key else none

/-- The metadata of the upsert: identity fields that this heartbeat may not author are
dropped. -/
def reportedMetadata (metadata : Metadata) (allowRotation allowTOFU : Bool) : Metadata :=
  if allowRotation then metadata
  else
    let metadata := metadata.delete keyAgentIdentityVerifiedAt
    if allowTOFU then metadata
    else (metadata.delete keyAgentDeviceFingerprint).delete keyAgentDeviceKeyAlgorithm

variable (lower : String → String)

def mergeMetadata (stored excluded : Metadata) (allowRotation : Bool) : Metadata :=
  let merged :=
    if allowRotation then excluded
    else
      let reported :=
        match stored.text keyAgentDeviceFingerprint with
        | some fingerprint =>
          if lower ((excluded.text keyAgentDeviceFingerprint).getD "") ≠ lower fingerprint
          then excluded.delete keyAgentDeviceKeyAlgorithm
          else excluded
        | none => excluded
      ((reported.concat (stored.keep keyAgentDeviceFingerprint)).concat
        (stored.keep keyAgentDeviceKeyAlgorithm)).concat (stored.keep keyAgentIdentityVerifiedAt)
  merged.concat (stored.keep keyNameOverride)

end

section

structure AssetRow where
  (name source : String)
  groupID : Option String
  metadata : Metadata

/-- What a heartbeat client sends: the two internal flags are not part of it. -/
structure Heartbeat where
  (name source groupID : String)
  metadata : Metadata

structure HeartbeatRequest extends Heartbeat where
  (allowAgentIdentityRotation allowAgentIdentityTOFU : Bool)

def Heartbeat.request (body : Heartbeat) : HeartbeatRequest := ⟨body, false, false⟩

structure UpdateRequest where
  (name groupID : Option String)

def nullIfBlank (s : String) : Option String :=
  if trimSpace s = "" then none else some (trimSpace s)

variable (lower : String → String)

def upsertAssetHeartbeatTx (row : Option AssetRow) (req : HeartbeatRequest) : AssetRow :=
  let metadata := reportedMetadata req.metadata req.allowAgentIdentityRotation
    req.allowAgentIdentityTOFU
  let groupID := nullIfBlank (trimSpace req.groupID)
  match row with
  | none => ⟨req.name, req.source, groupID, metadata⟩
  | some stored =>
    { name := (stored.metadata.text keyNameOverride).getD req.name
      source := if lower (btrim stored.source) = "agent" then stored.source else req.source
      groupID := groupID.or stored.groupID
      metadata := mergeMetadata lower stored.metadata metadata req.allowAgentIdentityRotation }

/-- The document that an edit writes: the one it read, with the new name. -/
def editedMetadata (current : AssetRow) (req : UpdateRequest) : Metadata :=
  match req.name with
  | none => current.metadata
  | some name => update current.metadata keyNameOverride (some (trimSpace name))

def editedRow (current row : AssetRow) (req : UpdateRequest) : AssetRow :=
  { row with
    name := (req.name.map trimSpace).getD current.name
    groupID := nullIfBlank ((req.groupID.map trimSpace).getD (trimSpace (current.groupID.getD "")))
    metadata := editedMetadata current req }

structure Edit where
  assetID : String
  req : UpdateRequest
  current : AssetRow

structure Store where
  rows : String → Option AssetRow
  retired : String → Bool
  edits : List (Option Edit)

variable (s : Store)

def Store.put (a : String) (row : Option AssetRow) : Store :=
  { s with rows := update s.rows a row }

inductive Op
  | commitAuthenticatedAgentHeartbeat (assetID : String) (active : Bool) (body : Heartbeat)
  | commitExistingOwnerAgentHeartbeat (assetID : String) (body : Heartbeat)
  | upsertAssetHeartbeat (assetID : String) (body : Heartbeat)
  | updateAssetRead (assetID : String) (req : UpdateRequest)
  | updateAssetWrite (edit : ℕ)
  | decommission (assetID : String)
  | enroll (assetID : String) (row : AssetRow)

/-- `active` says that the token of an authenticated heartbeat is one of this asset, active
and not expired. -/
def commitAuthenticatedAgentHeartbeat (assetID : String) (active : Bool) (body : Heartbeat) :
    Store :=
  let a := trimSpace assetID
  match s.rows a with
  | none => s
  | some stored =>
    if a = "" ∨ active = false then s
    else s.put a (some (upsertAssetHeartbeatTx lower (some stored) { body.request with
        allowAgentIdentityTOFU := true
        source := "agent"
        groupID := stored.groupID.getD "" }))

def commitExistingOwnerAgentHeartbeat (assetID : String) (body : Heartbeat) : Store :=
  let a := trimSpace assetID
  match s.rows a with
  | none => s
  | some stored =>
    if a = "" ∨ s.retired a then s
    else s.put a (some (upsertAssetHeartbeatTx lower (some stored)
      { body.request with source := "agent", groupID := stored.groupID.getD "" }))

def upsertAssetHeartbeat (assetID : String) (body : Heartbeat) : Store :=
  if s.retired (trimSpace assetID) then s
  else s.put assetID (some (upsertAssetHeartbeatTx lower (s.rows assetID) body.request))

def step : Op → Store
  | .commitAuthenticatedAgentHeartbeat assetID active body =>
    commitAuthenticatedAgentHeartbeat lower s assetID active body
  | .commitExistingOwnerAgentHeartbeat assetID body =>
    commitExistingOwnerAgentHeartbeat lower s assetID body
  | .upsertAssetHeartbeat assetID body => upsertAssetHeartbeat lower s assetID body
  | .updateAssetRead assetID req =>
    match s.rows assetID with
    | none => s
    | some current => { s with edits := s.edits ++ [some ⟨assetID, req, current⟩] }
  | .updateAssetWrite i =>
    match s.edits[i]? with
    | some (some e) =>
      { s with
        rows := update s.rows e.assetID
          ((s.rows e.assetID).map fun row => editedRow e.current row e.req)
        edits := s.edits.set i none }
    | _ => s
  | .decommission a =>
    { s.put a none with retired := update s.retired a true }
  | .enroll a row =>
    { s.put a (some row) with retired := update s.retired a false }

end

section

def Store.anchor (s : Store) (a key : String) : Option String :=
  (s.rows a).bind fun row => row.metadata.recorded key

def Op.Resets (a : String) : Op → Prop
  | .decommission a' => a' = a
  | .enroll a' _ => a' = a
  | _ => False

structure Kept (a : String) (s s' : Store) : Prop where
  fingerprint : ∀ f, s.anchor a keyAgentDeviceFingerprint = some f →
    s'.anchor a keyAgentDeviceFingerprint = some f
  verifiedAt : s'.anchor a keyAgentIdentityVerifiedAt = s.anchor a keyAgentIdentityVerifiedAt

/-- An edit writes to an asset with the anchor that it read, or with no fingerprint yet. -/
def EditFresh (s : Store) : Op → Prop
  | .updateAssetWrite i => ∀ e row, s.edits[i]? = some (some e) → s.rows e.assetID = some row →
      (∀ f, row.metadata.recorded keyAgentDeviceFingerprint = some f →
        e.current.metadata.recorded keyAgentDeviceFingerprint = some f) ∧
      e.current.metadata.recorded keyAgentIdentityVerifiedAt =
        row.metadata.recorded keyAgentIdentityVerifiedAt
  | _ => True

variable {lower : String → String} {s : Store} {a key : String} {m m' : Metadata}

theorem Metadata.recorded_recorded (h : m' key = m.recorded key) :
    m'.recorded key = m.recorded key := by
  unfold Metadata.recorded at h ⊢
  rw [h, filter_filter]
  simp

theorem Metadata.concat_keep_ne {key' : String} (h : key ≠ key') :
    m.concat (m'.keep key') key = m key := by
  simp [Metadata.concat, Metadata.keep, h]

theorem Metadata.concat_keep_self : m.concat (m'.keep key) key = (m'.recorded key).or (m key) := by
  simp [Metadata.concat, Metadata.keep]

theorem mergeMetadata_fingerprint (lower : String → String) {stored : Metadata}
    (excluded : Metadata) {f : String} (h : stored.recorded keyAgentDeviceFingerprint = some f) :
    mergeMetadata lower stored excluded false keyAgentDeviceFingerprint = some f := by
  simp only [mergeMetadata, Bool.false_eq_true, if_false]
  rw [Metadata.concat_keep_ne (by decide), Metadata.concat_keep_ne (by decide),
    Metadata.concat_keep_ne (by decide), Metadata.concat_keep_self, h]
  rfl

theorem mergeMetadata_verifiedAt (lower : String → String) (stored : Metadata)
    {excluded : Metadata} (h : excluded keyAgentIdentityVerifiedAt = none) :
    mergeMetadata lower stored excluded false keyAgentIdentityVerifiedAt =
      stored.recorded keyAgentIdentityVerifiedAt := by
  have hdelete : excluded.delete keyAgentDeviceKeyAlgorithm keyAgentIdentityVerifiedAt = none := by
    rw [Metadata.delete, update_of_ne (by decide), h]
  simp only [mergeMetadata, Bool.false_eq_true, if_false]
  rw [Metadata.concat_keep_ne (by decide), Metadata.concat_keep_self,
    Metadata.concat_keep_ne (by decide), Metadata.concat_keep_ne (by decide)]
  rcases stored.text keyAgentDeviceFingerprint with _ | fingerprint
  · dsimp only
    rw [h, or_none]
  dsimp only
  by_cases hne : lower ((excluded.text keyAgentDeviceFingerprint).getD "") ≠ lower fingerprint
  · rw [if_pos hne, hdelete, or_none]
  · rw [if_neg hne, h, or_none]

theorem reportedMetadata_verifiedAt (metadata : Metadata) (allowTOFU : Bool) :
    reportedMetadata metadata false allowTOFU keyAgentIdentityVerifiedAt = none := by
  unfold reportedMetadata
  simp only [Bool.false_eq_true, if_false]
  split
  · exact update_self _ _ _
  · rw [Metadata.delete, update_of_ne (by decide), Metadata.delete, update_of_ne (by decide)]
    exact update_self _ _ _

theorem Kept.refl (a : String) (s : Store) : Kept a s s := ⟨fun _ h => h, rfl⟩

theorem Kept.trans {s₁ s₂ s₃ : Store} (h : Kept a s₁ s₂) (h' : Kept a s₂ s₃) : Kept a s₁ s₃ :=
  ⟨fun f hf => h'.fingerprint f (h.fingerprint f hf), h'.verifiedAt.trans h.verifiedAt⟩

theorem kept_of_row (s s' : Store) (h : s'.rows a = s.rows a) : Kept a s s' := by
  constructor
  · intro f hf
    simpa [Store.anchor, h] using hf
  · simp [Store.anchor, h]

theorem kept_upsert {a' : String} {req : HeartbeatRequest}
    (hreq : req.allowAgentIdentityRotation = false) :
    Kept a s (s.put a' (some (upsertAssetHeartbeatTx lower (s.rows a') req))) := by
  by_cases ha : a = a'
  · subst ha
    have hreported := reportedMetadata_verifiedAt req.metadata req.allowAgentIdentityTOFU
    cases hrow : s.rows a with
    | none =>
      constructor
      · intro f hf
        simp [Store.anchor, hrow] at hf
      · simp [Store.anchor, Store.put, hrow, upsertAssetHeartbeatTx, hreq, Metadata.recorded,
          hreported]
    | some stored =>
      constructor
      · intro f hf
        have hrec : stored.metadata.recorded keyAgentDeviceFingerprint = some f := by
          simpa [Store.anchor, hrow] using hf
        have hmerged := mergeMetadata_fingerprint lower
          (reportedMetadata req.metadata false req.allowAgentIdentityTOFU) hrec
        simpa [Store.anchor, Store.put, upsertAssetHeartbeatTx, hreq] using
          (Metadata.recorded_recorded (hmerged.trans hrec.symm)).trans hrec
      · have hmerged := mergeMetadata_verifiedAt lower stored.metadata hreported
        simpa [Store.anchor, Store.put, hrow, upsertAssetHeartbeatTx, hreq] using
          Metadata.recorded_recorded hmerged
  · exact kept_of_row _ _ (update_of_ne ha _ _)

theorem editedMetadata_of_ne {current : AssetRow} {req : UpdateRequest}
    (h : key ≠ keyNameOverride) :
    (editedMetadata current req).recorded key = current.metadata.recorded key := by
  unfold editedMetadata Metadata.recorded
  cases req.name with
  | none => rfl
  | some name =>
    dsimp only
    rw [update_of_ne h]

theorem kept_updateAssetWrite (lower : String → String) (i : ℕ) :
    (∀ a, Kept a s (step lower s (.updateAssetWrite i))) ↔ EditFresh s (.updateAssetWrite i) := by
  have hwrite : ∀ {e row}, s.edits[i]? = some (some e) → s.rows e.assetID = some row →
      (∀ key, key ≠ keyNameOverride → (step lower s (.updateAssetWrite i)).anchor e.assetID key =
        e.current.metadata.recorded key) ∧
      ∀ key, s.anchor e.assetID key = row.metadata.recorded key := by
    intro e row he hrow
    constructor
    · intro key hkey
      simp [step, he, Store.anchor, hrow, editedRow, editedMetadata_of_ne hkey]
    · intro key
      simp [Store.anchor, hrow]
  constructor
  · intro h e row he hrow
    obtain ⟨hafter, hbefore⟩ := hwrite he hrow
    have hkept := h e.assetID
    constructor
    · intro f hf
      rw [← hafter _ (by decide)]
      exact hkept.fingerprint f (by rw [hbefore]; exact hf)
    · rw [← hafter _ (by decide), ← hbefore]
      exact hkept.verifiedAt
  · intro h a
    rcases he : s.edits[i]? with _ | edit
    · simpa [step, he] using Kept.refl a s
    rcases edit with _ | e
    · simpa [step, he] using Kept.refl a s
    cases hrow : s.rows e.assetID with
    | none =>
      refine kept_of_row _ _ ?_
      simp only [step, he, hrow, map_none, update_apply]
      split_ifs with ha
      · rw [ha, hrow]
      · rfl
    | some row =>
      by_cases ha : a = e.assetID
      · subst ha
        obtain ⟨hafter, hbefore⟩ := hwrite he hrow
        obtain ⟨hfingerprint, hverified⟩ := h e row he hrow
        constructor
        · intro f hf
          rw [hafter _ (by decide)]
          exact hfingerprint f (by rw [← hbefore]; exact hf)
        · rw [hafter _ (by decide), hbefore]
          exact hverified
      · refine kept_of_row _ _ ?_
        simp [step, he, update_of_ne ha]

theorem kept_step (lower : String → String) (op : Op) :
    (∀ a, ¬ op.Resets a → Kept a s (step lower s op)) ↔ EditFresh s op := by
  cases op with
  | commitAuthenticatedAgentHeartbeat assetID _ body | commitExistingOwnerAgentHeartbeat assetID body =>
    refine ⟨fun _ => trivial, fun _ a _ => ?_⟩
    simp only [step, commitAuthenticatedAgentHeartbeat, commitExistingOwnerAgentHeartbeat]
    rcases hrow : s.rows (trimSpace assetID) with _ | stored
    · exact .refl a s
    dsimp only
    split
    · exact .refl a s
    · rw [← hrow]
      exact kept_upsert rfl
  | upsertAssetHeartbeat assetID body =>
    refine ⟨fun _ => trivial, fun _ a _ => ?_⟩
    simp only [step, upsertAssetHeartbeat]
    split
    · exact .refl a s
    · exact kept_upsert rfl
  | updateAssetRead assetID req =>
    refine ⟨fun _ => trivial, fun _ a _ => kept_of_row _ _ ?_⟩
    simp only [step]
    cases s.rows assetID <;> rfl
  | updateAssetWrite i =>
    rw [← kept_updateAssetWrite lower i]
    exact forall_congr' fun a => ⟨fun h => h id, fun h _ => h⟩
  | decommission a' | enroll a' row =>
    refine ⟨fun _ => trivial, fun _ a ha => kept_of_row _ _ ?_⟩
    exact update_of_ne (fun hh => ha hh.symm) _ _

/-- The anchor is immutable along the run: it is kept over every stretch in which the
identity of the asset is not replaced. -/
def Immutable (lower : String → String) (s : Store) (ops : List Op) : Prop :=
  ∀ pre mid post, ops = pre ++ mid ++ post → ∀ a, (∀ op ∈ mid, ¬ op.Resets a) →
    Kept a (run (step lower) s pre) (run (step lower) s (pre ++ mid))

theorem kept_run {ops : List Op} (h : StepsMeet (step lower) EditFresh s ops)
    (hops : ∀ op ∈ ops, ¬ op.Resets a) : Kept a s (run (step lower) s ops) := by
  induction ops generalizing s with
  | nil => exact .refl a s
  | cons op ops ih =>
    have hstep := (kept_step lower op).2 h.1 a (hops op (by simp))
    exact hstep.trans (ih h.2 fun op hop => hops op (by simp [hop]))

/-- The anchor is immutable along a run exactly when every edit of the run writes to an asset
with the anchor that it read, or with no fingerprint yet. -/
theorem anchor_immutable_iff_edits_fresh (lower : String → String) (s : Store) (ops : List Op) :
    Immutable lower s ops ↔ StepsMeet (step lower) EditFresh s ops := by
  constructor
  · intro h
    induction ops generalizing s with
    | nil => trivial
    | cons op ops ih =>
      constructor
      · refine (kept_step lower op).1 fun a ha => ?_
        exact h [] [op] ops rfl a (by simpa using ha)
      · refine ih _ fun pre mid post hsplit a hmid => ?_
        exact h (op :: pre) mid post (by rw [hsplit]; rfl) a hmid
  · intro h pre mid post hsplit a hmid
    rw [hsplit, stepsMeet_append, stepsMeet_append] at h
    rw [run_append]
    exact kept_run h.1.2 hmid

/-- An asset that was enrolled without a device proof. -/
def sampleStore : Store :=
  ⟨fun a => if a = "node" then some ⟨"node", "agent", none, fun _ => none⟩ else none,
    fun _ => false, []⟩

/-- A rename that straddles the first heartbeat with a fingerprint. -/
def sampleRename : List Op :=
  [.updateAssetRead "node" ⟨some "rack", none⟩, .commitAuthenticatedAgentHeartbeat "node" true
      ⟨"node", "agent", "", fun key => if key = keyAgentDeviceFingerprint then some "F" else none⟩,
    .updateAssetWrite 0]

/-- The rename writes back the document without the fingerprint. -/
theorem rename_erases_fingerprint :
    (run (step toLower) sampleStore (sampleRename.take 2)).anchor "node"
        keyAgentDeviceFingerprint = some "F" ∧
      (run (step toLower) sampleStore sampleRename).anchor "node"
        keyAgentDeviceFingerprint = none := by
  decide +kernel

end

end LabTether.AssetAnchor
