import LabTether.AssetAnchor

/-!
The device anchor in the two asset stores: the merge of a heartbeat in the memory store
(`mergeHeartbeatIdentityAnchor`) against the upsert of the PostgreSQL store. A Go map is a list of
its pairs, and an asset that is not stored has none. `strings.EqualFold` and the database's `LOWER`
are parameters.
-/
namespace LabTether.AssetAnchor

open GoStrings List Function

variable (equalFold : String → String → Bool) (lower : String → String)

abbrev GoMap := List (String × String)

def GoMap.get (m : GoMap) (key : String) : String := (m.lookup key).getD ""

def Metadata.set (m : Metadata) (key value : String) : Metadata := update m key (some value)

open Metadata

def mergeHeartbeatIdentityAnchor (existing reported : GoMap) (allowRotation allowTOFU : Bool) :
    Metadata :=
  let merged : Metadata := fun key => reported.lookup key
  let dropDevice := fun m : Metadata =>
    (m.delete keyAgentDeviceFingerprint).delete keyAgentDeviceKeyAlgorithm
  if allowRotation then merged
  else
    let merged := merged.delete keyAgentIdentityVerifiedAt
    if existing = [] then if allowTOFU then merged else dropDevice merged
    else
      let existingFingerprint := trimSpace (existing.get keyAgentDeviceFingerprint)
      let reportedFingerprint := trimSpace (reported.get keyAgentDeviceFingerprint)
      let existingKeyAlgorithm := trimSpace (existing.get keyAgentDeviceKeyAlgorithm)
      let verifiedAt := trimSpace (existing.get keyAgentIdentityVerifiedAt)
      let merged :=
        if existingFingerprint = "" ∧ existingKeyAlgorithm = "" ∧ allowTOFU = false then
          dropDevice merged
        else merged
      let merged :=
        if existingFingerprint ≠ "" then
          let merged := merged.set keyAgentDeviceFingerprint existingFingerprint
          if existingKeyAlgorithm ≠ "" then
            merged.set keyAgentDeviceKeyAlgorithm existingKeyAlgorithm
          else if equalFold existingFingerprint reportedFingerprint then merged
          else merged.delete keyAgentDeviceKeyAlgorithm
        else if existingKeyAlgorithm ≠ "" then
          merged.set keyAgentDeviceKeyAlgorithm existingKeyAlgorithm
        else merged
      if verifiedAt ≠ "" then merged.set keyAgentIdentityVerifiedAt verifiedAt else merged

def heartbeatMetadata (existing reported : GoMap) (allowRotation allowTOFU : Bool) : Metadata :=
  let overrideName := trimSpace (existing.get keyNameOverride)
  let merged := mergeHeartbeatIdentityAnchor equalFold existing reported allowRotation allowTOFU
  if overrideName ≠ "" then merged.set keyNameOverride overrideName else merged

/-- The metadata that `upsertAssetHeartbeatTx` stores; `row` and `body` have the other columns. -/
def postgresMetadata (existing : Option GoMap) (row : AssetRow) (reported : GoMap)
    (body : Heartbeat) (allowRotation allowTOFU : Bool) : Metadata :=
  (upsertAssetHeartbeatTx lower
    (existing.map fun m => { row with metadata := fun key => m.lookup key })
    ⟨{ body with metadata := fun key => reported.lookup key }, allowRotation, allowTOFU⟩).metadata

def Metadata.trimmed (m : Metadata) (key : String) : String := trimSpace ((m key).getD "")

def anchorKeys : List String :=
  [keyAgentDeviceFingerprint, keyAgentDeviceKeyAlgorithm, keyAgentIdentityVerifiedAt]

/-- When the stores take the reported fingerprint, and the reported key algorithm, alike. -/
structure TakesAlike (existing reported : GoMap) (allowTOFU : Bool) : Prop where
  fingerprint : trimSpace (existing.get keyAgentDeviceFingerprint) = "" →
    trimSpace (reported.get keyAgentDeviceFingerprint) ≠ "" →
    ((allowTOFU = true ∨ trimSpace (existing.get keyAgentDeviceKeyAlgorithm) ≠ "") ↔
      (allowTOFU = true ∧ btrim (existing.get keyAgentDeviceFingerprint) = ""))
  keyAlgorithm : trimSpace (existing.get keyAgentDeviceKeyAlgorithm) = "" →
    trimSpace (reported.get keyAgentDeviceKeyAlgorithm) ≠ "" →
    ((if trimSpace (existing.get keyAgentDeviceFingerprint) = "" then allowTOFU = true
      else equalFold (trimSpace (existing.get keyAgentDeviceFingerprint))
        (trimSpace (reported.get keyAgentDeviceFingerprint)) = true) ↔
      (allowTOFU = true ∧ btrim (existing.get keyAgentDeviceKeyAlgorithm) = "" ∧
        (btrim (existing.get keyAgentDeviceFingerprint) = "" ∨
          lower (btrim (reported.get keyAgentDeviceFingerprint)) =
            lower (btrim (existing.get keyAgentDeviceFingerprint)))))

section

variable {m m' : Metadata} {key key' value : String} (m : Metadata)

theorem trimmed_set (key key' value : String) :
    (m.set key value).trimmed key' = if key' = key then trimSpace value else m.trimmed key' := by
  unfold Metadata.trimmed Metadata.set
  rw [update_apply]
  split_ifs <;> rfl

theorem trimmed_delete (key key' : String) :
    (m.delete key).trimmed key' = if key' = key then "" else m.trimmed key' := by
  unfold Metadata.trimmed delete
  rw [update_apply]
  split_ifs <;> rfl

theorem trimmed_ite (c : Prop) [Decidable c] (m m' : Metadata) (key : String) :
    (if c then m else m').trimmed key = if c then m.trimmed key else m'.trimmed key := by
  split_ifs <;> rfl

theorem btrim_empty : btrim "" = "" := by decide

theorem trimSpace_empty : trimSpace "" = "" := by decide

theorem trimmed_concat_keep (m' : Metadata) (key key' : String) :
    (m.concat (m'.keep key')).trimmed key =
      if key = key' ∧ btrim ((m' key').getD "") ≠ "" then m'.trimmed key' else m.trimmed key := by
  by_cases hkey : key = key'
  · subst hkey
    unfold Metadata.trimmed
    rw [concat_keep_self, recorded]
    cases m' key with
    | none => simp [btrim_empty]
    | some v => by_cases hv : btrim v = "" <;> simp [Option.filter, hv]
  · rw [if_neg (not_and_of_not_left _ hkey), Metadata.trimmed, concat_keep_ne hkey]
    rfl

theorem text_eq (key : String) :
    m.text key = if btrim ((m key).getD "") = "" then none else some (btrim ((m key).getD "")) := by
  unfold text
  cases m key with
  | none => simp [btrim_empty]
  | some v => rfl

theorem trimSpace_of_btrim {v : String} (h : btrim v = "") : trimSpace v = "" := by
  have hlist := congrArg String.toList h
  simp only [btrim, String.toList_ofList, String.toList_empty, reverse_eq_nil_iff,
    dropWhile_eq_nil_iff, mem_reverse] at hlist
  have hnil : v.toList.dropWhile (· == ' ') = [] := by
    rw [← dropWhile_idempotent, dropWhile_eq_nil_iff]
    exact hlist
  have hspace : v.toList.dropWhile isSpace = [] := by
    refine dropWhile_eq_nil_iff.2 fun c hc => ?_
    rw [eq_of_beq (dropWhile_eq_nil_iff.1 hnil c hc)]
    decide
  rw [trimSpace, trimSpaceList, hspace]
  rfl

theorem keys_ne : keyAgentDeviceFingerprint ≠ keyAgentDeviceKeyAlgorithm ∧
    keyAgentDeviceFingerprint ≠ keyAgentIdentityVerifiedAt ∧
    keyAgentDeviceKeyAlgorithm ≠ keyAgentIdentityVerifiedAt ∧
    keyAgentDeviceFingerprint ≠ keyNameOverride ∧ keyAgentDeviceKeyAlgorithm ≠ keyNameOverride ∧
    keyAgentIdentityVerifiedAt ≠ keyNameOverride := by decide

end

variable (existing reported : GoMap) (allowTOFU : Bool)

theorem memory_anchor :
    let m := heartbeatMetadata equalFold existing reported false allowTOFU
    let e key := trimSpace (existing.get key)
    let r key := trimSpace (reported.get key)
    let f := keyAgentDeviceFingerprint
    let k := keyAgentDeviceKeyAlgorithm
    m.trimmed f = (if e f ≠ "" then e f else if allowTOFU = true ∨ e k ≠ "" then r f else "") ∧
    m.trimmed k = (if e k ≠ "" then e k
      else if (if e f = "" then allowTOFU = true else equalFold (e f) (r f) = true) then r k
      else "") ∧
    m.trimmed keyAgentIdentityVerifiedAt = e keyAgentIdentityVerifiedAt := by
  obtain ⟨h₁, h₂, h₃, h₄, h₅, h₆⟩ := keys_ne
  have hreported : ∀ key, Metadata.trimmed (fun key => reported.lookup key) key =
    trimSpace (reported.get key) := fun _ => rfl
  unfold heartbeatMetadata mergeHeartbeatIdentityAnchor
  by_cases he : existing = []
  · subst he
    cases allowTOFU <;> simp [GoMap.get, trimSpace_empty, trimmed_delete, h₁, h₂, h₃, hreported]
  simp only [Bool.false_eq_true, if_false, if_neg he]
  by_cases hf : trimSpace (existing.get keyAgentDeviceFingerprint) = "" <;>
    by_cases ha : trimSpace (existing.get keyAgentDeviceKeyAlgorithm) = "" <;>
    by_cases hv : trimSpace (existing.get keyAgentIdentityVerifiedAt) = "" <;>
    cases allowTOFU <;>
    simp [trimmed_ite, trimmed_set, trimmed_delete, h₁, h₂, h₃, h₄, h₅, h₆, h₁.symm, h₂.symm,
      h₃.symm, hreported, hf, ha, hv]

theorem postgres_anchor (existing : Option GoMap) (row : AssetRow) (body : Heartbeat) :
    let m := postgresMetadata lower existing row reported body false allowTOFU
    let e := (existing.getD []).get
    let r := reported.get
    let f := keyAgentDeviceFingerprint
    let k := keyAgentDeviceKeyAlgorithm
    m.trimmed f = (if btrim (e f) ≠ "" then trimSpace (e f)
      else if allowTOFU = true then trimSpace (r f) else "") ∧
    m.trimmed k = (if btrim (e k) ≠ "" then trimSpace (e k)
      else if allowTOFU = true ∧
          (btrim (e f) = "" ∨ lower (btrim (r f)) = lower (btrim (e f))) then trimSpace (r k)
      else "") ∧
    m.trimmed keyAgentIdentityVerifiedAt = trimSpace (e keyAgentIdentityVerifiedAt) := by
  obtain ⟨h₁, h₂, h₃, h₄, h₅, h₆⟩ := keys_ne
  have htrimmed : ∀ (m : GoMap) key, Metadata.trimmed (fun key => m.lookup key) key =
    trimSpace (m.get key) := fun _ _ => rfl
  have hget : ∀ (m : GoMap) key, (m.lookup key).getD "" = m.get key := fun _ _ => rfl
  unfold postgresMetadata upsertAssetHeartbeatTx reportedMetadata
  rcases existing with _ | e
  · cases allowTOFU <;>
      simp [GoMap.get, btrim_empty, trimSpace_empty, trimmed_delete, h₁, h₂, h₃, htrimmed]
  have hv := trimSpace_of_btrim (v := e.get keyAgentIdentityVerifiedAt)
  have hnull : ∀ v : String, (if v = "" then none else some v).getD "" = v := by
    intro v
    split_ifs with h <;> simp [h]
  have hdelete : ∀ m : Metadata, (m.delete keyAgentIdentityVerifiedAt) keyAgentDeviceFingerprint =
      m keyAgentDeviceFingerprint := fun m => update_of_ne h₂ _ _
  have hdropped : ∀ m : Metadata, ((m.delete keyAgentDeviceFingerprint).delete
      keyAgentDeviceKeyAlgorithm) keyAgentDeviceFingerprint = none := fun m =>
    (update_of_ne h₁ _ _).trans (update_self _ _ _)
  by_cases hf : btrim (e.get keyAgentDeviceFingerprint) = "" <;> cases allowTOFU <;>
    simp [mergeMetadata, text_eq, trimmed_concat_keep, trimmed_ite, trimmed_delete, hget, htrimmed,
      hf, hdelete, hdropped, hnull, h₁, h₂, h₃, h₄, h₅, h₆, h₁.symm, h₂.symm, h₃.symm] <;>
    exact hv

/-- The two stores leave the same anchor exactly when the identity is rotated, or both take the
reported fields or neither does. -/
theorem stores_agree_iff (existing : Option GoMap) (reported : GoMap) (row : AssetRow)
    (body : Heartbeat) (allowRotation allowTOFU : Bool) : (∀ key ∈ anchorKeys,
      (heartbeatMetadata equalFold (existing.getD []) reported allowRotation allowTOFU).trimmed key =
        (postgresMetadata lower existing row reported body allowRotation allowTOFU).trimmed key) ↔
      allowRotation = true ∨ TakesAlike equalFold lower (existing.getD []) reported allowTOFU := by
  obtain ⟨h₁, h₂, h₃, h₄, h₅, h₆⟩ := keys_ne
  cases allowRotation with
  | true =>
    have hmemory : ∀ key ∈ anchorKeys,
        (heartbeatMetadata equalFold (existing.getD []) reported true allowTOFU).trimmed key =
          (postgresMetadata lower existing row reported body true allowTOFU).trimmed key := by
      unfold heartbeatMetadata mergeHeartbeatIdentityAnchor postgresMetadata upsertAssetHeartbeatTx
      cases existing <;>
        simp [anchorKeys, mergeMetadata, reportedMetadata, trimmed_ite, trimmed_set,
          trimmed_concat_keep, h₄, h₅, h₆]
    simp only [true_or, iff_true]
    exact hmemory
  | false =>
    obtain ⟨hmf, hma, hmv⟩ := memory_anchor equalFold (existing.getD []) reported allowTOFU
    obtain ⟨hpf, hpa, hpv⟩ := postgres_anchor lower reported allowTOFU existing row body
    simp only [anchorKeys, forall_mem_cons, hmf, hma, hmv, hpf, hpa, hpv, Bool.false_eq_true,
      false_or, not_mem_nil, false_implies, implies_true, and_true]
    have hf := trimSpace_of_btrim (v := (existing.getD []).get keyAgentDeviceFingerprint)
    have ha := trimSpace_of_btrim (v := (existing.getD []).get keyAgentDeviceKeyAlgorithm)
    constructor
    all_goals
      rintro ⟨h, h'⟩
      constructor <;> grind

/-- With a partially filled anchor the memory store takes a fingerprint from a heartbeat that may
not author one. -/
theorem memory_takes_unauthored_fingerprint :
    let existing : GoMap := [(keyAgentDeviceKeyAlgorithm, "ed25519")]
    let reported : GoMap := [(keyAgentDeviceFingerprint, "ab12")]
    (heartbeatMetadata (fun a b => a == b) existing reported false false).trimmed
        keyAgentDeviceFingerprint = "ab12" ∧
      (postgresMetadata toLower (some existing) ⟨"", "", none, fun _ => none⟩ reported
        ⟨"", "", "", fun _ => none⟩ false false).trimmed keyAgentDeviceFingerprint = "" := by
  decide

end LabTether.AssetAnchor
