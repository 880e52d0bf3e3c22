import LabTether.FirstRows
import LabTether.GoStrings

/-!
Maintenance windows and the guardrails read from them (`groupfeatures/maintenance.go`,
`postgres_group_maintenance_store.go`, `maintenanceguard/connector.go`). The store answers with
the first windows in the order of their start; windows with one start come in any order. Whether
the database answers and whether the context of a call is over are inputs, and so are the asset
inventory, the comparison of asset ids without case and the provider's own targets of an action.
-/
namespace LabTether.Maintenance

open GoStrings FirstRows

structure MaintenanceWindow where
  (id groupID name : String)
  (startAt endAt : ℕ)
  (suppressAlerts blockActions blockUpdates : Bool)

inductive Err
  | database
  | groupNotFound
  | cancelled
  | lookupUnavailable
  | lookupIncomplete

/-- The tables; a window belongs to a group, and ids of groups have no white space around them. -/
structure Store where
  groups : List String
  windows : List MaintenanceWindow
  groupsNamed : ∀ g ∈ groups, trimSpace g = g ∧ g ≠ ""
  windowsOwned : ∀ w ∈ windows, w.groupID ∈ groups

/-- What the database decides in one call: whether it answers, and the order of windows that start
at the same time. -/
structure Answer where
  fails : Bool
  ascending : RowOrder fun w : MaintenanceWindow => (w.startAt : ℤ)
  descending : RowOrder fun w : MaintenanceWindow => -(w.startAt : ℤ)

def MaintenanceWindow.isActive (instant : ℕ) (w : MaintenanceWindow) : Bool :=
  decide (w.startAt ≤ instant) && decide (instant ≤ w.endAt)

def Store.windowsOf (s : Store) (groupID : String) : List MaintenanceWindow :=
  s.windows.filter fun w => decide (w.groupID = groupID)

def Store.activeWindows (s : Store) (groupID : String) (instant : ℕ) : List MaintenanceWindow :=
  (s.windowsOf groupID).filter (·.isActive instant)

def clampLimit (limit : ℤ) : ℕ :=
  if limit ≤ 0 then 50 else if 500 < limit then 500 else limit.toNat

/-- `ListGroupMaintenanceWindowsContext` -/
def listGroupMaintenanceWindows (s : Store) (answer : Answer) (groupID : String)
    (activeAt : Option ℕ) (limit : ℤ) : Except Err (List MaintenanceWindow) :=
  if answer.fails then .error .database
  else if trimSpace groupID ∉ s.groups then .error .groupNotFound
  else match activeAt with
    | some instant =>
      .ok (answer.ascending.first (clampLimit limit) (s.activeWindows (trimSpace groupID) instant))
    | none => .ok (answer.descending.first (clampLimit limit) (s.windowsOf (trimSpace groupID)))

def Store.create (s : Store) (w : MaintenanceWindow) (hw : w.groupID ∈ s.groups) : Store where
  groups := s.groups
  windows := s.windows ++ [w]
  groupsNamed := s.groupsNamed
  windowsOwned v hv := by
    rcases List.mem_append.1 hv with hold | hnew
    · exact s.windowsOwned v hold
    · exact List.mem_singleton.1 hnew ▸ hw

inductive Flag
  | suppressAlerts
  | blockActions
  | blockUpdates

def MaintenanceWindow.has (w : MaintenanceWindow) : Flag → Bool
  | .suppressAlerts => w.suppressAlerts
  | .blockActions => w.blockActions
  | .blockUpdates => w.blockUpdates

structure Guardrails where
  groupID : String
  activeWindows : List MaintenanceWindow
  (suppressAlerts blockActions blockUpdates : Bool)

def Guardrails.empty : Guardrails := ⟨"", [], false, false, false⟩

def Guardrails.has (g : Guardrails) : Flag → Bool
  | .suppressAlerts => g.suppressAlerts
  | .blockActions => g.blockActions
  | .blockUpdates => g.blockUpdates

def Guardrails.add (g : Guardrails) (w : MaintenanceWindow) : Guardrails :=
  { g with
    suppressAlerts := g.suppressAlerts || w.suppressAlerts
    blockActions := g.blockActions || w.blockActions
    blockUpdates := g.blockUpdates || w.blockUpdates }

abbrev Lookup := String → Option ℕ → ℤ → Except Err (List MaintenanceWindow)

/-- `groupGuardrailsWithLookup`; an instant of `none` is the zero time. -/
def groupGuardrailsWithLookup (now : ℕ) (groupID : String) (instant : Option ℕ) (lookup : Lookup) :
    Except Err Guardrails :=
  if trimSpace groupID = "" then .ok .empty
  else
    match lookup (trimSpace groupID) (some (instant.getD now)) 50 with
    | .error e => .error e
    | .ok windows =>
      .ok (windows.foldl .add ⟨trimSpace groupID, windows, false, false, false⟩)

/-- `GroupGuardrails`, which `EvaluateGuardrails` is too. -/
def groupGuardrails (store : Option Store) (answer : Answer) (now : ℕ) (groupID : String)
    (instant : Option ℕ) : Except Err Guardrails :=
  match store with
  | none => .ok .empty
  | some s => groupGuardrailsWithLookup now groupID instant (listGroupMaintenanceWindows s answer)

/-- `EvaluateGuardrailsContext`; a store may lack the lookup with a context. -/
def evaluateGuardrailsContext (cancelled bounded : Bool) (store : Option Store) (answer : Answer)
    (now : ℕ) (groupID : String) (instant : Option ℕ) : Except Err Guardrails :=
  if cancelled then .error .cancelled
  else match store with
    | none => .ok .empty
    | some s =>
      if bounded = false then .error .lookupUnavailable
      else groupGuardrailsWithLookup now groupID instant fun id activeAt limit =>
        match listGroupMaintenanceWindows s answer id activeAt limit with
        | .error e => .error e
        | .ok windows =>
          if limit ≤ windows.length then .error .lookupIncomplete else .ok windows

structure Asset where
  (id groupID : String)
  /-- The controlling agent in the metadata. -/
  agentID : String

/-- The asset inventory; `none` is an asset that is not there. -/
abbrev Inventory := String → Except Err (Option Asset)

/-- The group of an asset, or of the host that controls it. -/
def resolveGroup (assets : Inventory) (equalFold : String → String → Bool) (asset : Asset) :
    Except Err String :=
  if trimSpace asset.groupID ≠ "" then .ok (trimSpace asset.groupID)
  else if trimSpace asset.agentID = "" ∨ equalFold (trimSpace asset.agentID) asset.id then .ok ""
  else
    match assets (trimSpace asset.agentID) with
    | .error e => .error e
    | .ok none => .ok ""
    | .ok (some parent) => .ok (trimSpace parent.groupID)

/-- `EvaluateAssetGuardrails`, for what `GroupGuardrails` answers. -/
def evaluateAssetGuardrails (assets : Option Inventory) (equalFold : String → String → Bool)
    (guardrails : String → Except Err Guardrails) (assetID : String) : Except Err Guardrails :=
  match assets with
  | none => .ok .empty
  | some assets =>
    if trimSpace assetID = "" then .ok .empty
    else
      match assets (trimSpace assetID) with
      | .error e => .error e
      | .ok none => .ok .empty
      | .ok (some asset) =>
        match resolveGroup assets equalFold asset with
        | .error e => .error e
        | .ok groupID => guardrails groupID

/-- The loop of `ConnectorEvaluator.Evaluate` over the targets of an action. -/
def evaluateTargets (evaluateAsset : String → Except Err Guardrails) :
    List String → List String → Except Err Guardrails
  | _, [] => .ok .empty
  | seen, target :: targets =>
    if target = "" ∨ target ∈ seen then evaluateTargets evaluateAsset seen targets
    else
      match evaluateAsset target with
      | .error e => .error e
      | .ok guard =>
        if guard.blockActions then .ok guard
        else evaluateTargets evaluateAsset (target :: seen) targets

/-- `ConnectorEvaluator.Evaluate`, for the targets that the provider names. -/
def evaluate (evaluateAsset : String → Except Err Guardrails) (targetID : String)
    (actual : Except Err (List String)) : Except Err Guardrails :=
  match actual with
  | .error e => .error e
  | .ok actual => evaluateTargets evaluateAsset [] (trimSpace targetID :: actual)

end LabTether.Maintenance
