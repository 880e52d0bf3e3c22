import LabTether.GoStrings
import LabTether.Table
import LabTether.Transaction
import LabTether.Transition

/-!
Composite assets: one primary and its facets
(`internal/persistence/postgres_composites_store.go` and the requests of
`internal/hubapi/resources/composite_handlers.go`). Each store call is one transaction on
`asset_composites`, whose constraints are a primary key on the pair, a unique member and foreign
keys to the assets. The set of assets is fixed here.
-/
namespace LabTether.Composites

open GoStrings Table

inductive Role
  | primary
  | facet
deriving DecidableEq

structure Member where
  (compositeID memberAssetID : String)
  role : Role
deriving DecidableEq

structure DB where
  assets : List String
  rows : List Member

inductive StoreError
  | notFound
  | constraint
  | required (message : String)

def members (rows : List Member) (compositeID : String) : List Member :=
  rows.filter fun r => r.compositeID = compositeID

variable (assets : List String)

/-- INSERT under the foreign keys and the unique member. -/
def insertMember (rows : List Member) (r : Member) :
    Except StoreError (List Member) :=
  if r.compositeID ∉ assets ∨ r.memberAssetID ∉ assets then .error .constraint
  else if r.memberAssetID ∈ rows.map Member.memberAssetID then .error .constraint
  else .ok (rows ++ [r])

def insertFacet (primaryID : String) (rows : List Member) (facetID : String) :
    Except StoreError (List Member) :=
  if trimSpace facetID = "" ∨ trimSpace facetID = primaryID then .ok rows
  else insertMember assets rows ⟨primaryID, trimSpace facetID, .facet⟩

def createComposite (primaryAssetID : String) (facetAssetIDs : List String) (rows : List Member) :
    Except StoreError (List Member) :=
  let primaryID := trimSpace primaryAssetID
  if primaryID = "" then .error (.required "primary_asset_id is required")
  else if facetAssetIDs = [] then .error (.required "at least one facet asset ID is required")
  else do
    let rows ← insertMember assets rows ⟨primaryID, primaryID, .primary⟩
    facetAssetIDs.foldlM (insertFacet assets primaryID) rows

variable (compositeID : String)

def demote (rows : List Member) : List Member :=
  updateWhere (fun r => r.compositeID = compositeID && r.role = .primary)
    (fun r => { r with role := .facet }) rows

def promote (memberID : String) (rows : List Member) : List Member :=
  updateWhere (fun r => r.compositeID = compositeID && r.memberAssetID = memberID)
    (fun r => { r with role := .primary }) rows

def rename (newID : String) (rows : List Member) : List Member :=
  updateWhere (fun r => r.compositeID = compositeID) (fun r => { r with compositeID := newID }) rows

/-- A member is unique in the whole table, so the last UPDATE meets no primary key. -/
def changePrimary (newPrimaryAssetID : String) (rows : List Member) :
    Except StoreError (List Member) :=
  let compositeID := trimSpace compositeID
  let newPrimaryAssetID := trimSpace newPrimaryAssetID
  if rows.any fun r => r.compositeID = compositeID && r.memberAssetID = newPrimaryAssetID then
    .ok (rename compositeID newPrimaryAssetID
      (promote compositeID newPrimaryAssetID (demote compositeID rows)))
  else .error .notFound

def removeMember (memberID : String) (rows : List Member) : List Member :=
  deleteWhere (fun r => r.compositeID = compositeID && r.memberAssetID = memberID) rows

def dissolve (rows : List Member) : List Member :=
  deleteWhere (fun r => r.compositeID = compositeID) rows

def detachMember (memberAssetID : String) (rows : List Member) :
    Except StoreError (List Member) :=
  let compositeID := trimSpace compositeID
  let memberAssetID := trimSpace memberAssetID
  if rows.any fun r => r.compositeID = compositeID && r.memberAssetID = memberAssetID then
    let rest := removeMember compositeID memberAssetID rows
    if (members rest compositeID).length ≤ 1 then .ok (dissolve compositeID rest) else .ok rest
  else .error .notFound

structure HttpError where
  status : ℕ
  message : String

def badRequest (message : String) : HttpError := ⟨400, message⟩

def maxCompositeFacetAssets : ℕ := 64
def maxCompositeAssetIDLength : ℕ := 255

/-- One round of the loop over the facets; it carries the facets seen so far. -/
def checkFacet (primaryID : String) (seen : List String) (facetID : String) :
    Except HttpError (List String) :=
  let id := trimSpace facetID
  if id = "" ∨ maxCompositeAssetIDLength < id.utf8ByteSize then
    .error (badRequest "facet_asset_ids must not contain empty values")
  else if id = primaryID then
    .error (badRequest "facet_asset_ids must not include primary_asset_id")
  else if id ∈ seen then .error (badRequest "facet_asset_ids must not contain duplicates")
  else .ok (seen ++ [id])

def checkCreate (primaryAssetID : String) (facetAssetIDs : List String) :
    Except HttpError (String × List String) :=
  let primaryID := trimSpace primaryAssetID
  if primaryID = "" then .error (badRequest "primary_asset_id is required")
  else if facetAssetIDs = [] then
    .error (badRequest "facet_asset_ids must contain at least one entry")
  else if maxCompositeFacetAssets < facetAssetIDs.length then
    .error (badRequest "facet_asset_ids exceeds maximum of 64")
  else if maxCompositeAssetIDLength < primaryID.utf8ByteSize then
    .error (badRequest "primary_asset_id is too long")
  else do
    let facets ← facetAssetIDs.foldlM (checkFacet primaryID) []
    .ok (primaryID, facets)

def orServerError (message : String) (result : Except StoreError (List Member)) :
    Except HttpError (List Member) :=
  result.mapError fun _ => ⟨500, message⟩

def handleCreate (db : DB) (primaryAssetID : String) (facetAssetIDs : List String) :
    Except HttpError (List Member) := do
  let (primaryID, facets) ← checkCreate primaryAssetID facetAssetIDs
  orServerError "failed to create composite" (createComposite db.assets primaryID facets db.rows)

def requireComposite (rows : List Member) (compositeID : String) : Except HttpError Unit :=
  if trimSpace compositeID = "" then .error ⟨404, "composite id is required"⟩
  else if members rows (trimSpace compositeID) = [] then .error ⟨404, "composite not found"⟩
  else .ok ()

def handleChangePrimary (db : DB) (compositeID primaryAssetID : String) :
    Except HttpError (List Member) := do
  requireComposite db.rows compositeID
  if trimSpace primaryAssetID = "" then .error (badRequest "primary_asset_id is required")
  else
    orServerError "failed to change primary asset"
      (changePrimary (trimSpace compositeID) (trimSpace primaryAssetID) db.rows)

def handleDetach (db : DB) (compositeID memberAssetID : String) : Except HttpError (List Member) :=
  if trimSpace compositeID = "" then .error ⟨404, "composite id is required"⟩
  else if trimSpace memberAssetID = "" then .error (badRequest "member asset id is required")
  else do
    requireComposite db.rows compositeID
    orServerError "failed to detach member"
      (detachMember (trimSpace compositeID) (trimSpace memberAssetID) db.rows)

inductive Op
  | create (primaryAssetID : String) (facetAssetIDs : List String)
  | changePrimary (compositeID primaryAssetID : String)
  | detach (compositeID memberAssetID : String)

def handle (db : DB) : Op → Except HttpError (List Member)
  | .create primaryAssetID facetAssetIDs => handleCreate db primaryAssetID facetAssetIDs
  | .changePrimary compositeID primaryAssetID => handleChangePrimary db compositeID primaryAssetID
  | .detach compositeID memberAssetID => handleDetach db compositeID memberAssetID

/-- A request that is not accepted leaves the table as it is. -/
def step (db : DB) (op : Op) : DB :=
  match handle db op with
  | .ok rows => { db with rows := rows }
  | .error _ => db

end LabTether.Composites
