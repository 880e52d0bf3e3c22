import LabTether.Forest
import LabTether.GoStrings
import LabTether.TableParts

/-!
The group stores (`internal/persistence/postgres_group_store.go`, `memory_group_store.go`). Both
write the same rows. PostgreSQL also checks its constraints: the parent exists, no two children
of a parent share a slug, and deleting a row deletes what still hangs under it. A blank parent
is stored as NULL and is the empty string here.
-/
namespace LabTether.Groups

open GoStrings Table Forest List Option Function

structure Group where
  (id name slug parentGroupID icon : String)
  sortOrder : ℤ
  (timezone location : String)

structure CreateRequest where
  (name slug parentGroupID icon : String)
  sortOrder : ℤ
  (timezone location : String)

structure UpdateRequest where
  (name slug parentGroupID icon : Option String)
  sortOrder : Option ℤ
  (timezone location : Option String)

def UpdateRequest.empty : UpdateRequest := ⟨none, none, none, none, none, none, none⟩

inductive Backend
  | postgres
  | memory
deriving DecidableEq

inductive StoreError
  | notFound
  | constraint

def isSlugChar (c : Char) : Bool := ('a' ≤ c && c ≤ 'z') || ('0' ≤ c && c ≤ '9') || c == '-'

def slugify (name : String) : String :=
  let lower := (toLower (trimSpace name)).toList
  let kept := (lower.map fun c => if c = ' ' then '-' else c).filter isSlugChar
  if trimHyphens kept = [] then "group" else String.ofList (trimHyphens kept)

def newGroup (id : String) (req : CreateRequest) : Group where
  id := id
  name := trimSpace req.name
  slug := if trimSpace req.slug = "" then slugify req.name else trimSpace req.slug
  parentGroupID := trimSpace req.parentGroupID
  icon := trimSpace req.icon
  sortOrder := req.sortOrder
  timezone := trimSpace req.timezone
  location := trimSpace req.location

def UpdateRequest.apply (req : UpdateRequest) (g : Group) : Group where
  id := g.id
  name := (req.name.map trimSpace).getD g.name
  slug := (req.slug.map trimSpace).getD g.slug
  parentGroupID := (req.parentGroupID.map trimSpace).getD g.parentGroupID
  icon := (req.icon.map trimSpace).getD g.icon
  sortOrder := req.sortOrder.getD g.sortOrder
  timezone := (req.timezone.map trimSpace).getD g.timezone
  location := (req.location.map trimSpace).getD g.location

def findGroup (rows : List Group) (id : String) : Option Group := rows.find? fun g => g.id = id

def Group.parent (g : Group) : Option String :=
  if g.parentGroupID = "" then none else some g.parentGroupID

def parentOf (rows : List Group) (id : String) : Option String :=
  (findGroup rows id).bind Group.parent

def putGroup (g : Group) (rows : List Group) : List Group :=
  if (findGroup rows g.id).isSome then updateWhere (fun row => row.id = g.id) (fun _ => g) rows
  else rows ++ [g]

def slugTaken (rows : List Group) (parent : String) (g : Group) : Bool :=
  rows.any fun other => other.id ≠ g.id && other.parentGroupID = parent && other.slug = g.slug

variable (backend : Backend)

/-- The foreign key and the unique key of a row, in the table it is written to. NULL
parents are not compared. -/
def Backend.admits (g : Group) (rows : List Group) : Bool :=
  match backend with
  | .memory => true
  | .postgres => g.parentGroupID = "" ||
      ((findGroup rows g.parentGroupID).isSome && !slugTaken rows g.parentGroupID g)

/-- The row of `CreateGroup`. -/
def createdRow (id : String) (req : CreateRequest) (rows : List Group) :
    Except StoreError Group :=
  let g := newGroup id req
  if backend = .postgres ∧ (findGroup rows id).isSome then .error .constraint
  else if backend.admits g (putGroup g rows) then .ok g
  else .error .constraint

def createGroup (id : String) (req : CreateRequest) (rows : List Group) :
    Except StoreError (List Group) :=
  (createdRow backend id req rows).map fun g => putGroup g rows

/-- The row of `UpdateGroup`. -/
def updatedRow (id : String) (req : UpdateRequest) (rows : List Group) :
    Except StoreError Group :=
  match findGroup rows (trimSpace id) with
  | none => .error .notFound
  | some g =>
    if backend.admits (req.apply g) (putGroup (req.apply g) rows) then .ok (req.apply g)
    else .error .constraint

def updateGroup (id : String) (req : UpdateRequest) (rows : List Group) :
    Except StoreError (List Group) :=
  (updatedRow backend id req rows).map fun g => putGroup g rows

def reparent (id parent : String) (rows : List Group) : List Group :=
  updateWhere (fun row => row.parentGroupID = id)
    (fun row => { row with parentGroupID := parent }) rows

/-- What ON DELETE CASCADE takes along, in as many rounds as there are rows. -/
def withDescendants (rows : List Group) : ℕ → List String → List String
  | 0, ids => ids
  | n + 1, ids =>
    withDescendants rows n (ids ++
      (rows.filter fun row => row.parentGroupID ≠ "" && row.parentGroupID ∈ ids).map Group.id)

def deleteCascade (id : String) (rows : List Group) : List Group :=
  deleteWhere (fun row => row.id ∈ withDescendants rows rows.length [id]) rows

def deleteGroup (id : String) (rows : List Group) :
    Except StoreError (List Group) :=
  let id := trimSpace id
  match findGroup rows id with
  | none => .error .notFound
  | some g =>
    let moved := reparent id g.parentGroupID rows
    match backend with
    | .memory => .ok (deleteWhere (fun row => row.id = id) moved)
    | .postgres =>
      -- the unique key is checked as the children move
      if g.parentGroupID ≠ "" ∧
          rows.any fun child => child.parentGroupID = id && slugTaken rows g.parentGroupID child then
        .error .constraint
      else .ok (deleteCascade id moved)

/-- `IsAncestor`; `none` when the recursive query does not come to an end. The memory store
stops at a group it has seen and answers no. -/
def isAncestor (candidateAncestorID descendantID : String) (rows : List Group) : Option Bool :=
  let candidate := trimSpace candidateAncestorID
  let descendant := trimSpace descendantID
  if candidate = "" ∨ descendant = "" then some false
  else
    let answer := walkUp (parentOf rows) candidate (rows.length + 1) descendant
    match backend with
    | .postgres => answer
    | .memory => some (answer.getD false)

section

variable {rows : List Group} {g : Group} {id : String}

theorem findGroup_id (h : findGroup rows id = some g) : g.id = id := (rowOf_mem h).2

variable {p : Group → Bool}

theorem findGroup_updateWhere {f : Group → Group}
    (hf : ∀ row, p row → (f row).id = row.id) (id : String) : findGroup (updateWhere p f rows) id =
      (findGroup rows id).map fun row => if p row then f row else row :=
  rowOf_updateWhere hf

theorem findGroup_deleteWhere (hp : ∀ row ∈ rows, row.id = id → p row = false) :
    findGroup (deleteWhere p rows) id = findGroup rows id := rowOf_deleteWhere_other hp

theorem findGroup_deleted (hp : ∀ row ∈ rows, row.id = id → p row = true) :
    findGroup (deleteWhere p rows) id = none := rowOf_deleteWhere_none hp

theorem findGroup_putGroup (g : Group) (rows : List Group) (id : String) :
    findGroup (putGroup g rows) id = if id = g.id then some g else findGroup rows id := by
  fun_cases putGroup g rows
  case case1 hsome =>
    obtain ⟨old, hold⟩ := isSome_iff_exists.1 hsome
    rw [findGroup_updateWhere (by simp +contextual)]
    split_ifs with hid
    · rw [hid, hold, map_some, if_pos (by simpa using findGroup_id hold)]
    cases hfind : findGroup rows id with
    | none => rfl
    | some row => simp [findGroup_id hfind, hid]
  case case2 hnone =>
    have hfind : rowOf Group.id g.id rows = none := not_isSome_iff_eq_none.1 hnone
    refine (rowOf_append g).trans ?_
    by_cases hid : g.id = id
    · rw [if_pos hid, if_pos hid.symm, ← hid, hfind, none_or]
    · rw [if_neg hid, if_neg (Ne.symm hid), or_none]
      rfl

theorem parentOf_putGroup (g : Group) (rows : List Group) :
    parentOf (putGroup g rows) = update (parentOf rows) g.id g.parent := by
  funext id
  unfold parentOf
  rw [findGroup_putGroup]
  by_cases hid : id = g.id
  · rw [if_pos hid, hid, update_self]
    rfl
  · rw [if_neg hid, update_of_ne hid]

theorem findGroup_reparent (parent : String) (x : String) : findGroup (reparent id parent rows) x =
      (findGroup rows x).map fun row =>
        if row.parentGroupID = id then { row with parentGroupID := parent } else row := by
  unfold reparent
  rw [findGroup_updateWhere (by simp)]
  simp

theorem parentOf_delete (hid : id ≠ "") (hg : findGroup rows id = some g)
    (hp : ∀ row ∈ reparent id g.parentGroupID rows, p row = true ↔ row.id = id) :
    parentOf (deleteWhere p (reparent id g.parentGroupID rows)) = contract (parentOf rows) id := by
  funext x
  unfold parentOf contract
  by_cases hx : x = id
  · rw [if_pos hx, hx, findGroup_deleted fun row hrow heq => (hp row hrow).2 heq]
    rfl
  rw [if_neg hx, findGroup_deleteWhere]
  · rw [findGroup_reparent]
    simp only [hg]
    rcases hfind : findGroup rows x with _ | row
    · rfl
    simp only [map_some, bind_some, Group.parent]
    by_cases hrow : row.parentGroupID = id
    · simp [hrow, hid]
    · simp [hrow]
  · intro row hrow heq
    have hne : ¬ p row = true := fun h => hx (heq.symm.trans ((hp row hrow).1 h))
    simpa using hne

theorem withDescendants_reparent {parent : String} (hparent : parent ≠ id) (n : ℕ) :
    withDescendants (reparent id parent rows) n [id] = [id] := by
  induction n with
  | zero => rfl
  | succ n ih =>
    have hnone : (reparent id parent rows).filter
        (fun row => row.parentGroupID ≠ "" && row.parentGroupID ∈ [id]) = [] := by
      apply filter_eq_nil_iff.2
      intro row hrow
      obtain ⟨old, -, rfl⟩ := mem_updateWhere.1 hrow
      by_cases hold : old.parentGroupID = id
      · simp [hold, hparent]
      · simp [hold]
    rw [withDescendants, hnone]
    exact ih

variable {backend : Backend} {rows' : List Group}

/-- An accepted row keeps the forest iff its parent is not the group itself or below it. -/
theorem putGroup_isForest_iff (h : IsForest (parentOf rows)) (g : Group) :
    IsForest (parentOf (putGroup g rows)) ↔ ∀ p ∈ g.parent, ¬ Reaches (parentOf rows) p g.id := by
  rw [parentOf_putGroup]
  exact isForest_update_iff h g.id g.parent

theorem deleteGroup_isForest (h : IsForest (parentOf rows)) (hid : trimSpace id ≠ "")
    (hdel : deleteGroup backend id rows = .ok rows') : IsForest (parentOf rows') := by
  have hcontract : IsForest (contract (parentOf rows) (trimSpace id)) := isForest_contract h _
  revert hdel
  fun_cases deleteGroup backend id rows
  all_goals rintro ⟨⟩
  case case2 hg _ => rwa [parentOf_delete hid hg fun _ _ => decide_eq_true_iff]
  case case4 g hg _ _ =>
    have hself : g.parentGroupID ≠ trimSpace id := by
      intro heq
      have hlink : parentOf rows (trimSpace id) = some (trimSpace id) := by
        rw [parentOf, hg, bind_some, Group.parent, heq, if_neg hid]
      exact (h _).not_ancestor_self (Relation.TransGen.single hlink)
    rw [deleteCascade, parentOf_delete hid hg]
    · exact hcontract
    · intro row _
      rw [withDescendants_reparent hself]
      simp

end

end LabTether.Groups
