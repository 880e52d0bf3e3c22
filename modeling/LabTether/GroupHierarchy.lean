import LabTether.GroupStore
import LabTether.Transition

/-!
The group requests of the API (`internal/hubapi/resources/groups_handlers.go`) in any
interleaving, one store call at a time. Only a move looks for a cycle, and its check and its
write are two calls; a full or partial update writes the parent it is given. The result says
exactly which writes keep the hierarchy a forest.
-/
namespace LabTether.Groups

open GoStrings Forest Transition UpdateRequest

/-- A move that passed its check and has not written yet. -/
structure PendingMove where
  request : ℕ
  (group parent : String)

structure State where
  groups : List Group
  moves : List PendingMove

def init : State := ⟨[], []⟩

/-- The store calls. An `update` is a PUT or a PATCH of `/groups/{id}`: one handler serves
both, and writes the fields that were sent. -/
inductive Op
  | create (id : String) (req : CreateRequest)
  | update (group : String) (req : UpdateRequest)
  | reorder (group : String) (sortOrder : ℤ)
  | delete (group : String)
  | moveCheck (request : ℕ) (group parent : String)
  | moveWrite (request : ℕ)

def State.store (s : State) (result : Except StoreError (List Group)) : State :=
  match result with
  | .ok rows => { s with groups := rows }
  | .error _ => s

def moveRequest (parent : String) : UpdateRequest :=
  { empty with parentGroupID := some parent }

def reorderRequest (sortOrder : ℤ) : UpdateRequest :=
  { empty with sortOrder := some sortOrder }

/-- The move is answered with an error, or goes on to its write. -/
def moveAllowed (backend : Backend) (rows : List Group) (group parent : String) : Bool :=
  parent ≠ group && (parent = "" || isAncestor backend group parent rows = some false)

def State.pending (s : State) (request : ℕ) : Option PendingMove :=
  s.moves.find? fun m => m.request = request

def State.finish (s : State) (request : ℕ) : State :=
  { s with moves := s.moves.filter fun m => m.request ≠ request }

def step (backend : Backend) (s : State) : Op → State
  | .create id req =>
    if trimSpace req.name = "" then s else s.store (createGroup backend id req s.groups)
  | .update group req =>
    if trimSpace group = "" then s else s.store (updateGroup backend (trimSpace group) req s.groups)
  | .reorder group sortOrder =>
    if trimSpace group = "" then s
    else s.store (updateGroup backend (trimSpace group) (reorderRequest sortOrder) s.groups)
  | .delete group =>
    if trimSpace group = "" then s else s.store (deleteGroup backend (trimSpace group) s.groups)
  | .moveCheck request group parent =>
    if trimSpace group = "" then s
    else if moveAllowed backend s.groups (trimSpace group) (trimSpace parent) then
      { s with moves := s.moves ++ [⟨request, trimSpace group, trimSpace parent⟩] }
    else s
  | .moveWrite request =>
    match s.pending request with
    | none => s
    | some m => (s.finish request).store (updateGroup backend m.group (moveRequest m.parent) s.groups)

/-- The row that a call writes, when the store takes it. -/
def writtenRow (backend : Backend) (s : State) : Op → Option Group
  | .create id req =>
    if trimSpace req.name = "" then none else (createdRow backend id req s.groups).toOption
  | .update group req =>
    if trimSpace group = "" then none
    else (updatedRow backend (trimSpace group) req s.groups).toOption
  | .reorder group sortOrder =>
    if trimSpace group = "" then none
    else (updatedRow backend (trimSpace group) (reorderRequest sortOrder) s.groups).toOption
  | .moveWrite request =>
    (s.pending request).bind fun m =>
      (updatedRow backend m.group (moveRequest m.parent) s.groups).toOption
  | .delete _ | .moveCheck _ _ _ => none

/-- The parent of the written row is not the group itself, nor below it, in the state the
write meets. -/
def ParentNotBelow (backend : Backend) (s : State) (op : Op) : Prop :=
  ∀ g ∈ writtenRow backend s op, ∀ p ∈ g.parent, ¬ Reaches (parentOf s.groups) p g.id

/-- Following the parent links from any group ends at a root. -/
def Hierarchical (s : State) : Prop := IsForest (parentOf s.groups)

variable {backend : Backend} {s : State}

theorem store_map (s : State) (result : Except StoreError Group) :
    (s.store (result.map fun g => putGroup g s.groups)).groups =
      (result.toOption.map fun g => putGroup g s.groups).getD s.groups := by
  cases result <;> rfl

theorem step_groups (backend : Backend) (s : State) (op : Op) :
    (∃ group rows, op = .delete group ∧ trimSpace group ≠ "" ∧
        deleteGroup backend (trimSpace group) s.groups = .ok rows ∧
        (step backend s op).groups = rows) ∨
      (step backend s op).groups =
        ((writtenRow backend s op).map fun g => putGroup g s.groups).getD s.groups := by
  fun_cases step backend s op
  case case2 hname | case4 hname | case6 hname =>
    simp only [writtenRow, hname, if_false]
    exact .inr (store_map s _)
  case case8 group hgroup =>
    cases hdel : deleteGroup backend (trimSpace group) s.groups with
    | error e => exact .inr rfl
    | ok rows => exact .inl ⟨group, rows, rfl, hgroup, hdel, rfl⟩
  case case13 hm =>
    simp only [writtenRow, hm]
    exact .inr (store_map (s.finish _) _)
  all_goals exact .inr (by simp_all [writtenRow])

theorem step_hierarchical_iff (h : Hierarchical s) (op : Op) :
    Hierarchical (step backend s op) ↔ ParentNotBelow backend s op := by
  unfold Hierarchical ParentNotBelow at *
  rcases step_groups backend s op with ⟨group, rows, rfl, hgroup, hdel, hstep⟩ | hstep
  · rw [hstep]
    have hforest := deleteGroup_isForest h (by rwa [trimSpace_trimSpace]) hdel
    simp [hforest, writtenRow]
  rw [hstep]
  cases hrow : writtenRow backend s op with
  | none => simpa using h
  | some g => simpa using putGroup_isForest_iff h g

theorem init_hierarchical : Hierarchical init := fun _ => Rooted.root rfl

def groupNamed (name parent : String) : CreateRequest := ⟨name, "", parent, "", 0, "", ""⟩

def selfParentRun : List Op :=
  [.create "a" (groupNamed "a" ""), .update "a" (moveRequest "a")]

/-- Two groups are moved under each other; both checks come before both writes. -/
def crossedMovesRun : List Op :=
  [.create "a" (groupNamed "a" ""), .create "b" (groupNamed "b" ""), .moveCheck 1 "a" "b",
    .moveCheck 2 "b" "a", .moveWrite 1, .moveWrite 2]

end LabTether.Groups
