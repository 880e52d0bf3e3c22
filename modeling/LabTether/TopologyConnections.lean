import LabTether.Table
import LabTether.Transaction

/-!
The connections of the topology canvas (`internal/topology/postgres_connections.go`).
A connection is deleted softly, and creating it again brings the hidden row back. The
unique index covers active rows only and is checked row by row, as an UPDATE reaches them.
-/
namespace LabTether.Topology

open Table Transaction List

def validRelationships : List String :=
  ["runs_on", "hosted_on", "depends_on", "provides_to", "connected_to", "peer_of"]

structure ConnectionKey where
  topologyID : ℕ
  (sourceAssetID targetAssetID relationship : String)
deriving DecidableEq

structure Connection where
  id : ℕ
  key : ConnectionKey
  userDefined : Bool
  label : String
  deleted : Bool
deriving DecidableEq

structure NewConnection where
  key : ConnectionKey
  userDefined : Bool
  label : String

open NewConnection

def NewConnection.row (req : NewConnection) (id : ℕ) : Connection :=
  ⟨id, req.key, req.userDefined, req.label, false⟩

inductive StoreError
  | notFound
  | constraint
deriving DecidableEq

def hasActive (key : ConnectionKey) (rows : List Connection) : Bool :=
  rows.any fun c => c.key = key && !c.deleted

/-- The ids of the hidden rows under a key, in the order the UPDATE meets them. -/
def hiddenIDs (key : ConnectionKey) (rows : List Connection) : List ℕ :=
  (rows.filter fun c => c.key = key && c.deleted).map Connection.id

/-- The UPDATE brings one hidden row back, against the unique index. -/
def reactivateRow (req : NewConnection) (rows : List Connection) (id : ℕ) :
    Except StoreError (List Connection) :=
  if hasActive req.key rows then .error .constraint
  else .ok (updateWhere (fun c => c.id = id)
    (fun c => { c with deleted := false, userDefined := req.userDefined, label := req.label }) rows)

/-- INSERT; `linked` says whether the foreign keys of the row hold. -/
def insertConnection (linked : Bool) (id : ℕ) (req : NewConnection) (rows : List Connection) :
    Except StoreError (List Connection) :=
  if linked = false ∨ hasActive req.key rows then .error .constraint
  else .ok (rows ++ [req.row id])

def createConnection (linked : Bool) (id : ℕ) (req : NewConnection) (rows : List Connection) :
    Except StoreError (List Connection) :=
  if hiddenIDs req.key rows = [] then insertConnection linked id req rows
  else (hiddenIDs req.key rows).foldlM (reactivateRow req) rows

/-- An empty relationship leaves the column as it is. -/
def ConnectionKey.retype (relationship : String) (key : ConnectionKey) : ConnectionKey :=
  if relationship = "" then key else { key with relationship := relationship }

/-- An absent label leaves the column as it is. -/
def updateConnection (id : ℕ) (relationship : String) (label : Option String)
    (rows : List Connection) : Except StoreError (List Connection) :=
  match rows.find? fun c => c.id = id && !c.deleted with
  | none => .error .notFound
  | some c =>
    if rows.any fun other =>
        other.id ≠ id && other.key = c.key.retype relationship && !other.deleted then
      .error .constraint
    else .ok (updateWhere (fun c => c.id = id && !c.deleted)
      (fun c => { c with key := c.key.retype relationship, label := label.getD c.label }) rows)

def deleteConnection (id : ℕ) (rows : List Connection) : Except StoreError (List Connection) :=
  if rows.any fun c => c.id = id && !c.deleted then
    .ok (updateWhere (fun c => c.id = id && !c.deleted) (fun c => { c with deleted := true }) rows)
  else .error .notFound

section

variable {linked : Bool} {id : ℕ} {req : NewConnection} {rows rows' : List Connection}
  {key : ConnectionKey}

theorem hasActive_eq_true :
    hasActive key rows = true ↔ ∃ c ∈ rows, c.key = key ∧ c.deleted = false := by
  simp [hasActive]

theorem mem_hiddenIDs :
    id ∈ hiddenIDs key rows ↔ ∃ c ∈ rows, c.key = key ∧ c.deleted = true ∧ c.id = id := by
  simp [hiddenIDs, and_assoc]

variable {c : Connection}

theorem reactivateRow_hidden (h : reactivateRow req rows id = .ok rows')
    (hc : c ∈ rows') (hdel : c.deleted = true) : c ∈ rows ∧ c.id ≠ id := by
  unfold reactivateRow at h
  split at h
  · cases h
  cases h
  obtain ⟨old, hold, rfl⟩ := mem_updateWhere.1 hc
  by_cases hid : old.id = id
  · simp [hid] at hdel
  · simp only [hid, decide_false, Bool.false_eq_true, if_false]
    exact ⟨hold, hid⟩

theorem reactivateRows_hidden {ids : List ℕ} (h : ids.foldlM (reactivateRow req) rows = .ok rows')
    (hc : c ∈ rows') (hdel : c.deleted = true) : c ∈ rows ∧ c.id ∉ ids := by
  induction ids generalizing rows with
  | nil =>
    rw [foldlM_nil] at h
    cases h
    exact ⟨hc, not_mem_nil⟩
  | cons id ids ih =>
    rw [foldlM_cons] at h
    obtain ⟨mid, hmid, h⟩ := bind_eq_ok.1 h
    obtain ⟨hcmid, hrest⟩ := ih h
    obtain ⟨hrows, hid⟩ := reactivateRow_hidden hmid hcmid hdel
    refine ⟨hrows, ?_⟩
    intro hmem
    rcases mem_cons.1 hmem with heq | hmem
    · exact hid heq
    · exact hrest hmem

theorem insertConnection_ok (h : insertConnection linked id req rows = .ok rows') :
    linked = true ∧ hasActive req.key rows = false ∧ rows' = rows ++ [req.row id] := by
  unfold insertConnection at h
  split at h
  · cases h
  next hcond =>
    cases h
    simpa [not_or] using hcond

theorem createConnection_hidden (h : createConnection linked id req rows = .ok rows')
    (hc : c ∈ rows') (hdel : c.deleted = true) : c ∈ rows ∧ c.key ≠ req.key := by
  unfold createConnection at h
  split at h
  next hnone =>
    obtain ⟨-, -, rfl⟩ := insertConnection_ok h
    rcases mem_append.1 hc with hc | hc
    · refine ⟨hc, ?_⟩
      intro hkey
      have hmem : c.id ∈ hiddenIDs req.key rows := mem_hiddenIDs.2 ⟨c, hc, hkey, hdel, rfl⟩
      rw [hnone] at hmem
      exact not_mem_nil hmem
    · rw [mem_singleton.1 hc] at hdel
      cases hdel
  · obtain ⟨hrows, hid⟩ := reactivateRows_hidden h hc hdel
    refine ⟨hrows, ?_⟩
    intro hkey
    exact hid (mem_hiddenIDs.2 ⟨c, hrows, hkey, hdel, rfl⟩)

theorem createConnection_fresh (hlinked : linked = true) (hkey : ∀ c ∈ rows, c.key ≠ req.key) :
    createConnection linked id req rows = .ok (rows ++ [req.row id]) := by
  have hnone : hiddenIDs req.key rows = [] := by
    apply eq_nil_iff_forall_not_mem.2
    intro i hi
    obtain ⟨c, hc, hck, -⟩ := mem_hiddenIDs.1 hi
    exact hkey c hc hck
  have hactive : hasActive req.key rows = false := by
    apply Bool.eq_false_iff.2
    intro htrue
    obtain ⟨c, hc, hck, -⟩ := hasActive_eq_true.1 htrue
    exact hkey c hc hck
  unfold createConnection insertConnection
  simp [hnone, hactive, hlinked]

end

variable {req : NewConnection}

section

variable {rows rows' : List Connection} {T : ℕ → Prop}

def InTopologies (T : ℕ → Prop) (rows : List Connection) : Prop :=
  ∀ c ∈ rows, T c.key.topologyID

theorem InTopologies.updateWhere {p : Connection → Bool} {f : Connection → Connection}
    (h : InTopologies T rows) (hf : ∀ c ∈ rows, T (f c).key.topologyID) :
    InTopologies T (updateWhere p f rows) := by
  intro c hc
  obtain ⟨old, hold, rfl⟩ := mem_updateWhere.1 hc
  split
  · exact hf old hold
  · exact h old hold

@[simp] theorem ConnectionKey.retype_topologyID (relationship : String) (key : ConnectionKey) :
    (key.retype relationship).topologyID = key.topologyID := by
  unfold ConnectionKey.retype
  split <;> rfl

variable {id : ℕ} (h : InTopologies T rows)
include h

theorem reactivateRow_topologies (hok : reactivateRow req rows id = .ok rows') :
    InTopologies T rows' := by
  unfold reactivateRow at hok
  split at hok
  · cases hok
  · cases hok
    exact h.updateWhere h

theorem createConnection_topologies {linked : Bool} (hreq : linked = true → T req.key.topologyID)
    (hok : createConnection linked id req rows = .ok rows') : InTopologies T rows' := by
  unfold createConnection at hok
  split at hok
  · obtain ⟨hlinked, -, rfl⟩ := insertConnection_ok hok
    exact forall_mem_append.2 ⟨h, forall_mem_singleton.2 (hreq hlinked)⟩
  · apply foldlM_invariant (InTopologies T) ?_ h hok
    intro rows id rows' _ hrows
    exact reactivateRow_topologies hrows

theorem updateConnection_topologies {relationship : String} {label : Option String} (hok : updateConnection id relationship label rows = .ok rows') :
    InTopologies T rows' := by
  revert hok
  fun_cases updateConnection id relationship label rows
  all_goals rintro ⟨⟩
  apply h.updateWhere
  intro c hc
  rw [ConnectionKey.retype_topologyID]
  exact h c hc

theorem deleteConnection_topologies (hok : deleteConnection id rows = .ok rows') :
    InTopologies T rows' := by
  unfold deleteConnection at hok
  split at hok
  · cases hok
    exact h.updateWhere h
  · cases hok

end

section

variable {rows rows' : List Connection}

/-- One connection after the other, with ids from `next` on. At the first failure it stops
and gives the rows as they stand then. -/
def createAll (linked : NewConnection → Bool) : ℕ → List NewConnection → List Connection →
    Except (List Connection) (List Connection)
  | _, [], rows => .ok rows
  | next, req :: reqs, rows =>
    match createConnection (linked req) next req rows with
    | .ok rows' => createAll linked (next + 1) reqs rows'
    | .error _ => .error rows

variable {linked : NewConnection → Bool} {next : ℕ} {reqs : List NewConnection}

theorem createAll_cons (h : createAll linked next (req :: reqs) rows = .ok rows') :
    ∃ mid, createConnection (linked req) next req rows = .ok mid ∧
      createAll linked (next + 1) reqs mid = .ok rows' := by
  unfold createAll at h
  split at h
  next mid hmid => exact ⟨mid, hmid, h⟩
  next => cases h

theorem createAll_hidden (h : createAll linked next reqs rows = .ok rows') {c : Connection}
    (hc : c ∈ rows') (hdel : c.deleted = true) : c ∈ rows := by
  induction reqs generalizing next rows with
  | nil =>
    cases h
    exact hc
  | cons req reqs ih =>
    obtain ⟨mid, hmid, h⟩ := createAll_cons h
    exact (createConnection_hidden hmid (ih h) hdel).1

theorem createAll_fresh (next : ℕ) (hlinked : ∀ req ∈ reqs, linked req = true)
    (hnodup : (reqs.map key).Nodup)
    (hfresh : ∀ c ∈ rows, c.key ∉ reqs.map key) :
    ∃ rows', createAll linked next reqs rows = .ok rows' ∧ rows ⊆ rows' := by
  induction reqs generalizing next rows with
  | nil => exact ⟨rows, rfl, List.Subset.refl _⟩
  | cons req reqs ih =>
    obtain ⟨hhead, htail⟩ := nodup_cons.1 hnodup
    have hstep : createConnection (linked req) next req rows = .ok (rows ++ [req.row next]) := by
      apply createConnection_fresh (hlinked req (.head _))
      intro c hc heq
      exact hfresh c hc (heq ▸ .head _)
    have hfresh' : ∀ c ∈ rows ++ [req.row next], c.key ∉ reqs.map key :=
      forall_mem_append.2
        ⟨fun c hc hmem => hfresh c hc (.tail _ hmem), forall_mem_singleton.2 hhead⟩
    obtain ⟨rows', hrest, hsub⟩ := ih (next + 1) (fun r hr => hlinked r (.tail _ hr)) htail hfresh'
    refine ⟨rows', ?_, fun c hc => hsub (mem_append_left _ hc)⟩
    simp only [createAll, hstep]
    exact hrest

theorem createAll_topologies (next : ℕ) (reqs : List NewConnection) {T : ℕ → Prop}
    (h : InTopologies T rows) (hlinked : ∀ req, linked req = true → T req.key.topologyID) :
    (∀ rows', createAll linked next reqs rows = .ok rows' → InTopologies T rows') ∧
      ∀ rows', createAll linked next reqs rows = .error rows' → InTopologies T rows' := by
  fun_induction createAll linked next reqs rows
  case case1 => exact ⟨fun _ hok => Except.ok.inj hok ▸ h, nofun⟩
  case case2 req _ _ _ hmid ih => exact ih (createConnection_topologies h (hlinked req) hmid)
  case case3 => exact ⟨nofun, fun _ herr => Except.error.inj herr ▸ h⟩

theorem createAll_kept (h : createAll linked next reqs rows = .ok rows')
    (hkept : ∀ c ∈ rows, c.deleted = true → c ∈ rows') :
    ∀ c ∈ rows, c.key ∉ reqs.map key := by
  induction reqs generalizing next rows with
  | nil => exact fun c _ => not_mem_nil
  | cons req reqs ih =>
    obtain ⟨mid, hmid, h⟩ := createAll_cons h
    have hvisible : ∀ c ∈ rows, c.key = req.key → c.deleted = false := by
      intro c hc hkey
      by_contra hdel
      have hdel : c.deleted = true := by simpa using hdel
      have hcmid := createAll_hidden h (hkept c hc hdel) hdel
      exact (createConnection_hidden hmid hcmid hdel).2 hkey
    have hnone : hiddenIDs req.key rows = [] := by
      apply eq_nil_iff_forall_not_mem.2
      intro i hi
      obtain ⟨c, hc, hkey, hdel, -⟩ := mem_hiddenIDs.1 hi
      rw [hvisible c hc hkey] at hdel
      cases hdel
    rw [createConnection, if_pos hnone] at hmid
    obtain ⟨-, hactive, rfl⟩ := insertConnection_ok hmid
    have hkept' : ∀ c ∈ rows ++ [req.row next], c.deleted = true → c ∈ rows' :=
      forall_mem_append.2 ⟨hkept, forall_mem_singleton.2 nofun⟩
    intro c hc hmem
    rcases mem_cons.1 hmem with hkey | hmem
    · have htrue := hasActive_eq_true.2 ⟨c, hc, hkey, hvisible c hc hkey⟩
      rw [htrue] at hactive
      cases hactive
    · exact ih h hkept' c (mem_append_left _ hc) hmem

end

end LabTether.Topology
