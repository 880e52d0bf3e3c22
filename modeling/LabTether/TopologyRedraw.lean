import LabTether.TopologyConnections
import LabTether.Transition

/-!
Drawing a deleted connection again. The connection table under any calls of
CreateConnection, UpdateConnection and DeleteConnection keeps the partial unique index, but
hidden rows are not covered by it: a relationship edit can bring a second row under the key
of a hidden one, and once both are hidden the key can no longer be drawn.
-/
namespace LabTether.Topology

open Table Transaction Transition List

/-- The connection table and the next id the database draws. -/
structure ConnectionTable where
  rows : List Connection
  nextID : ℕ

/-- A call of the store; `linked` says whether the foreign keys of a new row hold then. -/
inductive ConnectionOp
  | create (linked : Bool) (req : NewConnection)
  | update (id : ℕ) (relationship : String) (label : Option String)
  | delete (id : ℕ)

def connectionCall (t : ConnectionTable) : ConnectionOp → Except StoreError (List Connection)
  | .create linked req => createConnection linked t.nextID req t.rows
  | .update id relationship label => updateConnection id relationship label t.rows
  | .delete id => deleteConnection id t.rows

def connectionStep (t : ConnectionTable) (op : ConnectionOp) : ConnectionTable :=
  match connectionCall t op with
  | .ok rows => ⟨rows, t.nextID + 1⟩
  | .error _ => t

def emptyTable : ConnectionTable := ⟨[], 0⟩

def activeRows (key : ConnectionKey) (rows : List Connection) : List Connection :=
  rows.filter fun c => c.key = key && !c.deleted

variable {c : Connection}

variable {rows rows' : List Connection} {next : ℕ}

/-- Ids are primary keys below the next one, and no two active rows share a key. -/
structure Indexed (rows : List Connection) (next : ℕ) : Prop where
  ids : Keyed Connection.id rows
  fresh : ∀ c ∈ rows, c.id < next
  active : ∀ c ∈ rows, ∀ d ∈ rows, c.deleted = false → d.deleted = false → c.key = d.key → c = d

variable {key : ConnectionKey}

theorem mem_activeRows :
    c ∈ activeRows key rows ↔ c ∈ rows ∧ c.key = key ∧ c.deleted = false := by
  simp [activeRows]

theorem Indexed.activeRows_le (h : Indexed rows next) (key : ConnectionKey) :
    (activeRows key rows).length ≤ 1 := by
  have hnodup : (activeRows key rows).Nodup := (h.ids.of_map _).filter _
  have hall : ∀ c ∈ activeRows key rows, ∀ d ∈ activeRows key rows, c = d := by
    intro c hc d hd
    obtain ⟨hc, hck, hca⟩ := mem_activeRows.1 hc
    obtain ⟨hd, hdk, hda⟩ := mem_activeRows.1 hd
    exact h.active c hc d hd hca hda (hck.trans hdk.symm)
  match hrows : activeRows key rows with
  | [] => simp
  | [c] => simp
  | c :: d :: rest =>
    rw [hrows] at hnodup hall
    have heq : c = d := hall c (by simp) d (by simp)
    have hne : c ≠ d := (nodup_cons.1 hnodup).1 ∘ fun h => h ▸ .head _
    exact absurd heq hne

/-- An update of one row under its id keeps the index when no other active row has the key
that the row gets. -/
theorem Indexed.update (h : Indexed rows next) (id : ℕ) {p : Connection → Bool}
    {f : Connection → Connection} (hp : ∀ c ∈ rows, p c = true → c.id = id) (hid : ∀ c, (f c).id = c.id)
    (hkey : ∀ c ∈ rows, p c = true → (f c).deleted = false →
      ∀ d ∈ rows, d.id ≠ id → d.deleted = false → d.key ≠ (f c).key) :
    Indexed (updateWhere p f rows) next := by
  have hsame : ∀ c, (if p c then f c else c).id = c.id := by
    intro c
    split
    · exact hid c
    · rfl
  refine ⟨h.ids.map (fun c _ => hsame c), ?_, ?_⟩
  · intro c hc
    obtain ⟨old, hold, rfl⟩ := mem_updateWhere.1 hc
    rw [hsame]
    exact h.fresh old hold
  intro c hc d hd hca hda heq
  obtain ⟨old, hold, rfl⟩ := mem_updateWhere.1 hc
  obtain ⟨old', hold', rfl⟩ := mem_updateWhere.1 hd
  by_cases hids : old.id = old'.id
  · rw [h.ids.eq hold hold' hids]
  by_cases hold_p : p old = true <;> by_cases hold_p' : p old' = true
  · exact absurd ((hp old hold hold_p).trans (hp old' hold' hold_p').symm) hids
  · simp only [hold_p, hold_p', if_true, if_false, Bool.false_eq_true] at hca hda heq
    have hne : old'.id ≠ id := fun h => hids ((hp old hold hold_p).trans h.symm)
    exact absurd heq.symm (hkey old hold hold_p hca old' hold' hne hda)
  · simp only [hold_p, hold_p', if_true, if_false, Bool.false_eq_true] at hca hda heq
    have hne : old.id ≠ id := fun h => hids (h.trans (hp old' hold' hold_p').symm)
    exact absurd heq (hkey old' hold' hold_p' hda old hold hne hca)
  · simp only [hold_p, hold_p', if_false, Bool.false_eq_true] at hca hda heq ⊢
    exact h.active old hold old' hold' hca hda heq

theorem Indexed.mono (h : Indexed rows next) {next' : ℕ} (hle : next ≤ next') :
    Indexed rows next' :=
  ⟨h.ids, fun c hc => lt_of_lt_of_le (h.fresh c hc) hle, h.active⟩

theorem not_active_of_hasActive (h : hasActive key rows = false) (hc : c ∈ rows)
    (hactive : c.deleted = false) : c.key ≠ key := by
  intro hkey
  rw [hasActive_eq_true.2 ⟨c, hc, hkey, hactive⟩] at h
  cases h

variable {id : ℕ} {req : NewConnection}

theorem id_of_visible (h : (decide (c.id = id) && !c.deleted) = true) : c.id = id :=
  of_decide_eq_true (Bool.and_eq_true_iff.1 h).1

theorem reactivateRow_indexed (h : Indexed rows next)
    (hkey : ∀ c ∈ rows, c.id = id → c.key = req.key)
    (hok : reactivateRow req rows id = .ok rows') : Indexed rows' next := by
  unfold reactivateRow at hok
  split at hok
  · cases hok
  next hactive =>
    cases hok
    refine h.update id (fun c _ hc => of_decide_eq_true hc) (fun _ => rfl) ?_
    intro c hc hcid _ d hd _ hda
    rw [show c.key = req.key from hkey c hc (of_decide_eq_true hcid)]
    exact not_active_of_hasActive (by simpa using hactive) hd hda

theorem mem_reactivated (hok : reactivateRow req rows id = .ok rows')
    (hc : c ∈ rows') : ∃ old ∈ rows, old.id = c.id ∧ old.key = c.key := by
  unfold reactivateRow at hok
  split at hok
  · cases hok
  cases hok
  obtain ⟨old, hold, rfl⟩ := mem_updateWhere.1 hc
  refine ⟨old, hold, ?_⟩
  split <;> exact ⟨rfl, rfl⟩

section

variable (h : Indexed rows next)
include h

theorem Indexed.key_of_hidden (hc : c ∈ rows) (hid : c.id ∈ hiddenIDs req.key rows) :
    c.key = req.key := by
  obtain ⟨d, hd, hkey, -, heq⟩ := mem_hiddenIDs.1 hid
  rw [← h.ids.eq hd hc heq]
  exact hkey

theorem createConnection_indexed {linked : Bool}
    (hok : createConnection linked next req rows = .ok rows') : Indexed rows' (next + 1) := by
  unfold createConnection at hok
  split at hok
  · obtain ⟨-, hactive, rfl⟩ := insertConnection_ok hok
    have hnew : ∀ c ∈ rows, c.id ≠ next := fun c hc => (h.fresh c hc).ne
    refine ⟨?_, ?_, ?_⟩
    · apply h.ids.append
      intro hmem
      obtain ⟨c, hc, heq⟩ := mem_map.1 hmem
      exact hnew c hc heq
    · exact forall_mem_append.2 ⟨fun c hc => Nat.lt_succ_of_lt (h.fresh c hc),
        forall_mem_singleton.2 (Nat.lt_succ_self next)⟩
    · intro c hc d hd hca hda heq
      rcases mem_append.1 hc with hc | hc <;> rcases mem_append.1 hd with hd | hd
      · exact h.active c hc d hd hca hda heq
      · rw [mem_singleton.1 hd] at heq
        exact absurd heq (not_active_of_hasActive hactive hc hca)
      · rw [mem_singleton.1 hc] at heq
        exact absurd heq.symm (not_active_of_hasActive hactive hd hda)
      · rw [mem_singleton.1 hc, mem_singleton.1 hd]
  · have hinv := foldlM_invariant
      (fun t => Indexed t next ∧ ∀ c ∈ t, c.id ∈ hiddenIDs req.key rows → c.key = req.key)
      (by
        intro t id t' hid ⟨ht, hkeys⟩ hstep
        refine ⟨reactivateRow_indexed ht (fun c hc heq => hkeys c hc (heq ▸ hid)) hstep, ?_⟩
        intro c hc hcid
        obtain ⟨old, hold, holdid, holdkey⟩ := mem_reactivated hstep hc
        rw [← holdkey]
        exact hkeys old hold (holdid ▸ hcid))
      ⟨h, fun c hc => h.key_of_hidden hc⟩ hok
    exact hinv.1.mono (Nat.le_succ next)

theorem updateConnection_indexed {relationship : String} {label : Option String} (hok : updateConnection id relationship label rows = .ok rows') :
    Indexed rows' next := by
  revert hok
  fun_cases updateConnection id relationship label rows
  all_goals rintro ⟨⟩
  rename_i row hrow hclash
  refine h.update id (fun c _ hc => id_of_visible hc) (fun _ => rfl) ?_
  intro c hc hcp _ d hd hdid hda hkey
  -- the row that is written is the one that was found
  have hfound := find?_some hrow
  have hcrow : c = row := h.ids.eq hc (mem_of_find?_eq_some hrow)
    ((id_of_visible hcp).trans (id_of_visible hfound).symm)
  exact hclash (any_eq_true.2 ⟨d, hd, by simp [hdid, hda, hkey, hcrow]⟩)

theorem deleteConnection_indexed (hok : deleteConnection id rows = .ok rows') :
    Indexed rows' next := by
  unfold deleteConnection at hok
  split at hok
  · cases hok
    exact h.update id (fun c _ hc => id_of_visible hc) (fun _ => rfl) nofun
  · cases hok

end

theorem connectionStep_indexed {t : ConnectionTable} (h : Indexed t.rows t.nextID)
    (op : ConnectionOp) : Indexed (connectionStep t op).rows (connectionStep t op).nextID := by
  unfold connectionStep
  split
  next rows hok =>
    cases op with
    | create linked req => exact createConnection_indexed h hok
    | update id relationship label => exact (updateConnection_indexed h hok).mono (Nat.le_succ _)
    | delete id => exact (deleteConnection_indexed h hok).mono (Nat.le_succ _)
  next => exact h

theorem connections_indexed (ops : List ConnectionOp) :
    Indexed (run connectionStep emptyTable ops).rows (run connectionStep emptyTable ops).nextID := by
  apply run_invariant_all connectionStep (fun t => Indexed t.rows t.nextID)
  · intro t op ht
    exact connectionStep_indexed ht op
  · exact ⟨nodup_nil, nofun, nofun⟩

variable {linked : Bool}

theorem reactivateRow_active (hid : id ∈ hiddenIDs req.key rows)
    (hok : reactivateRow req rows id = .ok rows') : hasActive req.key rows' = true := by
  obtain ⟨c, hc, hkey, -, rfl⟩ := mem_hiddenIDs.1 hid
  unfold reactivateRow at hok
  split at hok
  · cases hok
  · cases hok
    apply hasActive_eq_true.2
    exact ⟨_, updateWhere_mem hc (by simp), hkey, rfl⟩

theorem reactivateRow_refused (h : hasActive req.key rows = true) :
    reactivateRow req rows id = .error .constraint := by
  unfold reactivateRow
  rw [if_pos h]

theorem reactivate_two {i j : ℕ} {ids : List ℕ} (hi : i ∈ hiddenIDs req.key rows) :
    (i :: j :: ids).foldlM (reactivateRow req) rows ≠ .ok rows' := by
  intro hok
  rw [foldlM_cons] at hok
  obtain ⟨mid, hmid, hok⟩ := bind_eq_ok.1 hok
  rw [foldlM_cons, reactivateRow_refused (reactivateRow_active hi hmid)] at hok
  cases hok

theorem createConnection_active (hok : createConnection linked next req rows = .ok rows') :
    hasActive req.key rows' = true := by
  unfold createConnection at hok
  split at hok
  · obtain ⟨-, -, rfl⟩ := insertConnection_ok hok
    apply hasActive_eq_true.2
    exact ⟨req.row next, mem_append_right _ (.head _), rfl, rfl⟩
  next hhidden =>
    match hids : hiddenIDs req.key rows with
    | [] => exact absurd hids hhidden
    | [i] =>
      rw [hids, foldlM_cons] at hok
      obtain ⟨mid, hmid, hok⟩ := bind_eq_ok.1 hok
      cases hok
      exact reactivateRow_active (hids ▸ .head _) hmid
    | i :: j :: ids =>
      rw [hids] at hok
      exact absurd hok (reactivate_two (hids ▸ .head _))

/-- A successful create leaves one active row under its key. -/
theorem createConnection_one (h : Indexed rows next)
    (hok : createConnection linked next req rows = .ok rows') :
    (activeRows req.key rows').length = 1 := by
  have hle := (createConnection_indexed h hok).activeRows_le req.key
  obtain ⟨c, hc, hkey, hactive⟩ := hasActive_eq_true.1 (createConnection_active hok)
  have hpos : 0 < (activeRows req.key rows').length :=
    length_pos_of_mem (mem_activeRows.2 ⟨hc, hkey, hactive⟩)
  omega

/-- Under a key without an active row, a create succeeds with one hidden row under the key,
or with none when the foreign keys hold. -/
theorem createConnection_ok_iff (next : ℕ) (hactive : hasActive req.key rows = false) :
    (∃ rows', createConnection linked next req rows = .ok rows') ↔
      (hiddenIDs req.key rows).length = 1 ∨ hiddenIDs req.key rows = [] ∧ linked = true := by
  unfold createConnection
  match hids : hiddenIDs req.key rows with
  | [] =>
    unfold insertConnection
    cases linked <;> simp [hactive]
  | [i] =>
    have hok : reactivateRow req rows i = .ok _ := if_neg (by simp [hactive])
    simp [hok]
  | i :: j :: ids =>
    constructor
    · rintro ⟨rows', hok⟩
      rw [if_neg (cons_ne_nil _ _)] at hok
      exact absurd hok (reactivate_two (hids ▸ .head _))
    · rintro (hlen | ⟨hnil, -⟩)
      · simp at hlen
      · cases hnil

/-- The key can be drawn: the call succeeds and leaves one active row. -/
def Drawable (t : ConnectionTable) (linked : Bool) (req : NewConnection) : Prop :=
  ∃ rows, connectionCall t (.create linked req) = .ok rows ∧ (activeRows req.key rows).length = 1

/-- After any calls, no key has two active rows, and a key without one can be drawn exactly
when at most one hidden row has it, and, with no hidden row, its foreign keys hold. -/
theorem redraw_iff (ops : List ConnectionOp) (linked : Bool) (req : NewConnection) :
    (∀ key, (activeRows key (run connectionStep emptyTable ops).rows).length ≤ 1) ∧
      ((hasActive req.key (run connectionStep emptyTable ops).rows = false →
          Drawable (run connectionStep emptyTable ops) linked req) ↔
        hasActive req.key (run connectionStep emptyTable ops).rows = true ∨
          (hiddenIDs req.key (run connectionStep emptyTable ops).rows).length = 1 ∨
          hiddenIDs req.key (run connectionStep emptyTable ops).rows = [] ∧ linked = true) := by
  have hindexed := connections_indexed ops
  generalize run connectionStep emptyTable ops = t at *
  refine ⟨hindexed.activeRows_le, ?_⟩
  cases hactive : hasActive req.key t.rows
  case true => simp
  rw [← createConnection_ok_iff t.nextID hactive]
  constructor
  · intro hdraw
    obtain ⟨rows, hok, -⟩ := hdraw rfl
    exact .inr ⟨rows, hok⟩
  · rintro (hcontra | ⟨rows, hok⟩) _
    · cases hcontra
    · exact ⟨rows, hok, createConnection_one hindexed hok⟩

/-- A connection between two assets, under the given relationship. -/
def drawn (relationship : String) : NewConnection := ⟨⟨0, "a", "b", relationship⟩, true, ""⟩

/-- A connection is drawn and deleted; a second one is drawn, given the first one's
relationship, and deleted. -/
def twiceHidden : ConnectionTable :=
  run connectionStep emptyTable [.create true (drawn "depends_on"), .delete 0,
    .create true (drawn "connected_to"), .update 2 "depends_on" none, .delete 2]

/-- Both rows are hidden, no row is active, and the connection can no longer be drawn. -/
theorem redraw_refused : hasActive (drawn "depends_on").key twiceHidden.rows = false ∧
      hiddenIDs (drawn "depends_on").key twiceHidden.rows = [0, 2] ∧
      ¬ Drawable twiceHidden true (drawn "depends_on") := by
  refine ⟨by decide, by decide, ?_⟩
  rintro ⟨rows, hok, -⟩
  have hrefused : connectionCall twiceHidden (.create true (drawn "depends_on")) =
      .error .constraint := by decide
  rw [hrefused] at hok
  cases hok

end LabTether.Topology
