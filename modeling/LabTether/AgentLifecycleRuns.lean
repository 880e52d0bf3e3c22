import LabTether.AgentLifecycleLedger

/-!
Every interleaving of registrations, replacements, disconnects and dispatches keeps one
goroutine inside the section of an asset, runs each cleanup once and before the next
connection of the asset is visible, and keeps a lifecycle entry exactly while somebody needs
it. A goroutine of another asset cannot touch the registration, and one of the same asset is
idle while the section is taken; that is all the proofs use of the lock.
-/
namespace LabTether.AgentLifecycle

open KeyedLock Transition List Function Manager

section

def Goroutine.view (g : Goroutine) : String × Place := (g.call.asset, g.place)

open Goroutine

structure Inv (m : Manager) : Prop where
  locks : KeyedLock.Inv m.locks (m.goroutines.map view)
  idle : ∀ g ∈ m.goroutines, g.place.isInside = false → g.stage.Idle g.call
  sound : ∀ g ∈ m.goroutines, g.stage.Sound g.call (m.registry.conns g.call.asset)
  paired : ∀ a, m.registry.conns a = none → m.registry.disconnectCleanups a = none
  owner : ∀ a c, m.registry.disconnectCleanups a = some (some c) →
    ∃ conn, callAt m.goroutines c = some (.register conn true) ∧ m.registry.conns a = some conn
  ledger : Ledger m.registry m.goroutines

variable {m : Manager} {t : ℕ} {g : Goroutine} {e : ℕ}

theorem inv_start : Inv start where
  locks := inv_empty
  idle := by simp [start]
  sound := by simp [start]
  paired := fun _ _ => rfl
  owner := by simp [start]
  ledger := by
    refine ⟨?_, ?_, ?_, ?_, ?_, ?_, ?_⟩
    iterate 4 simp [start]
    · simp [start, callAt]
    · simp [start]
    · intro pre u post h
      simp [start] at h

theorem view_at (hg : m.goroutines[t]? = some g) :
    (m.goroutines.map view)[t]? = some (g.call.asset, g.place) := by
  simp [hg, view]

theorem isInside_iff {p : Place} : p.isInside ↔ ∃ e, p = .inside e := by
  cases p <;> simp [Place.isInside]

variable {u : ℕ} {g' : Goroutine}

theorem Inv.exclusive (h : Inv m) (hg : m.goroutines[t]? = some g) (hu : m.goroutines[u]? = some g')
    (hin : g.place.isInside) (hin' : g'.place.isInside) (hasset : g'.call.asset = g.call.asset) :
    t = u := by
  obtain ⟨e, he⟩ := isInside_iff.1 hin
  obtain ⟨e', he'⟩ := isInside_iff.1 hin'
  have ht := view_at hg
  have hu := view_at hu
  rw [he] at ht
  rw [hasset, he'] at hu
  exact h.locks.exclusive ht hu

theorem Inv.others_idle (h : Inv m) (hg : m.goroutines[t]? = some g) (hin : g.place.isInside)
    (hu : m.goroutines[u]? = some g') (hne : u ≠ t)
    (hasset : g'.call.asset = g.call.asset) : g'.stage.Idle g'.call := by
  refine h.idle g' (mem_of_getElem? hu) ?_
  by_contra hin'
  exact hne (h.exclusive hg hu hin (by simpa using hin') hasset).symm

theorem Inv.relocate (h : Inv m) (hg : m.goroutines[t]? = some g) {L : Locks String} {p : Place}
    {s : Stage} (hlocks : KeyedLock.Inv L
      ((m.goroutines.map view).set t (g.call.asset, p)))
    (hidle : g.stage.Idle g.call) (hidle' : s.Idle g.call) (hpending : s.pending → g.stage.pending) :
    Inv { m with locks := L, goroutines := m.goroutines.set t { g with place := p, stage := s } } where
  locks := by
    rw [map_set]
    exact hlocks
  idle := by
    intro g' hg' _
    rcases mem_or_eq_of_mem_set hg' with hmem | rfl
    · exact h.idle g' hmem ‹_›
    · exact hidle'
  sound := by
    intro g' hg'
    rcases mem_or_eq_of_mem_set hg' with hmem | rfl
    · exact h.sound g' hmem
    · exact hidle'.sound
  paired := h.paired
  owner := by
    intro a c hc
    have hcall : ({ g with place := p, stage := s } : Goroutine).call = g.call := rfl
    rw [callAt_set hg hcall]
    exact h.owner a c hc
  ledger := h.ledger.quiet hg rfl hidle.token hidle'.token hpending rfl (.inl rfl)

variable {call : Call} {r r' : Registry} {s s' : Stage}

theorem Move.paired (hmove : Move t call r s r' s')
    (h : ∀ a, r.conns a = none → r.disconnectCleanups a = none) :
    ∀ a, r'.conns a = none → r'.disconnectCleanups a = none := by
  intro a ha
  cases hmove with
  | quiet _ _ _ conns cleanups =>
    rw [conns] at ha
    rw [cleanups]
    exact h a ha
  | removed =>
    simp only [update_apply] at ha ⊢
    split_ifs at ha ⊢
    · rfl
    · exact h a ha
  | started | finished => exact h a ha
  | published =>
    simp only [update_apply] at ha ⊢
    split_ifs at ha ⊢
    exact h a ha

theorem Move.owner {calls : ℕ → Option Call} (hmove : Move t call r s r' s')
    (hcall : calls t = some call)
    (h : ∀ a c, r.disconnectCleanups a = some (some c) →
      ∃ conn, calls c = some (.register conn true) ∧ r.conns a = some conn) :
    ∀ a c, r'.disconnectCleanups a = some (some c) →
      ∃ conn, calls c = some (.register conn true) ∧ r'.conns a = some conn := by
  intro a c hc
  cases hmove with
  | quiet _ _ _ conns cleanups =>
    rw [cleanups] at hc
    rw [conns]
    exact h a c hc
  | removed =>
    simp only [update_apply] at hc ⊢
    split_ifs at hc ⊢
    exact h a c hc
  | started | finished => exact h a c hc
  | @published conn cleanup _ called =>
    simp only [update_apply] at hc ⊢
    split_ifs at hc ⊢ with ha hcleanup
    · cases hc
      exact ⟨conn, by rw [hcall, called, hcleanup], rfl⟩
    · cases hc
    · exact h a c hc

theorem Inv.inside (h : Inv m) (hg : m.goroutines[t]? = some g) (hin : g.place.isInside) :
    Inv { m with
      registry := (inSection t g.call m.registry g.stage).1
      goroutines := m.goroutines.set t
        { g with stage := (inSection t g.call m.registry g.stage).2 } } := by
  have hmove : Move t g.call m.registry g.stage (inSection t g.call m.registry g.stage).1
      (inSection t g.call m.registry g.stage).2 := inSection_move
  have hcall : ({ g with stage := (inSection t g.call m.registry g.stage).2 } : Goroutine).call =
      g.call := rfl
  have hcalls := callAt_set hg hcall
  refine ⟨?_, ?_, ?_, hmove.paired h.paired, ?_, ?_⟩
  · rw [map_set]
    exact (set_same (view_at hg)).symm ▸ h.locks
  · intro g' hg' hout
    rcases mem_or_eq_of_mem_set hg' with hmem | rfl
    · exact h.idle g' hmem hout
    · rw [show ({ g with stage := _ } : Goroutine).place = g.place from rfl, hin] at hout
      cases hout
  · intro g' hg'
    obtain ⟨u, hu⟩ := mem_iff_getElem?.1 hg'
    rcases set_cases hu with ⟨rfl, rfl⟩ | ⟨hne, hu⟩
    · exact inSection_sound (h.sound g (mem_of_getElem? hg))
    by_cases hasset : g'.call.asset = g.call.asset
    · exact (h.others_idle hg hin hu hne hasset).sound
    · rw [hmove.conns_of_ne hasset]
      exact h.sound g' (mem_of_getElem? hu)
  · rw [hcalls]
    exact hmove.owner (callAt_of hg) h.owner
  · refine h.ledger.move hg hmove fun hpublish => ?_
    have hnone := h.sound g (mem_of_getElem? hg)
    rw [hpublish] at hnone
    refine ⟨h.paired _ hnone, fun g' hg' hasset => ?_⟩
    obtain ⟨u, hu⟩ := mem_iff_getElem?.1 hg'
    by_cases hne : u = t
    · subst hne
      rw [hg] at hu
      cases hu
      rw [hpublish]
      rfl
    · exact (h.others_idle hg hin hu hne hasset).token

theorem Inv.advance (h : Inv m) (hg : m.goroutines[t]? = some g) : Inv (advance m t g) := by
  have hview := view_at hg
  have hidle := h.idle g (mem_of_getElem? hg)
  fun_cases AgentLifecycle.advance m t g
  case case1 | case3 => exact h
  case case2 hplace _ =>
    rw [hplace] at hview hidle
    exact h.relocate hg (h.locks.enter hview) (hidle rfl) (hidle rfl) fun hh => hh
  case case4 hplace _ hlock =>
    rw [hplace] at hview hidle
    exact h.relocate hg (h.locks.lock hview hlock) (hidle rfl) (hidle rfl) fun hh => hh
  case case5 hplace hrelease =>
    rw [hplace] at hview
    have hidle : g.stage.Idle g.call := .inr (.inl hrelease)
    exact h.relocate hg (h.locks.unlock hview) hidle hidle fun hh => hh
  case case6 hplace _ => exact h.inside hg (by rw [hplace]; rfl)
  case case7 hplace =>
    rw [hplace] at hview hidle
    exact h.relocate hg (h.locks.leave hview) (hidle rfl) (.inr (.inr rfl)) fun hh => nomatch hh

theorem Inv.step (h : Inv m) (op : Op) : Inv (step m op) := by
  cases op with
  | start call =>
    have hidle : call.first.Idle call := .inl rfl
    refine ⟨?_, ?_, ?_, h.paired, ?_, h.ledger.append hidle.token⟩
    · simpa [AgentLifecycle.step, view] using h.locks.append call.asset
    · exact forall_mem_append.2 ⟨h.idle, forall_mem_singleton.2 fun _ => hidle⟩
    · exact forall_mem_append.2 ⟨h.sound, forall_mem_singleton.2 hidle.sound⟩
    · intro a c hc
      obtain ⟨conn, hcall, hconn⟩ := h.owner a c hc
      exact ⟨conn, callAt_append.2 (.inl hcall), hconn⟩
  | advance t =>
    simp only [AgentLifecycle.step]
    cases hg : m.goroutines[t]? with
    | none => exact h
    | some g => exact h.advance hg
  | close conn => exact { h with ledger := { h.ledger with } }

end

def Registry.started (r : Registry) (t : ℕ) : ℕ := r.log.count (.cleanupStarted t)

open Registry

def Registry.finished (r : Registry) (t : ℕ) : ℕ := r.log.count (.cleanupFinished t)

inductive CleanupState (m : Manager) (t : ℕ) (conn : Conn) : Prop
  | registered (current : m.registry.conns conn.assetID = some conn)
      (kept : m.registry.disconnectCleanups conn.assetID = some (some t))
      (started : m.registry.started t = 0) (finished : m.registry.finished t = 0)
  | taken (u : ℕ) (g : Goroutine) (removed : Conn) (next : After)
      (goroutine : m.goroutines[u]? = some g) (inside : g.place.isInside)
      (asset : g.call.asset = conn.assetID) (stage : g.stage = .closing removed (some t) next)
      (started : m.registry.started t = 0) (finished : m.registry.finished t = 0)
  | running (u : ℕ) (g : Goroutine) (next : After)
      (goroutine : m.goroutines[u]? = some g) (inside : g.place.isInside)
      (asset : g.call.asset = conn.assetID) (stage : g.stage = .cleaning t next)
      (started : m.registry.started t = 1) (finished : m.registry.finished t = 0)
  | over (started : m.registry.started t = 1) (finished : m.registry.finished t = 1)

def Call.By (conn : Conn) (call : Call) : Prop :=
  call = .dispatch conn ∨ call = .unregister conn.assetID (some conn)

structure Contract (m : Manager) : Prop where
  exclusive : ∀ (t u : ℕ) (g g' : Goroutine), m.goroutines[t]? = some g → m.goroutines[u]? = some g' →
    g.place.isInside → g'.place.isInside → g'.call.asset = g.call.asset → t = u
  cleanup : ∀ t conn, callAt m.goroutines t = some (.register conn true) →
    .visible t ∈ m.registry.log → CleanupState m t conn
  /-- A cleanup that the registry no longer holds is two steps from its end. -/
  runs : ∀ t conn, callAt m.goroutines t = some (.register conn true) →
    .visible t ∈ m.registry.log → m.registry.disconnectCleanups conn.assetID ≠ some (some t) →
    ∃ u n, n ≤ 2 ∧ (run step m (replicate n (.advance u))).registry.finished t = 1
  atMostOnce : ∀ t, m.registry.started t ≤ 1 ∧
    (.visible t ∉ m.registry.log → m.registry.started t = 0)
  ordered : Ordered (callAt m.goroutines) m.registry.log
  handling : ∀ g ∈ m.goroutines, g.stage = .handling →
    ∃ conn, g.call = .dispatch conn ∧ m.registry.conns conn.assetID = some conn
  stale : ∀ (t : ℕ) (g : Goroutine) (conn : Conn), m.goroutines[t]? = some g → g.call.By conn →
    m.registry.conns conn.assetID ≠ some conn → g.stage.Idle g.call →
    (step m (.advance t)).registry = m.registry ∧
      ∃ g', (step m (.advance t)).goroutines[t]? = some g' ∧ g'.call = g.call ∧
        (g'.stage = g.stage ∨ g'.stage = .release ∨ g'.stage = .finished)
  entry : ∀ a, (m.locks.table a).isSome ↔
    ∃ g ∈ m.goroutines, g.call.asset = a ∧ g.place.entry.isSome

variable {m : Manager} {t : ℕ} {g : Goroutine} {conn : Conn}

theorem runs_le_carries (gs : List Goroutine) (c : ℕ) :
    gs.countP (runs c) ≤ gs.countP (carries c) := by
  refine countP_mono_left fun g _ hr => ?_
  simp only [runs, carries, beq_iff_eq] at hr ⊢
  exact Stage.token_of_running hr

theorem Inv.at_most_once (h : Inv m) (t : ℕ) :
    m.registry.started t ≤ m.registry.log.count (.visible t) ∧
      m.registry.log.count (.visible t) ≤ 1 := by
  have hstart := h.ledger.started t
  have hle := runs_le_carries m.goroutines t
  unfold started
  cases hg : m.goroutines[t]? with
  | some g =>
    have honce := h.ledger.once t g hg
    have hbal := h.ledger.balanced t _ (callAt_of hg)
    split_ifs at hbal <;> omega
  | none =>
    have hnone : callAt m.goroutines t = none := by simp [callAt, hg]
    have hlog : ∀ ev : Event, ev.goroutine = t → m.registry.log.count ev = 0 := by
      intro ev hev
      refine count_eq_zero.2 fun hmem => ?_
      have hsome := h.ledger.known ev hmem
      rw [hev, hnone] at hsome
      cases hsome
    rw [hlog (.cleanupStarted t) rfl, hlog (.visible t) rfl]
    omega

theorem Inv.token_inside (h : Inv m) (hg : g ∈ m.goroutines) {c : ℕ}
    (hc : g.stage.token = some c) : g.place.isInside := by
  by_contra hout
  have hidle := (h.idle g hg (by simpa using hout)).token
  rw [hc] at hidle
  cases hidle

theorem Inv.cleanupState (h : Inv m) (hcall : callAt m.goroutines t = some (.register conn true))
    (hvisible : .visible t ∈ m.registry.log) : CleanupState m t conn := by
  have hpos := count_pos_iff.2 hvisible
  have hone := (h.at_most_once t).2
  have hbal := h.ledger.balanced t _ hcall
  have hstart := h.ledger.started t
  have hle := runs_le_carries m.goroutines t
  rw [show (Call.register conn true).cleanup = true from rfl, if_pos rfl,
    show (Call.register conn true).asset = conn.assetID from rfl] at hbal
  by_cases hreg : m.registry.disconnectCleanups conn.assetID = some (some t)
  · obtain ⟨conn', hcall', hconn⟩ := h.owner _ _ hreg
    rw [hcall] at hcall'
    cases hcall'
    rw [if_pos hreg] at hbal
    exact .registered hconn hreg (by unfold started; omega)
      (by unfold finished; omega)
  rw [if_neg hreg] at hbal
  by_cases hfin : m.registry.log.count (.cleanupFinished t) = 1
  · exact .over (by unfold started; omega) hfin
  -- some goroutine has taken the cleanup over, and it is the only one
  have hcarries : m.goroutines.countP (carries t) = 1 := by omega
  have hsome : 0 < m.goroutines.countP (carries t) := by omega
  obtain ⟨g, hg, hcarry⟩ := countP_pos_iff.1 hsome
  have htoken : g.stage.token = some t := by simpa [carries] using hcarry
  obtain ⟨u, hu⟩ := mem_iff_getElem?.1 hg
  have hin := h.token_inside hg htoken
  obtain ⟨call, hcall', hasset⟩ := h.ledger.carried g hg t htoken
  rw [hcall] at hcall'
  cases hcall'
  cases hstage : g.stage with
  | closing removed cleanup next =>
    rw [hstage] at htoken
    have hcleanup : cleanup = some t := htoken
    subst hcleanup
    have hruns : m.goroutines.countP (runs t) = 0 := by
      refine countP_eq_zero.2 fun g' hg' hr => ?_
      have hr' : g'.stage.running = some t := by simpa [runs] using hr
      obtain ⟨u', hu'⟩ := mem_iff_getElem?.1 hg'
      have hsame := index_unique (Nat.le_of_eq hcarries) hu hu' hcarry
        (by simpa [carries] using Stage.token_of_running hr')
      rw [← hsame, hu] at hu'
      cases hu'
      rw [hstage] at hr'
      cases hr'
    exact .taken u g removed next hu hin hasset.symm hstage
      (by unfold started; omega) (by unfold finished; omega)
  | cleaning c next =>
    rw [hstage] at htoken
    have hc : c = t := Option.some.inj htoken
    subst hc
    have hruns : 0 < m.goroutines.countP (runs c) :=
      countP_pos_iff.2 ⟨g, hg, by simp [runs, hstage, Stage.running]⟩
    exact .running u g next hu hin hasset.symm hstage
      (by unfold started; omega) (by unfold finished; omega)
  | _ =>
    rw [hstage] at htoken
    cases htoken

theorem step_inside (hg : m.goroutines[t]? = some g) (hin : g.place.isInside)
    (hstage : g.stage ≠ .release) : step m (.advance t) = { m with
        registry := (inSection t g.call m.registry g.stage).1
        goroutines := m.goroutines.set t
          { g with stage := (inSection t g.call m.registry g.stage).2 } } := by
  obtain ⟨e, he⟩ := isInside_iff.1 hin
  obtain ⟨call, place, stage⟩ := g
  subst he
  simp only [step, hg, advance]
  rw [if_neg hstage]

theorem step_cleaning {next : After} {c : ℕ} (hg : m.goroutines[t]? = some g)
    (hin : g.place.isInside) (hstage : g.stage = .cleaning c next) :
    (step m (.advance t)).registry.finished c = m.registry.finished c + 1 := by
  rw [step_inside hg hin (by rw [hstage]; simp)]
  simp [hstage, inSection, finished]

theorem CleanupState.finishes (h : CleanupState m t conn)
    (hreg : m.registry.disconnectCleanups conn.assetID ≠ some (some t)) :
    ∃ u n, n ≤ 2 ∧ (run step m (replicate n (.advance u))).registry.finished t = 1 := by
  cases h with
  | registered current kept => exact absurd kept hreg
  | taken u g removed next hg hin hasset hstage hstart hfin =>
    refine ⟨u, 2, Nat.le_refl 2, ?_⟩
    have hstep := step_inside hg hin (by rw [hstage]; simp)
    have hlt := (List.getElem?_eq_some_iff.1 hg).1
    have hnext : (step m (.advance u)).goroutines[u]? =
        some { g with stage := .cleaning t next } := by
      rw [hstep, hstage]
      simp [inSection, hlt]
    have hfin' : (step m (.advance u)).registry.finished t = 0 := by
      rw [hstep, hstage]
      simpa [inSection, finished] using hfin
    show (step (step m (.advance u)) (.advance u)).registry.finished t = 1
    rw [step_cleaning hnext hin rfl, hfin']
  | running u g next hg hin hasset hstage hstart hfin =>
    refine ⟨u, 1, by omega, ?_⟩
    show (step m (.advance u)).registry.finished t = 1
    rw [step_cleaning hg hin hstage, hfin]
  | «over» hstart hfin => exact ⟨0, 0, by omega, hfin⟩

theorem inSection_stale {r : Registry} (hby : g.call.By conn)
    (hconn : r.conns conn.assetID ≠ some conn) :
    inSection t g.call r g.call.first = (r, .release) := by
  rcases hby with hcall | hcall
  · rw [hcall]
    show (r, if r.conns conn.assetID = some conn then Stage.ready else .release) = _
    rw [if_neg hconn]
  rw [hcall]
  show removeConn conn.assetID (some conn) .release r = _
  unfold removeConn
  cases hc : r.conns conn.assetID with
  | none => rfl
  | some conn' =>
    have hne : conn ≠ conn' := fun hh => hconn (hh ▸ hc)
    simp [hne, After.stage]

theorem step_stale (hg : m.goroutines[t]? = some g) (hby : g.call.By conn)
    (hconn : m.registry.conns conn.assetID ≠ some conn) (hidle : g.stage.Idle g.call) :
    (step m (.advance t)).registry = m.registry ∧
      ∃ g', (step m (.advance t)).goroutines[t]? = some g' ∧ g'.call = g.call ∧
        (g'.stage = g.stage ∨ g'.stage = .release ∨ g'.stage = .finished) := by
  have hlt := (List.getElem?_eq_some_iff.1 hg).1
  by_cases hsection : g.place.isInside ∧ g.stage ≠ .release
  · rw [step_inside hg hsection.1 hsection.2]
    rcases hidle with hfirst | hrelease | hfinished
    · rw [hfirst, inSection_stale hby hconn]
      exact ⟨rfl, _, getElem?_set_self hlt, rfl, .inr (.inl rfl)⟩
    · exact absurd hrelease hsection.2
    · rw [hfinished]
      exact ⟨rfl, _, getElem?_set_self hlt, rfl, .inr (.inr rfl)⟩
  simp only [step, hg, advance]
  cases hp : g.place with
  | out =>
    dsimp only
    split
    · exact ⟨rfl, g, hg, rfl, .inl rfl⟩
    · exact ⟨rfl, _, getElem?_set_self hlt, rfl, .inl rfl⟩
  | waiting e =>
    dsimp only
    cases lock e m.locks with
    | none => exact ⟨rfl, g, hg, rfl, .inl rfl⟩
    | some L => exact ⟨rfl, _, getElem?_set_self hlt, rfl, .inl rfl⟩
  | inside e =>
    have hrelease : g.stage = .release := by
      by_contra hne
      exact hsection ⟨by rw [hp]; rfl, hne⟩
    dsimp only
    rw [if_pos hrelease]
    exact ⟨rfl, _, getElem?_set_self hlt, rfl, .inl rfl⟩
  | leaving e => exact ⟨rfl, _, getElem?_set_self hlt, rfl, .inr (.inr rfl)⟩

theorem Inv.entry_iff (h : Inv m) (a : String) : (m.locks.table a).isSome ↔
    ∃ g ∈ m.goroutines, g.call.asset = a ∧ g.place.entry.isSome := by
  rw [h.locks.table_iff a]
  constructor
  · rintro ⟨v, hv, rfl, hentry⟩
    obtain ⟨g, hg, rfl⟩ := mem_map.1 hv
    exact ⟨g, hg, rfl, hentry⟩
  · rintro ⟨g, hg, rfl, hentry⟩
    exact ⟨g.view, mem_map_of_mem hg, rfl, hentry⟩

/-- Every interleaving keeps the lifecycle contract. -/
theorem agent_lifecycle_contract (ops : List Op) : Contract (run step .start ops) := by
  have h : Inv (run step .start ops) :=
    run_invariant_all step Inv (fun _ op hm => hm.step op) inv_start ops
  constructor
  · exact fun t u g g' hg hu hin hin' hasset => h.exclusive hg hu hin hin' hasset
  · exact fun t conn hcall hvisible => h.cleanupState hcall hvisible
  · exact fun t conn hcall hvisible hreg => (h.cleanupState hcall hvisible).finishes hreg
  · intro t
    obtain ⟨hstart, hvis⟩ := h.at_most_once t
    refine ⟨by omega, fun hnot => ?_⟩
    rw [count_eq_zero.2 hnot] at hstart
    omega
  · exact h.ledger.ordered
  · intro g hg hstage
    have hsound := h.sound g hg
    rw [hstage] at hsound
    obtain ⟨conn, hcall, hconn⟩ := hsound
    exact ⟨conn, hcall, by rw [hcall] at hconn; exact hconn⟩
  · exact fun t g conn hg hby hconn hidle => step_stale hg hby hconn hidle
  · exact h.entry_iff

/-- The registry holds a cleanup only for the connection it shows, which was registered with it. -/
theorem cleanup_of_registered (ops : List Op) :
    let m := run step .start ops
    (∀ a, m.registry.conns a = none → m.registry.disconnectCleanups a = none) ∧
    ∀ a c, m.registry.disconnectCleanups a = some (some c) →
      ∃ conn, callAt m.goroutines c = some (.register conn true) ∧ m.registry.conns a = some conn := by
  have h := run_invariant_all step Inv (fun _ op hm => hm.step op) inv_start ops
  exact ⟨h.paired, h.owner⟩

end LabTether.AgentLifecycle
