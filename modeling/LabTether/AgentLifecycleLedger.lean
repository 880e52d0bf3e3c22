import LabTether.AgentLifecycleMoves

/-!
The ledger of cleanups is a conservation law: what the registry holds, what goroutines hold
and what is finished add up to what was made visible. Each kind of step inside a section is
balanced, and a connection is published only when nothing of its asset is left to finish.
-/
namespace LabTether.AgentLifecycle

open KeyedLock Transition List Stage Option

variable {conn : Conn}

section

def callAt (gs : List Goroutine) (t : ℕ) : Option Call := gs[t]?.map Goroutine.call

def Event.goroutine : Event → ℕ
  | .visible t => t
  | .cleanupStarted t => t
  | .cleanupFinished t => t
  | .handleStarted t => t
  | .handleFinished t => t

def carries (c : ℕ) (g : Goroutine) : Bool := g.stage.token == some c

def runs (c : ℕ) (g : Goroutine) : Bool := g.stage.running == some c

/-- A connection is visible only after the cleanups of the earlier ones of its asset. -/
def Ordered (calls : ℕ → Option Call) (log : List Event) : Prop :=
  ∀ pre t post, log = pre ++ .visible t :: post → ∀ u call call', calls t = some call →
    calls u = some call' → call'.asset = call.asset → call'.cleanup → .visible u ∈ pre →
    .cleanupFinished u ∈ pre

structure Ledger (r : Registry) (gs : List Goroutine) : Prop where
  owned : ∀ a c, r.disconnectCleanups a = some (some c) →
    ∃ call, callAt gs c = some call ∧ call.asset = a
  carried : ∀ g ∈ gs, ∀ c, g.stage.token = some c →
    ∃ call, callAt gs c = some call ∧ call.asset = g.call.asset
  known : ∀ ev ∈ r.log, (callAt gs ev.goroutine).isSome
  once : ∀ t g, gs[t]? = some g → r.log.count (.visible t) + (if g.stage.pending then 1 else 0) ≤ 1
  balanced : ∀ c call, callAt gs c = some call →
    (if r.disconnectCleanups call.asset = some (some c) then 1 else 0) + gs.countP (carries c) +
      r.log.count (.cleanupFinished c) = if call.cleanup then r.log.count (.visible c) else 0
  started : ∀ c, r.log.count (.cleanupStarted c) =
    gs.countP (runs c) + r.log.count (.cleanupFinished c)
  ordered : Ordered (callAt gs) r.log

variable {gs : List Goroutine} {t : ℕ} {g g' : Goroutine} {r r' : Registry}

theorem callAt_set (hg : gs[t]? = some g) (hcall : g'.call = g.call) :
    callAt (gs.set t g') = callAt gs := by
  funext u
  simp only [callAt, getElem?_set]
  split_ifs with htu hlt
  · rw [← htu, hg]
    simp [hcall]
  · rw [getElem?_eq_none (by omega)]
  · rfl

theorem Ordered.append {calls : ℕ → Option Call} {log : List Event} (h : Ordered calls log)
    {ev : Option Event} (hev : ∀ t, ev = some (.visible t) → ∀ u call call', calls t = some call →
      calls u = some call' → call'.asset = call.asset → call'.cleanup → .visible u ∈ log →
      .cleanupFinished u ∈ log) : Ordered calls (log ++ ev.toList) := by
  rcases ev with _ | ev
  · simpa using h
  intro pre t post hsplit u call call' ht hu hsame hclean hvis
  rcases eq_nil_or_concat post with rfl | ⟨post', ev', rfl⟩
  · obtain ⟨rfl, hlast⟩ := append_inj' hsplit rfl
    have hev' : ev = .visible t := by simpa using hlast
    exact hev t (by rw [hev']) u call call' ht hu hsame hclean hvis
  · rw [concat_eq_append, ← cons_append, ← append_assoc] at hsplit
    obtain ⟨hlog, -⟩ := append_inj' hsplit rfl
    exact h pre t post' hlog u call call' ht hu hsame hclean hvis

theorem callAt_of (hg : gs[t]? = some g) : callAt gs t = some g.call := by
  simp [callAt, hg]

section

variable (h : Ledger r gs) (hg : gs[t]? = some g)
include h hg

/-- One goroutine moves and at most one event is logged: the ledger is kept when the move
itself is balanced. -/
theorem Ledger.update (hcall : g'.call = g.call) (ev : Option Event)
    (hlog : r'.log = r.log ++ ev.toList)
    (howned : ∀ a c, r'.disconnectCleanups a = some (some c) →
      ∃ call, callAt gs c = some call ∧ call.asset = a) (hcarried : ∀ c, g'.stage.token = some c →
      ∃ call, callAt gs c = some call ∧ call.asset = g.call.asset)
    (hknown : ∀ e ∈ ev, (callAt gs e.goroutine).isSome)
    (honce : ev.toList.count (.visible t) + (if g'.stage.pending then 1 else 0) ≤
      if g.stage.pending then 1 else 0)
    (hbalanced : ∀ c call, callAt gs c = some call →
      (if r'.disconnectCleanups call.asset = some (some c) then 1 else 0) +
          (if g'.stage.token = some c then 1 else 0) + ev.toList.count (.cleanupFinished c) =
        (if r.disconnectCleanups call.asset = some (some c) then 1 else 0) +
          (if g.stage.token = some c then 1 else 0) +
          if call.cleanup then ev.toList.count (.visible c) else 0)
    (hstarted : ∀ c, ev.toList.count (.cleanupStarted c) +
        (if g.stage.running = some c then 1 else 0) =
      (if g'.stage.running = some c then 1 else 0) + ev.toList.count (.cleanupFinished c))
    (hvisible : ∀ t', ev = some (.visible t') → t' = t ∧ ∀ u call, callAt gs u = some call →
      call.asset = g.call.asset → call.cleanup → .visible u ∈ r.log →
      .cleanupFinished u ∈ r.log) : Ledger r' (gs.set t g') := by
  have hcalls := callAt_set hg hcall
  refine ⟨?_, ?_, ?_, ?_, ?_, ?_, ?_⟩
  · rw [hcalls]
    exact howned
  · intro h' hmem c hc
    rw [hcalls]
    rcases mem_or_eq_of_mem_set hmem with hmem | rfl
    · exact h.carried h' hmem c hc
    · rw [hcall]
      exact hcarried c hc
  · rw [hcalls, hlog]
    exact forall_mem_append.2 ⟨h.known, fun e he => hknown e (mem_toList.1 he)⟩
  · intro u h' hu
    rw [hlog, count_append]
    rcases set_cases hu with ⟨rfl, rfl⟩ | ⟨hne, hu⟩
    · have hold := h.once u g hg
      omega
    have hold := h.once u h' hu
    have hnone : ev.toList.count (.visible u) = 0 := by
      refine count_eq_zero.2 fun hmem => hne ?_
      exact (hvisible u (mem_toList.1 hmem)).1
    omega
  · intro c call hc
    rw [hcalls] at hc
    have hcount := countP_set_add (y := g') (carries c) hg
    have hold := h.balanced c call hc
    have hdelta := hbalanced c call hc
    simp only [show ∀ g : Goroutine, carries c g = (g.stage.token == some c) from fun _ => rfl,
      beq_iff_eq] at hcount
    rw [hlog, count_append, count_append]
    by_cases hclean : call.cleanup = true
    · simp only [hclean, if_true] at hold hdelta ⊢
      omega
    · simp only [hclean, Bool.false_eq_true, if_false] at hold hdelta ⊢
      omega
  · intro c
    have hcount := countP_set_add (y := g') (runs c) hg
    have hold := h.started c
    have hdelta := hstarted c
    simp only [show ∀ g : Goroutine, runs c g = (g.stage.running == some c) from fun _ => rfl,
      beq_iff_eq] at hcount
    rw [hlog, count_append, count_append]
    omega
  · rw [hcalls, hlog]
    refine h.ordered.append fun t' ht' u call call' ht hu hsame => ?_
    obtain ⟨rfl, hall⟩ := hvisible t' ht'
    rw [callAt_of hg] at ht
    cases ht
    exact hall u call' hu hsame

theorem Ledger.quiet (hcall : g'.call = g.call) (held : g.stage.token = none)
    (holds : g'.stage.token = none) (pending : g'.stage.pending → g.stage.pending)
    (cleanups : r'.disconnectCleanups = r.disconnectCleanups)
    (log : r'.log = r.log ∨ r'.log = r.log ++ [.handleStarted t] ∨
      r'.log = r.log ++ [.handleFinished t]) : Ledger r' (gs.set t g') := by
  have hrun := running_of_token held
  have hrun' := running_of_token holds
  have hpending : (if g'.stage.pending then 1 else 0) ≤ if g.stage.pending then 1 else 0 := by
    split_ifs with h₁ h₂
    · omega
    · exact absurd (pending h₁) h₂
    all_goals omega
  obtain ⟨ev, hlog, hev⟩ : ∃ ev : Option Event, r'.log = r.log ++ ev.toList ∧
      (ev = none ∨ ev = some (.handleStarted t) ∨ ev = some (.handleFinished t)) := by
    rcases log with hl | hl | hl
    · exact ⟨none, by simpa using hl, by simp⟩
    all_goals exact ⟨some _, hl, by simp⟩
  rcases hev with rfl | rfl | rfl
  all_goals
    refine h.update hg hcall _ hlog (cleanups ▸ h.owned) (by simp [holds]) ?_ ?_ ?_ ?_ (by simp)
    · simp [Event.goroutine, callAt_of hg]
    · simpa using hpending
    · simp [cleanups, held, holds]
    · simp [hrun, hrun']

variable {next : After}

theorem Ledger.removed (held : g.stage.token = none) (pending : next = .publish → g.stage.pending)
    (cleanups : r'.disconnectCleanups =
      Function.update r.disconnectCleanups g.call.asset none) (log : r'.log = r.log) :
    Ledger r' (gs.set t
      { g with stage := .closing conn (r.disconnectCleanups g.call.asset).join next }) := by
  have hjoin : ∀ c, (r.disconnectCleanups g.call.asset).join = some c ↔
      r.disconnectCleanups g.call.asset = some (some c) := by
    intro c
    exact join_eq_some_iff
  have htoken : (closing conn (r.disconnectCleanups g.call.asset).join next).token =
      (r.disconnectCleanups g.call.asset).join := rfl
  refine h.update hg rfl none (by simpa using log) ?_ ?_ (by simp) ?_ ?_ ?_ (by simp)
  · intro a c hc
    rw [cleanups, Function.update_apply] at hc
    split_ifs at hc
    exact h.owned a c hc
  · intro c hc
    exact h.owned _ c ((hjoin c).1 (htoken ▸ hc))
  · cases next with
    | publish =>
      rw [if_pos (pending rfl)]
      simp [Stage.pending]
    | release => simp [Stage.pending]
  · intro c call hc
    simp only [toList_none, count_nil, held, htoken, hjoin, cleanups, Function.update_apply]
    by_cases ha : call.asset = g.call.asset
    · simp [ha]
    -- a cleanup is registered under the asset of its own call only
    have hnot : r.disconnectCleanups g.call.asset ≠ some (some c) := by
      intro hreg
      obtain ⟨call', hc', hasset⟩ := h.owned _ c hreg
      rw [hc] at hc'
      cases hc'
      exact ha hasset
    simp [ha, hnot]
  · intro c
    rw [running_of_token held]
    simp [running]

theorem Ledger.startedCleanup {c : ℕ} (stage : g.stage = .closing conn (some c) next)
    (cleanups : r'.disconnectCleanups = r.disconnectCleanups)
    (log : r'.log = r.log ++ [.cleanupStarted c]) :
    Ledger r' (gs.set t { g with stage := .cleaning c next }) := by
  obtain ⟨call, hc, hasset⟩ := h.carried g (mem_of_getElem? hg) c (by rw [stage]; rfl)
  refine h.update hg rfl (some (.cleanupStarted c)) log (cleanups ▸ h.owned) ?_
    (by simp [Event.goroutine, hc]) ?_ ?_ ?_ (by simp)
  · intro c' hc'
    cases hc'
    exact ⟨call, hc, hasset⟩
  · rw [stage]
    cases next <;> simp [Stage.pending]
  · intro c' call' _
    simp [cleanups, stage, token]
  · intro c'
    simp [stage, running, count_singleton]

theorem Ledger.finishedCleanup {c : ℕ} (stage : g.stage = .cleaning c next)
    (cleanups : r'.disconnectCleanups = r.disconnectCleanups)
    (log : r'.log = r.log ++ [.cleanupFinished c]) :
    Ledger r' (gs.set t { g with stage := next.stage }) := by
  obtain ⟨call, hc, hasset⟩ := h.carried g (mem_of_getElem? hg) c (by rw [stage]; rfl)
  refine h.update hg rfl (some (.cleanupFinished c)) log (cleanups ▸ h.owned)
    (by simp [next.token_stage]) (by simp [Event.goroutine, hc]) ?_ ?_ ?_ (by simp)
  · rw [stage]
    cases next <;> simp [Stage.pending, After.stage]
  · intro c' call' _
    rw [next.token_stage, cleanups, stage]
    simp [token, count_singleton]
  · intro c'
    rw [next.running_stage, stage]
    simp [running, count_singleton]

theorem Ledger.published {cleanup : Bool} (stage : g.stage = .publish)
    (called : g.call = .register conn cleanup) (cleared : r.disconnectCleanups g.call.asset = none)
    (free : ∀ h ∈ gs, h.call.asset = g.call.asset → h.stage.token = none)
    (cleanups : r'.disconnectCleanups = Function.update r.disconnectCleanups conn.assetID
      (some (if cleanup then some t else none))) (log : r'.log = r.log ++ [.visible t]) :
    Ledger r' (gs.set t { g with stage := .publishing }) := by
  have hcallAt := callAt_of hg
  have hasset : g.call.asset = conn.assetID := by rw [called]; rfl
  have hclean : g.call.cleanup = cleanup := by rw [called]; rfl
  have hcarriers : ∀ u call, callAt gs u = some call → call.asset = g.call.asset →
      gs.countP (carries u) = 0 := by
    intro u call hu hsame
    refine countP_eq_zero.2 fun h' hmem hcarry => ?_
    have htoken : h'.stage.token = some u := by simpa [carries] using hcarry
    obtain ⟨call', hu', hsame'⟩ := h.carried h' hmem u htoken
    rw [hu] at hu'
    cases hu'
    rw [free h' hmem (hsame'.symm.trans hsame)] at htoken
    cases htoken
  refine h.update hg rfl (some (.visible t)) log ?_ nofun
    (by simp [Event.goroutine, hcallAt]) (by simp [stage, Stage.pending]) ?_
    (fun c => by simp [stage, running]) ?_
  · intro a c hc
    rw [cleanups, Function.update_apply] at hc
    split_ifs at hc with ha hcl
    · cases hc
      exact ⟨g.call, hcallAt, hasset.trans ha.symm⟩
    · cases hc
    · exact h.owned a c hc
  · intro c call hc
    simp only [toList_some, count_singleton, cleanups, Function.update_apply, stage,
      token, reduceCtorEq, if_false]
    by_cases hct : c = t
    · subst hct
      rw [hcallAt] at hc
      cases hc
      rw [← hasset, cleared, hclean]
      cases cleanup <;> simp
    · have htc : ¬ t = c := fun hh => hct hh.symm
      by_cases ha : call.asset = conn.assetID
      · rw [ha, ← hasset, cleared]
        cases cleanup <;> simp [htc]
      · simp [ha, htc]
  · rintro _ ⟨⟩
    refine ⟨rfl, fun u call' hu hsame hcl hvis => ?_⟩
    have hbal := h.balanced u call' hu
    have hpos := count_pos_iff.2 hvis
    rw [hcarriers u call' hu hsame, hsame, cleared, if_pos hcl] at hbal
    simp only [reduceCtorEq, if_false] at hbal
    exact count_pos_iff.1 (by omega)

theorem Ledger.move {s' : Stage} (hmove : Move t g.call r g.stage r' s')
    (hpublish : g.stage = .publish → r.disconnectCleanups g.call.asset = none ∧
      ∀ h ∈ gs, h.call.asset = g.call.asset → h.stage.token = none) :
    Ledger r' (gs.set t { g with stage := s' }) := by
  cases hmove with
  | quiet held holds pending conns cleanups log =>
    exact h.quiet hg rfl held holds pending cleanups log
  | removed held pending registered => exact h.removed hg held pending rfl rfl
  | started stage => exact h.startedCleanup hg stage rfl rfl
  | finished stage => exact h.finishedCleanup hg stage rfl rfl
  | published stage called =>
    obtain ⟨cleared, free⟩ := hpublish stage
    exact h.published hg stage called cleared free rfl rfl

end

variable {x : Goroutine}

theorem callAt_append {u : ℕ} {call : Call} : callAt (gs ++ [x]) u = some call ↔
      callAt gs u = some call ∨ u = gs.length ∧ call = x.call := by
  simp only [callAt, getElem?_append]
  split_ifs with hu
  · have hne : u ≠ gs.length := by omega
    simp [hne]
  rw [getElem?_eq_none (l := gs) (by omega)]
  by_cases hlast : u = gs.length
  · simp [hlast, eq_comm]
  · rw [getElem?_eq_none (by simp; omega)]
    simp [hlast]

theorem Ledger.append (h : Ledger r gs) (hidle : x.stage.token = none) :
    Ledger r (gs ++ [x]) := by
  have hold : ∀ {u : ℕ} {c : Call}, callAt gs u = some c → callAt (gs ++ [x]) u = some c :=
    fun hu => callAt_append.2 (.inl hu)
  have hnew : callAt gs gs.length = none := by simp [callAt]
  -- the log names old goroutines only
  have hlog : ∀ ev ∈ r.log, ev.goroutine ≠ gs.length := by
    intro ev hev heq
    have hsome := h.known ev hev
    rw [heq, hnew] at hsome
    cases hsome
  have hcalls : ∀ {u : ℕ} {c : Call} (ev : Event), ev ∈ r.log → ev.goroutine = u →
      callAt (gs ++ [x]) u = some c → callAt gs u = some c := by
    intro u c ev hev heq hu
    rcases callAt_append.1 hu with hu | ⟨hu, -⟩
    · exact hu
    · exact absurd (heq.trans hu) (hlog ev hev)
  have hcarry : ∀ c, carries c x = false := fun c => by simp [carries, hidle]
  have hruns : ∀ c, runs c x = false := fun c => by simp [runs, running_of_token hidle]
  refine ⟨?_, ?_, ?_, ?_, ?_, ?_, ?_⟩
  · intro a c hc
    obtain ⟨call', hc', hasset⟩ := h.owned a c hc
    exact ⟨call', hold hc', hasset⟩
  · intro g hg c hc
    rcases mem_append.1 hg with hg | hg
    · obtain ⟨call', hc', hasset⟩ := h.carried g hg c hc
      exact ⟨call', hold hc', hasset⟩
    · rw [mem_singleton.1 hg, hidle] at hc
      cases hc
  · intro ev hev
    obtain ⟨call', hc'⟩ := isSome_iff_exists.1 (h.known ev hev)
    rw [hold hc']
    rfl
  · intro t g hg
    rcases concat_cases hg with hg | ⟨ht, -⟩
    · exact h.once t g hg
    have hzero : r.log.count (.visible t) = 0 := count_eq_zero.2 fun hmem => hlog _ hmem ht
    rw [hzero]
    split <;> omega
  · intro c call' hc
    rw [countP_append, countP_singleton, hcarry]
    rcases callAt_append.1 hc with hc | ⟨rfl, rfl⟩
    · simpa using h.balanced c call' hc
    have hreg : r.disconnectCleanups x.call.asset ≠ some (some gs.length) := by
      intro hreg
      obtain ⟨_, hc', -⟩ := h.owned _ _ hreg
      rw [hnew] at hc'
      cases hc'
    have hnone : gs.countP (carries gs.length) = 0 := by
      refine countP_eq_zero.2 fun g hg hcar => ?_
      obtain ⟨_, hc', -⟩ := h.carried g hg _ (by simpa [carries] using hcar)
      rw [hnew] at hc'
      cases hc'
    have hfin : r.log.count (.cleanupFinished gs.length) = 0 :=
      count_eq_zero.2 fun hmem => hlog _ hmem rfl
    have hvis : r.log.count (.visible gs.length) = 0 :=
      count_eq_zero.2 fun hmem => hlog _ hmem rfl
    simp [hreg, hnone, hfin, hvis]
  · intro c
    rw [countP_append, countP_singleton, hruns]
    simpa using h.started c
  · intro pre t post hsplit u c c' ht hu hsame hclean hvis
    refine h.ordered pre t post hsplit u c c' ?_ ?_ hsame hclean hvis
    · exact hcalls (.visible t) (by rw [hsplit]; simp) rfl ht
    · exact hcalls (.visible u) (by rw [hsplit]; simp [hvis]) rfl hu

end

end LabTether.AgentLifecycle
