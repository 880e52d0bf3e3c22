import LabTether.TableParts
import LabTether.Transition

/-!
The rate limiter of the HTTP handlers (`enforceRateLimitKey` in `cmd/labtether/http_helpers.go`).
Times are in nanoseconds. Which limit and window a key has is fixed; the order in which a map is
visited is an input of each request. Beside the limiter, `spans` follows for each key the windows
that its own requests start and counts what is admitted in them.
-/
namespace LabTether.RateLimit

open Table Transition List Function

/-- `rateCounter`, with its key. -/
structure Window where
  key : String
  (count resetAt : ℕ)
deriving DecidableEq

structure Limiter where
  windows : List Window
  prunedAt : Option ℕ

open Limiter

structure Policy where
  (limit window : ℕ)

structure Request where
  key : String
  now : ℕ
  /-- The order in which the map of windows is visited. -/
  visit : List Window → List Window
  visit_perm : ∀ ws, (visit ws).Perm ws

def maxRateLimitWindows : ℕ := 4096

def minute : ℕ := 60 * 1000000000

def expired (now : ℕ) (w : Window) : Bool := w.resetAt < now

def Limiter.prune (l : Limiter) (now : ℕ) : Limiter :=
  if (100 < l.windows.length ∧ l.prunedAt.all (fun t => t + minute < now)) ∨
      maxRateLimitWindows ≤ l.windows.length then
    ⟨deleteWhere (expired now) l.windows, some now⟩
  else l

def earliest : List Window → Option Window → Option Window
  | [], best => best
  | w :: ws, none => earliest ws (some w)
  | w :: ws, some b => earliest ws (some (if w.resetAt < b.resetAt then w else b))

/-- Make room for a new key. -/
def evict (r : Request) (ws : List Window) : List Window :=
  if rowOf Window.key r.key ws = none ∧ maxRateLimitWindows ≤ ws.length then
    match earliest (r.visit ws) none with
    | some w => deleteWhere (fun v => v.key = w.key) ws
    | none => ws
  else ws

def counterFor (p : Policy) (r : Request) (ws : List Window) : Window :=
  match rowOf Window.key r.key ws with
  | some w => if expired r.now w then ⟨r.key, 0, r.now + p.window⟩ else w
  | none => ⟨r.key, 0, r.now + p.window⟩

def put (w : Window) (ws : List Window) : List Window :=
  deleteWhere (fun v => v.key = w.key) ws ++ [w]

def enforceRateLimitKey (p : Policy) (l : Limiter) (r : Request) : Bool × Limiter :=
  let l := l.prune r.now
  let ws := evict r l.windows
  let counter := counterFor p r ws
  if p.limit ≤ counter.count then (false, { l with windows := put counter ws })
  else (true, { l with windows := put { counter with count := counter.count + 1 } ws })

/-- A window as the requests of one key see it. -/
structure Span where
  (ends admitted : ℕ)
deriving DecidableEq

def observe (p : Policy) (now : ℕ) (admitted : Bool) : Option Span → Span
  | some s =>
    if now ≤ s.ends then { s with admitted := s.admitted + admitted.toNat }
    else ⟨now + p.window, admitted.toNat⟩
  | none => ⟨now + p.window, admitted.toNat⟩

structure State where
  limiter : Limiter
  spans : String → Option Span
  clock : ℕ

def start : State := ⟨⟨[], none⟩, fun _ => none, 0⟩

variable {policy : String → Policy} {s : State} {r : Request} {ws : List Window}

def step (policy : String → Policy) (s : State) (r : Request) : State :=
  let answer := enforceRateLimitKey (policy r.key) s.limiter r
  { limiter := answer.2
    spans := update s.spans r.key
      (some (observe (policy r.key) r.now answer.1 (s.spans r.key)))
    clock := r.now }

variable {w : Window} {best : Option Window}

theorem earliest_mem (h : earliest ws best = some w) :
    w ∈ ws ∨ best = some w := by
  induction ws generalizing best with
  | nil => exact .inr h
  | cons v ws ih =>
    rcases best with _ | b
    · rcases ih h with hmem | heq
      · exact .inl (.tail _ hmem)
      · exact .inl (Option.some.inj heq ▸ .head _)
    rcases ih h with hmem | heq
    · exact .inl (.tail _ hmem)
    · split_ifs at heq
      · exact .inl (Option.some.inj heq ▸ .head _)
      · exact .inr heq

theorem earliest_isSome (h : ws ≠ [] ∨ best.isSome) :
    (earliest ws best).isSome := by
  induction ws generalizing best with
  | nil => exact h.resolve_left fun h => h rfl
  | cons v ws ih => cases best <;> exact ih (.inr rfl)

theorem length_deleteWhere_lt (hw : w ∈ ws) :
    (deleteWhere (fun v => v.key = w.key) ws).length < ws.length :=
  length_filter_lt_length_iff_exists.2 ⟨w, hw, by simp⟩

theorem length_put_evict_le (hle : ws.length ≤ maxRateLimitWindows)
    (hw : w.key = r.key) : (put w (evict r ws)).length ≤ maxRateLimitWindows := by
  rw [put, length_append, length_singleton, hw]
  have hless : ∀ vs : List Window, (deleteWhere (fun v => v.key = r.key) vs).length ≤ vs.length :=
    fun vs => length_filter_le _ _
  rw [evict]
  split_ifs with hfull
  · have hne : r.visit ws ≠ [] := by
      intro hnil
      have := (r.visit_perm ws).length_eq
      rw [hnil, length_nil] at this
      have : 0 < maxRateLimitWindows := by decide
      omega
    obtain ⟨v, hv⟩ : ∃ v, earliest (r.visit ws) none = some v :=
      Option.isSome_iff_exists.1 (earliest_isSome (.inl hne))
    have hmem := (r.visit_perm ws).mem_iff.1 ((earliest_mem hv).resolve_right nofun)
    have hlt := length_deleteWhere_lt hmem
    have := hless (deleteWhere (fun u => u.key = v.key) ws)
    rw [hv]
    dsimp only
    omega
  · have := hless ws
    rcases not_and_or.1 hfull with hknown | hroom
    · obtain ⟨v, hv⟩ := Option.ne_none_iff_exists'.1 hknown
      obtain ⟨hmem, hkey⟩ := rowOf_mem hv
      have hlt := length_deleteWhere_lt hmem
      rw [hkey] at hlt
      omega
    · omega

theorem counterFor_key (p : Policy) (r : Request) (ws : List Window) :
    (counterFor p r ws).key = r.key := by
  rw [counterFor]
  split
  · rename_i w hw
    split_ifs
    · rfl
    · exact (rowOf_mem hw).2
  · rfl

theorem length_prune_le (l : Limiter) (now : ℕ) : (l.prune now).windows.length ≤ l.windows.length := by
  rw [prune]
  split_ifs
  · exact length_filter_le _ _
  · exact le_rfl

theorem length_step_le (h : s.limiter.windows.length ≤ maxRateLimitWindows) (r : Request) :
    (step policy s r).limiter.windows.length ≤ maxRateLimitWindows := by
  have hle := (length_prune_le s.limiter r.now).trans h
  rw [step, enforceRateLimitKey]
  split_ifs
  all_goals exact length_put_evict_le hle (counterFor_key _ _ _)

variable {l : Limiter}

structure Inv (policy : String → Policy) (s : State) : Prop where
  known : ∀ w ∈ s.limiter.windows, s.spans w.key = some ⟨w.resetAt, w.count⟩
  live : ∀ k v, s.spans k = some v → s.clock ≤ v.ends → ∃ w ∈ s.limiter.windows, w.key = k
  bound : ∀ k v, s.spans k = some v → v.admitted ≤ (policy k).limit

/-- Time does not run backwards, and the key has a live window or there is room for one beside the
windows that are live. -/
def Roomy (s : State) (r : Request) : Prop :=
  s.clock ≤ r.now ∧ ((∃ w ∈ s.limiter.windows, w.key = r.key ∧ r.now ≤ w.resetAt) ∨
    (deleteWhere (expired r.now) s.limiter.windows).length < maxRateLimitWindows)

theorem mem_prune {now : ℕ} (h : w ∈ (l.prune now).windows) : w ∈ l.windows := by
  rw [prune] at h
  split_ifs at h
  · exact (mem_deleteWhere.1 h).1
  · exact h

theorem mem_prune_of_live {now : ℕ} (h : w ∈ l.windows)
    (hlive : now ≤ w.resetAt) : w ∈ (l.prune now).windows := by
  rw [prune]
  split_ifs
  · exact mem_deleteWhere.2 ⟨h, by simpa [expired] using hlive⟩
  · exact h

theorem evict_eq (h : Roomy s r) :
    evict r (s.limiter.prune r.now).windows = (s.limiter.prune r.now).windows := by
  refine if_neg fun ⟨hunknown, hfull⟩ => ?_
  rcases h.2 with ⟨w, hw, hkey, hlive⟩ | hroom
  · exact rowOf_eq_none.1 hunknown (mem_map.2 ⟨w, mem_prune_of_live hw hlive, hkey⟩)
  have hpruned : s.limiter.prune r.now = ⟨deleteWhere (expired r.now) s.limiter.windows, r.now⟩ :=
    if_pos (.inr (hfull.trans (length_prune_le _ _)))
  rw [hpruned] at hfull
  exact Nat.lt_irrefl _ (Nat.lt_of_lt_of_le hroom hfull)

theorem observe_eq (h : Inv policy s) (hr : Roomy s r) (p : Policy) (v : Bool) :
    let c := counterFor p r (s.limiter.prune r.now).windows
    observe p r.now v (s.spans r.key) = ⟨c.resetAt, c.count + v.toNat⟩ := by
  intro c
  have hrow : ∀ w, rowOf Window.key r.key (s.limiter.prune r.now).windows = some w →
      s.spans r.key = some ⟨w.resetAt, w.count⟩ := by
    intro w hw
    obtain ⟨hmem, hkey⟩ := rowOf_mem hw
    exact hkey ▸ h.known w (mem_prune hmem)
  cases hw : rowOf Window.key r.key (s.limiter.prune r.now).windows with
  | some w =>
    have hc : c = if expired r.now w then ⟨r.key, 0, r.now + p.window⟩ else w := by
      simp [c, counterFor, hw]
    rw [hrow w hw, observe, hc]
    by_cases hlive : r.now ≤ w.resetAt
    · simp [expired, hlive, Nat.not_lt.2 hlive]
    · simp [expired, hlive, Nat.not_le.1 hlive]
  | none =>
    have hc : c = ⟨r.key, 0, r.now + p.window⟩ := by simp only [c, counterFor, hw]
    have hnew : observe p r.now v (s.spans r.key) = ⟨r.now + p.window, v.toNat⟩ := by
      rcases hspan : s.spans r.key with _ | u
      · rfl
      refine if_neg fun hlive => ?_
      -- a window of the key that is live is known to the limiter
      obtain ⟨w, hmem, hkey⟩ := h.live _ u hspan (hr.1.trans hlive)
      have hu := h.known w hmem
      rw [hkey, hspan, Option.some.injEq] at hu
      subst hu
      exact rowOf_eq_none.1 hw (mem_map.2 ⟨w, mem_prune_of_live hmem hlive, hkey⟩)
    rw [hnew, hc, Nat.zero_add]

theorem observe_false_le {p : Policy} {now n : ℕ} {span : Option Span}
    (h : ∀ u, span = some u → u.admitted ≤ n) : (observe p now false span).admitted ≤ n := by
  rcases span with _ | u
  · exact Nat.zero_le n
  rw [observe]
  split_ifs
  · exact h u rfl
  · exact Nat.zero_le n

theorem mem_put {w v : Window} : v ∈ put w ws ↔ (v ∈ ws ∧ v.key ≠ w.key) ∨ v = w := by
  simp [put, mem_deleteWhere]

theorem step_inv (h : Inv policy s) (hr : Roomy s r) : Inv policy (step policy s r) := by
  have hobserve := observe_eq h hr (policy r.key)
  -- the answer is whether the counter is below the limit, and an admitted request is counted
  obtain ⟨c, hspans, hwindows, hkey, hbound⟩ : ∃ c : Window,
      (step policy s r).spans = update s.spans r.key (some ⟨c.resetAt, c.count⟩) ∧
      (step policy s r).limiter.windows = put c (s.limiter.prune r.now).windows ∧
      c.key = r.key ∧ c.count ≤ (policy r.key).limit := by
    rw [step, enforceRateLimitKey, evict_eq hr]
    generalize hc : counterFor (policy r.key) r (s.limiter.prune r.now).windows = c at hobserve
    have hkey : c.key = r.key := hc ▸ counterFor_key _ _ _
    split_ifs with hlimit
    · have hcount := congrArg Span.admitted (hobserve false)
      exact ⟨c, by rw [hobserve]; rfl, rfl, hkey,
        hcount.symm.trans_le (observe_false_le (h.bound r.key))⟩
    · exact ⟨{ c with count := c.count + 1 }, by rw [hobserve]; rfl, rfl, hkey,
        Nat.lt_of_not_le hlimit⟩
  refine ⟨fun w hw => ?_, fun k u hu hlive => ?_, fun k u hu => ?_⟩
  · rw [hwindows] at hw
    rw [hspans]
    rcases mem_put.1 hw with ⟨hw, hne⟩ | rfl
    · rw [update_of_ne (hkey ▸ hne)]
      exact h.known w (mem_prune hw)
    · rw [hkey, update_self]
  · rw [hspans] at hu
    rw [hwindows]
    by_cases hk : k = r.key
    · exact ⟨c, mem_put.2 (.inr rfl), hkey.trans hk.symm⟩
    rw [update_of_ne hk] at hu
    obtain ⟨w, hw, hwk⟩ := h.live k u hu (hr.1.trans hlive)
    have hspan := h.known w hw
    rw [hwk, hu, Option.some.injEq] at hspan
    subst hspan
    refine ⟨w, mem_put.2 (.inl ⟨mem_prune_of_live hw hlive, ?_⟩), hwk⟩
    rw [hkey, hwk]
    exact hk
  · rw [hspans] at hu
    by_cases hk : k = r.key
    · subst hk
      rw [update_self, Option.some.injEq] at hu
      subst hu
      exact hbound
    · rw [update_of_ne hk] at hu
      exact h.bound k u hu

/-- The number of windows is bounded; and while no live window has to make room, no key is admitted
more often in a window than its limit says. -/
theorem limits_hold_in_roomy_runs (policy : String → Policy) (requests : List Request) :
    (run (step policy) start requests).limiter.windows.length ≤ maxRateLimitWindows ∧
      (StepsMeet (step policy) Roomy start requests →
        ∀ k v, (run (step policy) start requests).spans k = some v →
          v.admitted ≤ (policy k).limit) := by
  constructor
  · have hall : StepsMeet (step policy) (fun _ _ => True) start requests :=
      stepsMeet_of_all (fun _ _ => trivial) start requests
    exact StepsMeet.last (I := fun s : State => s.limiter.windows.length ≤ maxRateLimitWindows)
      (fun s r h _ => length_step_le h r) (Nat.zero_le _) hall
  · intro hroomy
    have hinv : Inv policy start := ⟨fun _ h => absurd h not_mem_nil, nofun, nofun⟩
    exact (StepsMeet.last (fun s r h hr => step_inv h hr) hinv hroomy).bound

theorem mem_evict (h : w ∈ evict r ws) : w ∈ ws := by
  rw [evict] at h
  split_ifs at h
  · split at h
    · exact (mem_deleteWhere.1 h).1
    · exact h
  · exact h

theorem step_unknown (hlimit : 0 < (policy r.key).limit)
    (hnew : r.key ∉ s.limiter.windows.map Window.key) : (step policy s r).limiter.windows =
        evict r (s.limiter.prune r.now).windows ++ [⟨r.key, 1, r.now + (policy r.key).window⟩] ∧
      (step policy s r).spans r.key = some (observe (policy r.key) r.now true (s.spans r.key)) := by
  have hout : ∀ w ∈ evict r (s.limiter.prune r.now).windows, w.key ≠ r.key :=
    fun w hw hkey => hnew (mem_map.2 ⟨w, mem_prune (mem_evict hw), hkey⟩)
  have hcounter : counterFor (policy r.key) r (evict r (s.limiter.prune r.now).windows) =
      ⟨r.key, 0, r.now + (policy r.key).window⟩ := by
    rw [counterFor, rowOf_eq_none.2 (by simpa using hout)]
  rw [step, enforceRateLimitKey]
  rw [hcounter, if_neg (Nat.not_le.2 hlimit)]
  refine ⟨?_, update_self _ _ _⟩
  dsimp only [put]
  rw [deleteWhere_eq_self fun w hw => by simpa using hout w hw]

theorem prune_live (now : ℕ) (h : ∀ w ∈ l.windows, now ≤ w.resetAt) :
    (l.prune now).windows = l.windows := by
  rw [prune]
  split_ifs
  · exact deleteWhere_eq_self fun w hw => by simpa [expired] using h w hw
  · rfl

theorem earliest_head {b : Window} (h : ∀ w ∈ ws, b.resetAt ≤ w.resetAt) :
    earliest ws (some b) = some b := by
  induction ws with
  | nil => rfl
  | cons w ws ih =>
    obtain ⟨hw, hws⟩ := forall_mem_cons.1 h
    rw [earliest, if_neg (Nat.not_lt.2 hw), ih hws]

variable (n : ℕ)

def key : String := String.ofList (replicate n 'x')

theorem key_inj {n m : ℕ} : key n = key m ↔ n = m := by
  refine ⟨fun h => ?_, congrArg key⟩
  simpa [key] using congrArg (fun k : String => k.toList.length) h

def ask (now : ℕ) : Request := ⟨key n, now, fun ws => ws, fun _ => .refl _⟩

def once : String → Policy := fun _ => ⟨1, 10⟩

/-- The first key, and `n` other keys after it. -/
def crowd : List Request := ask 0 0 :: (range n).map fun i => ask (i + 1) 1

theorem crowd_succ : crowd (n + 1) = crowd n ++ [ask (n + 1) 1] := by
  simp [crowd, range_succ]

def crowdWindows : List Window :=
  ⟨key 0, 1, 10⟩ :: (range n).map fun i => ⟨key (i + 1), 1, 11⟩

theorem crowdWindows_fresh : key (n + 1) ∉ (crowdWindows n).map Window.key := by
  simp [crowdWindows, key_inj]

variable {n : ℕ}

theorem step_crowd (hs : s.limiter.windows = crowdWindows n) :
    (step once s (ask (n + 1) 1)).limiter.windows =
        evict (ask (n + 1) 1) (crowdWindows n) ++ [⟨key (n + 1), 1, 11⟩] ∧
      (step once s (ask (n + 1) 1)).spans (key 0) = s.spans (key 0) := by
  have hnew : key (n + 1) ∉ s.limiter.windows.map Window.key := hs ▸ crowdWindows_fresh n
  have hlive : ∀ w ∈ s.limiter.windows, 1 ≤ w.resetAt := by simp [hs, crowdWindows]
  have hpolicy : 0 < (once (ask (n + 1) 1).key).limit := Nat.zero_lt_one
  have hstep := (step_unknown hpolicy hnew).1
  rw [prune_live (ask (n + 1) 1).now hlive, hs] at hstep
  exact ⟨hstep, update_of_ne (by simp [ask, key_inj]) _ _⟩

theorem run_crowd (hn : n < maxRateLimitWindows) :
    (run (step once) start (crowd n)).limiter.windows = crowdWindows n ∧
      (run (step once) start (crowd n)).spans (key 0) = some ⟨10, 1⟩ := by
  induction n with
  | zero => decide
  | succ n ih =>
    obtain ⟨hwindows, hspan⟩ := ih (by omega)
    obtain ⟨hnext, hsame⟩ := step_crowd hwindows
    rw [evict, if_neg (by simp [crowdWindows]; omega)] at hnext
    rw [crowd_succ, run_append]
    exact ⟨hnext.trans (by simp [crowdWindows, range_succ]), hsame.trans hspan⟩

theorem evict_crowd (hn : maxRateLimitWindows = n + 1) : evict (ask (n + 1) 1) (crowdWindows n) =
    deleteWhere (fun v => v.key = key 0) (crowdWindows n) := by
  have hbest : earliest ((ask (n + 1) 1).visit (crowdWindows n)) none = some ⟨key 0, 1, 10⟩ :=
    earliest_head (by simp)
  rw [evict, if_pos ⟨rowOf_eq_none.2 (crowdWindows_fresh n), by simp [crowdWindows, hn]⟩, hbest]

theorem run_crowd_full (hn : maxRateLimitWindows = n + 1) :
    (run (step once) start (crowd (n + 1) ++ [ask 0 1])).spans (key 0) = some ⟨10, 2⟩ := by
  obtain ⟨hwindows, hspan⟩ := run_crowd (n := n) (by omega)
  obtain ⟨hnext, hsame⟩ := step_crowd hwindows
  rw [crowd_succ, run_append, run_append]
  have hgone : key 0 ∉ (step once (run (step once) start (crowd n))
      (ask (n + 1) 1)).limiter.windows.map Window.key := by
    simp [hnext, evict_crowd hn, mem_deleteWhere, key_inj]
  have hlimit : 0 < (once (ask 0 1).key).limit := Nat.zero_lt_one
  have hagain := (step_unknown hlimit hgone).2
  refine hagain.trans ?_
  rw [show (ask 0 1).key = key 0 from rfl, hsame, hspan]
  rfl

/-- 4096 other keys push a live window out, and its key is admitted beyond its limit of one. -/
theorem crowd_lifts_limit :
    let requests := crowd (4095 + 1) ++ [ask 0 1]
    (requests.map Request.now).Pairwise (· ≤ ·) ∧
      (run (step once) start requests).spans (key 0) = some ⟨10, 2⟩ := by
  refine ⟨?_, run_crowd_full (n := 4095) rfl⟩
  have htimes : ∀ t ∈ (((range (4095 + 1)).map fun i => ask (i + 1) 1) ++
      [ask 0 1]).map Request.now, t = 1 := by
    simp only [forall_mem_map, forall_mem_append, forall_mem_singleton]
    exact ⟨fun _ _ => rfl, rfl⟩
  rw [crowd, cons_append, map_cons, eq_replicate_of_mem htimes]
  exact pairwise_cons.2 ⟨fun _ _ => Nat.zero_le _, pairwise_replicate.2 (.inr le_rfl)⟩

end LabTether.RateLimit
