import LabTether.AgentEnrollment

/-!
What a transaction may do to the committed tables, and what the others can rely on. A
transaction changes the rows of an asset only with its identity lock, a token row only if no
other has locked it, and it never brings a revoked or deleted agent token back. `Inv` is the
invariant of the tables and of the history of commits. The parts about the size of the fleet
are needed, and asked for, only when `P` holds.
-/
namespace LabTether.AgentEnrollment

open Pool List Option

variable {evs : List Event} {ev : Event}

section

def Event.asset : Event → Option String
  | .enrolled a _ _ => some a
  | .approved a _ _ => some a
  | .decommissioned a _ => some a
  | .heartbeat _ => none

def Event.stamp : Event → ℕ
  | .enrolled _ _ rotatedAt => rotatedAt
  | .approved _ _ rotatedAt => rotatedAt
  | .decommissioned _ retiredAt => retiredAt
  | .heartbeat _ => 0

/-- The event uses the enrollment token. -/
def Event.uses (e : ℕ) : Event → Bool
  | .enrolled _ token _ => token.id == e
  | _ => false

def commitsOf (a : String) (log : List Event) : List Event :=
  log.filter fun ev => ev.asset == some a

/-- The last commit of the asset is not its removal. -/
def live (a : String) (log : List Event) : Bool :=
  match (commitsOf a log).getLast? with
  | none => false
  | some (.decommissioned _ _) => false
  | some _ => true

def Event.Lawful (pre : List Event) : Event → Prop
  | .enrolled a token _ =>
    (live a pre = true → token.maxUses = 1 ∧
      ∀ ev ∈ pre, ev.asset = some a → ev.stamp < token.createdAt) ∧
    (∀ r, .decommissioned a r ∈ pre → token.maxUses = 1 ∧ r < token.createdAt)
  | .approved a _ _ => ∀ r, .decommissioned a r ∉ pre
  | _ => True

variable (log : List Event)

def LawfulLog : Prop :=
  ∀ pre ev post, log = pre ++ ev :: post → ev.Lawful pre

theorem lawfulLog_append {log : List Event} (h : LawfulLog log)
    (hlen : evs.length ≤ 1) (hev : ∀ ev ∈ evs, ev.Lawful log) : LawfulLog (log ++ evs) := by
  match evs, hlen with
  | [], _ => simpa using h
  | [ev], _ =>
    intro pre ev' post hsplit
    rcases eq_nil_or_concat post with rfl | ⟨post', x, rfl⟩
    · obtain ⟨rfl, hlast⟩ := append_inj' hsplit rfl
      have hsame : ev = ev' := by simpa using hlast
      exact hsame ▸ hev ev (by simp)
    · rw [concat_eq_append, ← cons_append, ← append_assoc] at hsplit
      exact h pre ev' post' (append_inj' hsplit rfl).1

variable {a : String}

theorem mem_commitsOf {log : List Event} : ev ∈ commitsOf a log ↔ ev ∈ log ∧ ev.asset = some a := by
  simp [commitsOf]

theorem commitsOf_append_other (h : ∀ ev ∈ evs, ev.asset ≠ some a) :
    commitsOf a (log ++ evs) = commitsOf a log := by
  have hnil : evs.filter (fun ev => ev.asset == some a) = [] := by simpa [filter_eq_nil_iff] using h
  rw [commitsOf, filter_append, hnil, append_nil, commitsOf]

theorem live_append_other (h : ev.asset ≠ some a) : live a (log ++ [ev]) = live a log := by
  rw [live, commitsOf_append_other log (by simpa using h), live]

theorem live_append_self (h : ev.asset = some a) :
    live a (log ++ [ev]) = !(ev matches .decommissioned _ _) := by
  have hlast : (commitsOf a (log ++ [ev])).getLast? = some ev := by simp [commitsOf, h]
  rw [live, hlast]
  cases ev with
  | _ => rfl

/-- All commits of the asset are stamped at most `m`. -/
def Bounds (a : String) (m : ℕ) : Prop :=
  ∀ ev ∈ log, ev.asset = some a → ev.stamp ≤ m

end

section

variable (P : Prop) (limit : ℕ)

def RowKey.id : RowKey → ℕ
  | .token i => i
  | .enrollment i => i

/-- Agent tokens: one active token for an asset, and ids that were given out. -/
structure TokensInv (T : Rows ℕ AgentToken) (next : ℕ) : Prop where
  unique : ∀ i j r r', T.get i = some r → T.get j = some r' → r.status = .active →
    r'.status = .active → r.assetID = r'.assetID → i = j
  ids : ∀ i, (T.get i).isSome → i < next

/-- Identities and tombstones: an asset that was removed is there again or has a tombstone,
and both are at least as late as every commit of the asset. -/
structure IdentitiesInv (assets : Rows String Asset) (identities retired : Rows String ℕ)
    (log : List Event) : Prop where
  enrolled : ∀ a, (identities.get a).isSome ↔ (assets.get a).isSome
  live : ∀ a, (assets.get a).isSome = live a log
  absent : ∀ a, (retired.get a).isSome → assets.get a = none
  marker : ∀ a m, identities.get a = some m → Bounds log a m
  tombstone : ∀ a r, retired.get a = some r → Bounds log a r
  gone : ∀ a r, .decommissioned a r ∈ log → (assets.get a).isSome ∨ (retired.get a).isSome

/-- Enrollment tokens: the uses that were committed are counted and bounded. -/
structure EnrollmentsInv (E : Rows ℕ EnrollmentToken) (log : List Event) (next : ℕ) : Prop where
  ids : ∀ i, (E.get i).isSome → i < next
  counted : ∀ e r, E.get e = some r →
    r.id = e ∧ r.useCount = log.countP (Event.uses e) ∧ r.useCount ≤ r.maxUses
  used : ∀ a token rotatedAt, .enrolled a token rotatedAt ∈ log →
    token.id < next ∧ log.countP (Event.uses token.id) ≤ token.maxUses ∧
      ∀ r, E.get token.id = some r → r.maxUses = token.maxUses

structure Inv (s : Store) : Prop where
  tokens : TokensInv s.db.tokens s.nextID
  identities : IdentitiesInv s.db.assets s.db.identities s.db.retired s.log
  enrollments : EnrollmentsInv s.db.enrollments s.log s.nextID
  locked : ∀ k, (s.rows k).isSome → k.id < s.nextID
  stamps : ∀ ev ∈ s.log, ev.stamp ≤ s.clock
  lawful : LawfulLog s.log
  capacity : P → (s.db.enrolledOrReserved s.clock).card ≤ limit

def Dead (i : ℕ) (s : Store) : Prop :=
  (∃ r, s.db.tokens.get i = some r ∧ r.status = .revoked) ∨
    (s.db.tokens.get i = none ∧ i < s.nextID ∧ s.rows (.token i) = none)

/-- The owner of a lock changes only from or to `t` and nobody. -/
def Hand (t : ℕ) (o o' : Option ℕ) : Prop :=
  o' = o ∨ ((o = none ∨ o = some t) ∧ (o' = none ∨ o' = some t))

structure Guar (t : ℕ) (s s' : Store) : Prop where
  advisory : ∀ l, Hand t (s.advisory l) (s'.advisory l)
  rows : ∀ k, Hand t (s.rows k) (s'.rows k)
  clock : s'.clock = s.clock
  nextID : s.nextID ≤ s'.nextID
  lockedToken : ∀ i, s.rows (.token i) ≠ none → s.rows (.token i) ≠ some t →
    s'.db.tokens.get i = s.db.tokens.get i
  lockedEnrollment : ∀ i, s.rows (.enrollment i) ≠ none → s.rows (.enrollment i) ≠ some t →
    s'.db.enrollments.get i = s.db.enrollments.get i
  identity : ∀ a, s.advisory (.identity a) ≠ some t →
    s'.db.assets.get a = s.db.assets.get a ∧ s'.db.identities.get a = s.db.identities.get a ∧
      s'.db.retired.get a = s.db.retired.get a
  tokens : ∀ a, s.advisory (.identity a) ≠ some t → ∀ i r', s'.db.tokens.get i = some r' →
    r'.assetID = a → ∃ r, s.db.tokens.get i = some r ∧ r.assetID = a ∧
      (r' = r ∨ r'.status = .revoked)
  events : ∃ evs, s'.log = s.log ++ evs ∧
    (∀ ev ∈ evs, ∀ a, ev.asset = some a → s.advisory (.identity a) = some t) ∧
    (∀ ev ∈ evs, ∀ e, ev.uses e = true → s.rows (.enrollment e) = some t) ∧
    ∀ i, .heartbeat i ∈ evs → ∃ r, s.db.tokens.get i = some r ∧ r.status = .active
  fleet : P → s.advisory .capacity ≠ some t →
    s'.db.enrolledOrReserved s.clock ⊆ s.db.enrolledOrReserved s.clock
  dead : ∀ i, Dead i s → Dead i s'
  inv : Inv P limit s'

def Tick (s s' : Store) : Prop := ∃ d, s' = { s with clock := s.clock + d }

end

section

variable {db : Db} {now now' : ℕ} {a : String}

theorem mem_enrolledOrReserved : a ∈ db.enrolledOrReserved now ↔ (db.identities.get a).isSome ∨
      ∃ i r, db.tokens.get i = some r ∧ r.reserves now ∧ r.assetID = a := by
  simp only [Db.enrolledOrReserved, toFinset_append, Finset.mem_union, List.mem_toFinset,
    Rows.mem_select, mem_filterMap, map_eq_some_iff]
  constructor
  · rintro (⟨m, hm, -⟩ | ⟨i, ⟨r, hr, hres⟩, r', hr', rfl⟩)
    · exact .inl (by simp [hm])
    · rw [hr] at hr'
      cases hr'
      exact .inr ⟨i, r, hr, hres, rfl⟩
  · rintro (hm | ⟨i, r, hr, hres, rfl⟩)
    · obtain ⟨m, hm⟩ := isSome_iff_exists.1 hm
      exact .inl ⟨m, hm, trivial⟩
    · exact .inr ⟨i, ⟨r, hr, hres⟩, r, hr, rfl⟩

theorem reserves_mono {r : AgentToken} (h : r.reserves now') (hle : now ≤ now') :
    r.reserves now := by
  simp only [AgentToken.reserves, Bool.and_eq_true, decide_eq_true_eq] at h ⊢
  exact ⟨h.1, by omega⟩

theorem enrolledOrReserved_mono (hle : now ≤ now') :
    db.enrolledOrReserved now' ⊆ db.enrolledOrReserved now := by
  intro a ha
  rw [mem_enrolledOrReserved] at ha ⊢
  rcases ha with ha | ⟨i, r, hr, hres, hasset⟩
  · exact .inl ha
  · exact .inr ⟨i, r, hr, reserves_mono hres hle, hasset⟩

end

variable {rows : RowKey → Option ℕ} {adv : Lock → Option ℕ}

section

variable {P : Prop} {limit t : ℕ} {s s' : Store}

abbrev Others (P : Prop) (limit t : ℕ) : Store → Store → Prop :=
  Rely (Inv P limit) Tick (Guar P limit) t

theorem Hand.kept {t u : ℕ} {o o' : Option ℕ} (h : Hand u o o') (hne : u ≠ t) (ho : o = some t) :
    o' = some t := by
  subst ho
  rcases h with h | ⟨hfree, -⟩
  · exact h
  rcases hfree with h | h
  · cases h
  · cases h
    exact absurd rfl hne

theorem owned_ne {o : Option ℕ} {t u : ℕ} (hne : u ≠ t) (ho : o = some t) : o ≠ some u := by
  rw [ho]
  exact fun h => hne (some.inj h).symm

/-- What a transaction still knows at its next statement: nobody else has touched what it has
locked, and its own statements before the commit only lock more. -/
structure Quiet (P : Prop) (t : ℕ) (s s' : Store) : Prop where
  advisory : ∀ l, s.advisory l = some t → s'.advisory l = some t
  rows : ∀ k, s.rows k = some t → s'.rows k = some t
  clock : s.clock ≤ s'.clock
  nextID : s.nextID ≤ s'.nextID
  token : ∀ i, s.rows (.token i) = some t → s'.db.tokens.get i = s.db.tokens.get i
  enrollment : ∀ i, s.rows (.enrollment i) = some t →
    s'.db.enrollments.get i = s.db.enrollments.get i
  identity : ∀ a, s.advisory (.identity a) = some t →
    s'.db.assets.get a = s.db.assets.get a ∧ s'.db.identities.get a = s.db.identities.get a ∧
      s'.db.retired.get a = s.db.retired.get a
  tokens : ∀ a, s.advisory (.identity a) = some t → ∀ i r', s'.db.tokens.get i = some r' →
    r'.assetID = a → ∃ r, s.db.tokens.get i = some r ∧ r.assetID = a ∧
      (r' = r ∨ r'.status = .revoked)
  events : ∀ a, s.advisory (.identity a) = some t → commitsOf a s'.log = commitsOf a s.log
  uses : ∀ e, s.rows (.enrollment e) = some t →
    s'.log.countP (Event.uses e) = s.log.countP (Event.uses e)
  fleet : P → s.advisory .capacity = some t →
    s'.db.enrolledOrReserved s'.clock ⊆ s.db.enrolledOrReserved s.clock

theorem Quiet.refl (s : Store) : Quiet P t s s where
  advisory := fun _ h => h
  rows := fun _ h => h
  clock := le_rfl
  nextID := le_rfl
  token := fun _ _ => rfl
  enrollment := fun _ _ => rfl
  identity := fun _ _ => ⟨rfl, rfl, rfl⟩
  tokens := fun _ _ _ r' hr' hasset => ⟨r', hr', hasset, .inl rfl⟩
  events := fun _ _ => rfl
  uses := fun _ _ => rfl
  fleet := fun _ _ => Finset.Subset.refl _

theorem Quiet.trans {s₁ s₂ s₃ : Store} (h : Quiet P t s₁ s₂) (h' : Quiet P t s₂ s₃) :
    Quiet P t s₁ s₃ where
  advisory := fun l hl => h'.advisory l (h.advisory l hl)
  rows := fun k hk => h'.rows k (h.rows k hk)
  clock := h.clock.trans h'.clock
  nextID := h.nextID.trans h'.nextID
  token := fun i hi => (h'.token i (h.rows _ hi)).trans (h.token i hi)
  enrollment := fun i hi => (h'.enrollment i (h.rows _ hi)).trans (h.enrollment i hi)
  identity := by
    intro a ha
    obtain ⟨hasset, hid, hret⟩ := h.identity a ha
    obtain ⟨hasset', hid', hret'⟩ := h'.identity a (h.advisory _ ha)
    exact ⟨hasset'.trans hasset, hid'.trans hid, hret'.trans hret⟩
  tokens := by
    intro a ha i r' hr' hasset
    obtain ⟨x, hx, hxa, hstep'⟩ := h'.tokens a (h.advisory _ ha) i r' hr' hasset
    obtain ⟨r, hr, hra, hstep⟩ := h.tokens a ha i x hx hxa
    refine ⟨r, hr, hra, ?_⟩
    rcases hstep' with rfl | hrev
    · exact hstep
    · exact .inr hrev
  events := fun a ha => (h'.events a (h.advisory _ ha)).trans (h.events a ha)
  uses := fun e he => (h'.uses e (h.rows _ he)).trans (h.uses e he)
  fleet := fun hP hcap => (h'.fleet hP (h.advisory _ hcap)).trans (h.fleet hP hcap)

theorem quiet_locks {n : ℕ} (hadv : ∀ l, s.advisory l = some t → adv l = some t)
    (hrows : ∀ k, s.rows k = some t → rows k = some t) (hn : s.nextID ≤ n) :
    Quiet P t s { s with advisory := adv, rows := rows, nextID := n } :=
  { Quiet.refl (P := P) (t := t) s with advisory := hadv, rows := hrows, nextID := hn }

theorem quiet_tick (d : ℕ) : Quiet P t s { s with clock := s.clock + d } :=
  { Quiet.refl (P := P) (t := t) s with
    clock := Nat.le_add_right _ _
    fleet := fun _ _ => enrolledOrReserved_mono (Nat.le_add_right _ _) }

theorem quiet_other {u : ℕ} (hne : u ≠ t) (hG : Guar P limit u s s') : Quiet P t s s' where
  advisory := fun l hl => (hG.advisory l).kept hne hl
  rows := fun k hk => (hG.rows k).kept hne hk
  clock := hG.clock.ge
  nextID := hG.nextID
  token := fun i hi => hG.lockedToken i (by simp [hi]) (owned_ne hne hi)
  enrollment := fun i hi => hG.lockedEnrollment i (by simp [hi]) (owned_ne hne hi)
  identity := fun a ha => hG.identity a (owned_ne hne ha)
  tokens := fun a ha => hG.tokens a (owned_ne hne ha)
  events := by
    intro a ha
    obtain ⟨evs, hlog, howned, -⟩ := hG.events
    rw [hlog]
    exact commitsOf_append_other _ fun ev hev hasset => owned_ne hne ha (howned ev hev a hasset)
  uses := by
    intro e he
    obtain ⟨evs, hlog, -, huses, -⟩ := hG.events
    have hzero : evs.countP (Event.uses e) = 0 :=
      countP_eq_zero.2 fun ev hev hu => owned_ne hne he (huses ev hev e hu)
    rw [hlog, countP_append, hzero, Nat.add_zero]
  fleet := by
    intro hP hcap
    rw [hG.clock]
    exact hG.fleet hP (owned_ne hne hcap)

theorem Quiet.event (hq : Quiet P t s s') {a : String} (ha : s.advisory (.identity a) = some t)
    (hev : ev ∈ s'.log) (hasset : ev.asset = some a) : ev ∈ s.log := by
  have hmem := mem_commitsOf.2 ⟨hev, hasset⟩
  rw [hq.events a ha] at hmem
  exact (mem_commitsOf.1 hmem).1

theorem Others.quiet (h : Others P limit t s s') : Quiet P t s s' := by
  obtain ⟨-, -, ⟨d, rfl⟩ | ⟨u, hne, hG⟩⟩ := h
  · exact quiet_tick d
  · exact quiet_other hne hG

theorem hand_finish (t : ℕ) (o : Option ℕ) : Hand t o (if o = some t then none else o) := by
  split_ifs with h
  · exact .inr ⟨.inr h, .inl rfl⟩
  · exact .inl rfl

theorem Hand.refl (t : ℕ) (o : Option ℕ) : Hand t o o := .inl rfl

variable (h : Inv P limit s)
include h

theorem Guar.locks {n : ℕ}
    (hadv : ∀ l, Hand t (s.advisory l) (adv l)) (hrows : ∀ k, Hand t (s.rows k) (rows k))
    (hn : s.nextID ≤ n) (hids : ∀ k, (rows k).isSome → k.id < n)
    (hdead : ∀ i, s.db.tokens.get i = none → i < s.nextID → s.rows (.token i) = none →
      rows (.token i) = none) :
    Guar P limit t s { s with advisory := adv, rows := rows, nextID := n } where
  advisory := hadv
  rows := hrows
  clock := rfl
  nextID := hn
  lockedToken := fun _ _ _ => rfl
  lockedEnrollment := fun _ _ _ => rfl
  identity := fun _ _ => ⟨rfl, rfl, rfl⟩
  tokens := fun _ _ _ r' hr' hasset => ⟨r', hr', hasset, .inl rfl⟩
  events := ⟨[], by simp, by simp, by simp, by simp⟩
  fleet := fun _ _ => Finset.Subset.refl _
  dead := by
    intro i hi
    rcases hi with hrev | ⟨hnone, hlt, hrow⟩
    · exact .inl hrev
    · exact .inr ⟨hnone, Nat.lt_of_lt_of_le hlt hn, hdead i hnone hlt hrow⟩
  inv := by
    have htokens : TokensInv s.db.tokens n :=
      ⟨h.tokens.unique, fun i hi => Nat.lt_of_lt_of_le (h.tokens.ids i hi) hn⟩
    have henrollments : EnrollmentsInv s.db.enrollments s.log n := by
      refine ⟨fun i hi => Nat.lt_of_lt_of_le (h.enrollments.ids i hi) hn,
        h.enrollments.counted, fun a token rotatedAt hmem => ?_⟩
      obtain ⟨hlt, hrest⟩ := h.enrollments.used a token rotatedAt hmem
      exact ⟨Nat.lt_of_lt_of_le hlt hn, hrest⟩
    exact { h with tokens := htokens, enrollments := henrollments, locked := hids }

theorem Guar.refl : Guar P limit t s s :=
  locks h (fun _ => .refl _ _) (fun _ => .refl _ _) (le_rfl) h.locked fun _ _ _ hrow => hrow

theorem Guar.lock {l : Lock}
    (hl : s.advisory l = none ∨ s.advisory l = some t) :
    Guar P limit t s { s with advisory := Function.update s.advisory l (some t) } := by
  refine locks h (fun l' => ?_) (fun _ => .refl _ _) (le_rfl) h.locked fun _ _ _ hrow => hrow
  rw [Function.update_apply]
  split_ifs with heq
  · subst heq
    exact .inr ⟨hl, .inr rfl⟩
  · exact .refl _ _

omit h in
theorem Store.free_iff {k : RowKey} : s.free t k = true ↔ s.rows k = none ∨ s.rows k = some t := by
  simp [Store.free]

theorem Guar.take {ks : List RowKey} {n : ℕ} (hn : s.nextID ≤ n)
    (hfree : ∀ k ∈ ks, s.free t k) (hids : ∀ k ∈ ks, k.id < n)
    (hrow : ∀ i, .token i ∈ ks → (s.db.tokens.get i).isSome ∨ s.nextID ≤ i) :
    Guar P limit t s { s.take t ks with nextID := n } := by
  refine locks h (fun _ => .refl _ _) (fun k => ?_) hn (fun k hk => ?_) fun i hnone hlt hr => ?_
  · simp only [Store.take]
    split_ifs with hmem
    · exact .inr ⟨Store.free_iff.1 (hfree k hmem), .inr rfl⟩
    · exact .refl _ _
  · simp only [Store.take] at hk
    split_ifs at hk with hmem
    · exact hids k hmem
    · exact Nat.lt_of_lt_of_le (h.locked k hk) hn
  · simp only [Store.take]
    rw [if_neg, hr]
    intro hmem
    rcases hrow i hmem with hsome | hle
    · rw [hnone] at hsome
      cases hsome
    · omega

theorem Inv.finish (t : ℕ) : Inv P limit (finish t s) := by
  refine { h with locked := fun k hk => ?_ }
  simp only [AgentEnrollment.finish] at hk
  split_ifs at hk
  · cases hk
  · exact h.locked k hk

omit h

/-- The changes that a statement or a commit makes to the rows of the transaction. -/
structure Changed (t : ℕ) (s : Store) (db : Db) (evs : List Event) : Prop where
  token : ∀ i, s.rows (.token i) ≠ none → s.rows (.token i) ≠ some t →
    db.tokens.get i = s.db.tokens.get i
  absent : ∀ i, s.rows (.token i) = none → s.db.tokens.get i = none → db.tokens.get i = none
  enrollment : ∀ i, s.rows (.enrollment i) ≠ none → s.rows (.enrollment i) ≠ some t →
    db.enrollments.get i = s.db.enrollments.get i
  identity : ∀ a, s.advisory (.identity a) ≠ some t → db.assets.get a = s.db.assets.get a ∧
    db.identities.get a = s.db.identities.get a ∧ db.retired.get a = s.db.retired.get a
  tokens : ∀ i r', db.tokens.get i = some r' → s.advisory (.identity r'.assetID) ≠ some t →
    ∃ r, s.db.tokens.get i = some r ∧ r.assetID = r'.assetID ∧ (r' = r ∨ r'.status = .revoked)
  events : ∀ ev ∈ evs, ∀ a, ev.asset = some a → s.advisory (.identity a) = some t
  uses : ∀ ev ∈ evs, ∀ e, ev.uses e = true → s.rows (.enrollment e) = some t
  heartbeats : ∀ i, .heartbeat i ∈ evs → ∃ r, s.db.tokens.get i = some r ∧ r.status = .active
  dead : ∀ i r r', s.db.tokens.get i = some r → r.status = .revoked → db.tokens.get i = some r' →
    r'.status = .revoked

theorem Guar.change (h : Inv P limit s) {db : Db} (hc : Changed t s db evs)
    (hadv : ∀ l, Hand t (s.advisory l) (adv l)) (hrows : ∀ k, Hand t (s.rows k) (rows k))
    (hfree : ∀ k, s.rows k = none → rows k = none)
    (hgone : ∀ i, db.tokens.get i = none → s.rows (.token i) = some t →
      (s.db.tokens.get i).isSome → rows (.token i) = none)
    (hinv : Inv P limit { s with db := db, log := s.log ++ evs, advisory := adv, rows := rows })
    (hfleet : P → s.advisory .capacity ≠ some t →
      db.enrolledOrReserved s.clock ⊆ s.db.enrolledOrReserved s.clock) : Guar P limit t s
      { s with db := db, log := s.log ++ evs, advisory := adv, rows := rows } where
  advisory := hadv
  rows := hrows
  clock := rfl
  nextID := le_rfl
  lockedToken := hc.token
  lockedEnrollment := hc.enrollment
  identity := hc.identity
  tokens := by
    intro a ha i r' hr' hasset
    subst hasset
    exact hc.tokens i r' hr' ha
  events := ⟨evs, rfl, hc.events, hc.uses, hc.heartbeats⟩
  fleet := hfleet
  dead := by
    intro i hi
    rcases hi with ⟨r, hr, hrev⟩ | ⟨hnone, hlt, hrow⟩
    · rcases hr' : db.tokens.get i with _ | r'
      case some => exact .inl ⟨r', hr', hc.dead i r r' hr hrev hr'⟩
      refine .inr ⟨hr', h.tokens.ids i (by simp [hr]), ?_⟩
      by_cases hrow : s.rows (.token i) = none
      · exact hfree _ hrow
      by_cases hown : s.rows (.token i) = some t
      · exact hgone i hr' hown (by simp [hr])
      · rw [hc.token i hrow hown, hr] at hr'
        cases hr'
    · exact .inr ⟨hc.absent i hrow hnone, hlt, hfree _ hrow⟩
  inv := hinv

theorem Guar.commit (h : Inv P limit s) {db : Db} (hc : Changed t s db evs)
    (hinv : Inv P limit { s with db := db, log := s.log ++ evs })
    (hfleet : P → s.advisory .capacity ≠ some t →
      db.enrolledOrReserved s.clock ⊆ s.db.enrolledOrReserved s.clock) :
    Guar P limit t s (finish t { s with db := db, log := s.log ++ evs }) := by
  refine change h hc (fun _ => hand_finish t _) (fun _ => hand_finish t _)
    (fun k hk => ?_) (fun i _ hown _ => ?_) (hinv.finish t) hfleet
  · simp [hk]
  · simp [hown]

theorem changed_refl (t : ℕ) (s : Store) : Changed t s s.db [] where
  token := fun _ _ _ => rfl
  absent := fun _ _ h => h
  enrollment := fun _ _ _ => rfl
  identity := fun _ _ => ⟨rfl, rfl, rfl⟩
  tokens := fun _ r' hr _ => ⟨r', hr, rfl, .inl rfl⟩
  events := by simp
  uses := by simp
  heartbeats := by simp
  dead := by
    intro i r r' hr hrev hr'
    rw [hr] at hr'
    cases hr'
    exact hrev

theorem Guar.finish (h : Inv P limit s) : Guar P limit t s (finish t s) := by
  have hinv : Inv P limit { s with db := s.db, log := s.log ++ [] } := by simpa using h
  simpa using commit h (changed_refl t s) hinv fun _ _ => Finset.Subset.refl _

end

end LabTether.AgentEnrollment
