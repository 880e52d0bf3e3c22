import LabTether.StreamGate

/-!
What a removal leaves behind. Every call of a task moves the registry by `Evolves`: a closed
owner stays closed and takes no connection, and what is registered anew is registered under no
deleted credential. The last holds as long as a request registers only while its credentials
exist; nothing in the hub checks that. Under it the sweep of a removal misses nothing, and what
it has closed stays closed.
-/
namespace LabTether.StreamGate

open SignIn Pool Pool.Process Transition List Option

section

/-- The owner is closed, and so is its connection unless its request is cleaning up. -/
def Owner.Shut (closedConns : List ℕ) (o : Owner) : Prop :=
  o.closed = true ∧ (o.stage = .serving → ∀ c, o.conn = some c → c ∈ closedConns)

/-- The owners under the key that are not shut are in the list. -/
def Shared.Left (s : Shared) (k : PrincipalKey) (owners : List ℕ) : Prop :=
  ∀ i o, s.owners[i]? = some o → k ∈ o.principals → i ∈ owners ∨ o.Shut s.closedConns

/-- The registered event sockets under the key are in the list. -/
def Shared.Joined (s : Shared) (k : PrincipalKey) (clients : List ℕ) : Prop :=
  ∀ j c, s.clients[j]? = some c → k ∈ c.principals → c.registered = true → j ∈ clients

def Shared.Swept (s : Shared) (k : PrincipalKey) : Prop := s.Left k [] ∧ s.Joined k []

/-- What the own request of an owner or socket keeps to. -/
structure Shared.Tidy (s : Shared) : Prop where
  closed : ∀ (i : ℕ) (o : Owner), s.owners[i]? = some o → o.stage ≠ .serving → o.closed = true
  done : ∀ (i : ℕ) (o : Owner), s.owners[i]? = some o → o.stage = .done →
    ∀ c, o.conn = some c → c ∈ s.closedConns
  unregistered : ∀ (j : ℕ) (c : Client), s.clients[j]? = some c → c.registered = false →
    c.conn ∈ s.closedConns

structure Inv (s : Shared) : Prop where
  tidy : s.Tidy
  finished : ∀ k ∈ s.finished, k ∈ s.deleted ∧ s.Swept k

structure Owner.Turns (o o' : Owner) : Prop where
  principals : o'.principals = o.principals
  closed : o.closed = true → o'.closed = true ∧ o'.conn = o.conn
  serving : o'.stage = .serving → o.stage = .serving

structure Evolves (s s' : Shared) : Prop where
  owners : ∀ (i : ℕ) (o : Owner), s.owners[i]? = some o → ∃ o', s'.owners[i]? = some o' ∧ o.Turns o'
  opened : ∀ (i : ℕ) (o : Owner), s'.owners[i]? = some o → s.owners[i]? = none →
    ∀ k ∈ o.principals, k ∉ s.deleted
  clients : ∀ (j : ℕ) (c : Client), s.clients[j]? = some c → ∃ c', s'.clients[j]? = some c' ∧
    c'.principals = c.principals ∧ (c'.registered = true → c.registered = true)
  joined : ∀ (j : ℕ) (c : Client), s'.clients[j]? = some c → s.clients[j]? = none →
    ∀ k ∈ c.principals, k ∉ s.deleted
  conns : s.closedConns ⊆ s'.closedConns
  deleted : s.deleted ⊆ s'.deleted
  finished : ∀ k ∈ s'.finished, k ∈ s.finished ∨ (k ∈ s.deleted ∧ s.Swept k)
  tidy : s'.Tidy

variable {s s' : Shared} {k : PrincipalKey} {i j : ℕ} {conn : Option ℕ}

theorem Owner.Turns.refl (o : Owner) : o.Turns o := ⟨rfl, fun h => ⟨h, rfl⟩, fun h => h⟩

theorem Evolves.left (h : Evolves s s') (hk : k ∈ s.deleted) {owners : List ℕ}
    (hleft : s.Left k owners) : s'.Left k owners := by
  intro i o' ho' hmem
  rcases ho : s.owners[i]? with _ | o
  · exact absurd hk (h.opened i o' ho' ho k hmem)
  obtain ⟨o'', ho'', hturn⟩ := h.owners i o ho
  rw [ho', some.injEq] at ho''
  subst ho''
  refine (hleft i o ho (hturn.principals ▸ hmem)).imp_right fun hshut => ?_
  obtain ⟨hclosed, hconn⟩ := hturn.closed hshut.1
  refine ⟨hclosed, fun hserving c hc => h.conns ?_⟩
  exact hshut.2 (hturn.serving hserving) c (hconn ▸ hc)

theorem Evolves.joined_within (h : Evolves s s') (hk : k ∈ s.deleted) {clients : List ℕ}
    (hjoined : s.Joined k clients) : s'.Joined k clients := by
  intro j c' hc' hmem hregistered
  rcases hc : s.clients[j]? with _ | c
  · exact absurd hk (h.joined j c' hc' hc k hmem)
  obtain ⟨c'', hc'', hprincipals, hback⟩ := h.clients j c hc
  rw [hc', some.injEq] at hc''
  subst hc''
  exact hjoined j c hc (hprincipals ▸ hmem) (hback hregistered)

theorem Evolves.swept (h : Evolves s s') (hk : k ∈ s.deleted) (hswept : s.Swept k) : s'.Swept k :=
  ⟨h.left hk hswept.1, h.joined_within hk hswept.2⟩

theorem Evolves.inv (h : Evolves s s') (hinv : Inv s) : Inv s' := by
  refine ⟨h.tidy, fun k hk => ?_⟩
  have hold : k ∈ s.deleted ∧ s.Swept k := (h.finished k hk).elim (hinv.finished k) id
  exact ⟨h.deleted hold.1, h.swept hold.1 hold.2⟩

theorem Inv.evolves_same (h : Inv s) (howners : s'.owners = s.owners)
    (hclients : s'.clients = s.clients) (hconns : s'.closedConns = s.closedConns)
    (hdeleted : s.deleted ⊆ s'.deleted)
    (hfinished : ∀ k ∈ s'.finished, k ∈ s.finished ∨ (k ∈ s.deleted ∧ s.Swept k)) :
    Evolves s s' where
  owners i o ho := ⟨o, by rw [howners, ho], .refl o⟩
  opened i o ho hnone := by rw [howners, hnone] at ho; cases ho
  clients j c hc := ⟨c, by rw [hclients, hc], rfl, fun h => h⟩
  joined j c hc hnone := by rw [hclients, hnone] at hc; cases hc
  conns := by rw [hconns]; exact fun _ h => h
  deleted := hdeleted
  finished := hfinished
  tidy := by
    refine ⟨?_, ?_, ?_⟩
    · rw [howners]
      exact h.tidy.closed
    · rw [howners, hconns]
      exact h.tidy.done
    · rw [hclients, hconns]
      exact h.tidy.unregistered

theorem Inv.evolves_refl (h : Inv s) : Evolves s s :=
  h.evolves_same rfl rfl rfl (fun _ h => h) fun _ h => .inl h

theorem getElem?_setOwner {f : Owner → Owner} {i' : ℕ} :
    (s.setOwner i f).owners[i']? = if i = i' then s.owners[i']?.map f else s.owners[i']? := by
  simp only [Shared.setOwner, getElem?_modify]
  split_ifs <;> simp

theorem mem_closeConn {c : ℕ} :
    c ∈ (s.closeConn conn).closedConns ↔ conn = some c ∨ c ∈ s.closedConns := by
  simp [Shared.closeConn, mem_toList]

theorem Inv.evolves_owner (h : Inv s) (conn : Option ℕ) (f : Owner → Owner) (hturns : ∀ o : Owner, o.Turns (f o))
    (hclosed : ∀ o, s.owners[i]? = some o → (f o).stage ≠ .serving → (f o).closed = true)
    (hdone : ∀ o, s.owners[i]? = some o → (f o).stage = .done → ∀ c, (f o).conn = some c →
      conn = some c ∨ c ∈ s.closedConns) : Evolves s ((s.closeConn conn).setOwner i f) :=
  { h.evolves_refl with
    owners i' o ho := by
      rw [getElem?_setOwner]
      split_ifs with hi
      · exact ⟨f o, by simp [Shared.closeConn, ho], hturns o⟩
      · exact ⟨o, ho, .refl o⟩
    opened i' o ho hnone := by
      rw [getElem?_setOwner] at ho
      split_ifs at ho
      all_goals simp [Shared.closeConn, hnone] at ho
    conns c hc := mem_closeConn.2 (.inr hc)
    tidy := by
      refine ⟨fun i' o ho => ?_, fun i' o ho hstage c hc => mem_closeConn.2 ?_,
        fun j c hc hr => mem_closeConn.2 (.inr (h.tidy.unregistered j c hc hr))⟩
      all_goals
        rw [getElem?_setOwner] at ho
        split_ifs at ho with hi
      · subst hi
        obtain ⟨o₀, ho₀, rfl⟩ := map_eq_some_iff.1 ho
        exact hclosed o₀ ho₀
      · exact h.tidy.closed i' o ho
      · subst hi
        obtain ⟨o₀, ho₀, rfl⟩ := map_eq_some_iff.1 ho
        exact hdone o₀ ho₀ hstage c hc
      · exact .inr (h.tidy.done i' o ho hstage c hc) }

theorem Inv.evolves_open (h : Inv s) {o : Owner} (hfresh : ∀ k ∈ o.principals, k ∉ s.deleted)
    (hserving : o.stage = .serving) : Evolves s { s with owners := s.owners ++ [o] } :=
  { h.evolves_refl with
    owners i o' ho' := ⟨o', concat_of_some ho', .refl o'⟩
    opened i o' ho' hnone := by
      rcases concat_cases ho' with hold | ⟨-, rfl⟩
      · rw [hnone] at hold
        cases hold
      · exact hfresh
    tidy := by
      refine ⟨fun i o' ho' hstage => ?_, fun i o' ho' hdone => ?_, h.tidy.unregistered⟩
      all_goals rcases concat_cases ho' with hold | ⟨-, rfl⟩
      · exact h.tidy.closed i o' hold hstage
      · exact absurd hserving hstage
      · exact h.tidy.done i o' hold hdone
      · rw [hserving] at hdone
        cases hdone }

/-- A call that changes the sockets: those that were there may only be unregistered, and new
ones are under credentials that exist. -/
theorem Inv.evolves_clients (h : Inv s) (conn : Option ℕ) {clients : List Client}
    (hkept : ∀ (j : ℕ) (c : Client), s.clients[j]? = some c → ∃ c', clients[j]? = some c' ∧
      c'.principals = c.principals ∧ (c'.registered = true → c.registered = true))
    (hnew : ∀ (j : ℕ) (c : Client), clients[j]? = some c → s.clients[j]? = none →
      ∀ k ∈ c.principals, k ∉ s.deleted)
    (htidy : ∀ (j : ℕ) (c : Client), clients[j]? = some c → c.registered = false →
      conn = some c.conn ∨ c.conn ∈ s.closedConns) :
    Evolves s { s.closeConn conn with clients := clients } :=
  { h.evolves_refl with
    clients := hkept
    joined := hnew
    conns c hc := mem_closeConn.2 (.inr hc)
    tidy := by
      refine ⟨h.tidy.closed, fun i o ho hd c hc => ?_, fun j c hc hr => ?_⟩
      · exact mem_closeConn.2 (.inr (h.tidy.done i o ho hd c hc))
      · exact mem_closeConn.2 (htidy j c hc hr) }

end

section

/-- A request registers only while none of its credentials has been deleted. -/
def Allowed : Call → Shared → Prop
  | .plain, _ => True
  | .register principals, s => ∀ k ∈ principals, k ∉ s.deleted

/-- What holds of the registry stays when the tasks go on. -/
def Keeps (P : Shared → Prop) : Prop := ∀ s s', Inv s → Evolves s s' → P s → P s'

abbrev Others (t : ℕ) : Shared → Shared → Prop := Rely Inv Evolves (fun _ => Evolves) t

abbrev Runs {α : Type} (t : ℕ) (P : Shared → Prop) (p : Program α) (Q : α → Shared → Prop) : Prop :=
  Triple Allowed (Others t) Evolves (fun s => Inv s ∧ P s) p fun a s => Inv s ∧ Q a s

variable {α β : Type} {t : ℕ} {P : Shared → Prop} {Q : α → Shared → Prop} {k : PrincipalKey}

theorem Keeps.stable (h : Keeps P) : Stable (Others t) fun s => Inv s ∧ P s := by
  rintro s s' ⟨hinv, hinv', hmove⟩ ⟨-, hP⟩
  refine ⟨hinv', ?_⟩
  rcases hmove with hE | ⟨_, -, hG⟩
  · exact h s s' hinv hE hP
  · exact h s s' hinv hG hP

theorem keeps_true : Keeps fun _ => True := fun _ _ _ _ _ => trivial

theorem Keeps.and {P' : Shared → Prop} (h : Keeps P) (h' : Keeps P') : Keeps fun s => P s ∧ P' s :=
  fun s s' hinv hE hP => ⟨h s s' hinv hE hP.1, h' s s' hinv hE hP.2⟩

theorem keeps_left (k : PrincipalKey) (owners : List ℕ) :
    Keeps fun s => k ∈ s.deleted ∧ s.Left k owners :=
  fun _ _ _ hE hP => ⟨hE.deleted hP.1, hE.left hP.1 hP.2⟩

theorem keeps_joined (k : PrincipalKey) (clients : List ℕ) :
    Keeps fun s => k ∈ s.deleted ∧ s.Joined k clients :=
  fun _ _ _ hE hP => ⟨hE.deleted hP.1, hE.joined_within hP.1 hP.2⟩

theorem runs_pure {a : α} (hQ : Keeps (Q a)) (h : ∀ s, P s → Q a s) : Runs t P (pure a) Q :=
  triple_pure hQ.stable fun s hs => ⟨hs.1, h s hs.2⟩

variable {n : Call}

theorem runs_await {f : Shared → Option (α × Shared)} (hP : Keeps P) (hQ : ∀ a, Keeps (Q a))
    (hf : ∀ s a s', Inv s → P s → Allowed n s → f s = some (a, s') → Evolves s s' ∧ Q a s') :
    Runs t P (await n f) Q := by
  refine triple_await hP.stable (fun a => (hQ a).stable) fun s a s' hs hA hfs => ?_
  obtain ⟨hE, hQ'⟩ := hf s a s' hs.1 hs.2 hA hfs
  exact ⟨hE, hE.inv hs.1, hQ'⟩

variable {f : Shared → α × Shared}

theorem runs_atomically (hP : Keeps P) (hQ : ∀ a, Keeps (Q a))
    (hf : ∀ s, Inv s → P s → Allowed n s → Evolves s (f s).2 ∧ Q (f s).1 (f s).2) :
    Runs t P (atomically n f) Q := by
  refine triple_atomically hP.stable (fun a => (hQ a).stable) fun s hs hA => ?_
  obtain ⟨hE, hQ'⟩ := hf s hs.1 hs.2 hA
  exact ⟨hE, hE.inv hs.1, hQ'⟩

theorem runs_read {f : Shared → α} (hP : Keeps P) (hQ : ∀ a, Keeps (Q a))
    (hf : ∀ s, Inv s → P s → Q (f s) s) : Runs t P (read n f) Q :=
  runs_atomically hP hQ fun s hinv hs _ => ⟨hinv.evolves_refl, hf s hinv hs⟩

variable {p : Program α}

theorem runs_bind {g : α → Program β} {Q' : β → Shared → Prop}
    (hp : Runs t P p Q) (hg : ∀ a, Runs t (Q a) (g a) Q') : Runs t P (p >>= g) Q' :=
  triple_bind hp hg

theorem runs_of_imp {P' : Shared → Prop} (himp : ∀ s, P s → P' s)
    (h : Runs t P' p Q) : Runs t P p Q :=
  fun s hs => h s ⟨hs.1, himp s hs.2⟩

/-- A task of which nothing but its guarantee is asked. -/
abbrev Lawful {α : Type} (t : ℕ) (p : Program α) : Prop := Runs t (fun _ => True) p fun _ _ => True

theorem runs_frame {F : Shared → Prop} (hF : Keeps F) (hp : Runs t P p Q) :
    Runs t (fun s => F s ∧ P s) p fun a s => F s ∧ Q a s := by
  have hG : Stable Evolves fun s => Inv s ∧ F s :=
    fun s s' hE hs => ⟨hE.inv hs.1, hF s s' hs.1 hE hs.2⟩
  intro s hs
  have h := triple_frame hF.stable hG hp s ⟨⟨hs.1, hs.2.2⟩, hs.1, hs.2.1⟩
  exact ensures_imp (fun _ _ hend => ⟨hend.1.1, hend.2.2, hend.1.2⟩) h

theorem lawful_keeps (hp : Lawful t p) (hP : Keeps P) : Runs t P p fun _ => P :=
  fun s hs => ensures_imp (fun _ _ hend => ⟨hend.1, hend.2.1⟩)
    (runs_frame hP hp s ⟨hs.1, hs.2, trivial⟩)

theorem lawful_pure (a : α) : Lawful t (pure a : Program α) := runs_pure keeps_true fun _ h => h

theorem lawful_atomically
    (hf : ∀ s, Inv s → Allowed n s → Evolves s (f s).2) : Lawful t (atomically n f) :=
  runs_atomically keeps_true (fun _ => keeps_true) fun s hinv _ hA => ⟨hf s hinv hA, trivial⟩

theorem lawful_read {f : Shared → α} : Lawful t (read n f) :=
  lawful_atomically fun _ hinv _ => hinv.evolves_refl

theorem lawful_aside (h : ∀ s, let s' := (f s).2
    s'.owners = s.owners ∧ s'.clients = s.clients ∧ s'.closedConns = s.closedConns ∧
      s.deleted ⊆ s'.deleted ∧ s'.finished = s.finished) : Lawful t (atomically n f) := by
  refine lawful_atomically fun s hinv _ => ?_
  obtain ⟨howners, hclients, hconns, hdeleted, hfinished⟩ := h s
  refine hinv.evolves_same howners hclients hconns hdeleted fun k hk => .inl ?_
  rwa [hfinished] at hk

theorem runs_forEach {f : ℕ → Program Unit} {P : List ℕ → Shared → Prop} (hP : Keeps (P []))
    (hf : ∀ i is, Runs t (P (i :: is)) (f i) fun _ => P is) (is : List ℕ) :
    Runs t (P is) (forEach f is) fun _ => P [] := by
  induction is with
  | nil => exact runs_pure hP fun _ h => h
  | cons i is ih => exact runs_bind (hf i is) fun _ => ih

end

end LabTether.StreamGate
