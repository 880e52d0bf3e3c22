import LabTether.LinkedTree

/-!
Deleting over SFTP (`internal/fileproto/sftp.go`, `limits.go`). The server holds a tree with
symbolic links; what stands in the tree changes by the calls of the delete only. A call may be
refused, or carried out with the answer lost, and the context may be over at each of its checks;
that is a list of replies, which stands for answers from its end on. A path is written as
`path.Clean` leaves it, as names from the root or from the directory of the session, so that
`path.Join` appends a name.
-/
namespace LabTether.SftpDelete

open LinkedTree List Option Tree

def maxRecursiveDeleteDepth : ℕ := 64

def maxRecursiveDeleteItems : ℤ := 20000

abbrev Files := LinkedTree.Tree String

structure Path where
  (start names : List String)

def Path.join (p : Path) (name : String) : Path := { p with names := p.names ++ [name] }

def Path.parts (p : Path) : List (LinkedTree.Part String) := p.names.map .name

inductive DeleteError
  | cancelled
  | limitExceeded
  | stat (p : Path)
  | readdir (p : Path)
  | remove (p : Path)
  | rmdir (p : Path)

inductive Reply
  | answered
  | refused
  | lost
deriving DecidableEq

structure Session where
  tree : Files
  /-- `deleteBudget.entries` -/
  entries : ℤ
  replies : List Reply

abbrev Call := ExceptT DeleteError (StateM Session)

def Session.reply (s : Session) : Reply := s.replies.head?.getD .answered

def Session.next (s : Session) : Session := { s with replies := s.replies.tail }

/-- `ctx.Err()` -/
def ctxErr : Call Unit := fun s =>
  if s.reply = .answered then (.ok (), s.next) else (.error .cancelled, s.next)

/-- A request that the server carries out where `effect` is defined. -/
def request {α : Type} (effect : Files → Option (α × Files)) (err : DeleteError) :
    Call α := fun s =>
  match s.reply, effect s.tree with
  | .answered, some (a, tree) => (.ok a, { s.next with tree })
  | .lost, some (_, tree) => (.error err, { s.next with tree })
  | _, _ => (.error err, s.next)

section

variable (links : ℕ)

def nodeOf (t : Files) (p : Path) : Option (Node String) :=
  (walk t links p.start p.parts).bind t.node

def listingOf (t : Files) (p : Path) : Option (List (String × Node String)) :=
  (walk t links p.start p.parts).bind fun l =>
    if t.node l = some .directory then some (t.children l) else none

/-- Takes the entry out that stands at the path itself, if `removable` admits it. -/
def unlinked (t : Files) (removable : Node String → Bool) (p : Path) : Option (Files) :=
  (locate t links p.start p.names).bind fun l =>
    if h : t.children l = [] then
      if (t.node l).any removable then some (t.erase l h) else none
    else none

variable (p : Path)

def stat : Call (Node String) :=
  request (fun t => (nodeOf links t p).map fun node => (node, t)) (.stat p)

def readDir : Call (List (String × Node String)) :=
  request (fun t => (listingOf links t p).map fun entries => (entries, t)) (.readdir p)

def removeFile : Call Unit :=
  request (fun t => (unlinked links t (· ≠ .directory) p).map fun t' => ((), t')) (.remove p)

def removeDirectory : Call Unit :=
  request (fun t => (unlinked links t (· = .directory) p).map fun t' => ((), t')) (.rmdir p)

/-- `Remove` of the client tries both kinds of removal. -/
def remove : Call Unit := fun s =>
  match removeFile links p s with
  | (.ok (), s') => (.ok (), s')
  | (.error _, s') =>
    match removeDirectory links p s' with
    | (.ok (), s'') => (.ok (), s'')
    | (.error _, s'') => (.error (.remove p), s'')

end

def enter (depth : ℕ) (count : ℤ) : Call Unit := fun s =>
  if depth > maxRecursiveDeleteDepth ∨ count < 0 ∨ s.entries > maxRecursiveDeleteItems - count then
    (.error .limitExceeded, s)
  else
    (.ok (), { s with entries := s.entries + count })

/-- `fuel` bounds the recursion; from `maxRecursiveDeleteDepth + 2` on it decides nothing. -/
def removeAll (links : ℕ) : ℕ → Path → ℕ → Call Unit
  | 0, _, _ => throw .limitExceeded
  | fuel + 1, dirPath, depth => do
    ctxErr
    enter depth 0
    let entries ← readDir links dirPath
    enter depth entries.length
    entries.forM fun (name, kind) => do
      ctxErr
      let fullPath := dirPath.join name
      if kind = .directory then
        removeAll links fuel fullPath (depth + 1)
      else
        remove links fullPath
    removeDirectory links dirPath

def delete (links : ℕ) (targetPath : Path) : Call Unit := do
  ctxErr
  let info ← stat links targetPath
  if info = .directory then
    modify fun s => { s with entries := 0 }
    removeAll links (maxRecursiveDeleteDepth + 2) targetPath 0
  else
    remove links targetPath

variable {err : DeleteError}

section

theorem run_bind {α β : Type} (m : Call α) (f : α → Call β) (s : Session) :
    (m >>= f) s = match m s with
      | (.ok a, s') => f a s'
      | (.error err, s') => (.error err, s') := by
  change (ExceptT.bindCont f (m s).1) (m s).2 = _
  rcases m s with ⟨(err | a), s'⟩ <;> rfl

/-- How a call ended: `J` holds of the tree in any case, `Q` of the answer and the tree if there
is an answer. -/
def Ends {α : Type} (J : Files → Prop) (Q : α → Files → Prop)
    (out : Except DeleteError α × Session) : Prop :=
  J out.2.tree ∧ ∀ a, out.1 = .ok a → Q a out.2.tree

variable {α β : Type} {J : Files → Prop} {Q : α → Files → Prop}
  {R : β → Files → Prop} {s : Session}

theorem ends_pure {a : α} (hJ : J s.tree) (hQ : Q a s.tree) : Ends J Q ((pure a : Call α) s) :=
  ⟨hJ, by rintro _ ⟨⟩; exact hQ⟩

theorem ends_throw (hJ : J s.tree) : Ends J Q ((throw err : Call α) s) := ⟨hJ, by rintro _ ⟨⟩⟩

theorem ends_bind {m : Call α} {f : α → Call β} (hm : Ends J Q (m s))
    (hf : ∀ a s', J s'.tree → Q a s'.tree → Ends J R (f a s')) : Ends J R ((m >>= f) s) := by
  obtain ⟨hJ, hQ⟩ := hm
  rw [run_bind]
  rcases hms : m s with ⟨(err | a), s'⟩ <;> rw [hms] at hJ hQ
  · exact ⟨hJ, by rintro _ ⟨⟩⟩
  · exact hf a s' hJ (hQ a rfl)

theorem Ends.imp {out : Except DeleteError α × Session} {Q' : α → Files → Prop}
    (h : Ends J Q out) (hQ : ∀ a t, J t → Q a t → Q' a t) : Ends J Q' out :=
  ⟨h.1, fun a ha => hQ a _ h.1 (h.2 a ha)⟩

theorem ends_forM {entries : List β} {f : β → Call Unit} (hJ : J s.tree)
    (hf : ∀ entry ∈ entries, ∀ s', J s'.tree → Ends J (fun _ _ => True) (f entry s')) :
    Ends J (fun _ _ => True) (entries.forM f s) := by
  induction entries generalizing s with
  | nil => exact ends_pure hJ trivial
  | cons entry entries ih =>
    refine ends_bind (hf entry mem_cons_self s hJ) ?_
    intro _ s' hJ' _
    exact ih hJ' fun e he => hf e (mem_cons_of_mem _ he)

theorem ends_ctxErr (hJ : J s.tree) : Ends J (fun _ _ => True) (ctxErr s) := by
  refine ⟨?_, fun _ _ => trivial⟩
  unfold ctxErr
  split_ifs <;> exact hJ

theorem ends_enter {depth : ℕ} {count : ℤ} (hJ : J s.tree) :
    Ends J (fun _ _ => True) (enter depth count s) := by
  refine ⟨?_, fun _ _ => trivial⟩
  unfold enter
  split_ifs <;> exact hJ

theorem ends_request {effect : Files → Option (α × Files)}
    (hJ : J s.tree) (heffect : ∀ a t, effect s.tree = some (a, t) → J t ∧ Q a t) :
    Ends J Q (request effect err s) := by
  unfold request
  split
  · next a t _ htree =>
    obtain ⟨hJt, hQ⟩ := heffect a t htree
    exact ⟨hJt, by rintro _ ⟨⟩; exact hQ⟩
  · next a t _ htree => exact ⟨(heffect a t htree).1, by rintro _ ⟨⟩⟩
  · exact ⟨hJ, by rintro _ ⟨⟩⟩

theorem ends_remove {links : ℕ} {p : Path} {Q : Unit → Files → Prop}
    (hfile : ∀ s', J s'.tree → Ends J Q (removeFile links p s'))
    (hdirectory : ∀ s', J s'.tree → Ends J Q (removeDirectory links p s'))
    (hJ : J s.tree) : Ends J Q (remove links p s) := by
  have hf := hfile s hJ
  unfold remove
  split
  · next s' heq => exact heq ▸ hf
  next err s' heq =>
  rw [heq] at hf
  have hd := hdirectory s' hf.1
  split
  · next s'' heq' => exact heq' ▸ hd
  · next err' s'' heq' =>
    rw [heq'] at hd
    exact ⟨hd.1, by rintro _ ⟨⟩⟩

end

section

/-- Nothing was added or changed, and what is missing is `allowed` to. -/
def Inside (t : Files) (allowed : List String → Prop) (t' : Files) : Prop :=
  t'.Shrunk t ∧ ∀ l, t'.node l ≠ t.node l → allowed l

variable {links : ℕ} {t t' : Files} {allowed : List String → Prop} {p : Path} {s : Session}

theorem inside_refl : Inside t allowed t := ⟨fun _ _ h => h, fun _ h => absurd rfl h⟩

variable {removable : Node String → Bool} {t'' : Files}

theorem unlinked_eq_some (h : unlinked links t' removable p = some t'') :
    ∃ l node, locate t' links p.start p.names = some l ∧ t'.node l = some node ∧
      removable node = true ∧ t'.children l = [] ∧
      ∀ m, t''.node m = if m = l then none else t'.node m := by
  obtain ⟨l, hl, h⟩ := bind_eq_some_iff.1 h
  split_ifs at h with hchildren hnode
  obtain rfl := some.inj h
  cases hat : t'.node l with
  | none =>
    rw [hat] at hnode
    cases hnode
  | some node =>
    rw [hat] at hnode
    exact ⟨l, node, hl, hat, hnode, hchildren, node_erase t' (locate_ne_nil hl) hchildren⟩

/-- The entry at a path and everything below it is gone. -/
def Gone (links : ℕ) (t : Files) (p : Path) (t' : Files) : Prop :=
  ∃ l, locate t links p.start p.names = some l ∧ ∀ m, l <+: m → t'.node m = none

theorem Inside.unlinked (hin : Inside t allowed t')
    (hlocate : ∀ l, locate t links p.start p.names = some l → allowed l)
    (h : unlinked links t' removable p = some t'') : Inside t allowed t'' ∧ Gone links t p t'' := by
  obtain ⟨l, node, hl, hnode, -, hchildren, hafter⟩ := unlinked_eq_some h
  have hl₀ := locate_of_shrunk hin.1 hl
  refine ⟨⟨?_, ?_⟩, l, hl₀, ?_⟩
  · intro m nd hm
    rw [hafter] at hm
    split_ifs at hm
    exact hin.1 m nd hm
  · intro m hm
    rw [hafter] at hm
    split_ifs at hm with heq
    · exact heq ▸ hlocate l hl₀
    · exact hin.2 m hm
  · intro m hm
    rw [hafter]
    split_ifs with heq
    · rfl
    · exact node_below_eq_none hchildren hm heq

section

variable (hin : Inside t allowed s.tree)
include hin

theorem ends_stat : Ends (Inside t allowed)
      (fun kind _ => ∃ l, Leads t links p.start p.parts l ∧ t.node l = some kind) (stat links p s)
    := by
  refine ends_request hin ?_
  intro kind t' h
  obtain ⟨node, hnode, heq⟩ := map_eq_some_iff.1 h
  obtain ⟨rfl, rfl⟩ := Prod.mk.inj heq
  obtain ⟨l, hl, hkind⟩ := bind_eq_some_iff.1 hnode
  exact ⟨hin, l, (leads_of_walk hl).of_shrunk hin.1, hin.1 _ _ hkind⟩

theorem ends_readDir : Ends (Inside t allowed)
      (fun entries _ => ∃ l, Leads t links p.start p.parts l ∧
        ∀ entry ∈ entries, t.node (l ++ [entry.1]) = some entry.2)
      (readDir links p s) := by
  refine ends_request hin ?_
  intro entries t' h
  obtain ⟨listed, hlisted, heq⟩ := map_eq_some_iff.1 h
  obtain ⟨rfl, rfl⟩ := Prod.mk.inj heq
  obtain ⟨l, hl, hlist⟩ := bind_eq_some_iff.1 hlisted
  split_ifs at hlist
  obtain rfl := some.inj hlist
  refine ⟨hin, l, (leads_of_walk hl).of_shrunk hin.1, ?_⟩
  rintro ⟨n, kind⟩ hentry
  exact hin.1 _ _ (mem_children_iff.1 hentry)

variable (hlocate : ∀ l, locate t links p.start p.names = some l → allowed l)
include hlocate

theorem ends_removeFile :
    Ends (Inside t allowed) (fun _ => Gone links t p) (removeFile links p s) := by
  refine ends_request hin ?_
  intro _ t' h
  obtain ⟨t'', hunlinked, heq⟩ := map_eq_some_iff.1 h
  obtain ⟨-, rfl⟩ := Prod.mk.inj heq
  exact hin.unlinked hlocate hunlinked

theorem ends_removeDirectory : Ends (Inside t allowed) (fun _ t' => Gone links t p t' ∧
        ∃ l, locate t links p.start p.names = some l ∧ t.node l = some .directory)
      (removeDirectory links p s) := by
  refine ends_request hin ?_
  intro _ t' h
  obtain ⟨t'', hunlinked, heq⟩ := map_eq_some_iff.1 h
  obtain ⟨-, rfl⟩ := Prod.mk.inj heq
  obtain ⟨hin', hgone⟩ := hin.unlinked hlocate hunlinked
  obtain ⟨l, node, hl, hnode, hkind, -⟩ := unlinked_eq_some hunlinked
  rw [of_decide_eq_true hkind] at hnode
  exact ⟨hin', hgone, l, locate_of_shrunk hin.1 hl, hin.1 _ _ hnode⟩

theorem ends_removeEntry : Ends (Inside t allowed) (fun _ => Gone links t p) (remove links p s) :=
  ends_remove (fun _ hin' => ends_removeFile hin' hlocate)
    (fun _ hin' => (ends_removeDirectory hin' hlocate).imp fun _ _ _ hQ => hQ.1) hin

end

variable {n : String} {l m : List String}

theorem locate_join (hl : Leads t links p.start p.parts l)
    (h : locate t links (p.join n).start (p.join n).names = some m) : m = l ++ [n] := by
  obtain ⟨front, n', d, hnames, hd, rfl⟩ := locate_eq_some_iff.1 h
  obtain ⟨rfl, hn⟩ := append_inj' hnames rfl
  obtain rfl : n = n' := by simpa using hn
  rw [hl.unique hd]

theorem leads_join (hl : Leads t links p.start p.parts l) (hn : t.node (l ++ [n]) = some .directory)
    (h : Leads t links (p.join n).start (p.join n).parts m) : m = l ++ [n] := by
  have hparts : (p.join n).parts = p.parts ++ [.name n] := map_append
  rw [hparts] at h
  exact h.unique (hl.snoc (.inl hn))

/-- Whatever fails, a recursive removal takes away only what is named below the directory that
its path leads to, and an answer without an error means that the directory is gone. -/
theorem ends_removeAll (hallowed : ∀ l n, allowed l → allowed (l ++ [n])) (fuel depth : ℕ)
    (hin : Inside t allowed s.tree)
    (hlocate : ∀ l, locate t links p.start p.names = some l → allowed l)
    (hleads : ∀ l, Leads t links p.start p.parts l → allowed l) : Ends (Inside t allowed)
      (fun _ t' => Gone links t p t' ∧
        ∃ l, locate t links p.start p.names = some l ∧ t.node l = some .directory)
      (removeAll links fuel p depth s) := by
  induction fuel generalizing p depth s with
  | zero => exact ends_throw hin
  | succ fuel ih =>
    refine ends_bind (ends_ctxErr hin) fun _ s₁ hin₁ _ => ?_
    refine ends_bind (ends_enter hin₁) fun _ s₂ hin₂ _ => ?_
    refine ends_bind (ends_readDir hin₂) fun entries s₃ hin₃ hentries => ?_
    obtain ⟨l, hl, hentries⟩ := hentries
    refine ends_bind (ends_enter hin₃) fun _ s₄ hin₄ _ => ?_
    refine ends_bind (ends_forM hin₄ ?_) fun _ s₅ hin₅ _ => ends_removeDirectory hin₅ hlocate
    rintro ⟨n, kind⟩ hentry s' hin'
    have hkind := hentries _ hentry
    have hlocate' : ∀ m, locate t links (p.join n).start (p.join n).names = some m → allowed m :=
      fun m hm => locate_join hl hm ▸ hallowed l n (hleads l hl)
    refine ends_bind (ends_ctxErr hin') fun _ s'' hin'' _ => ?_
    split_ifs with hdir
    · have hleads' : ∀ m, Leads t links (p.join n).start (p.join n).parts m → allowed m :=
        fun m hm => leads_join hl (hdir ▸ hkind) hm ▸ hallowed l n (hleads l hl)
      exact (ih _ hin'' hlocate' hleads').imp fun _ _ _ _ => trivial
    · exact (ends_removeEntry hin'' hlocate').imp fun _ _ _ _ => trivial

end

theorem enter_of_lt {depth : ℕ} (h : maxRecursiveDeleteDepth < depth) (count : ℤ) (s : Session) :
    enter depth count s = (.error .limitExceeded, s) :=
  if_pos (.inl h)

theorem removeAll_fuel (links : ℕ) {fuel depth : ℕ} (p : Path) (hfuel : 0 < fuel)
    (hdepth : maxRecursiveDeleteDepth + 2 ≤ fuel + depth) :
    removeAll links (fuel + 1) p depth = removeAll links fuel p depth := by
  induction fuel generalizing p depth with
  | zero => exact absurd hfuel (lt_irrefl 0)
  | succ fuel ih =>
    funext s
    by_cases hdeep : maxRecursiveDeleteDepth < depth
    · -- no call gets past the first look at the budget
      simp only [removeAll, run_bind, enter_of_lt hdeep]
    have hrest : ∀ q, removeAll links (fuel + 1) q (depth + 1) =
        removeAll links fuel q (depth + 1) := by
      intro q
      exact ih q (by omega) (by omega)
    rw [removeAll, removeAll]
    simp only [hrest]

variable (links : ℕ) (t : Files) (p : Path)

/-- The location that the path names, without following a link there. -/
def rootOf : Option (List String) :=
  if p.names = [] then some p.start else locate t links p.start p.names

def Below (l : List String) : Prop := ∃ root, rootOf links t p = some root ∧ root <+: l

/-- A session in which these replies are still to come. -/
def connected (replies : List Reply) : Session := { tree := t, entries := 0, replies := replies }

/-- Only what the path names is missing after a delete, whatever the replies were, and a link
that the path names is deleted as itself. -/
structure DeletesNamedOnly : Prop where
  frame : ∀ replies l,
    (delete links p (connected t replies)).2.tree.node l ≠ t.node l → Below links t p l
  link : ∀ root absolute target, rootOf links t p = some root →
    t.node root = some (.link absolute target) →
    (delete links p (connected t [])).1 = .ok () ∧
      ∀ l, (delete links p (connected t [])).2.tree.node l = if l = root then none else t.node l

/-- Where the path names a link, the link leads to a file. -/
def LinkToFile : Prop :=
  ∀ root absolute target, rootOf links t p = some root →
    t.node root = some (.link absolute target) → nodeOf links t p = some .file

variable {links : ℕ} {t : Files} {p : Path} {l : List String}

theorem rootOf_of_locate (h : locate t links p.start p.names = some l) :
    rootOf links t p = some l := by
  obtain ⟨front, n, -, hnames, -⟩ := locate_eq_some_iff.1 h
  have hne : p.names ≠ [] := by
    rw [hnames]
    exact append_ne_nil_of_right_ne_nil _ (cons_ne_nil _ _)
  rw [rootOf, if_neg hne, h]

theorem nodeOf_of_leads {kind : Node String}
    (h : Leads t links p.start p.parts l) (hkind : t.node l = some kind) :
    nodeOf links t p = some kind := by
  rw [nodeOf, walk_of_leads h]
  exact hkind

theorem leads_cases (h : Leads t links p.start p.parts l) : rootOf links t p = some l ∨
      ∃ root absolute target, rootOf links t p = some root ∧
        t.node root = some (.link absolute target) := by
  obtain ⟨start, names⟩ := p
  rcases eq_nil_or_concat' names with rfl | ⟨front, n, rfl⟩
  · left
    cases h with
    | here _ => rfl
  have hparts : (⟨start, front ++ [n]⟩ : Path).parts = front.map .name ++ [.name n] := map_append
  rw [hparts] at h
  obtain ⟨d, hd, hlast⟩ := h.snoc_cases
  have hroot := rootOf_of_locate (locate_eq_some_iff.2 ⟨front, n, d, rfl, hd, rfl⟩)
  rcases hlast with ⟨rfl, -⟩ | ⟨absolute, target, hlink⟩
  · exact .inl hroot
  · exact .inr ⟨_, absolute, target, hroot, hlink⟩

/-- How a delete ends, for any set of locations that holds what its requests name. -/
theorem ends_delete {allowed : List String → Prop} {s : Session}
    (hallowed : ∀ l n, allowed l → allowed (l ++ [n])) (hin : Inside t allowed s.tree)
    (hlocate : ∀ l, locate t links p.start p.names = some l → allowed l)
    (hleads : ∀ l, Leads t links p.start p.parts l → t.node l = some .directory → allowed l) :
    Ends (Inside t allowed) (fun _ t' => Gone links t p t' ∧ (nodeOf links t p = some .file ∨
          ∃ l, locate t links p.start p.names = some l ∧ t.node l = some .directory))
      (delete links p s) := by
  refine ends_bind (ends_ctxErr hin) fun _ s₁ hin₁ _ => ?_
  refine ends_bind (ends_stat hin₁) fun kind s₂ hin₂ hstat => ?_
  obtain ⟨l, hl, hkind⟩ := hstat
  split_ifs with hdir
  · subst hdir
    have hleads' : ∀ m, Leads t links p.start p.parts m → allowed m :=
      fun m hm => hm.unique hl ▸ hleads l hl hkind
    refine ends_bind (Q := fun _ _ => True) ⟨hin₂, fun _ _ => trivial⟩ fun _ s₃ hin₃ _ => ?_
    exact (ends_removeAll hallowed _ _ hin₃ hlocate hleads').imp fun _ _ _ hQ => ⟨hQ.1, .inr hQ.2⟩
  · have hfile : t.node l = some .file := by
      refine hl.node.resolve_left fun hnode => hdir ?_
      exact some.inj (hkind.symm.trans hnode)
    exact (ends_removeEntry hin₂ hlocate).imp fun _ _ _ hQ => ⟨hQ, .inl (nodeOf_of_leads hl hfile)⟩

variable {replies : List Reply}

theorem delete_answer (h : (delete links p (connected t replies)).1 = .ok ()) :
    Gone links t p (delete links p (connected t replies)).2.tree ∧ (nodeOf links t p = some .file ∨
        ∃ l, locate t links p.start p.names = some l ∧ t.node l = some .directory) := by
  have hstart : Inside t (fun _ => True) (connected t replies).tree := inside_refl
  exact (ends_delete (fun _ _ _ => trivial) hstart (fun _ _ => trivial) fun _ _ _ => trivial).2 () h

/-- A delete that reports no error leaves nothing at the path. -/
theorem delete_ok (h : (delete links p (connected t replies)).1 = .ok ()) :
    ∃ root, rootOf links t p = some root ∧
      ∀ l, root <+: l → (delete links p (connected t replies)).2.tree.node l = none := by
  obtain ⟨⟨l, hl, hgone⟩, -⟩ := delete_answer h
  exact ⟨l, rootOf_of_locate hl, hgone⟩

theorem delete_frame (hlink : LinkToFile links t p) (replies : List Reply) :
    Inside t (Below links t p) (delete links p (connected t replies)).2.tree := by
  have hbelow : ∀ l n, Below links t p l → Below links t p (l ++ [n]) := by
    rintro l n ⟨root, hroot, hprefix⟩
    exact ⟨root, hroot, hprefix.trans (prefix_append l [n])⟩
  have hlocate : ∀ l, locate t links p.start p.names = some l → Below links t p l :=
    fun l hl => ⟨l, rootOf_of_locate hl, prefix_rfl⟩
  have hstart : Inside t (Below links t p) (connected t replies).tree := inside_refl
  refine (ends_delete hbelow hstart hlocate fun l hl hdir => ?_).1
  rcases leads_cases hl with hroot | ⟨root, absolute, target, hroot, hnode⟩
  · exact ⟨l, hroot, prefix_rfl⟩
  · have hfile := hlink root absolute target hroot hnode
    rw [nodeOf_of_leads hl hdir] at hfile
    cases hfile

theorem linkToFile_of_deletes (h : DeletesNamedOnly links t p) : LinkToFile links t p := by
  intro root absolute target hroot hlink
  obtain ⟨hok, -⟩ := h.link root absolute target hroot hlink
  rcases (delete_answer hok).2 with hfile | ⟨l, hl, hdir⟩
  · exact hfile
  rw [rootOf_of_locate hl] at hroot
  obtain rfl := some.inj hroot
  rw [hdir] at hlink
  cases hlink

theorem request_connected {α : Type} {effect : Files → Option (α × Files)}
    {a : α} {t' : Files} (h : effect t = some (a, t')) :
    request effect err (connected t []) = (.ok a, connected t' []) := by
  have hreply : (connected t []).reply = .answered := rfl
  have htree : effect (connected t []).tree = some (a, t') := h
  simp only [request, hreply, htree]
  rfl

theorem delete_link {root : List String} {absolute : Bool} {target : List (LinkedTree.Part String)}
    (hroot : rootOf links t p = some root) (hnode : t.node root = some (.link absolute target))
    (hfile : nodeOf links t p = some .file) : (delete links p (connected t [])).1 = .ok () ∧
      ∀ l, (delete links p (connected t [])).2.tree.node l =
        if l = root then none else t.node l := by
  have hnames : p.names ≠ [] := by
    intro hnil
    rw [rootOf, if_pos hnil] at hroot
    obtain ⟨l, hl, -⟩ := bind_eq_some_iff.1 hfile
    have hleads := leads_of_walk hl
    rw [Path.parts, hnil, some.inj hroot] at hleads
    cases hleads with
    | here hdir =>
      rw [hnode] at hdir
      cases hdir
  rw [rootOf, if_neg hnames] at hroot
  have hchildren : t.children root = [] := children_eq_nil (by rw [hnode]; nofun)
  have hunlinked : unlinked links t (· ≠ .directory) p = some (t.erase root hchildren) := by
    rw [unlinked, hroot]
    simp [hchildren, hnode]
  have hstat : stat links p (connected t []) = (.ok .file, connected t []) :=
    request_connected (by rw [hfile]; rfl)
  have hremoveFile : removeFile links p (connected t []) =
      (.ok (), connected (t.erase root hchildren) []) :=
    request_connected (by rw [hunlinked]; rfl)
  have hremove : remove links p (connected t []) =
      (.ok (), connected (t.erase root hchildren) []) := by
    rw [remove, hremoveFile]
  have hrun : delete links p (connected t []) =
      (.ok (), connected (t.erase root hchildren) []) := by
    have hctx : ctxErr (connected t []) = (.ok (), connected t []) := rfl
    simp only [delete, run_bind, hctx, hstat]
    exact hremove
  rw [hrun]
  exact ⟨rfl, node_erase t (locate_ne_nil hroot) hchildren⟩

/-- The delete keeps to the named tree if and only if the path names no link, or one that leads to
a file. -/
theorem deletes_named_only_iff (links : ℕ) (t : Files) (p : Path) :
    DeletesNamedOnly links t p ↔ LinkToFile links t p := by
  refine ⟨linkToFile_of_deletes, fun hlink => ⟨?_, ?_⟩⟩
  · intro replies l hl
    exact (delete_frame hlink replies).2 l hl
  · intro root absolute target hroot hnode
    exact delete_link hroot hnode (hlink root absolute target hroot hnode)

/-- `/backup` is a link to `/data`, where one file lies. -/
def linkedData : Files where
  entries := [(["data"], .directory), (["data", "report"], .file),
    (["backup"], .link true [.name "data"])]
  keyed := by unfold Table.Keyed; decide
  closed := by decide

theorem delete_ok_data : ∃ root, rootOf 40 linkedData ⟨[], ["data"]⟩ = some root ∧
    ∀ l, root <+: l → (delete 40 ⟨[], ["data"]⟩ (connected linkedData [])).2.tree.node l = none :=
  delete_ok rfl

/-- Deleting `/backup` empties `/data` and keeps the link. -/
theorem delete_empties_linked_directory :
    let after := (delete 40 ⟨[], ["backup"]⟩ (connected linkedData [])).2.tree
    rootOf 40 linkedData ⟨[], ["backup"]⟩ = some ["backup"] ∧
      linkedData.node ["data", "report"] = some .file ∧ after.node ["data", "report"] = none ∧
      after.node ["backup"] = linkedData.node ["backup"] ∧
      ¬ DeletesNamedOnly 40 linkedData ⟨[], ["backup"]⟩ := by
  refine ⟨by decide +kernel, by decide +kernel, by decide +kernel, by decide +kernel, fun h => ?_⟩
  obtain ⟨root, hroot, hprefix⟩ := h.frame [] ["data", "report"] (by decide +kernel)
  have hbackup : rootOf 40 linkedData ⟨[], ["backup"]⟩ = some ["backup"] := by decide +kernel
  rw [hbackup] at hroot
  obtain rfl := some.inj hroot
  revert hprefix
  decide

end LabTether.SftpDelete
