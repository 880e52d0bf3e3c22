import LabTether.Table

/-!
File trees with symbolic links. A location is the list of names from the root, so that every
entry has one location whatever the links are. A path is walked from a directory; a link on the
way is replaced by its target, at most a given number of times, and a path that does not end by
then leads nowhere. Entries are only ever erased here, and an erased tree leads no path to a new
place.
-/
namespace LabTether.LinkedTree

open List Option

variable {ν : Type} [DecidableEq ν]

inductive Part (ν : Type)
  | name (n : ν)
  | up
deriving DecidableEq

inductive Node (ν : Type)
  | directory
  | file
  | link (absolute : Bool) (target : List (Part ν))
deriving DecidableEq

/-- Every entry but the root lies in a directory, and no two have the same location. -/
structure Tree (ν : Type) where
  entries : List (List ν × Node ν)
  keyed : Table.Keyed Prod.fst entries
  closed : ∀ e ∈ entries, e.1 ≠ [] ∧ (e.1.dropLast = [] ∨ (e.1.dropLast, .directory) ∈ entries)

namespace Tree

variable (t : Tree ν)

/-- What stands at a location; the root is always a directory. -/
def node (l : List ν) : Option (Node ν) :=
  if l = [] then some .directory else (t.entries.find? fun e => e.1 = l).map Prod.snd

/-- What a directory lists, with each entry's own kind. -/
def children (l : List ν) : List (ν × Node ν) :=
  t.entries.filterMap fun e =>
    if e.1.dropLast = l then e.1.getLast?.map fun n => (n, e.2) else none

section

variable {t : Tree ν} {l m : List ν} {n : ν} {nd : Node ν}

theorem node_eq_some_iff (hl : l ≠ []) : t.node l = some nd ↔ (l, nd) ∈ t.entries := by
  rw [node, if_neg hl]
  constructor
  · intro h
    obtain ⟨e, he, rfl⟩ := map_eq_some_iff.1 h
    obtain rfl : e.1 = l := by simpa using find?_some he
    exact mem_of_find?_eq_some he
  · intro h
    cases hfind : t.entries.find? fun e => e.1 = l with
    | none => simpa using find?_eq_none.1 hfind _ h
    | some e =>
      have hsame : (l, nd) = e := t.keyed.find?_eq (by simp) hfind h rfl
      rw [← hsame]
      rfl

theorem mem_children_iff : (n, nd) ∈ t.children l ↔ t.node (l ++ [n]) = some nd := by
  rw [node_eq_some_iff (by simp), children, mem_filterMap]
  constructor
  · rintro ⟨⟨loc, kind⟩, he, hchild⟩
    split_ifs at hchild with hdir
    obtain ⟨last, hlast, hpair⟩ := map_eq_some_iff.1 hchild
    obtain ⟨rfl, rfl⟩ := Prod.mk.inj hpair
    obtain ⟨front, rfl⟩ := getLast?_eq_some_iff.1 hlast
    rw [← hdir, dropLast_concat]
    exact he
  · intro h
    exact ⟨_, h, by simp⟩

theorem node_parent (h : t.node (l ++ [n]) = some nd) : t.node l = some .directory := by
  have hmem := (node_eq_some_iff (by simp)).1 h
  obtain ⟨-, hparent⟩ := t.closed _ hmem
  rw [dropLast_concat] at hparent
  by_cases hl : l = []
  · rw [node, if_pos hl]
  · exact (node_eq_some_iff hl).2 (hparent.resolve_left hl)

theorem children_eq_nil (h : t.node l ≠ some .directory) : t.children l = [] := by
  rw [eq_nil_iff_forall_not_mem]
  rintro ⟨n, nd⟩ hchild
  exact h (node_parent (mem_children_iff.1 hchild))

theorem node_below_eq_none (hchildren : t.children l = []) (hbelow : l <+: m) (hne : m ≠ l) :
    t.node m = none := by
  obtain ⟨rest, rfl⟩ := hbelow
  induction rest using reverseRecOn with
  | nil => exact absurd (append_nil l) hne
  | append_singleton rest n ih =>
    rw [← append_assoc]
    by_contra hsome
    obtain ⟨nd, hnd⟩ := ne_none_iff_exists'.1 hsome
    by_cases hrest : rest = []
    · subst hrest
      rw [append_nil] at hnd
      exact not_mem_nil (hchildren ▸ mem_children_iff.2 hnd)
    · have hparent := node_parent hnd
      rw [ih (by simpa using hrest)] at hparent
      cases hparent

end

/-- The tree without the entry at `l`, which has nothing below it. -/
def erase (l : List ν) (h : t.children l = []) : Tree ν where
  entries := t.entries.filter fun e => e.1 ≠ l
  keyed := t.keyed.filter _
  closed := by
    rintro ⟨loc, nd⟩ he
    obtain ⟨hmem, -⟩ := mem_filter.1 he
    obtain ⟨hne, hparent⟩ := t.closed _ hmem
    refine ⟨hne, hparent.imp_right fun hdir => mem_filter.2 ⟨hdir, decide_eq_true ?_⟩⟩
    -- otherwise the entry is listed in the erased directory
    intro hparent
    have hloc : loc = l ++ [loc.getLast hne] := by
      rw [← hparent, dropLast_append_getLast]
    have hlisted : (loc.getLast hne, nd) ∈ t.children l := by
      rw [mem_children_iff, ← hloc, node_eq_some_iff hne]
      exact hmem
    rw [h] at hlisted
    exact not_mem_nil hlisted

theorem node_erase {l : List ν} (hl : l ≠ []) (h : t.children l = []) (m : List ν) :
    (t.erase l h).node m = if m = l then none else t.node m := by
  split_ifs with hm
  · subst hm
    rw [node, if_neg hl, map_eq_none_iff, find?_eq_none]
    intro e he
    simpa using (mem_filter.1 he).2
  · by_cases hnil : m = []
    · rw [node, node, if_pos hnil, if_pos hnil]
    · ext nd
      rw [node_eq_some_iff hnil, node_eq_some_iff hnil, erase, mem_filter]
      simp [hm]

/-- Nothing was added or changed. -/
def Shrunk (t' t : Tree ν) : Prop := ∀ l nd, t'.node l = some nd → t.node l = some nd

end Tree

section

/-- One round of a walk: a link goes to `follow`. -/
def walkWith (t : Tree ν) (follow : List ν → List (Part ν) → Option (List ν)) :
    List ν → List (Part ν) → Option (List ν)
  | here, [] => if t.node here = some .directory then some here else none
  | here, .up :: rest => walkWith t follow here.dropLast rest
  | here, .name n :: rest =>
    match t.node (here ++ [n]) with
    | none => none
    | some .directory => walkWith t follow (here ++ [n]) rest
    | some .file => if rest = [] then some (here ++ [n]) else none
    | some (.link absolute target) => follow (if absolute then [] else here) (target ++ rest)

/-- Where a path leads from a directory when at most `links` links may be followed. -/
def walk (t : Tree ν) : ℕ → List ν → List (Part ν) → Option (List ν)
  | 0 => walkWith t fun _ _ => none
  | links + 1 => walkWith t (walk t links)

/-- Where the last name of a path is entered, whether or not a link stands there. -/
def locate (t : Tree ν) (links : ℕ) (start : List ν) (names : List ν) : Option (List ν) :=
  names.getLast?.bind fun n =>
    (walk t links start (names.dropLast.map .name)).map fun d => d ++ [n]

inductive Leads (t : Tree ν) : ℕ → List ν → List (Part ν) → List ν → Prop
  | here {k l} (h : t.node l = some .directory) : Leads t k l [] l
  | up {k l rest m} (h : Leads t k l.dropLast rest m) : Leads t k l (.up :: rest) m
  | directory {k l n rest m} (hn : t.node (l ++ [n]) = some .directory)
      (h : Leads t k (l ++ [n]) rest m) : Leads t k l (.name n :: rest) m
  | file {k l n} (hn : t.node (l ++ [n]) = some .file) : Leads t k l [.name n] (l ++ [n])
  | link {k l n rest m absolute target} (hn : t.node (l ++ [n]) = some (.link absolute target))
      (h : Leads t k (if absolute then [] else l) (target ++ rest) m) :
      Leads t (k + 1) l (.name n :: rest) m

variable {t : Tree ν} {k : ℕ} {l m : List ν} {p : List (Part ν)} {n : ν}

theorem walk_of_leads (h : Leads t k l p m) : walk t k l p = some m := by
  induction h with
  | @here k l h => cases k <;> simp [walk, walkWith, h]
  | @up k l rest m h ih => cases k <;> exact ih
  | @directory k l n rest m hn h ih => cases k <;> (simp [walk, walkWith, hn]; exact ih)
  | @file k l n hn => cases k <;> simp [walk, walkWith, hn]
  | link hn h ih =>
    simp only [walk, walkWith, hn]
    exact ih

theorem leads_of_walkWith {follow : List ν → List (Part ν) → Option (List ν)}
    (hfollow : ∀ here n rest absolute target m,
      t.node (here ++ [n]) = some (.link absolute target) →
      follow (if absolute then [] else here) (target ++ rest) = some m →
      Leads t k here (.name n :: rest) m)
    (h : walkWith t follow l p = some m) : Leads t k l p m := by
  fun_induction walkWith t follow l p
  case case1 hdir =>
    obtain rfl := some.inj h
    exact .here hdir
  case case3 ih => exact .up (ih h)
  case case5 hn ih => exact .directory hn (ih h)
  case case6 hn =>
    obtain rfl := some.inj h
    exact .file hn
  case case8 hn => exact hfollow _ _ _ _ _ _ hn h
  all_goals cases h

theorem leads_of_walk (h : walk t k l p = some m) : Leads t k l p m := by
  induction k generalizing l p m with
  | zero => exact leads_of_walkWith (by simp) h
  | succ k ih => exact leads_of_walkWith (fun _ _ _ _ _ _ hn hrest => .link hn (ih hrest)) h

theorem Leads.unique {m' : List ν} (h : Leads t k l p m) (h' : Leads t k l p m') : m = m' :=
  some.inj ((walk_of_leads h).symm.trans (walk_of_leads h'))

theorem Leads.node (h : Leads t k l p m) : t.node m = some .directory ∨ t.node m = some .file := by
  induction h with
  | here h => exact .inl h
  | up _ ih | directory _ _ ih | link _ _ ih => exact ih
  | file hn => exact .inr hn

theorem Leads.of_shrunk {t' : Tree ν} (hshrunk : t'.Shrunk t) (h : Leads t' k l p m) :
    Leads t k l p m := by
  induction h with
  | here h => exact .here (hshrunk _ _ h)
  | up _ ih => exact .up ih
  | directory hn _ ih => exact .directory (hshrunk _ _ hn) ih
  | file hn => exact .file (hshrunk _ _ hn)
  | link hn _ ih => exact .link (hshrunk _ _ hn) ih

theorem Leads.snoc (h : Leads t k l p m)
    (hn : t.node (m ++ [n]) = some .directory ∨ t.node (m ++ [n]) = some .file) :
    Leads t k l (p ++ [.name n]) (m ++ [n]) := by
  induction h with
  | here _ => exact hn.elim (fun hdir => .directory hdir (.here hdir)) .file
  | up _ ih => exact .up (ih hn)
  | directory hdir _ ih => exact .directory hdir (ih hn)
  | file hfile =>
    -- nothing lies below a file
    rcases hn with hn | hn <;>
    · rw [Tree.node_parent hn] at hfile
      cases hfile
  | link hlink _ ih =>
    have hrest := ih hn
    rw [append_assoc] at hrest
    exact .link hlink hrest

theorem Leads.snoc_cases (h : Leads t k l (p ++ [.name n]) m) : ∃ d, Leads t k l p d ∧
      (m = d ++ [n] ∧ (t.node (d ++ [n]) = some .directory ∨ t.node (d ++ [n]) = some .file) ∨
        ∃ absolute target, t.node (d ++ [n]) = some (.link absolute target)) := by
  generalize hq : p ++ [Part.name n] = q at h
  induction h generalizing p with
  | here _ => simp at hq
  | @up k l rest m h ih =>
    rcases p with _ | ⟨part, p⟩
    · simp at hq
    obtain ⟨rfl, rfl⟩ := cons.inj hq
    obtain ⟨d, hd, hlast⟩ := ih rfl
    exact ⟨d, .up hd, hlast⟩
  | @directory k l n' rest m hn h ih =>
    cases p with
    | nil =>
      cases hq
      cases h with
      | here _ => exact ⟨l, .here (Tree.node_parent hn), .inl ⟨rfl, .inl hn⟩⟩
    | cons part p =>
      obtain ⟨rfl, rfl⟩ := cons.inj hq
      obtain ⟨d, hd, hlast⟩ := ih rfl
      exact ⟨d, .directory hn hd, hlast⟩
  | @file k l n' hn =>
    cases p with
    | nil =>
      cases hq
      exact ⟨l, .here (Tree.node_parent hn), .inl ⟨rfl, .inr hn⟩⟩
    | cons part p => simp at hq
  | @link k l n' rest m absolute target hn h ih =>
    cases p with
    | nil =>
      cases hq
      exact ⟨l, .here (Tree.node_parent hn), .inr ⟨absolute, target, hn⟩⟩
    | cons part p =>
      obtain ⟨rfl, rfl⟩ := cons.inj hq
      obtain ⟨d, hd, hlast⟩ := ih (append_assoc target p _)
      exact ⟨d, .link hn hd, hlast⟩

variable {names : List ν}

theorem locate_eq_some_iff : locate t k l names = some m ↔
      ∃ front n d, names = front ++ [n] ∧ Leads t k l (front.map .name) d ∧ m = d ++ [n] := by
  rw [locate, bind_eq_some_iff]
  constructor
  · rintro ⟨n, hlast, hm⟩
    obtain ⟨front, rfl⟩ := getLast?_eq_some_iff.1 hlast
    rw [dropLast_concat] at hm
    obtain ⟨d, hd, rfl⟩ := map_eq_some_iff.1 hm
    exact ⟨front, n, d, rfl, leads_of_walk hd, rfl⟩
  · rintro ⟨front, n, d, rfl, hd, rfl⟩
    refine ⟨n, getLast?_concat, ?_⟩
    rw [dropLast_concat, walk_of_leads hd]
    rfl

theorem locate_ne_nil (h : locate t k l names = some m) : m ≠ [] := by
  obtain ⟨-, n, d, -, -, rfl⟩ := locate_eq_some_iff.1 h
  exact append_ne_nil_of_right_ne_nil _ (cons_ne_nil _ _)

theorem locate_of_shrunk {t' : Tree ν} (hshrunk : t'.Shrunk t)
    (h : locate t' k l names = some m) : locate t k l names = some m := by
  obtain ⟨front, n, d, hnames, hd, hm⟩ := locate_eq_some_iff.1 h
  exact locate_eq_some_iff.2 ⟨front, n, d, hnames, hd.of_shrunk hshrunk, hm⟩

end

end LabTether.LinkedTree
