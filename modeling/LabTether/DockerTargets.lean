import Mathlib

/-!
The container asset ids of the Docker coordinator. An asset id joins the normalised agent id and
the first twelve bytes of the container id with a dash, so two containers may share one. Strings
are lists of bytes; `lower` stands for the lower-casing of Unicode text, and the map of the
hosts is the list of its entries in the order of one iteration.
-/
namespace LabTether.DockerTargets

open List

abbrev Bytes := List UInt8

def dash : UInt8 := 45

def ctPrefix : Bytes := [100, 111, 99, 107, 101, 114, dash, 99, 116, dash]

def trimPrefix (p s : Bytes) : Bytes := if p.isPrefixOf s then s.drop p.length else s

variable (lower : Bytes → Bytes)

/-- Spaces and dots become dashes. -/
def normalizeID (s : Bytes) : Bytes :=
  (lower s).map fun b => if b = 32 ∨ b = 46 then dash else b

def shortID (ct : Bytes) : Bytes := if 12 < ct.length then ct.take 12 else ct

/-- The hosts: each agent id with the ids of its containers. -/
abbrev Hosts := List (Bytes × List Bytes)

def findContainer (hosts : Hosts) (assetID : Bytes) :
    Option (Bytes × Bytes) :=
  let rest := trimPrefix ctPrefix assetID
  if rest = assetID then none
  else hosts.findSome? fun h =>
    let pre := normalizeID lower h.1 ++ [dash]
    if pre.isPrefixOf rest then
      (h.2.find? fun ct => shortID ct == trimPrefix pre rest).map (h.1, ·)
    else none

inductive Failure where
  | invalidID
  | invalidFormat
  | ambiguous
  | notFound
deriving DecidableEq

/-- One container of the loop; an empty agent id says that none was found so far. -/
def visitContainer (aID shortCT : Bytes) (found : Bytes × Bytes) (ct : Bytes) :
    Except Failure (Bytes × Bytes) :=
  if shortID ct = shortCT then
    if found.1 ≠ [] ∧ (found.1 ≠ aID ∨ found.2 ≠ ct) then .error .ambiguous else .ok (aID, ct)
  else .ok found

def visitHost (rest : Bytes) (found : Bytes × Bytes) (h : Bytes × List Bytes) :
    Except Failure (Bytes × Bytes) :=
  let pre := normalizeID lower h.1 ++ [dash]
  if pre.isPrefixOf rest then h.2.foldlM (visitContainer h.1 (trimPrefix pre rest)) found
  else .ok found

def resolveContainerTarget (hosts : Hosts) (assetID : Bytes) :
    Except Failure (Bytes × Bytes) :=
  if ctPrefix.isPrefixOf assetID = false then .error .invalidID
  else
    let rest := trimPrefix ctPrefix assetID
    if rest.length < 13 then .error .invalidFormat
    else do
      let found ← hosts.foldlM (visitHost lower rest) ([], [])
      if found.1 ≠ [] then .ok found else .error .notFound

section

variable (lower : Bytes → Bytes) (hosts : Hosts) (assetID : Bytes)

/-- The asset id under which `Discover` lists a container. -/
def assetOf (p : Bytes × Bytes) : Bytes := ctPrefix ++ (normalizeID lower p.1 ++ [dash] ++ shortID p.2)

def pairs : List (Bytes × Bytes) := hosts.flatMap fun h => h.2.map (h.1, ·)

/-- The containers that map to the asset id. -/
def owners : List (Bytes × Bytes) := (pairs hosts).filter fun p => assetOf lower p == assetID

/-- The container of the asset id, if it is the only one. -/
def target : Option (Bytes × Bytes) :=
  match (owners lower hosts assetID).dedup with
  | [p] => some p
  | _ => none

/-- Both lookups give the only container of the asset id or none, in every visit order. -/
def Unambiguous : Prop := ∀ visited : Hosts, visited.Perm hosts →
  findContainer lower visited assetID = target lower hosts assetID ∧
    (resolveContainerTarget lower visited assetID).toOption = target lower hosts assetID

end

variable {lower : Bytes → Bytes} {hosts : Hosts} {assetID rest : Bytes}

theorem trimPrefix_append (p s : Bytes) : trimPrefix p (p ++ s) = s := by
  simp [trimPrefix]

theorem eq_append_of_isPrefixOf {p s : Bytes} (h : p.isPrefixOf s = true) :
    s = p ++ trimPrefix p s := by
  obtain ⟨t, rfl⟩ := isPrefixOf_iff_prefix.1 h
  rw [trimPrefix_append]

variable {p : Bytes × Bytes}

theorem assetOf_eq_iff : assetOf lower p = ctPrefix ++ rest ↔
    (normalizeID lower p.1 ++ [dash]).isPrefixOf rest = true ∧
      shortID p.2 = trimPrefix (normalizeID lower p.1 ++ [dash]) rest := by
  unfold assetOf
  rw [append_cancel_left_eq]
  constructor
  · rintro rfl
    exact ⟨ isPrefixOf_iff_prefix.2 (prefix_append _ _), (trimPrefix_append _ _).symm⟩
  · rintro ⟨hpre, hshort⟩
    rw [hshort]
    exact (eq_append_of_isPrefixOf hpre).symm

theorem owners_cons (h : Bytes × List Bytes) : owners lower (h :: hosts) (ctPrefix ++ rest) =
    (if (normalizeID lower h.1 ++ [dash]).isPrefixOf rest then
      (h.2.filter fun ct => shortID ct == trimPrefix (normalizeID lower h.1 ++ [dash]) rest).map
        (h.1, ·) else []) ++ owners lower hosts (ctPrefix ++ rest) := by
  have htest : ∀ ct, (assetOf lower (h.1, ct) == ctPrefix ++ rest) =
      ((normalizeID lower h.1 ++ [dash]).isPrefixOf rest &&
        shortID ct == trimPrefix (normalizeID lower h.1 ++ [dash]) rest) := by
    intro ct
    rw [Bool.eq_iff_iff, beq_iff_eq, assetOf_eq_iff, Bool.and_eq_true, beq_iff_eq]
  unfold owners pairs
  rw [flatMap_cons, filter_append, filter_map]
  congr 1
  simp only [Function.comp_def, htest]
  split <;> simp [*]

theorem findContainer_eq : findContainer lower hosts (ctPrefix ++ rest) =
    (owners lower hosts (ctPrefix ++ rest)).head? := by
  have hne : rest ≠ ctPrefix ++ rest := fun h => by
    have hlen := congrArg length h
    rw [length_append] at hlen
    simp [ctPrefix] at hlen
  unfold findContainer
  rw [trimPrefix_append, if_neg hne]
  induction hosts with
  | nil => rfl
  | cons h hosts ih =>
    rw [findSome?_cons, ih, owners_cons, head?_append]
    by_cases hpre : (normalizeID lower h.1 ++ [dash]).isPrefixOf rest = true
    · rw [if_pos hpre, if_pos hpre, head?_map, head?_filter]
      cases h.2.find? _ <;> rfl
    · rw [if_neg hpre, if_neg hpre]
      rfl

/-- What the loop does with a container that maps to the asset id. -/
def keepOne (found p : Bytes × Bytes) : Except Failure (Bytes × Bytes) :=
  if found.1 ≠ [] ∧ found ≠ p then .error .ambiguous else .ok p

theorem foldlM_visitContainer (aID shortCT : Bytes) (containers : List Bytes)
    (found : Bytes × Bytes) : containers.foldlM (visitContainer aID shortCT) found =
      ((containers.filter fun ct => shortID ct == shortCT).map (aID, ·)).foldlM keepOne found := by
  induction containers generalizing found with
  | nil => rfl
  | cons ct containers ih =>
    by_cases hct : shortID ct = shortCT
    · have hvisit : visitContainer aID shortCT found ct = keepOne found (aID, ct) := by
        simp only [visitContainer, keepOne, if_pos hct, Ne, Prod.ext_iff, not_and_or]
      rw [filter_cons_of_pos (by simpa using hct), map_cons, foldlM_cons, foldlM_cons, hvisit]
      exact congrArg _ (funext ih)
    · rw [filter_cons_of_neg (by simpa using hct), foldlM_cons]
      exact (congrArg (· >>= _) (if_neg hct)).trans (ih found)

theorem foldlM_visitHost (found : Bytes × Bytes) : hosts.foldlM (visitHost lower rest) found =
    (owners lower hosts (ctPrefix ++ rest)).foldlM keepOne found := by
  induction hosts generalizing found with
  | nil => rfl
  | cons h hosts ih =>
    rw [foldlM_cons, owners_cons, foldlM_append]
    have hhost : visitHost lower rest found h =
        (if (normalizeID lower h.1 ++ [dash]).isPrefixOf rest then
          (h.2.filter fun ct => shortID ct ==
            trimPrefix (normalizeID lower h.1 ++ [dash]) rest).map (h.1, ·)
          else []).foldlM keepOne found := by
      unfold visitHost
      dsimp only
      split
      · exact foldlM_visitContainer ..
      · rfl
    rw [hhost]
    exact congrArg _ (funext ih)

variable {l : List (Bytes × Bytes)}

theorem foldlM_keepOne {found : Bytes × Bytes} (hfound : found.1 = [] ∨ found = p) (hne : l ≠ [])
    (h : ∀ q ∈ l, q = p) : l.foldlM keepOne found = .ok p := by
  induction l generalizing found with
  | nil => cases hne rfl
  | cons q l ih =>
    obtain ⟨rfl, hl⟩ := forall_mem_cons.1 h
    rw [foldlM_cons, keepOne, if_neg (by tauto)]
    cases l with
    | nil => rfl
    | cons => exact ih (.inr rfl) (cons_ne_nil _ _) hl

theorem dedup_eq_singleton :
    l.dedup = [p] ↔ l ≠ [] ∧ ∀ q ∈ l, q = p := by
  constructor
  · intro h
    have hmem : ∀ q, q ∈ l ↔ q = p := fun q => by rw [← mem_dedup, h, mem_singleton]
    exact ⟨ne_nil_of_mem ((hmem p).2 rfl), fun q => (hmem q).1⟩
  rintro ⟨hne, hall⟩
  obtain ⟨q, hq⟩ := exists_mem_of_ne_nil l hne
  have hp : p ∈ l := hall q hq ▸ hq
  refine perm_singleton.1 ((perm_ext_iff_of_nodup (nodup_dedup l)
    (nodup_singleton p)).2 fun q => ?_)
  rw [mem_dedup, mem_singleton]
  exact ⟨hall q, fun h => h ▸ hp⟩

theorem target_eq_some : target lower hosts assetID = some p ↔
    owners lower hosts assetID ≠ [] ∧ ∀ q ∈ owners lower hosts assetID, q = p := by
  rw [← dedup_eq_singleton, target]
  split
  · simp [*]
  · rename_i hno
    simpa using hno p

theorem resolveContainerTarget_eq : resolveContainerTarget lower hosts (ctPrefix ++ rest) =
    if rest.length < 13 then .error .invalidFormat
    else (owners lower hosts (ctPrefix ++ rest)).foldlM keepOne ([], []) >>= fun found =>
      if found.1 ≠ [] then .ok found else .error .notFound := by
  have hpre : ctPrefix.isPrefixOf (ctPrefix ++ rest) = true :=
    isPrefixOf_iff_prefix.2 (prefix_append _ _)
  rw [resolveContainerTarget, if_neg (by simp [hpre])]
  dsimp only
  rw [trimPrefix_append, foldlM_visitHost]

/-- The lookups are unambiguous exactly for an asset id of at most one container, with an
agent id that is not empty and an asset id long enough for the parser. -/
theorem unambiguous_iff : Unambiguous lower hosts assetID ↔
    ∀ p ∈ owners lower hosts assetID, p.1 ≠ [] ∧ ctPrefix.length + 13 ≤ assetID.length ∧
      ∀ q ∈ owners lower hosts assetID, q = p := by
  by_cases hpre : ctPrefix.isPrefixOf assetID = true
  · obtain ⟨rest, rfl⟩ := isPrefixOf_iff_prefix.1 hpre
    have hlen : ctPrefix.length + 13 ≤ (ctPrefix ++ rest).length ↔ ¬ rest.length < 13 := by
      rw [length_append]
      omega
    rw [hlen]
    constructor
    · intro h p hp
      obtain ⟨hfind, hresolve⟩ := h hosts (.refl _)
      -- the first one found is the target, so it is the only one
      rw [findContainer_eq] at hfind
      obtain ⟨first, hfirst⟩ : ∃ first, target lower hosts (ctPrefix ++ rest) = some first :=
        ⟨_, hfind.symm.trans (head?_eq_some_head (ne_nil_of_mem hp))⟩
      obtain ⟨hsome, hall⟩ := target_eq_some.1 hfirst
      obtain rfl := hall p hp
      rw [hfirst, resolveContainerTarget_eq, foldlM_keepOne (.inl rfl) hsome hall] at hresolve
      change Except.toOption (if _ then _ else if p.1 ≠ [] then _ else _) = _ at hresolve
      split_ifs at hresolve with hshort hagent
      · cases hresolve
      · exact ⟨hagent, hshort, hall⟩
      · cases hresolve
    · intro h visited hperm
      have howners : (owners lower visited (ctPrefix ++ rest)).Perm
          (owners lower hosts (ctPrefix ++ rest)) := (hperm.flatMap_right _).filter _
      rw [findContainer_eq, resolveContainerTarget_eq]
      cases hown : owners lower visited (ctPrefix ++ rest) with
      | nil =>
        rw [hown] at howners
        have htarget : target lower hosts (ctPrefix ++ rest) = none := by
          rw [target, howners.nil_eq.symm]
          rfl
        rw [htarget]
        refine ⟨rfl, ?_⟩
        split <;> rfl
      | cons p l =>
        have hp : p ∈ owners lower hosts (ctPrefix ++ rest) := howners.mem_iff.1 (hown ▸ .head _)
        obtain ⟨hagent, hlong, hall⟩ := h p hp
        have hl : ∀ q ∈ p :: l, q = p := fun q hq => hall q (howners.mem_iff.1 (hown ▸ hq))
        rw [target_eq_some.2 ⟨ne_nil_of_mem hp, hall⟩, if_neg hlong,
          foldlM_keepOne (.inl rfl) (cons_ne_nil _ _) hl]
        exact ⟨rfl, congrArg Except.toOption (if_pos hagent)⟩
  · have hnone : owners lower hosts assetID = [] := by
      refine filter_eq_nil_iff.2 fun p _ heq => hpre ?_
      rw [← eq_of_beq heq]
      exact isPrefixOf_iff_prefix.2 (prefix_append _ _)
    rw [hnone]
    refine iff_of_true (fun visited _ => ?_) (by simp)
    have htarget : target lower hosts assetID = none := by rw [target, hnone]; rfl
    rw [htarget]
    exact ⟨if_pos (if_neg hpre), congrArg Except.toOption (if_pos (Bool.not_eq_true _ ▸ hpre))⟩

def asciiLower (s : Bytes) : Bytes := s.map fun b => if 65 ≤ b ∧ b ≤ 90 then b + 32 else b

/-- Two agents, `a.b` and `a-b`, report a container of the same id: the lookup that serves the
console takes the one that the map gives first, the other one refuses. -/
theorem dotted_agent_takes_over : let ct := replicate 12 48
    let hosts : Hosts := [([97, 46, 98], [ct]), ([97, 45, 98], [ct])]
    let assetID := assetOf asciiLower ([97, 45, 98], ct)
    findContainer asciiLower hosts assetID = some ([97, 46, 98], ct) ∧
      resolveContainerTarget asciiLower hosts assetID = .error .ambiguous ∧
      ¬ Unambiguous asciiLower hosts assetID := by
  intro ct hosts assetID
  refine ⟨by decide +kernel, by decide +kernel, fun h => ?_⟩
  have hfind := (h hosts (.refl _)).1
  exact absurd hfind (by decide +kernel)

end LabTether.DockerTargets
