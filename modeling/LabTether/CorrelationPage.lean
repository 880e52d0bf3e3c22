import LabTether.GoStrings
import LabTether.Smallest
import LabTether.Transaction

/-!
Pages of stored ids for incident correlation. The memory stores scan a map in no fixed
order and keep a sorted window of 128 ids by insertion in place; the database store reads
the same page with a keyset query. The database calls themselves do not fail here, and
only the ids of the rows are read; an id that is not exact is refused by both stores.
-/
namespace LabTether.CorrelationPage

open Smallest Transaction List Option

structure CorrelationCursor where
  started : Bool := false
  afterID : String := ""
  upperID : String := ""

def correlationPageSize : ℕ := 128

def correlationExactID (id : String) : Bool :=
  id != "" && GoStrings.trimSpace id == id && !id.toList.contains (Char.ofNat 0)

variable (c : CorrelationCursor)

def validateCorrelationCursor : Except String Unit :=
  if c.started = false then
    if c.afterID ≠ "" ∨ c.upperID ≠ "" then .error "unstarted correlation cursor has keys"
    else .ok ()
  else if (c.afterID ≠ "" ∧ correlationExactID c.afterID = false) ∨
      (c.upperID ≠ "" ∧ correlationExactID c.upperID = false) ∨ c.upperID < c.afterID then
    .error "invalid correlation cursor"
  else .ok ()

structure IDPage where
  cursor : CorrelationCursor
  upper : String
  ids : List String

def newCorrelationIDPage : IDPage := ⟨c, c.upperID, []⟩

/-- `sort.SearchStrings` on an increasing list. -/
def searchStrings (ids : List String) (id : String) : ℕ := ids.findIdx fun x => decide (id ≤ x)

/-- Shift the ids from `i` on by one place, the last one out, and put `id` in the gap. -/
def shiftIn (ids : List String) (i : ℕ) (id : String) : List String :=
  ids.take i ++ id :: (ids.drop i).dropLast

def IDPage.add (p : IDPage) (id : String) : Except String IDPage :=
  if correlationExactID id = false then .error "invalid stored correlation ID"
  else
    let p := { p with upper := if p.cursor.started = false ∧ p.upper < id then id else p.upper }
    if id ≤ p.cursor.afterID ∨ (p.cursor.started = true ∧ p.cursor.upperID < id) then .ok p
    else
      let i := searchStrings p.ids id
      if p.ids[i]? = some id then .ok p
      else if correlationPageSize ≤ i then .ok p
      else
        let ids := if p.ids.length < correlationPageSize then p.ids ++ [""] else p.ids
        .ok { p with ids := shiftIn ids i id }

def IDPage.result (p : IDPage) : CorrelationCursor × Bool :=
  (⟨true, p.ids.getLast?.getD p.cursor.afterID, p.upper⟩,
    decide (p.ids.length < correlationPageSize))

/-- The read of a memory store, which visits the stored ids in the order of the list. -/
def memoryPage (stored : List String) :
    Except String (List String × CorrelationCursor × Bool) := do
  validateCorrelationCursor c
  let p ← stored.foldlM IDPage.add (newCorrelationIDPage c)
  return (p.ids, p.result)

/-- The check of one row of the result, which moves the cursor. -/
def visitRow (next : CorrelationCursor) (id : String) : Except String CorrelationCursor :=
  if correlationExactID id = false ∨ id ≤ next.afterID ∨ next.upperID < id then
    .error "invalid stored correlation cursor identity"
  else .ok { next with afterID := id }

def readCorrelationPage (rows : List String) :
    Except String (List String × CorrelationCursor × Bool) := do
  validateCorrelationCursor c
  let next := if c.started then c else { c with started := true, upperID := rows.foldl max "" }
  if next.upperID = "" then return ([], next, true)
  let page := ((rows.filter fun id => decide (c.afterID < id ∧ id ≤ next.upperID)).insertionSort
    (· ≤ ·)).take correlationPageSize
  let next ← page.foldlM visitRow next
  return (page, next, decide (page.length < correlationPageSize))

section

variable {n i : ℕ} {l : List String} {id : String}

theorem searchStrings_split (hl : l.Pairwise (· < ·)) (hid : l[searchStrings l id]? ≠ some id) :
    (∀ x ∈ l.take (searchStrings l id), x < id) ∧ ∀ x ∈ l.drop (searchStrings l id), id < x := by
  induction l with
  | nil => simp
  | cons y l ih =>
    obtain ⟨hy, hl⟩ := pairwise_cons.1 hl
    by_cases hle : id ≤ y
    · have hzero : searchStrings (y :: l) id = 0 := by simp [searchStrings, findIdx_cons, hle]
      rw [hzero] at hid ⊢
      have hlt : id < y := lt_of_le_of_ne hle fun h => hid (by simp [h])
      exact ⟨by simp, forall_mem_cons.2 ⟨hlt, fun x hx => hlt.trans (hy x hx)⟩⟩
    · have hsucc : searchStrings (y :: l) id = searchStrings l id + 1 := by
        simp [searchStrings, findIdx_cons, hle]
      rw [hsucc] at hid ⊢
      obtain ⟨hlow, hhigh⟩ := ih hl (by simpa using hid)
      exact ⟨forall_mem_cons.2 ⟨not_le.1 hle, hlow⟩, by simpa using hhigh⟩

theorem shiftIn_grown (hi : i ≤ l.length) :
    shiftIn (l ++ [""]) i id = l.take i ++ id :: l.drop i := by
  unfold shiftIn
  rw [take_append_of_le_length hi, drop_append_of_le_length hi, dropLast_append_of_ne_nil (by simp)]
  simp

theorem shiftIn_full (hi : i < l.length) :
    shiftIn l i id = (l.take i ++ id :: l.drop i).take l.length := by
  have hlen : l.length = (l.take i).length + ((l.drop i).length - 1 + 1) := by
    simp
    omega
  unfold shiftIn
  rw [hlen, take_length_add_append, take_succ_cons, ← dropLast_eq_take]

def InReach (c : CorrelationCursor) (stored : List String) (id : String) : Prop :=
  id ∈ stored ∧ c.afterID < id ∧ (c.started = true → id ≤ c.upperID)

/-- The upper bound after the ids that were seen. -/
def upperOf (c : CorrelationCursor) (stored : List String) : String :=
  if c.started then c.upperID else stored.foldl max c.upperID

/-- The state of the scan after the ids `seen`. -/
structure Scanned (c : CorrelationCursor) (seen : List String) (p : IDPage) : Prop where
  cursor : p.cursor = c
  upper : p.upper = upperOf c seen
  page : IsPage correlationPageSize (InReach c seen) p.ids

theorem scanned_start (c : CorrelationCursor) : Scanned c [] (newCorrelationIDPage c) := by
  refine ⟨rfl, by simp [upperOf, newCorrelationIDPage], .nil, by simp [newCorrelationIDPage],
    Nat.zero_le _, ?_⟩
  rintro x ⟨hx, -⟩
  cases hx

theorem upperOf_append (c : CorrelationCursor) (seen : List String) (id : String) :
    upperOf c (seen ++ [id]) =
      if c.started = false ∧ upperOf c seen < id then id else upperOf c seen := by
  unfold upperOf
  cases c.started with
  | true => simp
  | false =>
    by_cases hlt : seen.foldl max c.upperID < id
    · simp [hlt, max_eq_right hlt.le, -String.lt_iff_ltb]
    · simp [hlt, max_eq_left (not_lt.1 hlt), -String.lt_iff_ltb]

variable {c : CorrelationCursor} {p : IDPage}

theorem Scanned.add {seen : List String} (h : Scanned c seen p)
    (hid : correlationExactID id = true) :
    ∃ p', p.add id = .ok p' ∧ Scanned c (seen ++ [id]) p' := by
  obtain ⟨rfl, hupper, hpage⟩ := h
  have hnew (h : ¬ (id ≤ p.cursor.afterID ∨ p.cursor.started = true ∧ p.cursor.upperID < id)) :
      ∀ x, InReach p.cursor (seen ++ [id]) x ↔ InReach p.cursor seen x ∨ x = id := by
    intro x
    unfold InReach
    grind
  have hup := upperOf_append p.cursor seen id
  rw [← hupper] at hup
  fun_cases IDPage.add p id
  case case1 hbad => cases hid.symm.trans hbad
  all_goals refine ⟨_, rfl, rfl, hup.symm, ?_⟩
  case case2 hskip =>
    refine hpage.congr fun x => ?_
    unfold InReach
    grind
  case case3 hskip _ hfound =>
    have hin : InReach p.cursor seen id := hpage.sound id (mem_of_getElem? hfound)
    exact hpage.congr fun x => ((hnew hskip x).trans (or_iff_left_of_imp fun h => h ▸ hin)).symm
  case case4 hskip _ hfound hroom =>
    obtain ⟨hlow, -⟩ := searchStrings_split hpage.sorted hfound
    have hfull := le_antisymm hpage.small (hroom.trans findIdx_le_length)
    refine ⟨hpage.sorted, fun x hx => (hnew hskip x).2 (.inl (hpage.sound x hx)), hpage.small,
      fun x hx hxl => ?_⟩
    rcases (hnew hskip x).1 hx with hx | rfl
    · exact hpage.rest x hx hxl
    · refine ⟨hfull, fun y hy => hlow y ?_⟩
      rwa [take_of_length_le (hfull.trans_le hroom)]
  case case5 q hskip i hfound hroom ids =>
    obtain ⟨hlow, hhigh⟩ := searchStrings_split hpage.sorted hfound
    have hi : i ≤ p.ids.length := findIdx_le_length
    have hins := (hpage.insert (not_le.1 hroom) hlow hhigh).congr fun x => (hnew hskip x).symm
    by_cases hlen : p.ids.length < correlationPageSize
    · rw [take_of_length_le (by simp; omega)] at hins
      simpa [q, ids, if_pos hlen, shiftIn_grown hi] using hins
    have hfull : p.ids.length = correlationPageSize := le_antisymm hpage.small (not_lt.1 hlen)
    have hshift : shiftIn p.ids i id = _ := shiftIn_full (by omega)
    rw [hfull] at hshift
    simpa [q, ids, if_neg hlen, hshift] using hins

theorem Scanned.foldlM {seen stored : List String} (h : Scanned c seen p)
    (hexact : ∀ id ∈ stored, correlationExactID id = true) :
    ∃ p', stored.foldlM IDPage.add p = .ok p' ∧ Scanned c (seen ++ stored) p' := by
  induction stored generalizing seen p with
  | nil => exact ⟨p, rfl, by simpa using h⟩
  | cons id stored ih =>
    obtain ⟨p₁, hadd, h₁⟩ := h.add (hexact id (.head _))
    obtain ⟨p', hfold, h'⟩ := ih h₁ fun x hx => hexact x (.tail _ hx)
    refine ⟨p', ?_, by simpa using h'⟩
    rw [foldlM_cons, hadd]
    exact hfold

end

variable {next : CorrelationCursor} {page : List String}

section

variable {c : CorrelationCursor} {stored rows : List String}

theorem not_lt_empty (s : String) : ¬ s < "" := by
  rw [String.lt_iff_toList_lt]
  exact not_lt_nil _

structure PageSpec (c : CorrelationCursor) (stored : List String) (page : List String)
    (next : CorrelationCursor) (done : Bool) : Prop where
  first : IsPage correlationPageSize (InReach c stored) page
  started : next.started = true
  upper : next.upperID = upperOf c stored
  after : next.afterID = page.getLast?.getD c.afterID
  done_iff : done = true ↔ page.length < correlationPageSize

theorem PageSpec.unique {page page' : List String} {next next' : CorrelationCursor}
    {done done' : Bool} (h : PageSpec c stored page next done)
    (h' : PageSpec c stored page' next' done') : (page, next, done) = (page', next', done') := by
  have hupper : next.upperID = next'.upperID := h.upper.trans h'.upper.symm
  obtain rfl : page = page' := h.first.eq h'.first
  have hnext : next = next' := by
    have hstarted : next.started = next'.started := h.started.trans h'.started.symm
    have hafter : next.afterID = next'.afterID := h.after.trans h'.after.symm
    cases next
    cases next'
    simp_all only
  have hdone : done = done' := Bool.eq_iff_iff.2 (h.done_iff.trans h'.done_iff.symm)
  rw [hnext, hdone]

theorem foldl_max_mem (l : List String) (a : String) : l.foldl max a = a ∨ l.foldl max a ∈ l := by
  have h : l.foldl max a ∈ a :: l := max?_mem max?_cons'
  exact mem_cons.1 h

theorem PageSpec.of_same {done : Bool}
    (h : PageSpec c rows page next done) (hsame : ∀ id, id ∈ stored ↔ id ∈ rows) :
    PageSpec c stored page next done := by
  have hle : ∀ {l l' : List String}, (∀ id ∈ l, id ∈ l') →
      l.foldl max c.upperID ≤ l'.foldl max c.upperID := by
    intro l l' hsub
    rcases foldl_max_mem l c.upperID with heq | hmem
    · exact heq.trans_le (le_foldl_max l' _).1
    · exact (le_foldl_max l' _).2 _ (hsub _ hmem)
  have hupper : upperOf c rows = upperOf c stored := by
    unfold upperOf
    rw [le_antisymm (hle fun id => (hsame id).1) (hle fun id => (hsame id).2)]
  exact { h with
    first := h.first.congr fun id => and_congr_left' (hsame id).symm, upper := h.upper.trans hupper }

variable (hc : validateCorrelationCursor c = .ok ())
include hc

theorem upperID_eq_empty (hs : c.started = false) :
    c.afterID = "" ∧ c.upperID = "" := by
  unfold validateCorrelationCursor at hc
  rw [if_pos hs] at hc
  split at hc
  · cases hc
  · rename_i hkeys
    simpa using hkeys

omit hc in
theorem inReach_iff {id : String} :
    InReach c stored id ↔ id ∈ stored ∧ c.afterID < id ∧ id ≤ upperOf c stored := by
  unfold InReach upperOf
  cases hs : c.started with
  | true => simp [-String.lt_iff_ltb]
  | false =>
    simp only [Bool.false_eq_true, false_implies, and_true, if_false]
    exact ⟨fun ⟨hmem, hlt⟩ => ⟨hmem, hlt, (le_foldl_max _ _).2 id hmem⟩,
      fun ⟨hmem, hlt, _⟩ => ⟨hmem, hlt⟩⟩

theorem memoryPage_spec (hexact : ∀ id ∈ stored, correlationExactID id = true) :
    ∃ page next done, memoryPage c stored = .ok (page, next, done) ∧
      PageSpec c stored page next done := by
  obtain ⟨p, hfold, hcur, hupper, hpage⟩ := (scanned_start c).foldlM hexact
  refine ⟨p.ids, p.result.1, p.result.2, ?_, hpage, rfl, hupper, by simp [IDPage.result, hcur],
    by simp [IDPage.result]⟩
  unfold memoryPage
  rw [hc]
  rw [hfold]
  rfl

omit hc in
/-- A read that succeeds has found a valid cursor and only exact ids. -/
theorem memoryPage_ok {res : List String × CorrelationCursor × Bool}
    (h : memoryPage c stored = .ok res) : validateCorrelationCursor c = .ok () ∧
      ∀ id ∈ stored, correlationExactID id = true := by
  obtain ⟨u, hc, hrest⟩ := bind_eq_ok.1 h
  obtain ⟨p, hfold, -⟩ := bind_eq_ok.1 hrest
  clear h hrest
  refine ⟨hc, ?_⟩
  generalize newCorrelationIDPage c = q at hfold
  induction stored generalizing q with
  | nil => simp
  | cons id stored ih =>
    rw [foldlM_cons] at hfold
    obtain ⟨q', hadd, hfold⟩ := bind_eq_ok.1 hfold
    refine forall_mem_cons.2 ⟨?_, ih q' hfold⟩
    by_contra hid
    rw [IDPage.add, if_pos (by simpa using hid)] at hadd
    cases hadd

omit hc in
theorem foldlM_visitRow
    (hexact : ∀ id ∈ page, correlationExactID id = true ∧ next.afterID < id ∧ id ≤ next.upperID)
    (hsorted : page.Pairwise (· < ·)) : page.foldlM visitRow next =
      .ok { next with afterID := page.getLast?.getD next.afterID } := by
  induction page generalizing next with
  | nil => rfl
  | cons id page ih =>
    obtain ⟨hid, hafter, hupper⟩ := hexact id (.head _)
    obtain ⟨hfirst, hsorted⟩ := pairwise_cons.1 hsorted
    have hvisit : visitRow next id = .ok { next with afterID := id } := by
      unfold visitRow
      rw [if_neg]
      rintro (h | h | h)
      · simp [hid] at h
      · exact absurd hafter (not_lt.2 h)
      · exact absurd hupper (not_le.2 h)
    rw [foldlM_cons, hvisit]
    refine (@ih { next with afterID := id } (fun x hx => ⟨(hexact x (.tail _ hx)).1, hfirst x hx,
      (hexact x (.tail _ hx)).2.2⟩) hsorted).trans ?_
    rcases page with _ | ⟨y, page⟩
    · rfl
    obtain ⟨last, hlast⟩ : ∃ last, (y :: page).getLast? = some last :=
      ⟨_, getLast?_eq_some_getLast (cons_ne_nil y page)⟩
    simp [hlast]

theorem readCorrelationPage_spec (hexact : ∀ id ∈ rows, correlationExactID id = true)
    (hrows : rows.Nodup) :
    ∃ page next done, readCorrelationPage c rows = .ok (page, next, done) ∧
      PageSpec c rows page next done := by
  -- the bound of the query and the rows up to it, in order
  let next : CorrelationCursor :=
    if c.started then c else { c with started := true, upperID := rows.foldl max "" }
  let l := (rows.filter fun id => decide (c.afterID < id ∧ id ≤ next.upperID)).insertionSort (· ≤ ·)
  have hnext : next.started = true ∧ next.afterID = c.afterID ∧ next.upperID = upperOf c rows := by
    cases hs : c.started with
    | true => simp [next, upperOf, hs]
    | false => simp [next, upperOf, hs, (upperID_eq_empty hc hs).2]
  obtain ⟨hstarted, hafter, hupper⟩ := hnext
  have hmem : ∀ id, id ∈ l ↔ InReach c rows id := by
    intro id
    rw [(perm_insertionSort _ _).mem_iff, mem_filter, decide_eq_true_eq, hupper, inReach_iff]
  have hsorted : l.Pairwise (· < ·) := sorted_of_nodup (hrows.filter _)
  have hpage := (isPage_take (n := correlationPageSize) hsorted).congr hmem
  by_cases hempty : next.upperID = ""
  · refine ⟨[], next, true, ?_, ?_, hstarted, hupper, hafter, by simp [correlationPageSize]⟩
    · unfold readCorrelationPage
      rw [hc]
      exact if_pos hempty
    have hnil : l = [] := by
      refine eq_nil_iff_forall_not_mem.2 fun id hid => ?_
      obtain ⟨-, hlt, hle⟩ := inReach_iff.1 ((hmem id).1 hid)
      exact absurd (hempty ▸ hupper ▸ lt_of_lt_of_le hlt hle) (not_lt_empty _)
    simpa [hnil] using hpage
  · have hrow : ∀ id ∈ l.take correlationPageSize, correlationExactID id = true ∧
        next.afterID < id ∧ id ≤ next.upperID := by
      intro id hid
      obtain ⟨hrow, hlt, hle⟩ := inReach_iff.1 (hpage.sound id hid)
      exact ⟨hexact id hrow, hafter ▸ hlt, hupper ▸ hle⟩
    have hvisit := foldlM_visitRow hrow hpage.sorted
    refine ⟨l.take correlationPageSize,
      { next with afterID := (l.take correlationPageSize).getLast?.getD next.afterID },
      decide ((l.take correlationPageSize).length < correlationPageSize), ?_, hpage,
      hstarted, hupper, by rw [← hafter], by simp⟩
    unfold readCorrelationPage
    rw [hc]
    refine (if_neg hempty).trans ?_
    rw [hvisit]
    rfl

end

section

variable {c : CorrelationCursor} {stored rows : List String}

def follow (stored : List String) : ℕ → CorrelationCursor → Option (List String)
  | 0, _ => none
  | fuel + 1, c =>
    match memoryPage c stored with
    | .error _ => none
    | .ok (page, _, true) => some page
    | .ok (page, next, false) => (follow stored fuel next).map (page ++ ·)

theorem PageSpec.valid {last : String}
    {done : Bool} (h : PageSpec c stored page next done) (hc : validateCorrelationCursor c = .ok ())
    (hexact : ∀ id ∈ stored, correlationExactID id = true) (hlast : page.getLast? = some last) :
    validateCorrelationCursor next = .ok () := by
  obtain ⟨hmem, -, hle⟩ := inReach_iff.1 (h.first.sound last (mem_of_getLast? hlast))
  have hafter : next.afterID = last := by rw [h.after, hlast, getD_some]
  have hupper : next.upperID ≠ "" → correlationExactID next.upperID = true := by
    rw [h.upper, upperOf]
    cases hs : c.started with
    | true =>
      unfold validateCorrelationCursor at hc
      rw [if_neg (by simp [hs])] at hc
      split at hc
      · cases hc
      · rename_i hno
        push Not at hno
        simpa using hno.2.1
    | false =>
      rw [(upperID_eq_empty hc hs).2]
      exact fun hne => hexact _ ((foldl_max_mem _ _).resolve_left hne)
  unfold validateCorrelationCursor
  rw [if_neg (by simp [h.started]), if_neg]
  rintro (⟨-, hbad⟩ | ⟨hne, hbad⟩ | hlt)
  · rw [hafter, hexact last hmem] at hbad
    cases hbad
  · rw [hupper hne] at hbad
    cases hbad
  · exact absurd (h.upper ▸ hle) (not_le.2 (hafter ▸ hlt))

/-- The rest of the traversal is the rest of the ids in order. -/
theorem follow_eq {l : List String} {fuel : ℕ} (hc : validateCorrelationCursor c = .ok ())
    (hexact : ∀ id ∈ stored, correlationExactID id = true) (hl : l.Pairwise (· < ·))
    (hmem : ∀ id, id ∈ l ↔ InReach c stored id) (hfuel : l.length < fuel) :
    follow stored fuel c = some l := by
  induction fuel generalizing c l with
  | zero => omega
  | succ fuel ih =>
    obtain ⟨page, next, done, hread, h⟩ := memoryPage_spec hc hexact
    obtain rfl : page = l.take correlationPageSize := h.first.eq ((isPage_take hl).congr hmem)
    have hsize := length_take (i := correlationPageSize) (l := l)
    unfold follow
    rw [hread]
    cases done with
    | true =>
      have hshort := h.done_iff.1 rfl
      rw [take_of_length_le (by omega)]
    | false =>
      have hfull : ¬ (l.take correlationPageSize).length < correlationPageSize :=
        fun hlt => nomatch h.done_iff.2 hlt
      have hpos : 0 < correlationPageSize := by decide
      obtain ⟨last, hlast⟩ : ∃ last, (l.take correlationPageSize).getLast? = some last :=
        ⟨_, getLast?_eq_some_getLast (ne_nil_of_length_pos (by omega))⟩
      have hafter : next.afterID = last := by rw [h.after, hlast, getD_some]
      have hrest : ∀ id, id ∈ l.drop correlationPageSize ↔ InReach next stored id := by
        intro id
        obtain ⟨-, hlt, -⟩ := h.first.sound last (mem_of_getLast? hlast)
        have hup : upperOf next stored = upperOf c stored := by
          rw [← h.upper, upperOf, h.started, if_pos rfl]
        rw [mem_drop_iff hl hlast, hmem, inReach_iff, inReach_iff, hafter, hup]
        exact ⟨fun ⟨⟨hs, _, hle⟩, hid⟩ => ⟨hs, hid, hle⟩,
          fun ⟨hs, hid, hle⟩ => ⟨⟨hs, hlt.trans hid, hle⟩, hid⟩⟩
      simp only
      rw [ih (h.valid hc hexact hlast) (hl.sublist (drop_sublist _ _)) hrest
        (by rw [length_drop]; omega), map_some, take_append_drop]

/-- Both stores read the same page, and the pages together visit every id up to the bound of
the first one exactly once. -/
theorem correlation_pages_refine (hexact : ∀ id ∈ stored, correlationExactID id = true)
    (hsame : ∀ id, id ∈ stored ↔ id ∈ rows) (hrows : rows.Nodup) :
    memoryPage c stored = readCorrelationPage c rows ∧ (validateCorrelationCursor c = .ok () →
        (∃ page next done, memoryPage c stored = .ok (page, next, done) ∧
          PageSpec c stored page next done) ∧
        ∀ fuel, stored.length < fuel → ∃ l, follow stored fuel c = some l ∧
          l.Pairwise (· < ·) ∧ ∀ id, id ∈ l ↔ id ∈ stored ∧ c.afterID < id ∧
            id ≤ upperOf c stored) := by
  have hexact' : ∀ id ∈ rows, correlationExactID id = true := fun id hid =>
    hexact id ((hsame id).2 hid)
  cases hc : validateCorrelationCursor c with
  | error e =>
    refine ⟨?_, fun h => nomatch h⟩
    unfold memoryPage readCorrelationPage
    rw [hc]
    rfl
  | ok u =>
    obtain ⟨page, next, done, hread, h⟩ := memoryPage_spec hc hexact
    obtain ⟨page', next', done', hread', h'⟩ := readCorrelationPage_spec hc hexact' hrows
    refine ⟨?_, fun _ => ⟨⟨page, next, done, hread, h⟩, fun fuel hfuel => ?_⟩⟩
    · rw [hread, hread']
      exact congrArg _ (h.unique (h'.of_same hsame))
    let reach := stored.filter fun id => decide (c.afterID < id ∧ id ≤ upperOf c stored)
    have hsorted := sorted_of_nodup (nodup_dedup reach)
    have hmem : ∀ id, id ∈ reach.dedup.insertionSort (· ≤ ·) ↔
        id ∈ stored ∧ c.afterID < id ∧ id ≤ upperOf c stored := by
      intro id
      rw [(perm_insertionSort _ _).mem_iff, mem_dedup, mem_filter, decide_eq_true_eq]
    have hlen : (reach.dedup.insertionSort (· ≤ ·)).length ≤ stored.length := by
      rw [(perm_insertionSort _ _).length_eq]
      exact ((dedup_sublist _).length_le).trans (length_filter_le _ _)
    exact ⟨_, follow_eq hc hexact hsorted (fun id => (hmem id).trans inReach_iff.symm)
      (by omega), hsorted, hmem⟩

theorem correlation_pages_refine_two_ids :
    memoryPage {} ["b", "a"] = readCorrelationPage {} ["a", "b"] ∧
      ∃ l, follow ["b", "a"] 3 {} = some l ∧ ∀ id, id ∈ l ↔ id ∈ ["b", "a"] := by
  have hsame : ∀ id, id ∈ ["b", "a"] ↔ id ∈ ["a", "b"] := by simp [or_comm]
  obtain ⟨hread, hrest⟩ := correlation_pages_refine (c := {}) (by decide +kernel) hsame (by decide)
  obtain ⟨l, hl, -, hmem⟩ := (hrest rfl).2 3 (by decide)
  refine ⟨hread, l, hl, fun id => (hmem id).trans (and_iff_left_of_imp fun hid => ?_)⟩
  rcases mem_pair.1 hid with rfl | rfl
  all_goals decide +kernel

end

end LabTether.CorrelationPage
