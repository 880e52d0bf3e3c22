import Mathlib

/-!
Terminal scrollback (`internal/terminal/scrollback.go`, `scrollback_merge.go`): the ring buffer
of the last lines of a byte stream, and the merge of stored scrollback with a capture. Both
loops look for the next newline; here they go byte by byte and carry the line that has been read
so far.
-/
namespace LabTether.Scrollback

open List

abbrev Bytes := List UInt8

def newline : UInt8 := 10

section

structure RingBuffer where
  lines : List Bytes
  (maxLines head count : ℕ)
  partialLine : Bytes

open RingBuffer

def newRingBuffer (maxLines : ℕ) : RingBuffer := ⟨replicate maxLines [], maxLines, 0, 0, []⟩

def RingBuffer.pushLine (rb : RingBuffer) (line : Bytes) : RingBuffer :=
  { rb with
    lines := rb.lines.set rb.head line
    head := (rb.head + 1) % rb.maxLines
    count := if rb.count < rb.maxLines then rb.count + 1 else rb.count }

/-- The loop of `writeLocked`; `line` has been read and has no newline. -/
def RingBuffer.writeFrom (rb : RingBuffer) (line : Bytes) : Bytes → RingBuffer
  | [] => { rb with partialLine := line }
  | b :: data =>
    if b = newline then (rb.pushLine (line ++ [b])).writeFrom [] data
    else rb.writeFrom (line ++ [b]) data

def RingBuffer.write (rb : RingBuffer) (p : Bytes) : RingBuffer :=
  { rb with partialLine := [] }.writeFrom [] (rb.partialLine ++ p)

def RingBuffer.stored (rb : RingBuffer) : List Bytes :=
  let start := if rb.count = rb.maxLines then rb.head else 0
  (range rb.count).map fun i => rb.lines.getD ((start + i) % rb.maxLines) []

def RingBuffer.snapshot (rb : RingBuffer) : Bytes :=
  if rb.count = 0 ∧ rb.partialLine = [] then [] else rb.stored.flatten ++ rb.partialLine

def RingBuffer.byteSize (rb : RingBuffer) : ℕ :=
  rb.partialLine.length + (rb.stored.map length).sum

/-- The complete lines of a stream and its unfinished last line, one more byte. -/
def feed (s : List Bytes × Bytes) (b : UInt8) : List Bytes × Bytes :=
  if b = newline then (s.1 ++ [s.2 ++ [b]], []) else (s.1, s.2 ++ [b])

def completeLines (stream : Bytes) : List Bytes := (stream.foldl feed ([], [])).1

def unfinished (stream : Bytes) : Bytes := (stream.foldl feed ([], [])).2

theorem feed_plain (ls : List Bytes) {r : Bytes} (hr : newline ∉ r) (l : Bytes) :
    r.foldl feed (ls, l) = (ls, l ++ r) := by
  induction r generalizing l with
  | nil => simp
  | cons b r ih =>
    obtain ⟨hb, hr⟩ := not_or.1 (mem_cons.not.1 hr)
    rw [foldl_cons, feed, if_neg (Ne.symm hb), ih hr]
    simp

variable {s : List Bytes × Bytes}

theorem feed_unfinished (hs : newline ∉ s.2) (p : Bytes) :
    newline ∉ (p.foldl feed s).2 := by
  induction p generalizing s with
  | nil => exact hs
  | cons b p ih =>
    refine ih ?_
    unfold feed
    split_ifs with hb
    · exact not_mem_nil
    · simp [hs, Ne.symm hb]

theorem feed_flatten (s : List Bytes × Bytes) (p : Bytes) :
    (p.foldl feed s).1.flatten ++ (p.foldl feed s).2 = s.1.flatten ++ s.2 ++ p := by
  induction p generalizing s with
  | nil => simp
  | cons b p ih =>
    rw [foldl_cons, ih, feed]
    split_ifs <;> simp

variable {N : ℕ} {rb : RingBuffer} {ls : List Bytes}

/-- The buffer has the last `N` of the lines, line `i` at `i % N`. -/
structure Represents (N : ℕ) (rb : RingBuffer) (ls : List Bytes) : Prop where
  maxLines : rb.maxLines = N
  length : rb.lines.length = N
  count : rb.count = min N ls.length
  head : rb.head = ls.length % N
  lines : ∀ i, i < ls.length → ls.length ≤ i + N → rb.lines[i % N]? = ls[i]?

theorem Represents.pushLine (h : Represents N rb ls) (hN : 1 ≤ N) (line : Bytes) :
    Represents N (rb.pushLine line) (ls ++ [line]) := by
  have hhead : rb.head < rb.lines.length := by
    rw [h.head, h.length]
    exact Nat.mod_lt _ hN
  refine ⟨h.maxLines, by simp [RingBuffer.pushLine, h.length], ?_, ?_, fun i hi hlate => ?_⟩
  · simp only [RingBuffer.pushLine, h.count, h.maxLines, length_append, length_singleton]
    split_ifs <;> omega
  · simp [RingBuffer.pushLine, h.head, h.maxLines]
  rw [length_append, length_singleton] at hi hlate
  rcases Nat.lt_succ_iff_lt_or_eq.1 hi with hlt | rfl
  · -- an older line is at another index, since it is less than `N` lines back
    have hne : rb.head ≠ i % N := by
      rw [h.head]
      intro heq
      have hdvd : N ∣ ls.length - i := (Nat.modEq_iff_dvd' hlt.le).1 heq.symm
      have := Nat.le_of_dvd (by omega) hdvd
      omega
    rw [getElem?_append_left hlt, ← h.lines i hlt (by omega)]
    exact getElem?_set_ne hne
  · rw [getElem?_concat_length, ← h.head]
    exact getElem?_set_self hhead

theorem Represents.writeFrom (h : Represents N rb ls) (hN : 1 ≤ N) (line data : Bytes) :
    Represents N (rb.writeFrom line data) (data.foldl feed (ls, line)).1 ∧
      (rb.writeFrom line data).partialLine = (data.foldl feed (ls, line)).2 := by
  induction data generalizing rb ls line with
  | nil => exact ⟨{ h with }, rfl⟩
  | cons b data ih =>
    rw [foldl_cons, writeFrom, feed]
    split_ifs
    · exact ih (h.pushLine hN _) []
    · exact ih h _

theorem Represents.stored (h : Represents N rb ls) : rb.stored = ls.drop (ls.length - N) := by
  refine ext_getElem? fun i => ?_
  rw [RingBuffer.stored, getElem?_map, getElem?_drop]
  have hcount := h.count
  by_cases hi : i < rb.count
  · have hline := h.lines (ls.length - N + i) (by omega) (by omega)
    have hmod : ((if rb.count = rb.maxLines then rb.head else 0) + i) % rb.maxLines =
        (ls.length - N + i) % N := by
      rw [h.maxLines, h.head]
      split_ifs with hfull
      · rw [Nat.mod_add_mod]
        conv_rhs => rw [← Nat.add_mod_right]
        congr 1
        omega
      · congr 1
        omega
    rw [getElem?_range hi]
    simp only [Option.map_some, hmod, getD_eq_getElem?_getD, hline]
    rw [getElem?_eq_getElem (by omega), Option.getD_some]
  · rw [getElem?_eq_none (by simpa using hi), getElem?_eq_none (by omega)]
    rfl

theorem represents_new (N : ℕ) : Represents N (newRingBuffer N) [] :=
  ⟨rfl, length_replicate, (Nat.min_zero N).symm, (Nat.zero_mod N).symm,
    fun _ h => absurd h (Nat.not_lt_zero _)⟩

theorem Represents.writes (h : Represents N rb s.1) (hN : 1 ≤ N) (hline : rb.partialLine = s.2)
    (hs : newline ∉ s.2) (ws : List Bytes) :
    Represents N (ws.foldl write rb) (ws.flatten.foldl feed s).1 ∧
      (ws.foldl write rb).partialLine = (ws.flatten.foldl feed s).2 := by
  induction ws generalizing rb s with
  | nil => exact ⟨h, hline⟩
  | cons p ws ih =>
    have hrb : Represents N { rb with partialLine := [] } s.1 := { h with }
    have hwrite := hrb.writeFrom hN [] (rb.partialLine ++ p)
    -- what was unfinished is read again, in front of the new bytes
    rw [hline, foldl_append, feed_plain _ hs, nil_append] at hwrite
    rw [flatten_cons, foldl_append, foldl_cons, write, hline]
    exact ih hwrite.1 hwrite.2 (feed_unfinished hs p)

/-- Whatever the chunks, the buffer has the last `N` complete lines and the unfinished one. -/
theorem ring_buffer_keeps_last_lines (N : ℕ) (hN : 1 ≤ N) (writes : List Bytes) :
    let rb := writes.foldl write (newRingBuffer N)
    let stream := writes.flatten
    let ls := completeLines stream
    ls.flatten ++ unfinished stream = stream ∧ newline ∉ unfinished stream ∧
      rb.snapshot = (ls.drop (ls.length - N)).flatten ++ unfinished stream ∧
      rb.count = min N ls.length ∧ rb.byteSize = rb.snapshot.length := by
  intro rb stream ls
  obtain ⟨hlines, hline⟩ : Represents N rb ls ∧ rb.partialLine = unfinished stream :=
    (represents_new N).writes hN (s := ([], [])) rfl not_mem_nil writes
  have hsnapshot : rb.snapshot = (ls.drop (ls.length - N)).flatten ++ unfinished stream := by
    rw [snapshot, hlines.stored, hline]
    split_ifs with hempty
    · have hnone : ls.length = 0 := by
        have := hlines.count
        omega
      rw [hempty.2, length_eq_zero_iff.1 hnone, drop_nil]
      rfl
    · rfl
  refine ⟨(feed_flatten ([], []) stream).trans (nil_append _), feed_unfinished not_mem_nil _,
    hsnapshot, hlines.count, ?_⟩
  rw [hsnapshot, byteSize, hlines.stored, hline, length_append,
    length_flatten, Nat.add_comm]

theorem ring_buffer_keeps_two_lines :
    (([[97, 10, 98], [10, 99], [10, 100]] : List Bytes).foldl write
      (newRingBuffer 2)).snapshot = [98, 10, 99, 10, 100] :=
  (ring_buffer_keeps_last_lines 2 (by decide) [[97, 10, 98], [10, 99], [10, 100]]).2.2.1.trans
    (by decide)

end

def splitFrom (line : Bytes) : Bytes → List Bytes
  | [] => if line = [] then [] else [line]
  | b :: data =>
    if b = newline then (line ++ [b]) :: splitFrom [] data else splitFrom (line ++ [b]) data

def splitLines (data : Bytes) : List Bytes := splitFrom [] data

def isParameter (b : UInt8) : Bool := (48 ≤ b && b ≤ 57) || b == 59

def isLetter (b : UInt8) : Bool := (97 ≤ b && b ≤ 122) || (65 ≤ b && b ≤ 90)

/-- What is left after a match of `\x1b\[[0-9;]*[a-zA-Z]` at the front. -/
def afterANSI : Bytes → Option Bytes
  | 27 :: 91 :: rest =>
    match rest.dropWhile isParameter with
    | b :: rest => if isLetter b then some rest else none
    | [] => none
  | _ => none

/-- `StripANSI`; `fuel` bounds the matches, and the length of the line is enough. -/
def stripFrom : ℕ → Bytes → Bytes
  | 0, line => line
  | _, [] => []
  | fuel + 1, b :: line =>
    match afterANSI (b :: line) with
    | some rest => stripFrom fuel rest
    | none => b :: stripFrom fuel line

def stripANSI (line : Bytes) : Bytes := stripFrom line.length line

def trimRight (line : Bytes) : Bytes := line.rdropWhile fun b => b == 13 || b == 10

def slicesEqual (a b : List Bytes) : Bool := decide (a.map trimRight = b.map trimRight)

def mergeOverlapWindow : ℕ := 100

/-- The search for the longest match, downwards from `tryLen`. -/
def matchLen (storedPlain tmuxPlain : List Bytes) : ℕ → ℕ
  | 0 => 0
  | tryLen + 1 =>
    if slicesEqual (storedPlain.drop (storedPlain.length - (tryLen + 1)))
      (tmuxPlain.take (tryLen + 1)) then tryLen + 1
    else matchLen storedPlain tmuxPlain tryLen

/-- `--- reconnected ---` and a newline. -/
def marker : Bytes := "--- reconnected ---\n".toList.map fun c => UInt8.ofNat c.toNat

/-- The overlap that the merge finds in its windows. -/
def found (storedLines tmuxLines : List Bytes) : ℕ :=
  let storedPlain := (storedLines.drop (storedLines.length - mergeOverlapWindow)).map stripANSI
  let tmuxPlain := (tmuxLines.take mergeOverlapWindow).map stripANSI
  matchLen storedPlain tmuxPlain (min storedPlain.length tmuxPlain.length)

def mergeScrollback (stored tmuxCapture : Bytes) : Bytes :=
  if tmuxCapture = [] then stored
  else if stored = [] then tmuxCapture
  else
    let tmuxLines := splitLines tmuxCapture
    let m := found (splitLines stored) tmuxLines
    if m = 0 then stored ++ marker ++ tmuxCapture else stored ++ (tmuxLines.drop m).flatten

variable {line a b c s : Bytes}

theorem splitFrom_flatten (line a : Bytes) : (splitFrom line a).flatten = line ++ a := by
  induction a generalizing line with
  | nil =>
    rw [splitFrom]
    split_ifs with hline <;> simp [hline]
  | cons b a ih =>
    rw [splitFrom]
    split_ifs <;> simp [ih]

theorem splitFrom_ne_nil (line a : Bytes) : ∀ l ∈ splitFrom line a, l ≠ [] := by
  induction a generalizing line with
  | nil =>
    rw [splitFrom]
    split_ifs with hline <;> simp [hline]
  | cons b a ih =>
    rw [splitFrom]
    split_ifs
    · exact forall_mem_cons.2 ⟨by simp, ih []⟩
    · exact ih _

theorem splitFrom_append (ha : a.getLast? = some newline) (line b : Bytes) :
    splitFrom line (a ++ b) = splitFrom line a ++ splitLines b := by
  induction a generalizing line with
  | nil => cases ha
  | cons x a ih =>
    rw [cons_append, splitFrom, splitFrom]
    rcases a with _ | ⟨y, a⟩
    · have hx : x = newline := by simpa using ha
      simp [hx, splitFrom, splitLines]
    rw [getLast?_cons_cons] at ha
    split_ifs
    · rw [ih ha, cons_append]
    · exact ih ha _

theorem length_splitFrom (hb : b ≠ []) (line line' : Bytes) :
    (splitFrom line b).length = (splitFrom line' b).length := by
  induction b generalizing line line' with
  | nil => exact absurd rfl hb
  | cons x b ih =>
    rw [splitFrom, splitFrom]
    split_ifs
    · rfl
    · cases b with
      | nil => simp [splitFrom]
      | cons y b => exact ih (by simp) _ _

theorem length_splitFrom_append (ha : a.getLast? ≠ some newline) (hb : b ≠ []) (line : Bytes)
    (hline : line ≠ [] ∨ a ≠ []) :
    (splitFrom line (a ++ b)).length + 1 = (splitFrom line a).length + (splitLines b).length := by
  induction a generalizing line with
  | nil =>
    rw [nil_append, length_splitFrom hb line [], splitFrom, if_neg (by simpa using hline),
      length_singleton, splitLines, Nat.add_comm]
  | cons x a ih =>
    have ha' : a.getLast? ≠ some newline := by
      cases a with
      | nil => simp
      | cons y a => rwa [getLast?_cons_cons] at ha
    rw [cons_append, splitFrom, splitFrom]
    split_ifs with hx
    · have hne : a ≠ [] := by
        rintro rfl
        exact ha (by simp [hx])
      have := ih ha' [] (.inr hne)
      simp only [length_cons]
      omega
    · exact ih ha' _ (.inl (by simp))

theorem splitFrom_drop (line a : Bytes) (m : ℕ) :
    splitLines ((splitFrom line a).drop (m + 1)).flatten = (splitFrom line a).drop (m + 1) := by
  induction a generalizing line m with
  | nil =>
    rw [splitFrom]
    split_ifs <;> simp [splitLines, splitFrom]
  | cons b a ih =>
    rw [splitFrom]
    split_ifs
    · cases m with
      | zero => simp [splitFrom_flatten, splitLines]
      | succ m => exact ih [] m
    · exact ih _ m

/-- A line as the comparison sees it. -/
def plain (line : Bytes) : Bytes := trimRight (stripANSI line)

/-- The last `m` of the lines are the first `m` of the others. -/
def Overlap (ls ls' : List Bytes) (m : ℕ) : Prop :=
  m ≤ ls.length ∧ m ≤ ls'.length ∧ (ls.drop (ls.length - m)).map plain = (ls'.take m).map plain

def IsLongest (ls ls' : List Bytes) (m : ℕ) : Prop :=
  Overlap ls ls' m ∧ ∀ k, Overlap ls ls' k → k ≤ m

/-- The merge shows every line once, and the same capture adds nothing again. -/
structure ShowsOnce (s c : Bytes) : Prop where
  lines : ∃ m, IsLongest (splitLines s) (splitLines c) m ∧
    (splitLines (mergeScrollback s c)).map plain =
      (splitLines s ++ (if m = 0 ∧ s ≠ [] ∧ c ≠ [] then [marker] else []) ++
        (splitLines c).drop m).map plain
  again : mergeScrollback (mergeScrollback s c) c = mergeScrollback s c

/-- The capture fits into the window, and the stored scrollback ends with a whole line or has the
capture at its end already. -/
def Mergeable (s c : Bytes) : Prop :=
  c = [] ∨ ((splitLines c).length ≤ mergeOverlapWindow ∧ (s = [] ∨ s.getLast? = some newline ∨
      (splitLines c).map plain <:+ (splitLines s).map plain))

theorem matchLen_spec (p q : List Bytes) (n : ℕ) : matchLen p q n ≤ n ∧
      (matchLen p q n = 0 ∨ slicesEqual (p.drop (p.length - matchLen p q n))
        (q.take (matchLen p q n)) = true) ∧
      ∀ k, matchLen p q n < k → k ≤ n → slicesEqual (p.drop (p.length - k)) (q.take k) = false := by
  fun_induction matchLen p q n
  case case1 => exact ⟨le_rfl, .inl rfl, fun k hk hk' => by omega⟩
  case case2 heq => exact ⟨le_rfl, .inr heq, fun k hk hk' => by omega⟩
  case case3 heq ih =>
    refine ⟨Nat.le_succ_of_le ih.1, ih.2.1, fun k hk hk' => ?_⟩
    rcases Nat.lt_succ_iff_lt_or_eq.1 (Nat.lt_succ_of_le hk') with hlt | rfl
    · exact ih.2.2 k hk (Nat.le_of_lt_succ hlt)
    · simpa using heq

variable {ls ls' : List Bytes}

theorem slicesEqual_windows {k : ℕ} (hk : k ≤ mergeOverlapWindow) (hls : k ≤ ls.length) :
    let p := (ls.drop (ls.length - mergeOverlapWindow)).map stripANSI
    slicesEqual (p.drop (p.length - k)) (((ls'.take mergeOverlapWindow).map stripANSI).take k) =
      decide ((ls.drop (ls.length - k)).map plain = (ls'.take k).map plain) := by
  have hdrop : ls.length - mergeOverlapWindow +
      (ls.length - (ls.length - mergeOverlapWindow) - k) = ls.length - k := by omega
  simp only [slicesEqual, length_map, length_drop, ← map_drop, ← map_take,
    drop_drop, take_take, hdrop, Nat.min_eq_left hk, map_map]
  rfl

/-- The merge finds the longest overlap that fits into its windows. -/
theorem found_spec (ls ls' : List Bytes) :
    found ls ls' ≤ mergeOverlapWindow ∧ Overlap ls ls' (found ls ls') ∧
      ∀ k, k ≤ mergeOverlapWindow → Overlap ls ls' k → k ≤ found ls ls' := by
  obtain ⟨hle, hfound, hmax⟩ := matchLen_spec
    ((ls.drop (ls.length - mergeOverlapWindow)).map stripANSI)
    ((ls'.take mergeOverlapWindow).map stripANSI)
    (min ((ls.drop (ls.length - mergeOverlapWindow)).map stripANSI).length
      ((ls'.take mergeOverlapWindow).map stripANSI).length)
  change found ls ls' ≤ _ at hle
  change found ls ls' = 0 ∨ _ at hfound
  simp only [length_map, length_drop, length_take] at hle
  refine ⟨by omega, ⟨by omega, by omega, ?_⟩, fun k hfit hk => ?_⟩
  · rcases hfound with hzero | heq
    · simp [hzero]
    · exact of_decide_eq_true ((slicesEqual_windows (by omega) (by omega)).symm.trans heq)
  by_contra hlt
  obtain ⟨hk₁, hk₂, heq⟩ := hk
  have hno := hmax k (Nat.lt_of_not_le hlt) (by simp; omega)
  rw [slicesEqual_windows hfit hk₁] at hno
  exact of_decide_eq_false hno heq

theorem found_isLongest (ls : List Bytes) (hls' : ls'.length ≤ mergeOverlapWindow) :
    IsLongest ls ls' (found ls ls') := by
  obtain ⟨-, hover, hmax⟩ := found_spec ls ls'
  exact ⟨hover, fun k hk => hmax k (hk.2.1.trans hls') hk⟩

theorem IsLongest.unique {m m' : ℕ} (h : IsLongest ls ls' m) (h' : IsLongest ls ls' m') : m = m' :=
  Nat.le_antisymm (h'.2 m h.1) (h.2 m' h'.1)

/-- What the merge puts behind the stored bytes. -/
def added (s c : Bytes) : Bytes :=
  if found (splitLines s) (splitLines c) = 0 then marker ++ c
  else ((splitLines c).drop (found (splitLines s) (splitLines c))).flatten

theorem mergeScrollback_eq (hs : s ≠ []) (hc : c ≠ []) : mergeScrollback s c = s ++ added s c := by
  simp only [mergeScrollback, if_neg hs, if_neg hc, added]
  split_ifs <;> simp

theorem splitLines_added (s c : Bytes) :
    splitLines (added s c) = (if found (splitLines s) (splitLines c) = 0 then [marker] else []) ++
      (splitLines c).drop (found (splitLines s) (splitLines c)) := by
  rw [added]
  split_ifs with hzero
  · have hmarker : splitLines marker = [marker] := by decide
    rw [splitLines, splitFrom_append (by decide), hzero, drop_zero]
    exact congrArg (· ++ splitLines c) hmarker
  · obtain ⟨m, hm⟩ := Nat.exists_eq_succ_of_ne_zero hzero
    rw [hm]
    exact splitFrom_drop [] c m

theorem splitLines_ne_nil (hc : c ≠ []) : splitLines c ≠ [] := by
  intro h
  have hflat := splitFrom_flatten [] c
  rw [show splitFrom [] c = [] from h] at hflat
  exact hc hflat.symm

theorem added_eq_nil (hc : c ≠ []) :
    added s c = [] ↔ found (splitLines s) (splitLines c) = (splitLines c).length := by
  have hpos := length_pos_iff.2 (splitLines_ne_nil hc)
  have hle := (found_spec (splitLines s) (splitLines c)).2.1.2.1
  rw [added]
  split_ifs with hzero
  · simp only [hzero, append_eq_nil_iff, hc, and_false, false_iff]
    omega
  rw [flatten_eq_nil_iff]
  constructor
  · intro hnil
    by_contra hne
    obtain ⟨l, hl⟩ := exists_mem_of_length_pos
      (l := (splitLines c).drop (found (splitLines s) (splitLines c)))
      (by rw [length_drop]; omega)
    exact splitFrom_ne_nil [] c l (mem_of_mem_drop hl) (hnil l hl)
  · intro heq
    rw [heq, drop_length]
    exact fun _ h => absurd h not_mem_nil

/-- A capture whose lines are there at the end adds nothing. -/
theorem found_of_suffix (hc : (splitLines c).length ≤ mergeOverlapWindow)
    (h : (splitLines c).map plain <:+ (splitLines s).map plain) :
    found (splitLines s) (splitLines c) = (splitLines c).length := by
  refine Nat.le_antisymm (found_spec _ _).2.1.2.1 ((found_isLongest _ hc).2 _ ⟨?_, le_rfl, ?_⟩)
  · simpa using h.length_le
  · rw [take_length, map_drop]
    simpa using (suffix_iff_eq_drop.1 h).symm

theorem mergeScrollback_of_suffix (hc : (splitLines c).length ≤ mergeOverlapWindow) (hs : s ≠ [])
    (h : (splitLines c).map plain <:+ (splitLines s).map plain) : mergeScrollback s c = s := by
  by_cases hnil : c = []
  · rw [mergeScrollback, if_pos hnil]
  · rw [mergeScrollback_eq hs hnil, (added_eq_nil hnil).2 (found_of_suffix hc h), append_nil]

theorem suffix_of_overlap {m : ℕ} (h : Overlap ls ls' m) (between : List Bytes)
    (hb : m = 0 ∨ between = []) : ls'.map plain <:+ (ls ++ between ++ ls'.drop m).map plain := by
  rcases hb with rfl | rfl
  · rw [drop_zero, map_append]
    exact suffix_append _ _
  refine ⟨(ls.take (ls.length - m)).map plain, ?_⟩
  have hsplit : ls'.map plain = (ls.drop (ls.length - m)).map plain ++ (ls'.drop m).map plain := by
    rw [h.2.2, ← map_append, take_append_drop]
  rw [hsplit, append_nil, map_append, ← append_assoc, ← map_append, take_append_drop]

/-- The merge does what it is for exactly on captures that fit and whole stored lines. -/
theorem merge_shows_lines_once_iff (s c : Bytes) : ShowsOnce s c ↔ Mergeable s c := by
  by_cases hc : c = []
  · subst hc
    refine ⟨fun _ => .inl rfl, fun _ => ⟨⟨0, ⟨⟨Nat.zero_le _, Nat.zero_le _, by simp⟩, ?_⟩, ?_⟩, ?_⟩⟩
    · exact fun k hk => hk.2.1
    · simp [mergeScrollback, splitLines, splitFrom]
    · simp [mergeScrollback]
  by_cases hs : s = []
  · subst hs
    have hmerge : mergeScrollback [] c = c := by simp [mergeScrollback]
    constructor
    · intro h
      refine .inr ⟨?_, .inl rfl⟩
      have hagain := h.again
      rw [hmerge, mergeScrollback_eq hc hc, append_right_eq_self, added_eq_nil hc] at hagain
      exact hagain ▸ (found_spec _ _).1
    · rintro (hnil | ⟨hfit, -⟩)
      · exact absurd hnil hc
      refine ⟨⟨0, ⟨⟨Nat.zero_le _, Nat.zero_le _, by simp⟩, fun k hk => hk.1⟩, ?_⟩, ?_⟩
      · simp [hmerge, splitLines, splitFrom]
      · rw [hmerge]
        exact mergeScrollback_of_suffix hfit hc (suffix_refl _)
  have hmerge := mergeScrollback_eq hs hc
  have hlines := splitLines_added s c
  constructor
  · intro h
    have hagain := h.again
    rw [mergeScrollback_eq (by simp [hmerge, hs]) hc, append_right_eq_self,
      added_eq_nil hc] at hagain
    have hfit : (splitLines c).length ≤ mergeOverlapWindow := hagain ▸ (found_spec _ _).1
    refine .inr ⟨hfit, .inr ?_⟩
    by_cases hend : s.getLast? = some newline
    · exact .inl hend
    obtain ⟨m, hm, hshown⟩ := h.lines
    obtain rfl := hm.unique (found_isLongest _ hfit)
    by_cases hadded : added s c = []
    · have hwhole := (added_eq_nil hc).1 hadded
      have hover := (found_isLongest (splitLines s) hfit).1.2.2
      rw [hwhole, take_length] at hover
      exact .inr (hover ▸ (drop_suffix _ _).map plain)
    · -- the last stored line and the first added one have become one line
      have hjoined := length_splitFrom_append hend hadded [] (.inr hs)
      have hlength := congrArg length hshown
      simp only [hs, hc, ne_eq, not_false_eq_true, and_true, append_assoc, ← hlines, hmerge,
        length_map, length_append] at hlength
      change (splitLines (s ++ added s c)).length + 1 = _ at hjoined
      rw [hlength] at hjoined
      change _ = (splitLines s).length + _ at hjoined
      omega
  · rintro (hnil | ⟨hfit, hs' | hend | hsuffix⟩)
    · exact absurd hnil hc
    · exact absurd hs' hs
    · have hlongest := found_isLongest (splitLines s) hfit
      have hsplit : splitLines (mergeScrollback s c) = splitLines s ++ splitLines (added s c) := by
        rw [hmerge]
        exact splitFrom_append hend [] _
      refine ⟨⟨_, hlongest, ?_⟩, ?_⟩
      · simp [hs, hc, hsplit, hlines]
      refine mergeScrollback_of_suffix hfit (by simp [hmerge, hs]) ?_
      rw [hsplit, hlines, ← append_assoc]
      refine suffix_of_overlap hlongest.1 _ ?_
      split_ifs with hzero
      · exact .inl hzero
      · exact .inr rfl
    · have hmerge := mergeScrollback_of_suffix hfit hs hsuffix
      have hfound := found_of_suffix hfit hsuffix
      refine ⟨⟨_, found_isLongest _ hfit, ?_⟩, by rw [hmerge, hmerge]⟩
      have hpos := length_pos_iff.2 (splitLines_ne_nil hc)
      rw [hmerge, hfound, drop_length, if_neg (by omega), append_nil, append_nil]

/-- A screen of 101 lines is appended again each time it is captured. -/
theorem long_capture_appended_again :
    let screen : Bytes := (range 101).flatMap fun i => [UInt8.ofNat (i + 33), newline]
    ¬ ShowsOnce screen screen :=
  fun h => absurd h.again (by decide +kernel)

end LabTether.Scrollback
