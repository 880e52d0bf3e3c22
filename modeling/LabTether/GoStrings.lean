import Mathlib

/-!
The string functions of the Go standard library that the hub calls, on the
characters of a string: `strings.TrimSpace` (Unicode white space at both ends), cutting a
string at a byte length, and `strings.ToLower` as far as its result is compared with ASCII
letters.
-/
namespace LabTether.GoStrings

open List

variable (c : Char)

def isSpace : Bool :=
  let n := c.toNat
  (9 ≤ n && n ≤ 13) || n == 0x20 || n == 0x85 || n == 0xA0 || n == 0x1680 ||
    (0x2000 ≤ n && n ≤ 0x200A) || n == 0x2028 || n == 0x2029 || n == 0x202F ||
    n == 0x205F || n == 0x3000

variable (cs : List Char)

def trimSpaceList : List Char :=
  ((cs.dropWhile isSpace).reverse.dropWhile isSpace).reverse

variable (s : String)

def trimSpace : String := String.ofList (trimSpaceList s.toList)

theorem dropWhile_eq_self_of_prefix {p : Char → Bool} {t l : List Char} (hpre : t <+: l)
    (h : l.dropWhile p = l) : t.dropWhile p = t := by
  rcases t with _ | ⟨c, t⟩
  · rfl
  obtain ⟨rest, rfl⟩ := hpre
  have hc : ¬ p c = true := dropWhile_eq_self_iff.1 h (by simp)
  exact dropWhile_cons_of_neg hc

theorem trimSpaceList_idem : trimSpaceList (trimSpaceList cs) = trimSpaceList cs := by
  have hleft : ((cs.dropWhile isSpace).rdropWhile isSpace).dropWhile isSpace =
      (cs.dropWhile isSpace).rdropWhile isSpace :=
    dropWhile_eq_self_of_prefix ( rdropWhile_prefix isSpace _) (dropWhile_idempotent isSpace cs)
  show (((cs.dropWhile isSpace).rdropWhile isSpace).dropWhile isSpace).rdropWhile isSpace =
    (cs.dropWhile isSpace).rdropWhile isSpace
  rw [hleft, rdropWhile_idempotent]

@[simp] theorem trimSpace_trimSpace : trimSpace (trimSpace s) = trimSpace s := by
  simp [trimSpace, trimSpaceList_idem]

theorem trimSpaceList_sublist : (trimSpaceList cs).Sublist cs := by
  have hright : (trimSpaceList cs).Sublist (cs.dropWhile isSpace) := reverse_sublist.1 (by
      unfold trimSpaceList
      rw [reverse_reverse]
      exact dropWhile_sublist _)
  exact hright.trans (dropWhile_sublist _)

theorem mem_trimSpace {s : String} {c : Char} (h : c ∈ (trimSpace s).toList) : c ∈ s.toList := by
  rw [trimSpace, String.toList_ofList] at h
  exact (trimSpaceList_sublist s.toList).subset h

theorem mem_trimSpace_of_not_isSpace {s : String} {c : Char} (h : c ∈ s.toList)
    (hc : isSpace c = false) : c ∈ (trimSpace s).toList := by
  have hdrop : ∀ l : List Char, c ∈ l → c ∈ l.dropWhile isSpace := by
    intro l hl
    rw [← takeWhile_append_dropWhile (p := isSpace) (l := l), mem_append] at hl
    refine hl.resolve_left fun htake => ?_
    rw [mem_takeWhile_imp htake] at hc
    cases hc
  rw [trimSpace, String.toList_ofList, trimSpaceList, mem_reverse]
  exact hdrop _ (mem_reverse.2 (hdrop _ h))

theorem utf8ByteSize_eq_sum : s.utf8ByteSize = (s.toList.map Char.utf8Size).sum := by
  have hsize : s.utf8ByteSize = s.toList.utf8Encode.size := by
    rw [String.utf8Encode_toList]
    rfl
  rw [hsize, List.utf8Encode, size_toByteArray, length_flatMap]
  simp

theorem length_le_utf8ByteSize : s.toList.length ≤ s.utf8ByteSize := by
  have hsum := length_le_sum_of_one_le (s.toList.map Char.utf8Size) (by
    simp [Nat.one_le_iff_ne_zero, (Char.utf8Size_pos _).ne'])
  rwa [length_map, ← utf8ByteSize_eq_sum] at hsum

theorem utf8ByteSize_trimSpace_le : (trimSpace s).utf8ByteSize ≤ s.utf8ByteSize := by
  rw [utf8ByteSize_eq_sum, utf8ByteSize_eq_sum, trimSpace, String.toList_ofList]
  exact ((trimSpaceList_sublist s.toList).map _).sum_le_sum (by simp)

/-- `unicode.ToLower` where it gives an ASCII letter: the ASCII capitals, the dotted capital
I and the Kelvin sign. Other letters stay outside ASCII, and are kept. -/
def toLowerChar : Char :=
  if c.toNat = 0x130 then 'i' else if c.toNat = 0x212A then 'k' else c.toLower

def toLower : String := String.ofList (s.toList.map toLowerChar)

theorem toNat_toLower : c.toLower.toNat =
    if 65 ≤ c.toNat ∧ c.toNat ≤ 90 then c.toNat + 32 else c.toNat := by
  have hval : (c.val ≥ 'A'.val ∧ c.val ≤ 'Z'.val) ↔ 65 ≤ c.toNat ∧ c.toNat ≤ 90 := by
    rw [ge_iff_le, UInt32.le_iff_toNat_le, UInt32.le_iff_toNat_le]
    exact Iff.rfl
  unfold Char.toLower
  by_cases h : 65 ≤ c.toNat ∧ c.toNat ≤ 90
  · rw [dif_pos (hval.2 h), if_pos h]
    show (c.val + 32).toNat = c.val.toNat + 32
    have hle : c.val.toNat ≤ 90 := h.2
    rw [UInt32.toNat_add]
    show (c.val.toNat + 32) % 4294967296 = c.val.toNat + 32
    omega
  · rw [dif_neg (fun hv => h (hval.1 hv)), if_neg h]

theorem toNat_toLowerChar : (toLowerChar c).toNat =
    if c.toNat = 0x130 then 105 else if c.toNat = 0x212A then 107
    else if 65 ≤ c.toNat ∧ c.toNat ≤ 90 then c.toNat + 32 else c.toNat := by
  unfold toLowerChar
  split
  · rfl
  split
  · rfl
  · exact toNat_toLower c

theorem isSpace_toLowerChar : isSpace (toLowerChar c) = isSpace c := by
  unfold isSpace
  rw [toNat_toLowerChar, Bool.eq_iff_iff]
  simp only [Bool.or_eq_true, Bool.and_eq_true, decide_eq_true_eq, beq_iff_eq]
  split
  · omega
  split
  · omega
  · split <;> omega

/-- `strings.Trim` with the hyphen as its cutset. -/
def trimHyphens : List Char :=
  ((cs.dropWhile (· == '-')).reverse.dropWhile (· == '-')).reverse

/-- The first `n` bytes of a string; `none` when the cut falls inside a character, which
is then no longer a text value. -/
def takeBytes : ℕ → List Char → Option (List Char)
  | _, [] => some []
  | n, c :: cs =>
    if n = 0 then some []
    else if c.utf8Size ≤ n then (takeBytes (n - c.utf8Size) cs).map (c :: ·)
    else none

/-- `value[:limit]` when the string is longer than `limit` bytes. -/
def truncateBytes (limit : ℕ) (s : String) : Option String :=
  (takeBytes limit s.toList).map String.ofList

end LabTether.GoStrings
