import LabTether.RemoteWriteLayout

/-!
Label sets and their fingerprints. Sorting the labels of a map gives the same list for every
order of its entries, and the fingerprint, in which every name and value stands after its
length, tells different label sets apart.
-/
namespace LabTether.RemoteWrite

open Telemetry Sha256 List

section

variable {labels other : Labels}

def LabelLE (a b : String × String) : Prop :=
  a.1 = "__name__" ∨ (b.1 ≠ "__name__" ∧ a.1 ≤ b.1)
  deriving Decidable

instance : Std.Total LabelLE where
  total a b := by
    by_cases ha : a.1 = "__name__"
    · exact .inl (.inl ha)
    by_cases hb : b.1 = "__name__"
    · exact .inr (.inl hb)
    · rcases String.le_total a.1 b.1 with hab | hba
      · exact .inl (.inr ⟨hb, hab⟩)
      · exact .inr (.inr ⟨ha, hba⟩)

instance : IsTrans (String × String) LabelLE where
  trans a b c := by
    rintro (ha | ⟨hb, hab⟩) hbc
    · exact .inl ha
    · rcases hbc with hname | ⟨hc, hbc⟩
      · exact absurd hname hb
      · exact .inr ⟨hc, String.le_trans hab hbc⟩

theorem sortedLabels_pairwise (labels : Labels) : (sortedLabels labels).Pairwise LabelLE :=
  pairwise_insertionSort LabelLE labels

theorem sortedLabels_perm (labels : Labels) : (sortedLabels labels).Perm labels :=
  perm_insertionSort LabelLE labels

def IsMap (labels : Labels) : Prop := (labels.map Prod.fst).Nodup

theorem IsMap.eq_of_key (h : IsMap labels) {a b : String × String} (ha : a ∈ labels)
    (hb : b ∈ labels) (hkey : a.1 = b.1) : a = b :=
  inj_on_of_nodup_map h ha hb hkey

theorem sortedLabels_eq_of_perm (h : IsMap labels) (hperm : labels.Perm other) :
    sortedLabels labels = sortedLabels other := by
  apply List.Perm.eq_of_pairwise ?_ (sortedLabels_pairwise labels) (sortedLabels_pairwise other)
    (((sortedLabels_perm labels).trans hperm).trans (sortedLabels_perm other).symm)
  intro a b ha hb hab hba
  have hamem := (sortedLabels_perm labels).mem_iff.1 ha
  have hbmem := hperm.mem_iff.2 ((sortedLabels_perm other).mem_iff.1 hb)
  apply h.eq_of_key hamem hbmem
  rcases hab with hname | ⟨hb, hle⟩
  · rcases hba with hname' | ⟨hne, -⟩
    · rw [hname, hname']
    · exact absurd hname hne
  · rcases hba with hname' | ⟨-, hge⟩
    · exact absurd hname' hb
    · exact String.le_antisymm hle hge

/-- The metric name first, then the other names, each once and in order. -/
def NameFirst (labels : Labels) : Prop :=
  ∃ metric rest, labels = ("__name__", metric) :: rest ∧
    rest.Pairwise (fun a b => a.1 < b.1) ∧ ∀ e ∈ rest, e.1 ≠ "__name__"

theorem sortedLabels_nameFirst (h : IsMap labels) {metric : String}
    (hname : ("__name__", metric) ∈ labels) : NameFirst (sortedLabels labels) := by
  have hsorted := sortedLabels_pairwise labels
  have hkeys := ((sortedLabels_perm labels).map Prod.fst).nodup_iff.2 h
  have hmem := (sortedLabels_perm labels).mem_iff.2 hname
  rcases hlist : sortedLabels labels with _ | ⟨first, rest⟩
  · rw [hlist] at hmem
    cases hmem
  rw [hlist] at hsorted hkeys hmem
  obtain ⟨hfirst, hrest⟩ := pairwise_cons.1 hsorted
  obtain ⟨hfresh, hrestKeys⟩ := nodup_cons.1 hkeys
  have hhead : first.1 = "__name__" := by
    rcases mem_cons.1 hmem with heq | htail
    · rw [← heq]
    · rcases hfirst _ htail with hfirst | ⟨hne, -⟩
      · exact hfirst
      · exact absurd rfl hne
  have hothers : ∀ e ∈ rest, e.1 ≠ "__name__" := by
    intro e he heq
    exact hfresh (hhead ▸ heq ▸ mem_map_of_mem he)
  refine ⟨first.2, rest, by rw [← hhead], ?_, hothers⟩
  have hdistinct : rest.Pairwise fun a b => a.1 ≠ b.1 := pairwise_map.1 hrestKeys
  refine (hrest.and hdistinct).imp_of_mem fun {a b} ha _ hab => ?_
  rcases hab.1 with hname | ⟨-, hle⟩
  · exact absurd hname (hothers a ha)
  · by_contra hlt
    exact hab.2 (String.le_antisymm hle (String.not_lt.1 hlt))

end

theorem utf8Bytes_eq (s : String) : utf8Bytes s = (stringBytes s).map UInt8.toNat := by
  have hbytes : stringBytes s = s.toList.flatMap String.utf8EncodeChar := by
    unfold stringBytes
    rw [← String.utf8Encode_toList]
    exact toList_data_toByteArray
  rw [hbytes, map_flatMap]
  rfl

theorem length_utf8Bytes (s : String) : (utf8Bytes s).length = s.utf8ByteSize := by
  rw [utf8Bytes_eq, length_map, length_stringBytes]

theorem utf8Bytes_inj {s t : String} (h : utf8Bytes s = utf8Bytes t) : s = t := by
  rw [utf8Bytes_eq, utf8Bytes_eq] at h
  have hbytes := map_injective_iff.2 (fun a b => UInt8.toNat_inj.1) h
  have hdecode := congrArg decodeString hbytes
  rw [decodeString_stringBytes, decodeString_stringBytes] at hdecode
  exact Option.some_injective _ hdecode

theorem bigEndian_four_inj {x y : ℕ} (hx : x < 2 ^ 32) (hy : y < 2 ^ 32)
    (h : bigEndian 4 x = bigEndian 4 y) : x = y := by
  simp only [bigEndian, Nat.shiftRight_eq_div_pow, List.cons.injEq] at h
  omega

def prefixed (s : String) : List ℕ := bigEndian 4 s.utf8ByteSize ++ utf8Bytes s

theorem prefixed_append_inj {s t : String} {x y : List ℕ} (hs : s.utf8ByteSize < 2 ^ 32)
    (ht : t.utf8ByteSize < 2 ^ 32) (h : prefixed s ++ x = prefixed t ++ y) : s = t ∧ x = y := by
  unfold prefixed at h
  rw [append_assoc, append_assoc] at h
  obtain ⟨hsize, hrest⟩ := append_inj h rfl
  have hlen := bigEndian_four_inj hs ht hsize
  obtain ⟨hbytes, hxy⟩ := append_inj hrest (by rw [length_utf8Bytes, length_utf8Bytes, hlen])
  exact ⟨utf8Bytes_inj hbytes, hxy⟩

def fingerprint (sorted : Labels) : List ℕ :=
  sorted.flatMap fun e => prefixed e.1 ++ prefixed e.2

theorem labelFingerprint_eq (labels : Labels) :
    labelFingerprint labels = fingerprint (sortedLabels labels) := by
  simp [labelFingerprint, fingerprint, prefixed, append_assoc]

theorem fingerprint_inj {a b : Labels} (ha : ∀ e ∈ a, ShortLabel e) (hb : ∀ e ∈ b, ShortLabel e)
    (h : fingerprint a = fingerprint b) : a = b := by
  unfold ShortLabel maxLabelNameBytes maxLabelValueBytes at ha hb
  induction a generalizing b with
  | nil =>
    cases b with
    | nil => rfl
    | cons e b => simp [fingerprint, prefixed, bigEndian] at h
  | cons d a ih =>
    rcases b with _ | ⟨e, b⟩
    · simp [fingerprint, prefixed, bigEndian] at h
    have hd := ha d (.head _)
    have he := hb e (.head _)
    simp only [fingerprint, flatMap_cons, append_assoc] at h
    obtain ⟨hname, h⟩ := prefixed_append_inj (by omega) (by omega) h
    obtain ⟨hvalue, h⟩ := prefixed_append_inj (by omega) (by omega) h
    have htail := ih (fun f hf => ha f (.tail _ hf)) (fun f hf => hb f (.tail _ hf)) h
    rw [Prod.ext hname hvalue, htail]

end LabTether.RemoteWrite
