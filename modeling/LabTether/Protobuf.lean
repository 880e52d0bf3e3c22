import Mathlib

/-!
The protocol-buffer wire format: varints of up to ten bytes, tags, and the three kinds of
values that fields of unsigned, fixed 64-bit and length-delimited types have. A message is a
list of fields. The reader refuses the other wire types, a field number zero, a value that
is cut short, and a varint of more than 64 bits.
-/
namespace LabTether.Protobuf

open List Option

abbrev Bytes := List UInt8

section

/-- Seven bits to a byte, low bits first, with `k` bytes left after this one. -/
def varintFrom : ℕ → ℕ → Bytes
  | 0, n => [UInt8.ofNat n]
  | k + 1, n =>
    if n < 128 then [UInt8.ofNat n] else UInt8.ofNat (n % 128 + 128) :: varintFrom k (n / 128)

def varint (n : ℕ) : Bytes := varintFrom 9 n

def readVarintFrom : ℕ → Bytes → Option (ℕ × Bytes)
  | _, [] => none
  | 0, b :: rest => if b.toNat < 2 then some (b.toNat, rest) else none
  | k + 1, b :: rest =>
    if b.toNat < 128 then some (b.toNat, rest)
    else
      match readVarintFrom k rest with
      | none => none
      | some (n, rest) => some (b.toNat - 128 + 128 * n, rest)

def readVarint (bytes : Bytes) : Option (ℕ × Bytes) := readVarintFrom 9 bytes

variable {n : ℕ}

theorem toNat_ofNat_of_lt (h : n < 256) : (UInt8.ofNat n).toNat = n := by
  rw [UInt8.toNat_ofNat']
  exact Nat.mod_eq_of_lt h

theorem readVarintFrom_varintFrom (k : ℕ) (rest : Bytes) (h : n < 2 * 128 ^ k) :
    readVarintFrom k (varintFrom k n ++ rest) = some (n, rest) := by
  induction k generalizing n with
  | zero =>
    have hbyte : (UInt8.ofNat n).toNat = n := toNat_ofNat_of_lt (by omega)
    simp [varintFrom, readVarintFrom, hbyte]
    omega
  | succ k ih =>
    by_cases hsmall : n < 128
    · have hbyte : (UInt8.ofNat n).toNat = n := toNat_ofNat_of_lt (by omega)
      simp [varintFrom, readVarintFrom, hsmall, hbyte]
    have hbyte : (UInt8.ofNat (n % 128 + 128)).toNat = n % 128 + 128 := toNat_ofNat_of_lt (by omega)
    have hrest : n / 128 < 2 * 128 ^ k := by
      rw [Nat.pow_succ] at h
      omega
    have hge : ¬ (n % 128 + 128 < 128) := by omega
    have hn : n % 128 + 128 - 128 + 128 * (n / 128) = n := by omega
    simp only [varintFrom, hsmall, if_false, cons_append, readVarintFrom, hbyte, hge, ih hrest, hn]

theorem readVarint_varint (rest : Bytes) (h : n < 2 ^ 64) :
    readVarint (varint n ++ rest) = some (n, rest) :=
  readVarintFrom_varintFrom 9 rest (by omega)

theorem varintFrom_ne_nil (k n : ℕ) : varintFrom k n ≠ [] := by
  cases k with
  | zero => simp [varintFrom]
  | succ k =>
    rw [varintFrom]
    split <;> simp

/-- `SizeVarint`: nine sixty-fourths of the bit length, with room for one byte. -/
def sizeVarint (n : ℕ) : ℕ := (9 * n.size + 64) / 64

theorem size_div_128 (h : 128 ≤ n) : (n / 128).size + 7 = n.size := by
  apply Nat.le_antisymm
  · have hlt : (n / 128).size - 1 < (n / 128).size := by
      have hpos : 0 < (n / 128).size := Nat.size_pos.2 (by omega)
      omega
    have hlow := Nat.lt_size.1 hlt
    have hup : 2 ^ ((n / 128).size - 1 + 7) ≤ n := by
      rw [Nat.pow_add]
      omega
    have hsize := Nat.lt_size.2 hup
    omega
  · have hlt : n < 2 ^ ((n / 128).size + 7) := by
      have hdiv : n / 128 < 2 ^ (n / 128).size := Nat.lt_size_self _
      rw [Nat.pow_add]
      omega
    exact Nat.size_le.2 hlt

theorem length_varintFrom (k : ℕ) (h : n.size ≤ 7 * k + 7) :
    (varintFrom k n).length = max 1 ((n.size + 6) / 7) := by
  induction k generalizing n with
  | zero =>
    simp only [varintFrom, length_singleton]
    omega
  | succ k ih =>
    rw [varintFrom]
    split
    next hsmall =>
      have hsize : n.size ≤ 7 := Nat.size_le.2 hsmall
      simp only [length_singleton]
      omega
    next hbig =>
      have hsize := size_div_128 (n := n) (by omega)
      have hpos : 0 < (n / 128).size := Nat.size_pos.2 (by omega)
      rw [length_cons, ih (by omega)]
      omega

theorem sizeVarint_eq (h : n < 2 ^ 64) : sizeVarint n = (varint n).length := by
  have hsize : n.size ≤ 64 := Nat.size_le.2 h
  unfold sizeVarint varint
  rw [length_varintFrom 9 (by omega)]
  omega

end

def littleEndian : ℕ → ℕ → Bytes
  | 0, _ => []
  | k + 1, n => UInt8.ofNat (n % 256) :: littleEndian k (n / 256)

def readLittleEndian : ℕ → Bytes → Option (ℕ × Bytes)
  | 0, bytes => some (0, bytes)
  | _ + 1, [] => none
  | k + 1, b :: rest =>
    match readLittleEndian k rest with
    | none => none
    | some (n, rest) => some (b.toNat + 256 * n, rest)

inductive Value
  | varint (n : ℕ)
  | fixed64 (bits : BitVec 64)
  | bytes (payload : Bytes)

def Value.wireType : Value → ℕ
  | .varint _ => 0
  | .fixed64 _ => 1
  | .bytes _ => 2

structure Field where
  number : ℕ
  value : Value

/-- `AppendTag`. -/
def tag (number wireType : ℕ) : Bytes := varint (8 * number + wireType)

/-- `AppendBytes`: the length, then the bytes. -/
def sized (payload : Bytes) : Bytes := varint payload.length ++ payload

def sizeBytes (n : ℕ) : ℕ := sizeVarint n + n

def Value.encode : Value → Bytes
  | .varint n => Protobuf.varint n
  | .fixed64 bits => littleEndian 8 bits.toNat
  | .bytes payload => sized payload

def Field.encode (f : Field) : Bytes := tag f.number f.value.wireType ++ f.value.encode

def encodeFields (fields : List Field) : Bytes := fields.flatMap Field.encode

def readValue (wireType : ℕ) (bytes : Bytes) : Option (Value × Bytes) :=
  match wireType with
  | 0 => (readVarint bytes).map fun (n, rest) => (.varint n, rest)
  | 1 => (readLittleEndian 8 bytes).map fun (n, rest) => (.fixed64 (BitVec.ofNat 64 n), rest)
  | 2 =>
    match readVarint bytes with
    | none => none
    | some (n, rest) =>
      if n ≤ rest.length then some (.bytes (rest.take n), rest.drop n) else none
  | _ => none

def readField (bytes : Bytes) : Option (Field × Bytes) :=
  match readVarint bytes with
  | none => none
  | some (t, rest) =>
    if t / 8 = 0 then none
    else (readValue (t % 8) rest).map fun (value, rest) => (⟨t / 8, value⟩, rest)

/-- Fields to the end of the input, `fuel` of them at most. -/
def readFieldsFrom : ℕ → Bytes → Option (List Field)
  | _, [] => some []
  | 0, _ :: _ => none
  | fuel + 1, b :: bytes =>
    match readField (b :: bytes) with
    | none => none
    | some (f, rest) => (readFieldsFrom fuel rest).map (f :: ·)

def readFields (bytes : Bytes) : Option (List Field) := readFieldsFrom bytes.length bytes

/-- What fits the format: numbers of 64 bits and lengths of 64 bits. -/
def Value.Fits : Value → Prop
  | .varint n => n < 2 ^ 64
  | .fixed64 _ => True
  | .bytes payload => payload.length < 2 ^ 64

def Field.Fits (f : Field) : Prop := 0 < f.number ∧ f.number < 2 ^ 29 ∧ f.value.Fits

theorem readLittleEndian_littleEndian (k : ℕ) {n : ℕ} (rest : Bytes) (h : n < 256 ^ k) :
    readLittleEndian k (littleEndian k n ++ rest) = some (n, rest) := by
  induction k generalizing n with
  | zero =>
    have hn : n = 0 := by simpa using h
    simp [littleEndian, readLittleEndian, hn]
  | succ k ih =>
    have hbyte : (UInt8.ofNat (n % 256)).toNat = n % 256 := toNat_ofNat_of_lt (by omega)
    have hrest : n / 256 < 256 ^ k := by
      rw [Nat.pow_succ] at h
      omega
    have hn : n % 256 + 256 * (n / 256) = n := by omega
    simp only [littleEndian, cons_append, readLittleEndian, ih hrest, hbyte, hn]

theorem length_littleEndian (k n : ℕ) : (littleEndian k n).length = k := by
  induction k generalizing n with
  | zero => rfl
  | succ k ih => rw [littleEndian, length_cons, ih]

theorem readValue_encode {v : Value} (h : v.Fits) (rest : Bytes) :
    readValue v.wireType (v.encode ++ rest) = some (v, rest) := by
  cases v with
  | varint n =>
    simp only [Value.wireType, Value.encode, readValue, readVarint_varint rest h, map_some]
  | fixed64 bits =>
    have hbits : bits.toNat < 256 ^ 8 := by
      omega
    simp only [Value.wireType, Value.encode, readValue,
      readLittleEndian_littleEndian 8 rest hbits, map_some, BitVec.ofNat_toNat,
      BitVec.setWidth_eq]
  | bytes payload =>
    have hread := readVarint_varint (payload ++ rest) h
    simp [Value.wireType, Value.encode, sized, readValue, append_assoc, hread]

theorem wireType_lt (v : Value) : v.wireType < 8 := by
  cases v <;> simp [Value.wireType]

theorem readField_encode {f : Field} (h : f.Fits) (rest : Bytes) :
    readField (f.encode ++ rest) = some (f, rest) := by
  obtain ⟨hpos, hlt, hfits⟩ := h
  have htype := wireType_lt f.value
  have htag : readVarint (varint (8 * f.number + f.value.wireType) ++ (f.value.encode ++ rest)) =
      some (8 * f.number + f.value.wireType, f.value.encode ++ rest) :=
    readVarint_varint _ (by omega)
  have hnumber : (8 * f.number + f.value.wireType) / 8 = f.number := by omega
  have hwire : (8 * f.number + f.value.wireType) % 8 = f.value.wireType := by omega
  have hne : f.number ≠ 0 := by omega
  simp only [Field.encode, tag, append_assoc, readField, htag, hnumber, hwire, hne, if_false,
    readValue_encode hfits rest, map_some]

theorem encode_ne_nil (f : Field) : f.encode ≠ [] := by
  have htag := varintFrom_ne_nil 9 (8 * f.number + f.value.wireType)
  simp [Field.encode, tag, varint, htag]

variable {fields : List Field}

theorem readFieldsFrom_encodeFields (h : ∀ f ∈ fields, f.Fits) {fuel : ℕ}
    (hfuel : fields.length ≤ fuel) : readFieldsFrom fuel (encodeFields fields) = some fields := by
  induction fields generalizing fuel with
  | nil => cases fuel <;> rfl
  | cons f fields ih =>
    obtain ⟨k, rfl⟩ : ∃ k, fuel = k + 1 := ⟨fuel - 1, by simp only [length_cons] at hfuel; omega⟩
    have hlen : fields.length ≤ k := by
      simp only [length_cons] at hfuel
      omega
    have hf := readField_encode (h f (.head _)) (encodeFields fields)
    have hrest := ih (fun g hg => h g (.tail _ hg)) hlen
    obtain ⟨b, bytes, hbytes⟩ := exists_cons_of_ne_nil (encode_ne_nil f)
    have hsplit : encodeFields (f :: fields) = b :: (bytes ++ encodeFields fields) := by
      rw [encodeFields, flatMap_cons, hbytes]
      rfl
    rw [hbytes, cons_append] at hf
    rw [hsplit, readFieldsFrom, hf]
    simp only [hrest, map_some]

theorem length_le_encodeFields (fields : List Field) :
    fields.length ≤ (encodeFields fields).length := by
  induction fields with
  | nil => simp
  | cons f fields ih =>
    have hpos := length_pos_iff.2 (encode_ne_nil f)
    simp only [encodeFields, flatMap_cons, length_append, length_cons] at ih ⊢
    omega

theorem readFields_encodeFields (h : ∀ f ∈ fields, f.Fits) :
    readFields (encodeFields fields) = some fields :=
  readFieldsFrom_encodeFields h (length_le_encodeFields fields)

theorem foldl_append_pieces {α β : Type*} {write : List β → α → List β} {piece : α → List β}
    {items : List α} (h : ∀ a ∈ items, ∀ buf, write buf a = buf ++ piece a) (buf : List β) :
    items.foldl write buf = buf ++ items.flatMap piece := by
  induction items generalizing buf with
  | nil => simp
  | cons a items ih =>
    rw [foldl_cons, h a (.head _), ih fun b hb => h b (.tail _ hb), flatMap_cons, append_assoc]

theorem sizeBytes_eq (payload : Bytes) (h : payload.length < 2 ^ 64) :
    sizeBytes payload.length = (sized payload).length := by
  rw [sizeBytes, sized, length_append, sizeVarint_eq h]

end LabTether.Protobuf
