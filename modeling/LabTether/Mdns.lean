import Mathlib

/-!
The DNS names and the response packet of the mDNS advertiser. Strings and packets are lists of
bytes; the iteration order of the two TXT pairs is an argument. Reading the packet back is a
specification: it reads the answers one after the other and accepts no bytes behind them.
-/
namespace LabTether.Mdns

open List

abbrev Bytes := List UInt8

def dot : UInt8 := 46

section

def trimSuffix (suffix s : Bytes) : Bytes :=
  if suffix.isSuffixOf s then s.take (s.length - suffix.length) else s

variable (name : Bytes)

/-- The labels of a name as they are encoded: empty ones are skipped, long ones cut. -/
def wireLabels : List Bytes :=
  (((trimSuffix [dot] name).splitOn dot).filter (· ≠ [])).map (·.take 63)

def encodeLabels (labels : List Bytes) : Bytes :=
  labels.flatMap (fun l => UInt8.ofNat l.length :: l) ++ [0]

def encodeDNSName : Bytes := encodeLabels (wireLabels name)

inductive DecodeError where
  | outOfBounds
  | pointerOutOfBounds
  | pointerLoop
  | unsupportedLabel
  | labelOutOfBounds
  /-- A read beyond the message, which would end the process. -/
  | fault

def addLabel (label : Bytes) : Bytes := (if name = [] then [] else name ++ [dot]) ++ label

/-- The loop of `decodeDNSName`. `endOffset` is set at the first pointer. -/
def decodeFrom (msg : Bytes) (offset visited : ℕ) (endOffset : Option ℕ) (name : Bytes) :
    Except DecodeError (Bytes × ℕ) :=
  if msg.length ≤ offset then .error .outOfBounds
  else
    match msg[offset]? with
    | none => .error .fault
    | some length =>
      if length = 0 then .ok (name ++ [dot], endOffset.getD (offset + 1))
      else if length &&& 0xC0 = 0xC0 then
        if msg.length ≤ offset + 1 then .error .pointerOutOfBounds
        else
          match msg[offset + 1]? with
          | none => .error .fault
          | some low =>
            if 10 < visited + 1 then .error .pointerLoop
            else decodeFrom msg ((length.toNat * 256 + low.toNat) % 16384) (visited + 1)
              (some (endOffset.getD (offset + 2))) name
      else if length &&& 0xC0 ≠ 0 then .error .unsupportedLabel
      else if msg.length < offset + 1 + length.toNat then .error .labelOutOfBounds
      else decodeFrom msg (offset + 1 + length.toNat) visited endOffset
        (addLabel name ((msg.drop (offset + 1)).take length.toNat))
termination_by (10 - visited, msg.length - offset)

def decodeDNSName (msg : Bytes) (offset : ℕ) : Except DecodeError (Bytes × ℕ) :=
  decodeFrom msg offset 0 none []

/-- The loop never reads beyond the message and ends behind the name it started with. -/
theorem decodeFrom_spec (msg : Bytes) (offset visited : ℕ) (endOffset : Option ℕ) (name : Bytes) :
    match decodeFrom msg offset visited endOffset name with
    | .error e => e ≠ .fault
    | .ok (_, stop) =>
      (∀ e, endOffset = some e → stop = e) ∧ (endOffset = none → offset < stop ∧ stop ≤ msg.length)
    := by
  fun_induction decodeFrom msg offset visited endOffset name with
  | case1 => simp
  | case2 offset visited endOffset name h hread =>
    rw [getElem?_eq_none_iff] at hread
    omega
  | case3 => grind
  | case4 => simp
  | case5 offset visited endOffset name h length hread hzero hptr hlow hread' =>
    rw [getElem?_eq_none_iff] at hread'
    omega
  | case6 => simp
  | case7 offset visited endOffset name h length hread hzero hptr hlow low hread' hvis ih =>
    split at ih
    · exact ih
    · refine ⟨fun e he => ih.1 e (by rw [he]; rfl), fun hnone => ?_⟩
      have hstop := ih.1 (offset + 2) (by rw [hnone]; rfl)
      omega
  | case8 => simp
  | case9 => simp
  | case10 offset visited endOffset name h length hread hzero hptr hlabel hlong ih =>
    split at ih
    · exact ih
    · exact ⟨ih.1, fun hnone => by have := ih.2 hnone; omega⟩

theorem foldl_addLabel {name : Bytes} (hname : name ≠ []) (labels : List Bytes) :
    labels.foldl addLabel name = [dot].intercalate (name :: labels) := by
  induction labels generalizing name with
  | nil => simp [intercalate]
  | cons l labels ih =>
    have hadd : addLabel name l = name ++ [dot] ++ l := by rw [addLabel, if_neg hname]
    rw [foldl_cons, hadd, ih (by simp), intercalate_cons_cons]
    cases labels <;> simp [intercalate]

/-- The labels joined with dots, and a dot at the end. -/
def dotted (labels : List Bytes) : Bytes := [dot].intercalate labels ++ [dot]

variable {labels : List Bytes}

theorem foldl_addLabel_nil (h : ∀ l ∈ labels, l ≠ []) :
    labels.foldl addLabel [] ++ [dot] = dotted labels := by
  cases labels with
  | nil => rfl
  | cons l labels =>
    rw [foldl_cons, addLabel, if_pos rfl, nil_append, foldl_addLabel (h l (.head _)), dotted]

theorem label_byte : ∀ n < 64, n ≠ 0 →
    UInt8.ofNat n ≠ 0 ∧ UInt8.ofNat n &&& 0xC0 = 0 ∧ (UInt8.ofNat n).toNat = n := by
  decide

theorem decodeFrom_encodeLabels
    (hl : ∀ l ∈ labels, l ≠ [] ∧ l.length ≤ 63) (pre post name : Bytes) (visited : ℕ) :
    decodeFrom (pre ++ encodeLabels labels ++ post) pre.length visited none name =
      .ok (labels.foldl addLabel name ++ [dot], pre.length + (encodeLabels labels).length) := by
  induction labels generalizing pre name with
  | nil =>
    rw [decodeFrom]
    simp [encodeLabels]
  | cons l labels ih =>
    obtain ⟨⟨hne, hlen⟩, hrest⟩ := forall_mem_cons.1 hl
    obtain ⟨hzero, hbits, hval⟩ := label_byte l.length (by omega) (by simpa using hne)
    have hcons : encodeLabels (l :: labels) = UInt8.ofNat l.length :: (l ++ encodeLabels labels) := by
      simp [encodeLabels]
    have hmsg : pre ++ encodeLabels (l :: labels) ++ post =
        (pre ++ UInt8.ofNat l.length :: l) ++ encodeLabels labels ++ post := by
      rw [hcons]
      simp
    have hread : (pre ++ encodeLabels (l :: labels) ++ post)[pre.length]? =
        some (UInt8.ofNat l.length) := by
      rw [hcons]
      simp
    have hlabel : ((pre ++ encodeLabels (l :: labels) ++ post).drop (pre.length + 1)).take l.length =
        l := by
      rw [hcons, append_assoc, ← drop_drop, drop_left]
      simp
    have hlong : pre.length + 1 + l.length < (pre ++ encodeLabels (l :: labels) ++ post).length := by
      rw [hcons]
      simp [encodeLabels]
      omega
    rw [decodeFrom, if_neg (by omega), hread]
    simp only [if_neg hzero, hbits, hval, hlabel]
    rw [if_neg (by decide), if_neg (by simp), if_neg (by omega), hmsg]
    have hstart : pre.length + 1 + l.length = (pre ++ UInt8.ofNat l.length :: l).length := by
      simp
      omega
    rw [hstart, ih hrest, hcons]
    simp
    omega

theorem wireLabels_small : ∀ l ∈ wireLabels name, l ≠ [] ∧ l.length ≤ 63 := by
  intro l hl
  obtain ⟨l', hl', rfl⟩ := mem_map.1 hl
  have hne : l' ≠ [] := by simpa using (mem_filter.1 hl').2
  exact ⟨by simpa using hne, length_take_le _ _⟩

variable (hl : ∀ l ∈ labels, l ≠ [] ∧ l.length ≤ 63 ∧ dot ∉ l)
include hl

theorem wireLabels_dotted : wireLabels (dotted labels) = labels := by
  have htrim : trimSuffix [dot] (dotted labels) = [dot].intercalate labels := by
    simp [trimSuffix, dotted]
  unfold wireLabels
  rw [htrim]
  rcases eq_or_ne labels [] with rfl | hne
  · rfl
  rw [splitOn_intercalate dot (fun l h => (hl l h).2.2) hne,
    filter_eq_self.2 fun l h => by simpa using (hl l h).1]
  exact (map_congr_left fun l h => take_of_length_le (hl l h).2.1).trans (map_id labels)

theorem decodeDNSName_encodeDNSName (pre post : Bytes) :
    decodeDNSName (pre ++ encodeDNSName (dotted labels) ++ post) pre.length =
      .ok (dotted labels, pre.length + (encodeDNSName (dotted labels)).length) := by
  have h := decodeFrom_encodeLabels (fun l h => ⟨(hl l h).1, (hl l h).2.1⟩) pre post [] 0
  rw [foldl_addLabel_nil fun l h => (hl l h).1] at h
  rwa [encodeDNSName, wireLabels_dotted hl]

end

section

def ascii (s : String) : Bytes := s.toList.map fun c => UInt8.ofNat c.toNat

def dnsSDServiceType : Bytes := ascii "_labtether._tcp.local."

structure MDNSAdvertiser where
  port : Int
  (version serviceName hostName : Bytes)

def newMDNSAdvertiser (hostname : Bytes) (port : Int) (version : Bytes) : Option MDNSAdvertiser :=
  if port ≤ 0 ∨ 65535 < port then none
  else
    let version := if version = [] then ascii "dev" else version
    let hostname := if hostname = [] then ascii "labtether" else hostname
    let hostname := trimSuffix (ascii ".local.") (trimSuffix (ascii ".local") hostname)
    some ⟨port, version, hostname ++ [dot] ++ dnsSDServiceType, hostname ++ ascii ".local."⟩

def uint16 (v : ℕ) : Bytes := [UInt8.ofNat (v / 256), UInt8.ofNat v]

def txtEntry (entry : Bytes) : Bytes := UInt8.ofNat (entry.take 255).length :: entry.take 255

variable (a : MDNSAdvertiser)

def buildTXTData (versionFirst : Bool) : Bytes :=
  let version := txtEntry (ascii "version=" ++ a.version)
  let service := txtEntry (ascii "service=labtether")
  if versionFirst then version ++ service else service ++ version

/-- Type, class and time to live of a record. -/
def fixedPart (kind cls : ℕ) : Bytes := uint16 kind ++ uint16 cls ++ uint16 0 ++ uint16 120

def responseHeader (queryID : ℕ) : Bytes :=
  uint16 queryID ++ uint16 0x8400 ++ uint16 0 ++ uint16 3 ++ uint16 0 ++ uint16 0

def buildResponsePacket (queryID : ℕ) (versionFirst : Bool) : Bytes :=
  let rdata := (encodeDNSName a.serviceName).take 65535
  let b := responseHeader queryID ++ encodeDNSName dnsSDServiceType ++ fixedPart 12 1 ++
    uint16 rdata.length ++ rdata ++ encodeDNSName a.serviceName ++ fixedPart 33 0x8001
  let target := encodeDNSName a.hostName
  if 65535 < 6 + target.length then b
  else
    let b := b ++ uint16 (6 + target.length) ++ uint16 0 ++ uint16 0
    if a.port ≤ 0 ∨ 65535 < a.port then b
    else
      let txt := (buildTXTData a versionFirst).take 65535
      b ++ uint16 a.port.toNat ++ target ++ encodeDNSName a.serviceName ++
        fixedPart 16 0x8001 ++ uint16 txt.length ++ txt

/-- What follows the name of an answer that ends at offset `e`: the fixed part, the data, and
the offset behind them. -/
def readFields (rest : Bytes) (e : ℕ) : Option ((Bytes × Bytes) × ℕ) :=
  match rest.drop 8 with
  | hi :: lo :: rest' =>
    let n := hi.toNat * 256 + lo.toNat
    if n ≤ rest'.length then some ((rest.take 8, rest'.take n), e + 10 + n) else none
  | _ => none

def readAnswer (msg : Bytes) (offset : ℕ) : Option ((Bytes × Bytes) × ℕ) :=
  match decodeDNSName msg offset with
  | .error _ => none
  | .ok (_, e) => readFields (msg.drop e) e

def readAnswers (msg : Bytes) : ℕ → ℕ → Option (List (Bytes × Bytes))
  | 0, offset => if offset = msg.length then some [] else none
  | n + 1, offset => (readAnswer msg offset).bind fun r => (readAnswers msg n r.2).map (r.1 :: ·)

/-- The answers of a packet, if it has as many as its header says and nothing behind them. -/
def readPacket (msg : Bytes) : Option (List (Bytes × Bytes)) :=
  match msg.drop 6 with
  | hi :: lo :: _ => readAnswers msg (hi.toNat * 256 + lo.toNat) 12
  | _ => none

structure Record where
  (name fixed rdata : Bytes)
  fixed_length : fixed.length = 8
  rdata_length : rdata.length ≤ 65535

open Record

def Record.encode (r : Record) : Bytes :=
  encodeDNSName r.name ++ (r.fixed ++ (uint16 r.rdata.length ++ r.rdata))

theorem readAnswer_append (pre name rest : Bytes) :
    readAnswer (pre ++ encodeDNSName name ++ rest) pre.length =
      readFields rest (pre ++ encodeDNSName name).length := by
  have hdecode := decodeFrom_encodeLabels (wireLabels_small name) pre rest [] 0
  rw [readAnswer, decodeDNSName, encodeDNSName, hdecode, ← length_append]
  dsimp only
  rw [drop_left]

theorem readAnswer_encode (r : Record) (pre post : Bytes) :
    readAnswer (pre ++ r.encode ++ post) pre.length =
      some ((r.fixed, r.rdata), (pre ++ r.encode).length) := by
  have hmsg : pre ++ r.encode ++ post = pre ++ encodeDNSName r.name ++
      (r.fixed ++ (uint16 r.rdata.length ++ (r.rdata ++ post))) := by simp [encode]
  have hlen : (UInt8.ofNat (r.rdata.length / 256)).toNat * 256 +
      (UInt8.ofNat r.rdata.length).toNat = r.rdata.length := by
    have := r.rdata_length
    rw [UInt8.toNat_ofNat', UInt8.toNat_ofNat']
    omega
  rw [hmsg, readAnswer_append, readFields, drop_left' r.fixed_length, take_left' r.fixed_length]
  simp only [uint16, cons_append, nil_append, hlen]
  rw [if_pos (by simp), take_left]
  simp [encode, uint16, r.fixed_length]
  omega

theorem readAnswers_encode (records : List Record) (pre : Bytes) :
    readAnswers (pre ++ records.flatMap encode) records.length pre.length =
      some (records.map fun r => (r.fixed, r.rdata)) := by
  induction records generalizing pre with
  | nil => simp [readAnswers]
  | cons r records ih =>
    have h := ih (pre ++ r.encode)
    rw [flatMap_cons, ← append_assoc, length_cons, readAnswers, readAnswer_encode]
    simp only [Option.bind_some, h]
    rfl

def srvData : Bytes :=
  uint16 0 ++ uint16 0 ++ uint16 a.port.toNat ++ encodeDNSName a.hostName

/-- The three answers the advertiser means to send. -/
def answers (versionFirst : Bool) : List (Bytes × Bytes) :=
  [(fixedPart 12 1, (encodeDNSName a.serviceName).take 65535), (fixedPart 33 0x8001, srvData a),
    (fixedPart 16 0x8001, (buildTXTData a versionFirst).take 65535)]

def ptrRecord : Record :=
  ⟨dnsSDServiceType, fixedPart 12 1, (encodeDNSName a.serviceName).take 65535, rfl,
    length_take_le _ _⟩

/-- The labels of the host name, with their length bytes, leave room for the port. -/
def HostFits (hostName : Bytes) : Prop :=
  ((wireLabels hostName).map (·.length + 1)).sum ≤ 65528

theorem hostFits_iff (hostName : Bytes) :
    HostFits hostName ↔ 6 + (encodeDNSName hostName).length ≤ 65535 := by
  have hlen : (encodeDNSName hostName).length =
      ((wireLabels hostName).map (·.length + 1)).sum + 1 := by
    rw [encodeDNSName, encodeLabels, length_append, length_flatMap]
    rfl
  rw [hlen, HostFits]
  omega

theorem readPacket_header (queryID : ℕ) (rest : Bytes) :
    readPacket (responseHeader queryID ++ rest) =
      readAnswers (responseHeader queryID ++ rest) 3 (responseHeader queryID).length :=
  rfl

variable {a : MDNSAdvertiser}

theorem readPacket_fits (hport : ¬(a.port ≤ 0 ∨ 65535 < a.port))
    (h : HostFits a.hostName) (queryID : ℕ) (versionFirst : Bool) :
    readPacket (buildResponsePacket a queryID versionFirst) = some (answers a versionFirst) := by
  rw [hostFits_iff] at h
  have hlen : 6 + (encodeDNSName a.hostName).length = (srvData a).length := by
    simp [srvData, uint16]
    omega
  let srv : Record := ⟨a.serviceName, fixedPart 33 0x8001, srvData a, rfl, hlen ▸ h⟩
  let txt : Record := ⟨a.serviceName, fixedPart 16 0x8001, (buildTXTData a versionFirst).take 65535,
    rfl, length_take_le _ _⟩
  have hpacket : buildResponsePacket a queryID versionFirst =
      responseHeader queryID ++ [ptrRecord a, srv, txt].flatMap encode := by
    rw [buildResponsePacket, if_neg (by omega), if_neg hport, hlen]
    simp [encode, ptrRecord, srv, txt, srvData]
  rw [hpacket, readPacket_header]
  exact readAnswers_encode [ptrRecord a, srv, txt] _

theorem readPacket_cut (h : ¬HostFits a.hostName) (queryID : ℕ)
    (versionFirst : Bool) : readPacket (buildResponsePacket a queryID versionFirst) = none := by
  rw [hostFits_iff] at h
  have hpacket : buildResponsePacket a queryID versionFirst = responseHeader queryID ++
      ((ptrRecord a).encode ++ (encodeDNSName a.serviceName ++ fixedPart 33 0x8001)) := by
    rw [buildResponsePacket, if_pos (by omega)]
    simp [encode, ptrRecord]
  rw [hpacket, readPacket_header, ← append_assoc, readAnswers, readAnswer_encode,
    Option.bind_some, readAnswers, ← append_assoc, readAnswer_append]
  rfl

theorem port_of_new {hostname version : Bytes} {port : Int}
    (h : newMDNSAdvertiser hostname port version = some a) : ¬(a.port ≤ 0 ∨ 65535 < a.port) := by
  unfold newMDNSAdvertiser at h
  split at h
  · cases h
  · rename_i hport
    cases h
    exact hport

/-- A host name of `n` labels of 63 bytes. -/
def longHost (n : ℕ) : Bytes := (replicate n (replicate 63 97)).foldl addLabel []

theorem longHost_succ (n : ℕ) : ∃ s, longHost (n + 1) = s ++ [97] := by
  rw [longHost, replicate_succ', foldl_append]
  refine ⟨(if longHost n = [] then [] else longHost n ++ [dot]) ++ replicate 62 97, ?_⟩
  rw [append_assoc]
  rfl

theorem longHost_labels (n : ℕ) : wireLabels (longHost (n + 1) ++ ascii ".local.") =
    replicate (n + 1) (replicate 63 97) ++ [ascii "local"] := by
  have hlabel : ∀ l ∈ replicate (n + 1) (replicate 63 (97 : UInt8)) ++ [ascii "local"],
      l ≠ [] ∧ l.length ≤ 63 ∧ dot ∉ l := by
    intro l hl
    rcases mem_append.1 hl with h | h
    · rw [eq_of_mem_replicate h]
      decide
    · rw [mem_singleton.1 h]
      decide
  rw [← wireLabels_dotted hlabel, ← foldl_addLabel_nil fun l h => (hlabel l h).1, foldl_append]
  obtain ⟨s, hs⟩ := longHost_succ n
  change _ = wireLabels (addLabel (longHost (n + 1)) (ascii "local") ++ [dot])
  rw [addLabel, hs, if_neg (by simp)]
  simp [ascii, dot]

theorem newMDNSAdvertiser_longHost (n : ℕ) : ∃ a,
    newMDNSAdvertiser (longHost (n + 1)) 80 [] = some a ∧
      a.hostName = longHost (n + 1) ++ ascii ".local." := by
  have htrim : ∀ s suffix : Bytes, ∀ b, b ≠ 97 →
      trimSuffix (suffix ++ [b]) (s ++ [97]) = s ++ [97] := by
    intro s suffix b hb
    simp [trimSuffix, isSuffixOf, hb]
  obtain ⟨s, hs⟩ := longHost_succ n
  refine ⟨_, if_neg (by decide), ?_⟩
  dsimp only
  rw [hs, if_neg (by simp), show ascii ".local" = ascii ".loca" ++ [108] from rfl,
    htrim _ _ _ (by decide), show ascii ".local." = ascii ".local" ++ [46] from rfl,
    htrim _ _ _ (by decide)]

end

end LabTether.Mdns
