import Altdb.MdnsQueries

/-!
# Announcements of multicast DNS

An announcement is written name by name and record by record.  Each record is
read back by `query_name`, its ten fixed bytes and its data length from any
place of a packet, so a reader that walks through the records needs no more
than their number.
-/

namespace Altdb

namespace Mdns

open JsonText (Text)

/-! ## Writing -/

/-- `u16::to_be_bytes`. -/
def beBytes16 (n : UInt16) : Bytes := [(n.toNat / 256).toUInt8, n.toNat.toUInt8]

/-- `u32::to_be_bytes`, or the octets of an address. -/
def beBytes32 (n : UInt32) : Bytes :=
  [(n.toNat / 2 ^ 24).toUInt8, (n.toNat / 2 ^ 16).toUInt8, (n.toNat / 256).toUInt8,
    n.toNat.toUInt8]

/-- A label behind its length byte. -/
def labelWire (label : Text) : Bytes := (JsonText.size label).toUInt8 :: JsonText.toBytes label

def name (out : Bytes) (n : String) : Bytes := out ++ (nameLabels n).flatMap labelWire ++ [0]

def record (out : Bytes) (n : String) (kind : UInt16) (ttl : UInt32) (data : Bytes) : Bytes :=
  name out n ++ beBytes16 kind ++ beBytes16 (if kind = 12 then 1 else 0x8001) ++ beBytes32 ttl ++
    beBytes16 data.length.toUInt16 ++ data

/-- `out` and `count` of `response`. -/
structure Packet where
  out : Bytes
  count : UInt16

/-- The records of a service at a port. -/
def announce (guid : String) (ttl : UInt32) (service : String) (port : UInt16)
    (packet : Packet) : Packet :=
  let hostname := guid ++ ".local"
  let instanceName := guid ++ "." ++ service
  let target := name [] instanceName
  let out := record packet.out service 12 ttl target
  let srv := name ([0, 0, 0, 0] ++ beBytes16 port) hostname
  let out := record out instanceName 33 ttl srv
  let out := record out instanceName 16 ttl [0]
  ⟨out, packet.count + 3⟩

def announceAll (guid : String) (ttl : UInt32) :
    List (String × Option UInt16) → Packet → Packet
  | [], packet => packet
  | (_, none) :: rest, packet => announceAll guid ttl rest packet
  | (service, some port) :: rest, packet =>
      announceAll guid ttl rest (announce guid ttl service port packet)

def addresses (guid : String) (ttl : UInt32) : List Endpoint → Packet → Packet
  | [], packet => packet
  | ep :: rest, packet =>
      addresses guid ttl rest
        ⟨record packet.out (guid ++ ".local") 1 ttl (beBytes32 ep.address), packet.count + 1⟩

def response (guid : String) (endpoints : List Endpoint) (pair : Option UInt16) (ttl : UInt32) :
    Bytes :=
  let out := (List.replicate 12 (0 : UInt8)).set 2 0x84
  let packet := match endpoints.head? with
    | none => ⟨out, 0⟩
    | some ep => announceAll guid ttl [(CONNECT, some ep.port), (PAIR, pair)] ⟨out, 0⟩
  let packet := addresses guid ttl endpoints packet
  packet.out.take 6 ++ beBytes16 packet.count ++ packet.out.drop 8

/-! ## Reading -/

/-- `u32::from_be_bytes` of the bytes at `p`. -/
def beLong (data : Bytes) (p : ℕ) : ℕ := beWord data p * 65536 + beWord data (p + 2)

/-- The data of a record, with the names in it. -/
inductive Content where
  | pointer (target : String)
  | server (priority weight port : ℕ) (target : String)
  | address (address : ℕ)
  | bytes (data : Bytes)
  deriving DecidableEq, Repr

structure Resource where
  name : String
  kind : ℕ
  cls : ℕ
  ttl : ℕ
  content : Content
  deriving DecidableEq, Repr

/-- The name from `p` on, which has to end at `stop`. -/
def nameWithin (data : Bytes) (p stop : ℕ) : Option String :=
  match queryName data p with
  | (.ok target, q) => if q = stop then some target else none
  | (.error _, _) => none

/-- The data of a record of the kind between `p` and `stop`. -/
def contentAt (data : Bytes) (kind p stop : ℕ) : Option Content :=
  if kind = 12 then (nameWithin data p stop).map .pointer
  else if kind = 33 then
    (nameWithin data (p + 6) stop).map
      (.server (beWord data p) (beWord data (p + 2)) (beWord data (p + 4)))
  else if kind = 1 then if stop = p + 4 then some (.address (beLong data p)) else none
  else some (.bytes ((data.drop p).take (stop - p)))

/-- The record at `p`: a name, ten fixed bytes and data of the stated length. -/
def resourceAt (data : Bytes) (p : ℕ) : Option (Resource × ℕ) :=
  match queryName data p with
  | (.error _, _) => none
  | (.ok n, p) =>
      let stop := p + 10 + beWord data (p + 8)
      if data.length < stop then none
      else (contentAt data (beWord data p) (p + 10) stop).map fun content =>
        (⟨n, beWord data p, beWord data (p + 2), beLong data (p + 4), content⟩, stop)

def walk (data : Bytes) : ℕ → ℕ → Option (List Resource × ℕ)
  | 0, p => some ([], p)
  | n + 1, p => do
      let (r, p) ← resourceAt data p
      let (rest, p) ← walk data n p
      return (r :: rest, p)

/-! ## Names -/

variable {data : Bytes} {c : Cursor} {rest : Bytes} {p : ℕ}

theorem length_labelWire (label : Text) : (labelWire label).length = JsonText.size label + 1 := by
  simp [labelWire]

theorem length_flatMap_labelWire (labels : List Text) :
    (labels.flatMap labelWire).length = labelBytes labels := by
  simp [List.length_flatMap, labelBytes, length_labelWire]

/-- A length that a label may have. -/
def Fits (label : Text) : Prop := 0 < JsonText.size label ∧ JsonText.size label ≤ 63

theorem fromUtf8_toBytes (l : Text) : fromUtf8 (JsonText.toBytes l) = .ok l := by
  rw [fromUtf8, JsonText.ofBytes_toBytes]

theorem round_wire {l : Text} (h : data.drop c.p = labelWire l ++ rest)
    (hfits : Fits l) (hsteps : c.steps < 64) (htotal : c.total + JsonText.size l + 1 ≤ 255) :
    round data c = .ok (.more { c with
      p := c.p + 1 + JsonText.size l
      labels := c.labels ++ [lower l]
      steps := c.steps + 1
      total := c.total + JsonText.size l + 1 }) := by
  have hlength := congrArg List.length h
  rw [List.length_drop, List.length_append, length_labelWire] at hlength
  have hin : c.p < data.length := by omega
  have hlen : (JsonText.size l).toUInt8.toNat = JsonText.size l := by
    rw [UInt8.toNat_ofNat']
    exact Nat.mod_eq_of_lt (by omega)
  have hcons := List.drop_eq_getElem_cons hin
  rw [h, labelWire, List.cons_append] at hcons
  obtain ⟨hbyte, htail⟩ := List.cons.inj hcons
  have htext : (data.drop (c.p + 1)).take (JsonText.size l) = JsonText.toBytes l := by
    rw [← htail, ← JsonText.length_toBytes, List.take_left]
  have hzero : (JsonText.size l).toUInt8 ≠ 0 := by
    intro hzero
    rw [hzero] at hlen
    exact hfits.1.ne hlen
  unfold round
  rw [check_ok ⟨hsteps, hin⟩, index_eq hin, ← hbyte]
  change (if (JsonText.size l).toUInt8 = 0 then _ else _) = _
  rw [if_neg hzero, if_neg (not_pointer_of_le (hlen.trans_le hfits.2))]
  unfold label
  dsimp only
  rw [hlen, check_ok ⟨hfits.2, by omega⟩, check_ok htotal,
    slice_eq (Nat.le_add_right _ _) (by omega), Nat.add_sub_cancel_left, htext]
  change Except.bind (fromUtf8 (JsonText.toBytes l)) _ = _
  rw [fromUtf8_toBytes]
  rfl

/-- The rounds of a written name. -/
theorem rounds_wire {labels : List Text}
    (h : data.drop c.p = labels.flatMap labelWire ++ 0 :: rest) (hfits : ∀ l ∈ labels, Fits l)
    (hsteps : c.steps + labels.length < 64) (htotal : c.total + labelBytes labels ≤ 255) :
    rounds data c = .ok { c with
      p := c.p + labelBytes labels + 1
      labels := c.labels ++ labels.map lower
      steps := c.steps + labels.length + 1
      total := c.total + labelBytes labels } := by
  induction labels generalizing c with
  | nil =>
      have hbyte : data[c.p]? = some 0 := by
        rw [← List.head?_drop, h]
        rfl
      have hin : c.p < data.length := (List.getElem?_eq_some_iff.mp hbyte).1
      have hround : round data c = .ok (.done { c with p := c.p + 1, steps := c.steps + 1 }) := by
        unfold round
        rw [check_ok ⟨hsteps, hin⟩, index_eq hin,
          Option.some.inj ((List.getElem?_eq_getElem hin).symm.trans hbyte)]
        rfl
      rw [rounds_done hround, List.map_nil, List.append_nil]
      rfl
  | cons l labels ih =>
      have hsize : labelBytes (l :: labels) = JsonText.size l + 1 + labelBytes labels := rfl
      rw [List.flatMap_cons, List.append_assoc] at h
      rw [List.length_cons] at hsteps
      rw [hsize] at htotal
      have hround := round_wire h (hfits l List.mem_cons_self) (by omega) (by omega)
      have hdrop : data.drop (c.p + 1 + JsonText.size l) =
          labels.flatMap labelWire ++ 0 :: rest := by
        rw [Nat.add_assoc, ← List.drop_drop, h, Nat.add_comm 1, ← length_labelWire, List.drop_left]
      rw [rounds_more hround, ih hdrop (fun l' hl => hfits l' (List.mem_cons_of_mem l hl))
        (by dsimp only; omega) (by dsimp only; omega)]
      simp only [hsize, List.map_cons, List.length_cons, List.append_assoc, List.singleton_append]
      congr 2 <;> omega

/-- A name that is read as it was written. -/
structure Plain (n : String) : Prop where
  fits : ∀ l ∈ nameLabels n, Fits l
  length : (nameLabels n).length ≤ 63
  size : labelBytes (nameLabels n) ≤ 255
  lowered : (nameLabels n).map lower = nameLabels n

theorem length_name (n : String) : (name [] n).length = labelBytes (nameLabels n) + 1 := by
  rw [name, List.nil_append, List.length_append, length_flatMap_labelWire]
  rfl

theorem length_name_append (out : Bytes) (n : String) :
    (name out n).length = out.length + (name [] n).length := by
  simp [name]

/-- A name is read in lower case. -/
theorem queryName_wire {n : String} (hfits : ∀ l ∈ nameLabels n, Fits l)
    (hlength : (nameLabels n).length ≤ 63) (hsize : labelBytes (nameLabels n) ≤ 255)
    (h : data.drop p = name [] n ++ rest) :
    queryName data p = (.ok (joinLabels ((nameLabels n).map lower)), p + (name [] n).length) := by
  have hdrop : data.drop p = (nameLabels n).flatMap labelWire ++ 0 :: rest := by
    simpa [name] using h
  have hrounds := @rounds_wire data (start p) rest _ hdrop hfits
    (by change 0 + _ < 64; omega) (by change 0 + _ ≤ 255; rw [Nat.zero_add]; exact hsize)
  rw [queryName, hrounds, length_name]
  change (Except.ok (joinLabels ([] ++ (nameLabels n).map lower)), p + labelBytes _ + 1) = _
  rw [List.nil_append]
  rfl

theorem queryName_name {n : String} (hn : Plain n) (h : data.drop p = name [] n ++ rest) :
    queryName data p = (.ok n, p + (name [] n).length) := by
  rw [queryName_wire hn.fits hn.length hn.size h, hn.lowered, joinLabels_nameLabels]

/-- A label of lower case ASCII. -/
structure GuidLabel (guid : String) : Prop extends Lowered guid where
  ascii : ∀ c ∈ guid.toList, c.toNat < 128
  pos : 1 ≤ guid.utf8ByteSize
  size : guid.utf8ByteSize ≤ 63

variable {guid : String}

/-- The names of an announcement are read as they were written. -/
theorem plain_served (h : GuidLabel guid) {n : String} (hn : n ∈ served guid) : Plain n := by
  have hguid : Fits guid.toList := by
    rw [Fits, JsonText.size_toList]
    exact ⟨h.pos, h.size⟩
  have hdomain : ∀ domain, (∀ l ∈ nameLabels domain, Fits l) ∧ (nameLabels domain).length ≤ 3 ∧
      labelBytes (nameLabels domain) ≤ 100 →
      (∀ l ∈ nameLabels (guid ++ "." ++ domain), Fits l) ∧
        (nameLabels (guid ++ "." ++ domain)).length ≤ 63 ∧
        labelBytes (nameLabels (guid ++ "." ++ domain)) ≤ 255 := by
    rintro domain ⟨hfits, hlength, hsize⟩
    rw [nameLabels_append h.dotless]
    refine ⟨List.forall_mem_cons.mpr ⟨hguid, hfits⟩, ?_, ?_⟩
    · rw [List.length_cons]
      omega
    · change JsonText.size guid.toList + 1 + labelBytes (nameLabels domain) ≤ 255
      have hle := hguid.2
      omega
  have hhost : guid ++ ".local" = guid ++ "." ++ "local" := by
    rw [String.append_assoc]
    rfl
  have hbase : ∀ domain ∈ [CONNECT, PAIR, "local"], (∀ l ∈ nameLabels domain, Fits l) ∧
      (nameLabels domain).length ≤ 3 ∧ labelBytes (nameLabels domain) ≤ 100 := by
    unfold Fits
    decide
  suffices hbounds : (∀ l ∈ nameLabels n, Fits l) ∧ (nameLabels n).length ≤ 63 ∧
      labelBytes (nameLabels n) ≤ 255 from
    ⟨hbounds.1, hbounds.2.1, hbounds.2.2, lower_served h.toLowered hn⟩
  simp only [served, List.mem_cons, List.not_mem_nil, or_false] at hn
  rcases hn with rfl | rfl | rfl | rfl | rfl
  · obtain ⟨hfits, hlength, hsize⟩ := hbase CONNECT (by decide)
    exact ⟨hfits, by omega, by omega⟩
  · obtain ⟨hfits, hlength, hsize⟩ := hbase PAIR (by decide)
    exact ⟨hfits, by omega, by omega⟩
  · rw [hhost]
    exact hdomain _ (hbase "local" (by decide))
  · exact hdomain _ (hbase CONNECT (by decide))
  · exact hdomain _ (hbase PAIR (by decide))

/-! ## Records -/

theorem beWord_drop (data : Bytes) (p k : ℕ) : beWord data (p + k) = beWord (data.drop p) k := by
  simp [beWord, List.getD_eq_getElem?_getD, List.getElem?_drop, Nat.add_assoc]

theorem beWord_beBytes16 (n : UInt16) (rest : Bytes) :
    beWord (beBytes16 n ++ rest) 0 = n.toNat := by
  change (n.toNat / 256).toUInt8.toNat * 256 + n.toNat.toUInt8.toNat = n.toNat
  have hlt := n.toNat_lt
  rw [UInt8.toNat_ofNat', UInt8.toNat_ofNat']
  omega

theorem beLong_beBytes32 (n : UInt32) (rest : Bytes) :
    beLong (beBytes32 n ++ rest) 0 = n.toNat := by
  have hlt : n.toNat < 4294967296 := n.toNat_lt
  change ((n.toNat / 16777216).toUInt8.toNat * 256 + (n.toNat / 65536).toUInt8.toNat) * 65536 +
    ((n.toNat / 256).toUInt8.toNat * 256 + n.toNat.toUInt8.toNat) = n.toNat
  rw [UInt8.toNat_ofNat', UInt8.toNat_ofNat', UInt8.toNat_ofNat', UInt8.toNat_ofNat']
  omega

theorem beLong_drop (data : Bytes) (p k : ℕ) : beLong data (p + k) = beLong (data.drop p) k := by
  rw [beLong, beLong, Nat.add_assoc, beWord_drop, beWord_drop]

/-- The class of the records of a kind. -/
def classOf (kind : UInt16) : UInt16 := if kind = 12 then 1 else 0x8001

/-- Bytes that are read as data of the kind, wherever they stand. -/
def Holds (kind : UInt16) (d : Bytes) (content : Content) : Prop :=
  ∀ (data rest : Bytes) (q : ℕ), data.drop q = d ++ rest →
    contentAt data kind.toNat q (q + d.length) = some content

/-- Bytes that are read as the record, wherever they stand. -/
def Reads (bytes : Bytes) (r : Resource) : Prop :=
  ∀ (data rest : Bytes) (p : ℕ), data.drop p = bytes ++ rest →
    resourceAt data p = some (r, p + bytes.length)

theorem reads_record {n : String} {kind : UInt16} {d : Bytes} {content : Content}
    (ttl : UInt32) (hn : Plain n) (hd : d.length < 65536) (hcontent : Holds kind d content) :
    Reads (record [] n kind ttl d)
      ⟨n, kind.toNat, (classOf kind).toNat, ttl.toNat, content⟩ := by
  intro data rest p h
  have hname : data.drop p = name [] n ++ (beBytes16 kind ++ (beBytes16 (classOf kind) ++
      (beBytes32 ttl ++ (beBytes16 d.length.toUInt16 ++ (d ++ rest))))) := by
    simpa only [record, classOf, List.append_assoc] using h
  have hlength : (record [] n kind ttl d).length = (name [] n).length + 10 + d.length := by
    simp only [record, List.length_append]
    change _ + 2 + 2 + 4 + 2 + _ = _
    omega
  have hquery := queryName_name hn hname
  generalize hq : p + (name [] n).length = q at hquery
  have hfixed : data.drop q = beBytes16 kind ++ (beBytes16 (classOf kind) ++
      (beBytes32 ttl ++ (beBytes16 d.length.toUInt16 ++ (d ++ rest)))) := by
    rw [← hq, ← List.drop_drop, hname, List.drop_left]
  have hkind : beWord data q = kind.toNat := by
    rw [← Nat.add_zero q, beWord_drop, hfixed, beWord_beBytes16]
  have hclass : beWord data (q + 2) = (classOf kind).toNat := by
    rw [beWord_drop, hfixed]
    exact beWord_beBytes16 _ (beBytes32 ttl ++ (beBytes16 d.length.toUInt16 ++ (d ++ rest)))
  have httl : beLong data (q + 4) = ttl.toNat := by
    rw [beLong_drop, hfixed]
    exact beLong_beBytes32 _ (beBytes16 d.length.toUInt16 ++ (d ++ rest))
  have hsize : beWord data (q + 8) = d.length := by
    rw [beWord_drop, hfixed]
    refine (beWord_beBytes16 _ (d ++ rest)).trans ?_
    rw [UInt16.toNat_ofNat']
    exact Nat.mod_eq_of_lt hd
  have hdata : data.drop (q + 10) = d ++ rest := by
    rw [← List.drop_drop, hfixed]
    rfl
  have hend : ¬data.length < q + 10 + d.length := by
    have hlength := congrArg List.length hfixed
    rw [List.length_drop] at hlength
    simp only [List.length_append] at hlength
    change _ = 2 + (2 + (4 + (2 + _))) at hlength
    omega
  unfold resourceAt
  rw [hquery]
  dsimp only
  rw [hsize, if_neg hend, hkind, hcontent data rest (q + 10) hdata, hclass, httl, hlength, ← hq]
  simp only [Option.map_some, Nat.add_assoc]

theorem holds_pointer {target : String} (h : Plain target) :
    Holds 12 (name [] target) (.pointer target) := by
  intro data rest q hdata
  unfold contentAt nameWithin
  rw [if_pos (by decide), queryName_name h hdata]
  dsimp only
  rw [if_pos rfl]
  rfl

theorem holds_server {target : String} (port : UInt16) (h : Plain target) :
    Holds 33 (name ([0, 0, 0, 0] ++ beBytes16 port) target)
      (.server 0 0 port.toNat target) := by
  intro data rest q hdata
  have hdrop : data.drop q = 0 :: 0 :: 0 :: 0 :: (beBytes16 port ++ (name [] target ++ rest)) := by
    simpa [name] using hdata
  have hname : data.drop (q + 6) = name [] target ++ rest := by
    rw [← List.drop_drop, hdrop]
    rfl
  have hlength : (name ([0, 0, 0, 0] ++ beBytes16 port) target).length =
      6 + (name [] target).length := length_name_append _ _
  have hpriority : beWord data q = 0 := by
    rw [← Nat.add_zero q, beWord_drop, hdrop]
    simp [beWord]
  have hweight : beWord data (q + 2) = 0 := by
    rw [beWord_drop, hdrop]
    simp [beWord]
  have hport : beWord data (q + 4) = port.toNat := by
    rw [beWord_drop, hdrop]
    exact beWord_beBytes16 _ (name [] target ++ rest)
  unfold contentAt nameWithin
  rw [if_neg (by decide), if_pos (by decide), queryName_name h hname]
  dsimp only
  rw [if_pos (by rw [hlength, Nat.add_assoc]), hpriority, hweight, hport]
  rfl

theorem holds_address (address : UInt32) :
    Holds 1 (beBytes32 address) (.address address.toNat) := by
  intro data rest q hdata
  have haddress : beLong data q = address.toNat := by
    rw [← Nat.add_zero q, beLong_drop, hdata, beLong_beBytes32]
  unfold contentAt
  rw [if_neg (by decide), if_neg (by decide), if_pos (by decide), if_pos (by rfl), haddress]

theorem holds_text (d : Bytes) : Holds 16 d (.bytes d) := by
  intro data rest q hdata
  unfold contentAt
  rw [if_neg (by decide), if_neg (by decide), if_neg (by decide), hdata, Nat.add_sub_cancel_left,
    List.take_left]

/-- Records behind each other are read one by one. -/
theorem walk_reads {chunks : List Bytes} {resources : List Resource}
    (h : List.Forall₂ Reads chunks resources) (hdata : data.drop p = chunks.flatten ++ rest) :
    walk data resources.length p = some (resources, p + chunks.flatten.length) := by
  induction h generalizing p with
  | nil => rfl
  | @cons chunk r chunks resources hreads hall ih =>
      rw [List.flatten_cons, List.append_assoc] at hdata
      have hrest : data.drop (p + chunk.length) = chunks.flatten ++ rest := by
        rw [← List.drop_drop, hdata, List.drop_left]
      rw [List.length_cons, walk, hreads data _ p hdata]
      change ((walk data resources.length (p + chunk.length)).bind _) = _
      rw [ih hrest, List.flatten_cons, List.length_append, ← Nat.add_assoc]
      rfl

/-! ## Announcements -/

/-- The records of a service at a port. -/
def serviceRecords (guid : String) (ttl : UInt32) (service : String) (port : UInt16) :
    List Resource :=
  [⟨service, 12, 1, ttl.toNat, .pointer (guid ++ "." ++ service)⟩,
    ⟨guid ++ "." ++ service, 33, 0x8001, ttl.toNat, .server 0 0 port.toNat (guid ++ ".local")⟩,
    ⟨guid ++ "." ++ service, 16, 0x8001, ttl.toNat, .bytes [0]⟩]

def addressRecord (guid : String) (ttl : UInt32) (ep : Endpoint) : Resource :=
  ⟨guid ++ ".local", 1, 0x8001, ttl.toNat, .address ep.address.toNat⟩

def pairRecords (guid : String) (ttl : UInt32) : Option UInt16 → List Resource
  | none => []
  | some port => serviceRecords guid ttl PAIR port

/-- What an announcement says. -/
def announced (guid : String) (endpoints : List Endpoint) (pair : Option UInt16) (ttl : UInt32) :
    List Resource :=
  (match endpoints with
    | [] => []
    | ep :: _ => serviceRecords guid ttl CONNECT ep.port ++ pairRecords guid ttl pair) ++
    endpoints.map (addressRecord guid ttl)

/-- The packet before its count is put into the header. -/
def header : Bytes := (List.replicate 12 (0 : UInt8)).set 2 0x84

/-- The records were written behind the header, and counted. -/
def Written (packet : Packet) (resources : List Resource) : Prop :=
  packet.count = resources.length.toUInt16 ∧
    ∃ chunks, List.Forall₂ Reads chunks resources ∧ packet.out = header ++ chunks.flatten

variable {packet : Packet} {resources : List Resource} {ttl : UInt32}

theorem record_append (out : Bytes) (n : String) (kind : UInt16) (ttl : UInt32) (d : Bytes) :
    record out n kind ttl d = out ++ record [] n kind ttl d := by
  simp only [record, name, List.append_assoc, List.nil_append]

theorem Written.record {r : Resource} {n : String} {kind : UInt16} {d : Bytes}
    (h : Written packet resources) (hreads : Reads (record [] n kind ttl d) r) :
    Written ⟨record packet.out n kind ttl d, packet.count + 1⟩ (resources ++ [r]) := by
  obtain ⟨hcount, chunks, hall, hout⟩ := h
  refine ⟨?_, chunks ++ [Mdns.record [] n kind ttl d], ?_, ?_⟩
  · rw [List.length_append, hcount]
    exact (UInt16.ofNat_add _ _).symm
  · exact List.rel_append hall (.cons hreads .nil)
  · rw [record_append, hout, List.flatten_append, List.append_assoc]
    simp

theorem Written.announce {service : String} (h : Written packet resources) (ttl : UInt32)
    (hguid : GuidLabel guid) (hservice : service = CONNECT ∨ service = PAIR) (port : UInt16) :
    Written (announce guid ttl service port packet)
      (resources ++ serviceRecords guid ttl service port) := by
  have hname : Plain service := by
    apply plain_served hguid
    rcases hservice with rfl | rfl <;> simp [served]
  have hinstance : Plain (guid ++ "." ++ service) := by
    apply plain_served hguid
    rcases hservice with rfl | rfl <;> simp [served]
  have hhost : Plain (guid ++ ".local") := plain_served hguid (by simp [served])
  have hsize : (name [] (guid ++ "." ++ service)).length < 65536 := by
    rw [length_name]
    have hle := hinstance.size
    omega
  have hhostSize : (name ([0, 0, 0, 0] ++ beBytes16 port) (guid ++ ".local")).length < 65536 := by
    have hle := hhost.size
    rw [length_name_append, length_name]
    change 6 + _ < _
    omega
  have hpointer := h.record (reads_record ttl hname hsize (holds_pointer hinstance))
  have hserver := hpointer.record (reads_record ttl hinstance hhostSize (holds_server port hhost))
  have htext := hserver.record (reads_record ttl hinstance (by decide) (holds_text [0]))
  have hcount : packet.count + 1 + 1 + 1 = packet.count + 3 := by
    rw [UInt16.add_assoc, UInt16.add_assoc]
    rfl
  dsimp only at htext
  rw [hcount, List.append_assoc, List.append_assoc] at htext
  exact htext

theorem Written.addresses (hguid : GuidLabel guid) (endpoints : List Endpoint)
    (h : Written packet resources) :
    Written (addresses guid ttl endpoints packet)
      (resources ++ endpoints.map (addressRecord guid ttl)) := by
  have hhost : Plain (guid ++ ".local") := plain_served hguid (by simp [served])
  induction endpoints generalizing packet resources with
  | nil => rwa [List.map_nil, List.append_nil]
  | cons ep rest ih =>
      have hfour : (beBytes32 ep.address).length < 65536 := show 4 < 65536 by decide
      have hrecord := h.record (reads_record ttl hhost hfour (holds_address ep.address))
      have hall := ih hrecord
      rw [List.append_assoc] at hall
      exact hall

/-- The header of the packet has the number of records behind it. -/
theorem Written.walk (h : Written packet resources) (hlength : resources.length < 65536) :
    let data := packet.out.take 6 ++ beBytes16 packet.count ++ packet.out.drop 8
    beWord data 6 = resources.length ∧
      Mdns.walk data resources.length 12 = some (resources, data.length) := by
  obtain ⟨hcount, chunks, hall, hout⟩ := h
  intro data
  have hdata : data = [0, 0, 0x84, 0, 0, 0] ++ beBytes16 packet.count ++
      ([0, 0, 0, 0] ++ chunks.flatten) := by
    change packet.out.take 6 ++ _ ++ packet.out.drop 8 = _
    rw [hout]
    rfl
  have hsize : data.length = 12 + chunks.flatten.length := by
    rw [hdata, List.length_append, List.length_append, List.length_append]
    change 6 + 2 + (4 + chunks.flatten.length) = _
    omega
  have hdrop : data.drop 12 = chunks.flatten ++ [] := by
    rw [hdata, List.append_nil]
    rfl
  constructor
  · have hsix : data.drop 6 = beBytes16 packet.count ++ ([0, 0, 0, 0] ++ chunks.flatten) := by
      rw [hdata]
      rfl
    rw [← Nat.add_zero 6, beWord_drop, hsix, beWord_beBytes16, hcount, UInt16.toNat_ofNat']
    exact Nat.mod_eq_of_lt hlength
  · rw [walk_reads hall hdrop, hsize]

theorem written_header : Written ⟨header, 0⟩ [] :=
  ⟨rfl, [], .nil, (List.append_nil header).symm⟩

theorem length_announced (guid : String) (endpoints : List Endpoint) (pair : Option UInt16)
    (ttl : UInt32) : (announced guid endpoints pair ttl).length ≤ 6 + endpoints.length := by
  cases endpoints with
  | nil => exact Nat.zero_le _
  | cons ep rest =>
      cases pair with
      | none =>
          simp only [announced, pairRecords, serviceRecords, List.length_append, List.length_map,
            List.length_cons, List.length_nil]
          omega
      | some port =>
          simp only [announced, pairRecords, serviceRecords, List.length_append, List.length_map,
            List.length_cons, List.length_nil]
          omega

/-- A reader that walks through an announcement finds its records, as many as
the header says, and nothing behind them. -/
theorem response_walk (hguid : GuidLabel guid) (endpoints : List Endpoint)
    (hendpoints : endpoints.length ≤ 32) (pair : Option UInt16) (ttl : UInt32) :
    let data := response guid endpoints pair ttl
    beWord data 6 = (announced guid endpoints pair ttl).length ∧
      walk data (beWord data 6) 12 = some (announced guid endpoints pair ttl, data.length) ∧
      (endpoints = [] → announced guid endpoints pair ttl = []) := by
  have hpacket : ∃ packet, Written packet (announced guid endpoints pair ttl) ∧
      response guid endpoints pair ttl =
        packet.out.take 6 ++ beBytes16 packet.count ++ packet.out.drop 8 := by
    cases endpoints with
    | nil => exact ⟨_, written_header, rfl⟩
    | cons ep rest =>
        have hconnect := written_header.announce ttl hguid (.inl rfl) ep.port
        cases pair with
        | none => exact ⟨_, hconnect.addresses hguid (ep :: rest), rfl⟩
        | some port =>
            have hpair := hconnect.announce ttl hguid (.inr rfl) port
            exact ⟨_, hpair.addresses hguid (ep :: rest), rfl⟩
  have hlength := length_announced guid endpoints pair ttl
  obtain ⟨packet, hwritten, hresponse⟩ := hpacket
  obtain ⟨hcount, hwalk⟩ := hwritten.walk (by omega)
  dsimp only
  rw [hresponse, hcount]
  refine ⟨rfl, hwalk, ?_⟩
  rintro rfl
  rfl

def twoInterfaces : List Endpoint := [⟨"wlan0", 3, 0xc0a80102, 5555⟩, ⟨"eth0", 2, 0x0a000002, 5555⟩]

theorem response_walk_two :
    GuidLabel "a" ∧ beWord (response "a" twoInterfaces (some 32000) 120) 6 = 8 ∧
      walk (response "a" twoInterfaces (some 32000) 120) 8 12 =
        some (announced "a" twoInterfaces (some 32000) 120,
          (response "a" twoInterfaces (some 32000) 120).length) := by
  have hguid : GuidLabel "a" := ⟨⟨by decide, by simp⟩, by simp, by decide, by decide⟩
  have hlength : (announced "a" twoInterfaces (some 32000) 120).length = 8 := rfl
  obtain ⟨hcount, hwalk, -⟩ := response_walk hguid twoInterfaces (by decide) (some 32000) 120
  rw [hcount, hlength] at hwalk
  exact ⟨hguid, hcount.trans hlength, hwalk⟩

end Mdns

end Altdb
