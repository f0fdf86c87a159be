import Altdb.Mdns
import Altdb.StateSize

/-!
# Questions of multicast DNS

A datagram is relevant if one of its questions asks for a name of this device.
The labels of a question are joined to a text before they are compared.
-/

namespace Altdb

namespace Mdns

open JsonText (Text)

/-- `u16::from_be_bytes` of the bytes at `p`. -/
def beWord (data : Bytes) (p : ℕ) : ℕ := (data.getD p 0).toNat * 256 + (data.getD (p + 1) 0).toNat

/-- The names that are served. -/
def served (guid : String) : List String :=
  [CONNECT, PAIR, guid ++ ".local", guid ++ "." ++ CONNECT, guid ++ "." ++ PAIR]

/-- The loop of `relevant`. -/
def relevantFrom (data : Bytes) (guid : String) : ℕ → ℕ → Bool
  | 0, _ => false
  | n + 1, p =>
      match queryName data p with
      | (.error _, _) => false
      | (.ok q, p) =>
          if data.length < p + 4 then false
          else if (served guid).contains q then true
          else relevantFrom data guid n (p + 4)

def relevant (data : Bytes) (guid : String) : Bool :=
  if data.length < 12 ∨ data.getD 2 0 &&& 0x80 ≠ 0 then false
  else if 64 < beWord data 4 then false
  else relevantFrom data guid (beWord data 4) 12

/-- The `guid` that `Identity::generate` makes of 16 random bytes. -/
def generatedGuid (random : Bytes) : String := "altdb-" ++ hex random

/-! ## Questions -/

/-- The labels of the name at `offset`, in lower case, and where it ends. -/
def queryLabels (data : Bytes) (offset : ℕ) : Option (List Text × ℕ) :=
  (rounds data (start offset)).toOption.map fun c => (c.labels, c.next.getD c.p)

/-- The questions before the first malformed one. -/
def questionsFrom (data : Bytes) : ℕ → ℕ → List (List Text)
  | 0, _ => []
  | n + 1, p =>
      match queryLabels data p with
      | none => []
      | some q => if data.length < q.2 + 4 then [] else q.1 :: questionsFrom data n (q.2 + 4)

def questions (data : Bytes) : List (List Text) := questionsFrom data (beWord data 4) 12

/-- A query with a valid header. -/
def Query (data : Bytes) : Prop :=
  12 ≤ data.length ∧ data.getD 2 0 &&& 0x80 = 0 ∧ beWord data 4 ≤ 64

/-- The label sequence of a dotted name. -/
def nameLabels (name : String) : List Text := name.toList.splitOn '.'

/-- Labels that equal those of a served name, ignoring ASCII case. -/
def Asks (guid : String) (labels : List Text) : Prop :=
  ∃ name ∈ served guid, labels = (nameLabels name).map lower

/-- Labels that merely join to the text of a served name. -/
def Joins (guid : String) (labels : List Text) : Prop :=
  joinLabels labels ∈ served guid ∧ ∃ l ∈ labels, '.' ∈ l

/-- A query for a name that is served. -/
def Intended (data : Bytes) (guid : String) : Prop :=
  Query data ∧ ∃ labels ∈ questions data, Asks guid labels

variable {data : Bytes} {guid : String}

theorem queryName_eq (data : Bytes) (offset : ℕ) :
    (∃ fault p, queryName data offset = (.error fault, p) ∧ queryLabels data offset = none) ∨
      ∃ labels p, queryName data offset = (.ok (joinLabels labels), p) ∧
        queryLabels data offset = some (labels, p) := by
  unfold queryName queryLabels
  cases rounds data (start offset) with
  | error fault => exact .inl ⟨fault, offset, rfl, rfl⟩
  | ok c => exact .inr ⟨c.labels, c.next.getD c.p, rfl, rfl⟩

theorem relevantFrom_iff (n p : ℕ) :
    relevantFrom data guid n p = true ↔
      ∃ labels ∈ questionsFrom data n p, joinLabels labels ∈ served guid := by
  induction n generalizing p with
  | zero =>
      constructor
      · intro h
        cases h
      · rintro ⟨labels, hlabels, -⟩
        cases hlabels
  | succ n ih =>
      rw [relevantFrom, questionsFrom]
      rcases queryName_eq data p with ⟨fault, p', hname, hlabels⟩ | ⟨labels, p', hname, hlabels⟩
      · rw [hname, hlabels]
        constructor
        · intro h
          cases h
        · rintro ⟨labels, hlabels, -⟩
          cases hlabels
      · rw [hname, hlabels]
        dsimp only
        split
        · constructor
          · intro h
            cases h
          · rintro ⟨labels, hlabels, -⟩
            cases hlabels
        · rw [List.exists_mem_cons_iff, ← ih]
          by_cases hserved : joinLabels labels ∈ served guid
          · rw [if_pos (List.contains_iff_mem.mpr hserved)]
            exact ⟨fun _ => .inl hserved, fun _ => rfl⟩
          · rw [if_neg fun h => hserved (List.contains_iff_mem.mp h)]
            exact ⟨.inr, fun h => h.resolve_left hserved⟩

theorem relevant_iff :
    relevant data guid = true ↔
      Query data ∧ ∃ labels ∈ questions data, joinLabels labels ∈ served guid := by
  unfold relevant
  by_cases hheader : data.length < 12 ∨ data.getD 2 0 &&& 0x80 ≠ 0
  · rw [if_pos hheader]
    constructor
    · intro h
      cases h
    · rintro ⟨⟨hlength, hquery, -⟩, -⟩
      rcases hheader with h | h
      · exact absurd hlength (Nat.not_le_of_lt h)
      · exact absurd hquery h
  rw [if_neg hheader]
  by_cases hcount : 64 < beWord data 4
  · rw [if_pos hcount]
    constructor
    · intro h
      cases h
    · rintro ⟨⟨-, -, hle⟩, -⟩
      exact absurd hle (Nat.not_le_of_lt hcount)
  rw [if_neg hcount, relevantFrom_iff]
  rw [not_or, Nat.not_lt, not_not] at hheader
  constructor
  · intro hquestion
    exact ⟨⟨hheader.1, hheader.2, Nat.le_of_not_lt hcount⟩, hquestion⟩
  · rintro ⟨-, hquestion⟩
    exact hquestion

/-! ## Joined labels -/

theorem joinLabels_nameLabels (name : String) : joinLabels (nameLabels name) = name := by
  rw [joinLabels, nameLabels, List.intercalate_splitOn, String.ofList_toList]

/-- Labels without dots are those of their text. -/
theorem nameLabels_joinLabels {labels : List Text} (hne : labels ≠ [])
    (h : ∀ l ∈ labels, '.' ∉ l) : nameLabels (joinLabels labels) = labels := by
  rw [joinLabels, nameLabels, String.toList_ofList, List.splitOn_intercalate '.' h hne]

/-- The name of a label in a domain. -/
theorem nameLabels_append {guid : String} (h : '.' ∉ guid.toList) (domain : String) :
    nameLabels (guid ++ "." ++ domain) = guid.toList :: nameLabels domain := by
  have hsplit := List.splitOn_append_cons_self_of_not_mem h domain.toList
  rw [nameLabels, String.toList_append, String.toList_append, List.append_assoc]
  exact hsplit

theorem lower_eq {text : Text} (h : ∀ c ∈ text, c.toLower = c) : lower text = text :=
  (List.map_congr_left h).trans (List.map_id text)

/-- A text that is a label in lower case. -/
structure Lowered (guid : String) : Prop where
  dotless : '.' ∉ guid.toList
  lowered : ∀ c ∈ guid.toList, c.toLower = c

theorem hex_lowered (random : Bytes) : ∀ c ∈ (hex random).toList, c.toLower = c ∧ c ≠ '.' := by
  have hdigit : ∀ n < 16, (hexDigit n).toLower = hexDigit n ∧ hexDigit n ≠ '.' := by
    decide
  intro c hc
  rw [hex_toList, List.mem_flatMap] at hc
  obtain ⟨b, -, hc⟩ := hc
  have hb := b.toNat_lt
  rcases List.mem_pair.mp hc with rfl | rfl
  · exact hdigit _ (by omega)
  · exact hdigit _ (by omega)

theorem generatedGuid_lowered (random : Bytes) : Lowered (generatedGuid random) := by
  have hstart : ∀ c ∈ "altdb-".toList, c.toLower = c ∧ c ≠ '.' := by simp
  have hall : ∀ c ∈ (generatedGuid random).toList, c.toLower = c ∧ c ≠ '.' := by
    intro c hc
    rw [generatedGuid, String.toList_append] at hc
    rcases List.mem_append.mp hc with hc | hc
    · exact hstart c hc
    · exact hex_lowered random c hc
  exact ⟨fun hdot => (hall '.' hdot).2 rfl, fun c hc => (hall c hc).1⟩

/-- The served names are in lower case. -/
theorem lower_served (h : Lowered guid) {name : String} (hname : name ∈ served guid) :
    (nameLabels name).map lower = nameLabels name := by
  have hconnect : (nameLabels CONNECT).map lower = nameLabels CONNECT := by decide
  have hpair : (nameLabels PAIR).map lower = nameLabels PAIR := by decide
  have hlocal : (nameLabels "local").map lower = nameLabels "local" := by decide
  have hdomain : ∀ domain, (nameLabels domain).map lower = nameLabels domain →
      (nameLabels (guid ++ "." ++ domain)).map lower = nameLabels (guid ++ "." ++ domain) := by
    intro domain hdomain
    rw [nameLabels_append h.dotless, List.map_cons, hdomain, lower_eq h.lowered]
  have hhost : guid ++ ".local" = guid ++ "." ++ "local" := by
    rw [String.append_assoc]
    rfl
  simp only [served, List.mem_cons, List.not_mem_nil, or_false] at hname
  rcases hname with rfl | rfl | rfl | rfl | rfl
  · exact hconnect
  · exact hpair
  · rw [hhost]
    exact hdomain _ hlocal
  · exact hdomain _ hconnect
  · exact hdomain _ hpair

theorem served_ne {name : String} (hname : name ∈ served guid) : name ≠ "" := by
  have hdot : '.' ∈ name.toList := by
    simp only [served, List.mem_cons, List.not_mem_nil, or_false] at hname
    rcases hname with rfl | rfl | rfl | rfl | rfl
    · decide
    · decide
    all_goals simp [CONNECT, PAIR]
  rintro rfl
  cases hdot

/-- A question joins to a served name if it asks for it, or merely joins. -/
theorem joins_cases (h : Lowered guid) (labels : List Text) :
    joinLabels labels ∈ served guid ↔ Asks guid labels ∨ Joins guid labels := by
  constructor
  · intro hjoin
    by_cases hdot : ∃ l ∈ labels, '.' ∈ l
    · exact .inr ⟨hjoin, hdot⟩
    · have hne : labels ≠ [] := by
        rintro rfl
        exact served_ne hjoin rfl
      have hlabels := nameLabels_joinLabels hne fun l hl hmem => hdot ⟨l, hl, hmem⟩
      exact .inl ⟨_, hjoin, by rw [lower_served h hjoin, hlabels]⟩
  · rintro (⟨name, hname, rfl⟩ | hjoins)
    · rw [lower_served h hname, joinLabels_nameLabels]
      exact hname
    · exact hjoins.1

/-- The relevant datagrams are the queries for a served name, but for queries
in which only labels with dots join to one. -/
theorem relevant_intended (data random : Bytes) :
    (relevant data (generatedGuid random) = true ↔ Intended data (generatedGuid random)) ↔
      ¬(Query data ∧ (∃ labels ∈ questions data, Joins (generatedGuid random) labels) ∧
        ∀ labels ∈ questions data, ¬Asks (generatedGuid random) labels) := by
  rw [relevant_iff, Intended]
  simp only [joins_cases (generatedGuid_lowered random)]
  constructor
  · rintro hiff ⟨hquery, ⟨labels, hlabels, hjoins⟩, hnone⟩
    obtain ⟨-, asked, hasked, hasks⟩ := hiff.mp ⟨hquery, labels, hlabels, .inr hjoins⟩
    exact hnone asked hasked hasks
  · intro hnot
    constructor
    · rintro ⟨hquery, labels, hlabels, hasks | hjoins⟩
      · exact ⟨hquery, labels, hlabels, hasks⟩
      · by_contra hno
        refine hnot ⟨hquery, ⟨labels, hlabels, hjoins⟩, fun asked hasked hasks => ?_⟩
        exact hno ⟨hquery, asked, hasked, hasks⟩
    · rintro ⟨hquery, labels, hlabels, hasks⟩
      exact ⟨hquery, labels, hlabels, .inl hasks⟩

/-- One question of two labels, the first of which has a dot in it. -/
def dottedQuestion : Bytes :=
  [0, 0, 0, 0, 0, 1, 0, 0, 0, 0, 0, 0] ++ (21 :: JsonText.toBytes "_adb-tls-connect._tcp".toList) ++
    (5 :: JsonText.toBytes "local".toList) ++ [0, 0, 12, 0, 1]

theorem relevant_intended_fails :
    relevant dottedQuestion (generatedGuid (List.replicate 16 0)) = true ∧
      ¬Intended dottedQuestion (generatedGuid (List.replicate 16 0)) := by
  refine ⟨by decide +kernel, ?_⟩
  rintro ⟨-, labels, hlabels, name, hname, hasks⟩
  have hquestions : questions dottedQuestion =
      ["_adb-tls-connect._tcp".toList, "local".toList] :: [] := by
    decide +kernel
  have hnames : ∀ name ∈ served (generatedGuid (List.replicate 16 0)), (nameLabels name).map lower ≠
      ["_adb-tls-connect._tcp".toList, "local".toList] := by
    decide +kernel
  rw [hquestions, List.mem_singleton] at hlabels
  exact hnames name hname (hasks.symm.trans hlabels)

end Mdns

end Altdb
