import Altdb.MessageLimits
import Mathlib.Data.List.Sort
import Mathlib.Data.Prod.Lex
import Mathlib.Data.String.Basic

/-!
# Discovery of the network

The supervisor looks for the addresses of Wi-Fi, hotspot and Ethernet interfaces.
It listens on each of them at one port, and joins the multicast group once on each
interface.
-/

namespace Altdb

/-! ## Sorting and removing repetitions -/

section Canonical

variable {α κ : Type} [DecidableEq α] [LinearOrder κ] {key : α → κ} {l l' : List α}

/-- `Vec::dedup`. -/
def dedup : List α → List α
  | a :: b :: rest => if a = b then dedup (b :: rest) else a :: dedup (b :: rest)
  | l => l

/-- `sort`, by a key that tells all values apart, and `dedup`. -/
def canonical (key : α → κ) (l : List α) : List α :=
  dedup (l.insertionSort fun a b => key a ≤ key b)

theorem mem_dedup (l : List α) (a : α) : a ∈ dedup l ↔ a ∈ l := by
  fun_induction dedup l with
  | case1 b rest ih =>
      rw [ih]
      simp
  | case2 b c rest hne ih =>
      rw [List.mem_cons, ih, List.mem_cons (b := b)]
  | case3 l => rfl

theorem dedup_pairwise (hkey : Function.Injective key)
    (h : l.Pairwise fun a b => key a ≤ key b) : (dedup l).Pairwise fun a b => key a < key b := by
  fun_induction dedup l with
  | case1 b rest ih => exact ih h.of_cons
  | case2 b c rest hne ih =>
      obtain ⟨hfirst, hrest⟩ := List.pairwise_cons.mp h
      apply List.pairwise_cons.mpr
      constructor
      · intro a ha
        have hbc : key b < key c :=
          lt_of_le_of_ne (hfirst c List.mem_cons_self) fun heq => hne (hkey heq)
        rcases List.mem_cons.mp ((mem_dedup _ a).mp ha) with hac | hmem
        · rw [hac]
          exact hbc
        · exact hbc.trans_le ((List.pairwise_cons.mp hrest).1 a hmem)
      · exact ih hrest
  | case3 l hshort =>
      cases l with
      | nil => exact List.Pairwise.nil
      | cons a rest =>
          cases rest with
          | nil => exact List.pairwise_singleton _ _
          | cons b rest => exact absurd rfl (hshort a b rest)

theorem mem_canonical (a : α) : a ∈ canonical key l ↔ a ∈ l := by
  rw [canonical, mem_dedup]
  exact List.mem_insertionSort _

theorem canonical_pairwise (hkey : Function.Injective key) :
    (canonical key l).Pairwise fun a b => key a < key b := by
  apply dedup_pairwise hkey
  have htotal : Std.Total fun a b : α => key a ≤ key b := ⟨fun a b => le_total _ _⟩
  have htrans : IsTrans α fun a b => key a ≤ key b := ⟨fun a b c => le_trans⟩
  exact List.pairwise_insertionSort _ l

omit [DecidableEq α] in
/-- Lists in order are told apart by their members. -/
theorem eq_of_ordered (h : l.Pairwise fun a b => key a < key b)
    (h' : l'.Pairwise fun a b => key a < key b) (hmem : ∀ a, a ∈ l ↔ a ∈ l') : l = l' := by
  have hne : ∀ {a b : α}, key a < key b → a ≠ b := by
    intro a b hlt heq
    rw [heq] at hlt
    exact lt_irrefl _ hlt
  have hperm : l.Perm l' :=
    (List.perm_ext_iff_of_nodup (h.imp hne) (h'.imp hne)).mpr hmem
  exact hperm.eq_of_pairwise (fun a b _ _ hab hba => absurd (hab.trans hba) (lt_irrefl _)) h h'

end Canonical

/-- The order that `Endpoint` derives. -/
def Endpoint.key (ep : Endpoint) : String ×ₗ ℕ ×ₗ ℕ ×ₗ ℕ :=
  toLex (ep.interface, toLex (ep.index.toNat, toLex (ep.address.toNat, ep.port.toNat)))

theorem Endpoint.key_injective : Function.Injective Endpoint.key := by
  intro a b h
  have hpair := toLex_inj.mp h
  have hinterface := congrArg Prod.fst hpair
  have hrest := toLex_inj.mp (congrArg Prod.snd hpair)
  have hindex := UInt32.toNat_inj.mp (congrArg Prod.fst hrest)
  have hlast := toLex_inj.mp (congrArg Prod.snd hrest)
  have haddress := UInt32.toNat_inj.mp (congrArg Prod.fst hlast)
  have hport := UInt16.toNat_inj.mp (congrArg Prod.snd hlast)
  cases a
  cases b
  dsimp only at hinterface hindex haddress hport
  rw [hinterface, hindex, haddress, hport]

def Endpoint.atPort (ep : Endpoint) (port : UInt16) : Endpoint := { ep with port := port }

namespace Network

/-! ## Interfaces -/

def numbered (name pre : String) : Bool :=
  (stripPrefix pre name).any fun s => !s.isEmpty && s.toList.all Char.isDigit

/-- The prefixes of mobile data, tunnels and virtual devices. -/
def excluded : List String :=
  ["rmnet", "ccmni", "pdp", "wwan", "tun", "tap", "wg", "ppp", "vti", "ipsec", "dummy", "veth"]

def eligible (name : String) (wireless physical ethernet : Bool) : Bool :=
  if excluded.any fun p => startsWith p name then false
  else
    ethernet && (wireless || (["wlan", "swlan", "ap", "wifi"].any fun p => numbered name p) ||
      physical && (startsWith "eth" name || startsWith "en" name))

/-- `ifa_addr`: an IPv4 address, one of another family, or none. -/
inductive SockAddr where
  | null
  | inet (address : UInt32)
  | other
  deriving DecidableEq, Repr

/-- An entry of `getifaddrs`.  The name is absent when it is not UTF-8. -/
structure IfAddr where
  name : Option String
  up : Bool
  loopback : Bool
  addr : SockAddr
  deriving DecidableEq, Repr

/-- A directory of `/sys/class/net`. -/
structure SysNet where
  wireless : Bool
  phy80211 : Bool
  device : Bool
  kind : String

/-- What the kernel says of its interfaces. -/
structure Kernel where
  getifaddrs : Option (List IfAddr)
  sys : String → SysNet
  index : String → UInt32

/-- `str::trim`. -/
def trim (s : String) : String :=
  String.ofList ((s.toList.dropWhile isWhitespace).reverse.dropWhile isWhitespace).reverse

def nameByte (c : Char) : Bool := c.isAlphanum || c == '_' || c == '-'

/-- `is_loopback`, `is_unspecified` and `is_multicast`. -/
def reserved (address : UInt32) : Bool :=
  address.toNat / 2 ^ 24 == 127 || address == 0 || address.toNat / 2 ^ 28 == 14

/-- Whether an interface may be listened on. -/
def Kernel.admits (k : Kernel) (name : String) : Bool :=
  name.toList.all nameByte &&
    eligible name ((k.sys name).wireless || (k.sys name).phy80211) (k.sys name).device
      (trim (k.sys name).kind == "1")

/-- One turn of the loop over the entries. -/
def Kernel.entry (k : Kernel) (e : IfAddr) : Except String (Option Endpoint) :=
  if e.addr = .null ∨ e.up = false ∨ e.loopback = true then .ok none
  else
    match e.name with
    | none => .error "invalid utf-8 sequence"
    | some name =>
        if k.admits name then
          match e.addr with
          | .inet address =>
              if reserved address ∨ k.index name = 0 then .ok none
              else .ok (some ⟨name, k.index name, address, 0⟩)
          | _ => .ok none
        else .ok none

def Kernel.entries (k : Kernel) : List IfAddr → Except String (List Endpoint)
  | [] => .ok []
  | e :: rest => do
      let found ← k.entry e
      let result ← k.entries rest
      return found.toList ++ result

def discover (test : Bool) (k : Kernel) : Except String (List Endpoint) :=
  if test then .ok [⟨"lo", 1, 0x7f000001, 0⟩]
  else
    match k.getifaddrs with
    | none => .error "cannot enumerate interfaces"
    | some entries => do
        let result ← k.entries entries
        let result := canonical Endpoint.key result
        if result.length ≤ 32 then .ok result
        else .error "too many eligible interface addresses"

/-! ## What is found -/

/-- The entry is an address of an interface that is up and may be listened on. -/
structure Kernel.Serves (k : Kernel) (e : IfAddr) (ep : Endpoint) : Prop where
  name : e.name = some ep.interface
  up : e.up = true
  loopback : e.loopback = false
  addr : e.addr = .inet ep.address
  admits : k.admits ep.interface = true
  reserved : reserved ep.address = false
  index : ep.index = k.index ep.interface
  known : ep.index ≠ 0
  port : ep.port = 0

/-- The name of an interface that is up can be read. -/
def IfAddr.Readable (e : IfAddr) : Prop :=
  e.addr ≠ .null → e.up = true → e.loopback = false → e.name.isSome

variable {k : Kernel} {e : IfAddr} {ep : Endpoint} {entries : List IfAddr}
  {result : List Endpoint}

theorem entry_spec (k : Kernel) (e : IfAddr) :
    (e.Readable ∧ ∃ found, k.entry e = .ok found ∧ ∀ ep, ep ∈ found ↔ k.Serves e ep) ∨
      (¬ e.Readable ∧ ∃ error, k.entry e = .error error) := by
  have hnone : (∀ ep, ¬ k.Serves e ep) → ∀ ep, ep ∈ (none : Option Endpoint) ↔ k.Serves e ep := by
    intro hserves ep
    constructor
    · intro h
      cases h
    · intro h
      exact absurd h (hserves ep)
  unfold Kernel.entry
  split
  · next hskip =>
    left
    constructor
    · intro haddr hup hloop
      rcases hskip with h | h | h
      · exact absurd h haddr
      · exact absurd (h.symm.trans hup) (by decide)
      · exact absurd (h.symm.trans hloop) (by decide)
    · refine ⟨none, rfl, hnone ?_⟩
      intro ep hserves
      rcases hskip with h | h | h
      · exact absurd (h.symm.trans hserves.addr) (by simp)
      · exact absurd (h.symm.trans hserves.up) (by decide)
      · exact absurd (h.symm.trans hserves.loopback) (by decide)
  · next hlooks =>
    rw [not_or, not_or] at hlooks
    obtain ⟨haddr, hup, hloop⟩ := hlooks
    cases hname : e.name with
    | none =>
        right
        constructor
        · intro hreadable
          have hsome := hreadable haddr (by simpa using hup) (by simpa using hloop)
          rw [hname] at hsome
          cases hsome
        · exact ⟨_, rfl⟩
    | some name =>
        left
        constructor
        · intro _ _ _
          rw [hname]
          rfl
        · dsimp only
          have hsame : ∀ ep, k.Serves e ep → ep.interface = name := by
            intro ep hserves
            exact Option.some.inj (hserves.name.symm.trans hname)
          split
          · next hadmits =>
            cases hfamily : e.addr with
            | null => exact absurd hfamily haddr
            | other =>
                refine ⟨none, rfl, hnone ?_⟩
                intro ep hserves
                exact absurd (hfamily.symm.trans hserves.addr) (by simp)
            | inet address =>
                dsimp only
                split
                · next hbad =>
                  refine ⟨none, rfl, hnone ?_⟩
                  intro ep hserves
                  have haddress := SockAddr.inet.inj (hfamily.symm.trans hserves.addr)
                  rcases hbad with h | h
                  · rw [haddress, hserves.reserved] at h
                    cases h
                  · have hindex := hserves.index
                    rw [hsame ep hserves, h] at hindex
                    exact hserves.known hindex
                · next hgood =>
                  rw [not_or] at hgood
                  refine ⟨_, rfl, ?_⟩
                  intro ep
                  constructor
                  · intro h
                    obtain rfl := Option.some.inj h
                    exact ⟨hname, by simpa using hup, by simpa using hloop, hfamily, hadmits,
                      by simpa using hgood.1, rfl, hgood.2, rfl⟩
                  · intro hserves
                    have haddress := SockAddr.inet.inj (hfamily.symm.trans hserves.addr)
                    have hindex := hserves.index
                    have hport := hserves.port
                    have hinterface := hsame ep hserves
                    cases ep
                    dsimp only at haddress hindex hport hinterface
                    rw [haddress, hinterface, hindex, hinterface, hport]
                    rfl
          · next hrefused =>
            refine ⟨none, rfl, hnone ?_⟩
            intro ep hserves
            apply hrefused
            rw [← hsame ep hserves]
            exact hserves.admits

theorem entries_spec (k : Kernel) (entries : List IfAddr) :
    ((∀ e ∈ entries, e.Readable) ∧ ∃ result, k.entries entries = .ok result ∧
        ∀ ep, ep ∈ result ↔ ∃ e ∈ entries, k.Serves e ep) ∨
      ((∃ e ∈ entries, ¬ e.Readable) ∧ ∃ error, k.entries entries = .error error) := by
  induction entries with
  | nil =>
      left
      refine ⟨List.forall_mem_nil _, [], rfl, ?_⟩
      intro ep
      constructor
      · intro h
        cases h
      · intro h
        obtain ⟨e, he, -⟩ := h
        cases he
  | cons e rest ih =>
      rcases entry_spec k e with ⟨hreadable, found, hfound, hmem⟩ | ⟨hunreadable, error, herror⟩
      · rcases ih with ⟨hall, result, hresult, hrest⟩ | ⟨⟨e', he', hbad⟩, error, herror⟩
        · left
          refine ⟨List.forall_mem_cons.mpr ⟨hreadable, hall⟩, found.toList ++ result, ?_, ?_⟩
          · simp only [Kernel.entries, hfound, hresult]
            rfl
          · intro ep
            rw [List.mem_append, Option.mem_toList, ← Option.mem_def, hmem, hrest]
            simp only [List.mem_cons, exists_eq_or_imp]
        · right
          refine ⟨⟨e', List.mem_cons_of_mem _ he', hbad⟩, error, ?_⟩
          simp only [Kernel.entries, hfound, herror]
          rfl
      · right
        refine ⟨⟨e, List.mem_cons_self, hunreadable⟩, error, ?_⟩
        simp only [Kernel.entries, herror]
        rfl

/-- A list of what the entries serve, in order. -/
structure Kernel.Found (k : Kernel) (entries : List IfAddr) (result : List Endpoint) :
    Prop where
  readable : ∀ e ∈ entries, e.Readable
  ordered : result.Pairwise fun a b => a.key < b.key
  mem : ∀ ep, ep ∈ result ↔ ∃ e ∈ entries, k.Serves e ep
  length : result.length ≤ 32

/-- Discovery finds exactly that list. -/
theorem discover_iff (hentries : k.getifaddrs = some entries) :
    discover false k = .ok result ↔ k.Found entries result := by
  rw [discover, if_neg (by decide), hentries]
  dsimp only
  rcases entries_spec k entries with ⟨hall, found, hfound, hmem⟩ | ⟨⟨e, he, hbad⟩, error, herror⟩
  · have hsame : ∀ ep, ep ∈ canonical Endpoint.key found ↔ ∃ e ∈ entries, k.Serves e ep := by
      intro ep
      rw [mem_canonical, hmem]
    have hordered := canonical_pairwise (l := found) Endpoint.key_injective
    rw [hfound]
    change (if _ then Except.ok _ else Except.error _) = _ ↔ _
    constructor
    · intro h
      split at h
      · next hle =>
        obtain rfl := Except.ok.inj h
        exact ⟨hall, hordered, hsame, hle⟩
      · cases h
    · intro h
      have heq : canonical Endpoint.key found = result :=
        eq_of_ordered hordered h.ordered fun ep => (hsame ep).trans (h.mem ep).symm
      rw [heq, if_pos h.length]
  · rw [herror]
    constructor
    · intro h
      cases h
    · intro h
      exact absurd (h.readable e he) hbad

theorem discover_found (h : discover false k = .ok result) :
    ∃ entries, k.getifaddrs = some entries ∧ k.Found entries result := by
  cases hget : k.getifaddrs with
  | none =>
      rw [discover, if_neg (by decide), hget] at h
      cases h
  | some entries => exact ⟨entries, rfl, (discover_iff hget).mp h⟩

/-! ## Listening -/

/-- What `bind` and `local_addr` promise: the socket is bound to the address that was
asked for, at the port that was asked for or at one that the kernel has chosen. -/
structure Binds (listen : Endpoint → Except String (UInt16 × Fd))
    (Bound : Endpoint → Fd → Prop) : Prop where
  bound : ∀ ep port fd, listen ep = .ok (port, fd) → Bound { ep with port := port } fd
  chosen : ∀ ep port fd, listen ep = .ok (port, fd) → port ≠ 0
  asked : ∀ ep port fd, listen ep = .ok (port, fd) → ep.port ≠ 0 → port = ep.port

/-- Discovery leaves the port open. -/
theorem Kernel.Found.atPort_zero (h : k.Found entries result) (hep : ep ∈ result) :
    ep.atPort 0 = ep := by
  obtain ⟨e, -, hserves⟩ := (h.mem ep).mp hep
  have hport := hserves.port
  cases ep
  dsimp only at hport
  rw [hport]
  rfl

variable {listen : Endpoint → Except String (UInt16 × Fd)} {Bound : Endpoint → Fd → Prop}
  {join : Endpoint → Except String Fd} {addresses endpoints specs : List Endpoint}
  {port : UInt16} {fds : List Fd} {seen : List UInt32}

/-- All addresses are listened on at one port. -/
theorem listeners_bound (hbinds : Binds listen Bound)
    (h : listeners listen addresses port = .ok (endpoints, fds)) :
    List.Forall₂ Bound endpoints fds ∧ ∃ chosen : UInt16,
      endpoints = addresses.map (·.atPort chosen) ∧
      (addresses ≠ [] → chosen ≠ 0) ∧ (port ≠ 0 → chosen = port) := by
  induction addresses generalizing endpoints port fds with
  | nil =>
      obtain ⟨rfl, rfl⟩ : [] = endpoints ∧ [] = fds := by
        simpa [listeners] using h
      exact ⟨.nil, port, rfl, fun hne => absurd rfl hne, fun _ => rfl⟩
  | cons original rest ih =>
      cases hbind : listen { original with port := port } with
      | error e => simp [listeners, hbind, Bind.bind, Except.bind] at h
      | ok opened =>
          cases hrest : listeners listen rest opened.1 with
          | error e => simp [listeners, hbind, hrest, Bind.bind, Except.bind] at h
          | ok result =>
              obtain ⟨rfl, rfl⟩ : { original with port := opened.1 } ::
                  result.1 = endpoints ∧ opened.2 :: result.2 = fds := by
                simpa [listeners, hbind, hrest, Bind.bind, Except.bind, pure,
                  Except.pure] using h
              have hnonzero := hbinds.chosen _ _ _ hbind
              obtain ⟨hbound, chosen, hmap, -, hsame⟩ := ih hrest
              obtain rfl := hsame hnonzero
              refine ⟨.cons (hbinds.bound (original.atPort port) _ _ hbind) hbound, opened.1, ?_,
                fun _ => hnonzero, hbinds.asked _ _ _ hbind⟩
              rw [hmap]
              rfl

/-- The multicast group is joined once on each interface. -/
theorem socketsFrom_index (h : socketsFrom join seen endpoints = .ok (specs, fds)) :
    (specs.map Endpoint.index).Nodup ∧ ∀ index, index ∈ specs.map Endpoint.index ↔
      index ∈ endpoints.map Endpoint.index ∧ index ∉ seen := by
  induction endpoints generalizing seen specs fds with
  | nil =>
      obtain ⟨rfl, rfl⟩ : [] = specs ∧ [] = fds := by
        simpa [socketsFrom] using h
      exact ⟨List.nodup_nil, by simp⟩
  | cons ep rest ih =>
      rw [socketsFrom] at h
      split at h
      · next hseen =>
        obtain ⟨hnodup, hmem⟩ := ih h
        refine ⟨hnodup, fun index => ?_⟩
        rw [hmem, List.map_cons, List.mem_cons]
        constructor
        · intro hin
          exact ⟨.inr hin.1, hin.2⟩
        · intro hin
          rcases hin.1 with rfl | hrest
          · exact absurd hseen hin.2
          · exact ⟨hrest, hin.2⟩
      · next hseen =>
        cases hjoin : join ep with
        | error e => simp [hjoin, Bind.bind, Except.bind] at h
        | ok fd =>
            cases hrest : socketsFrom join (ep.index :: seen) rest with
            | error e => simp [hjoin, hrest, Bind.bind, Except.bind] at h
            | ok result =>
                obtain ⟨rfl, rfl⟩ : ep :: result.1 = specs ∧ fd :: result.2 = fds := by
                  simpa [hjoin, hrest, Bind.bind, Except.bind, pure, Except.pure] using h
                obtain ⟨hnodup, hmem⟩ := ih hrest
                constructor
                · rw [List.map_cons, List.nodup_cons, hmem]
                  exact ⟨fun hin => hin.2 List.mem_cons_self, hnodup⟩
                · intro index
                  rw [List.map_cons, List.mem_cons, hmem, List.map_cons, List.mem_cons,
                    List.mem_cons]
                  by_cases heq : index = ep.index
                  · rw [heq]
                    simp [hseen]
                  · simp [heq]

/-! ## A telephone -/

end Network

end Altdb
