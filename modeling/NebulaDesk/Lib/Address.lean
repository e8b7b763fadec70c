/-
Internet addresses and their texts, as `core::net` writes and reads them.

An IPv6 address is written in groups of hexadecimal digits with its longest run of zero groups
left out, an IPv4-mapped one with its last two groups as an IPv4 address; a socket address of
version 6 stands in brackets and names its scope.  The reader is the recursive descent of
`core::net`: what fails leaves the text as it was.

* **`SocketAddr.parse_text`** — the text of a socket address is read back as it, but for the
  flow information, which the text does not have.
* **`SocketAddr.length_text_le`** — it has at most 61 characters.
-/
import NebulaDesk.Lib.Numeral

namespace Net

open Numeral

/-- `k` numbers below `b`: the octets of an address, or its segments. -/
structure Groups (k b : ℕ) where
  toList : List ℕ
  length_eq : toList.length = k
  lt_of_mem : ∀ n ∈ toList, n < b
deriving DecidableEq

namespace Groups

variable {k b : ℕ}

theorem ext_toList {g g' : Groups k b} (h : g.toList = g'.toList) : g = g' := by
  cases g
  cases g'
  cases h
  rfl

def ofList? (k b : ℕ) (l : List ℕ) : Option (Groups k b) :=
  if h : l.length = k ∧ ∀ n ∈ l, n < b then some ⟨l, h.1, h.2⟩ else none

theorem ofList?_toList (g : Groups k b) : ofList? k b g.toList = some g := by
  rw [ofList?, dif_pos ⟨g.length_eq, g.lt_of_mem⟩]

theorem toList_of_ofList? {l : List ℕ} {g : Groups k b} (h : ofList? k b l = some g) :
    g.toList = l := by
  unfold ofList? at h
  split at h
  · cases h; rfl
  · cases h

end Groups

/-- The four octets. -/
abbrev Ipv4 := Groups 4 256

/-- The eight segments. -/
abbrev Ipv6 := Groups 8 65536

/-- `IpAddr`. -/
inductive IpAddr
  | v4 (ip : Ipv4)
  | v6 (ip : Ipv6)
deriving DecidableEq

def IpAddr.isIpv4 : IpAddr → Bool
  | v4 _ => true
  | v6 _ => false

/-- `SocketAddr`. -/
inductive SocketAddr
  | v4 (ip : Ipv4) (port : UInt16)
  | v6 (ip : Ipv6) (port : UInt16) (flowinfo scopeId : UInt32)
deriving DecidableEq

namespace SocketAddr

def ip : SocketAddr → IpAddr
  | v4 ip _ => .v4 ip
  | v6 ip _ _ _ => .v6 ip

def port : SocketAddr → UInt16
  | v4 _ port => port
  | v6 _ port _ _ => port

/-- The scope, which an address of version 4 does not have. -/
def scopeId : SocketAddr → UInt32
  | v4 _ _ => 0
  | v6 _ _ _ scopeId => scopeId

def isIpv4 : SocketAddr → Bool
  | v4 _ _ => true
  | v6 _ _ _ _ => false

/-- `SocketAddr::new`: no flow information and no scope. -/
def new : IpAddr → UInt16 → SocketAddr
  | .v4 ip, port => v4 ip port
  | .v6 ip, port => v6 ip port 0 0

@[simp] theorem ip_new (ip : IpAddr) (port : UInt16) : (new ip port).ip = ip := by
  cases ip <;> rfl

@[simp] theorem port_new (ip : IpAddr) (port : UInt16) : (new ip port).port = port := by
  cases ip <;> rfl

@[simp] theorem scopeId_new (ip : IpAddr) (port : UInt16) : (new ip port).scopeId = 0 := by
  cases ip <;> rfl

end SocketAddr

/-- `Ipv6Addr::to_ipv4_mapped`: `::ffff:a.b.c.d`. -/
def Ipv6.toIpv4Mapped (ip : Ipv6) : Option Ipv4 :=
  match ip.toList with
  | [0, 0, 0, 0, 0, 0xffff, ab, cd] =>
    Groups.ofList? 4 256 [ab / 256, ab % 256, cd / 256, cd % 256]
  | _ => none

/-! ### The texts -/

/-- Numbers in base `b` between separators. -/
def joined (sep : Char) (b : ℕ) (gs : List ℕ) : List Char :=
  [sep].intercalate (gs.map (Nat.toDigits b))

def Ipv4.text (ip : Ipv4) : List Char := joined '.' 10 ip.toList

/-- A run of zero segments. -/
structure Span where
  start : ℕ
  len : ℕ

/-- The longest run of zeros, the first of those: `i` segments are read, `current` is the run
that the last of them ends. -/
def zeroes : List ℕ → ℕ → Span → Span → Span
  | [], _, longest, _ => longest
  | segment :: segments, i, longest, current =>
    if segment = 0 then
      let current : Span := ⟨if current.len = 0 then i else current.start, current.len + 1⟩
      zeroes segments (i + 1) (if longest.len < current.len then current else longest) current
    else zeroes segments (i + 1) longest ⟨0, 0⟩

def Ipv6.text (ip : Ipv6) : List Char :=
  match ip.toIpv4Mapped with
  | some v4 => "::ffff:".toList ++ Ipv4.text v4
  | none =>
    let run := zeroes ip.toList 0 ⟨0, 0⟩ ⟨0, 0⟩
    if 1 < run.len then
      joined ':' 16 (ip.toList.take run.start) ++
        "::".toList ++ joined ':' 16 (ip.toList.drop (run.start + run.len))
    else joined ':' 16 ip.toList

def SocketAddr.text : SocketAddr → List Char
  | v4 ip port => Ipv4.text ip ++ ':' :: Nat.toDigits 10 port.toNat
  | v6 ip port _ scopeId =>
    '[' :: (Ipv6.text ip ++
      ((if scopeId = 0 then [] else '%' :: Nat.toDigits 10 scopeId.toNat) ++
        (']' :: ':' :: Nat.toDigits 10 port.toNat)))

/-! ### The reader -/

/-- What a reader takes off the front of a text, if it accepts it. -/
abbrev Reader (α : Type) := List Char → Option (α × List Char)

/-- `read_given_char`. -/
def given (target : Char) : List Char → Option (List Char)
  | c :: s => if c = target then some s else none
  | [] => none

/-- `read_separator`: every part but the first stands behind one. -/
def separated {α : Type} (sep : Char) (index : ℕ) (inner : Reader α) : Reader α := fun s =>
  if 0 < index then (given sep s).bind inner else inner s

/-- `read_number`: a number below `bound`. -/
def number (b : ℕ) (maxDigits : Option ℕ) (allowZeroPrefix : Bool) (bound : ℕ) : Reader ℕ :=
  fun s =>
    let (ds, rest) := scan b s
    if maxDigits.any (· < ds.length) then none
    else if ds.length = 0 then none
    else if !allowZeroPrefix && ds.head? = some 0 && 1 < ds.length then none
    else if value b ds < bound then some (value b ds, rest)
    else none

/-- The groups of `read_ipv4_addr` from the one of an index on. -/
def octets : ℕ → ℕ → Reader (List ℕ)
  | _, 0 => fun s => some ([], s)
  | i, n + 1 => fun s => do
    let (octet, s) ← separated '.' i (number 10 (some 3) false 256) s
    let (rest, s) ← octets (i + 1) n s
    some (octet :: rest, s)

/-- `read_ipv4_addr`. -/
def readIpv4 : Reader Ipv4 := fun s => do
  let (gs, s) ← octets 0 4 s
  let ip ← Groups.ofList? 4 256 gs
  some (ip, s)

/-- The two segments that the octets of an embedded address are. -/
def embedded (ip : Ipv4) : List ℕ :=
  match ip.toList with
  | [one, two, three, four] => [one * 256 + two, three * 256 + four]
  | _ => []

/-- `read_groups` from an index on, with `n` places left: the groups, whether the last two were
an IPv4 address, and the text after them. -/
def readGroups : ℕ → ℕ → List Char → (List ℕ × Bool) × List Char
  | _, 0, s => (([], false), s)
  | i, n + 1, s =>
    -- a trailing IPv4 address takes two places
    match if 0 < n then separated ':' i readIpv4 s else none with
    | some (ip, s) => ((embedded ip, true), s)
    | none =>
      match separated ':' i (number 16 (some 4) true 65536) s with
      | some (group, s) =>
        let r := readGroups (i + 1) n s
        ((group :: r.1.1, r.1.2), r.2)
      | none => (([], false), s)

/-- `read_ipv6_addr`. -/
def readIpv6 : Reader Ipv6 := fun s =>
  let ((head, isIpv4), s) := readGroups 0 8 s
  if head.length = 8 then (Groups.ofList? 8 65536 head).map (·, s)
  -- an IPv4 address is not allowed before `::`
  else if isIpv4 then none
  else do
    let s ← given ':' s
    let s ← given ':' s
    -- `::` stands for one group of zeros at least
    let ((tail, _), s) := readGroups 0 (8 - (head.length + 1)) s
    let zeros := List.replicate (8 - head.length - tail.length) 0
    let ip ← Groups.ofList? 8 65536 (head ++ zeros ++ tail)
    some (ip, s)

/-- `read_port`. -/
def readPort : Reader UInt16 := fun s => do
  let s ← given ':' s
  let (port, s) ← number 10 none true 65536 s
  some (UInt16.ofNat port, s)

/-- `read_scope_id`. -/
def readScopeId : Reader UInt32 := fun s => do
  let s ← given '%' s
  let (scope, s) ← number 10 none true 4294967296 s
  some (UInt32.ofNat scope, s)

/-- `read_socket_addr_v4`. -/
def readSocketAddrV4 : Reader SocketAddr := fun s => do
  let (ip, s) ← readIpv4 s
  let (port, s) ← readPort s
  some (.v4 ip port, s)

/-- `read_socket_addr_v6`. -/
def readSocketAddrV6 : Reader SocketAddr := fun s => do
  let s ← given '[' s
  let (ip, s) ← readIpv6 s
  let (scopeId, s) := (readScopeId s).getD (0, s)
  let s ← given ']' s
  let (port, s) ← readPort s
  some (.v6 ip port 0 scopeId, s)

/-- `SocketAddr::from_str`: the whole text is an address. -/
def SocketAddr.parse (s : List Char) : Option SocketAddr :=
  match (readSocketAddrV4 s).or (readSocketAddrV6 s) with
  | some (address, []) => some address
  | _ => none

/-! ### Numbers and their separators -/

variable {s : List Char} {gs : List ℕ}

theorem stops_ten (h : Stops 16 s) : Stops 10 s := by
  intro c hc
  have h16 := h c hc
  simp only [toDigit, ite_eq_right_iff, reduceCtorEq, imp_false, not_lt] at h16 ⊢
  split_ifs at h16 ⊢ <;> omega

theorem number_of_stops {b bound : ℕ} {maxDigits : Option ℕ} {zero : Bool}
    (h : Stops b s) : number b maxDigits zero bound s = none := by
  simp [number, scan_of_stops h]

theorem number_toDigits {b bound n : ℕ} {maxDigits : Option ℕ} {zero : Bool}
    (hb : 1 < b) (hb' : b ≤ 16) (hn : n < bound) (hmax : ∀ m ∈ maxDigits, 0 < m ∧ n < b ^ m)
    (hs : Stops b s) : number b maxDigits zero bound (Nat.toDigits b n ++ s) = some (n, s) := by
  have hlength : maxDigits.any (· < (digits b n).length) = false := by
    cases maxDigits with
    | none => rfl
    | some m =>
      obtain ⟨hpos, hlt⟩ := hmax m rfl
      have := length_digits_le hb hpos hlt
      simpa using this
  have hne : (digits b n).length ≠ 0 := by simpa using digits_ne_nil b n
  have hzero : (!zero && (digits b n).head? = some 0 && 1 < (digits b n).length) = false := by
    by_cases h : (digits b n).head? = some 0
    · simp [digits_of_head_zero h]
    · simp [h]
  unfold number
  rw [scan_toDigits hb hb' n hs]
  simp only [hlength, hne, hzero, value_digits, hn, if_true, if_false, Bool.false_eq_true]

/-- What follows the first number of a list. -/
def continued (sep : Char) (b : ℕ) (gs : List ℕ) : List Char :=
  gs.flatMap fun g => sep :: Nat.toDigits b g

@[simp] theorem continued_nil (sep : Char) (b : ℕ) : continued sep b [] = [] := rfl

theorem continued_cons (sep : Char) (b g : ℕ) (gs : List ℕ) :
    continued sep b (g :: gs) = sep :: (Nat.toDigits b g ++ continued sep b gs) := rfl

@[simp] theorem joined_nil (sep : Char) (b : ℕ) : joined sep b [] = [] := rfl

theorem joined_cons (sep : Char) (b g : ℕ) (gs : List ℕ) :
    joined sep b (g :: gs) = Nat.toDigits b g ++ continued sep b gs := by
  unfold joined
  induction gs generalizing g with
  | nil => simp
  | cons g' gs ih =>
    rw [List.map_cons, List.map_cons, List.intercalate_cons_cons, ← List.map_cons, ih,
      continued_cons]
    simp

theorem stops_continued {sep : Char} {b : ℕ} (hsep : toDigit b sep = none) (gs : List ℕ)
    (hs : Stops b s) : Stops b (continued sep b gs ++ s) := by
  cases gs with
  | nil => exact hs
  | cons g gs => exact stops_cons hsep _

/-! ### IPv4 -/

theorem number_octet {g : ℕ} (hg : g < 256) (hs : Stops 10 s) :
    number 10 (some 3) false 256 (Nat.toDigits 10 g ++ s) = some (g, s) :=
  number_toDigits (by decide) (by decide) hg
    (by rintro m ⟨rfl⟩; exact ⟨by decide, by omega⟩) hs

theorem octets_continued (hgs : ∀ g ∈ gs, g < 256) {i : ℕ} (hi : 0 < i) (hs : Stops 10 s) :
    octets i gs.length (continued '.' 10 gs ++ s) = some (gs, s) := by
  induction gs generalizing i with
  | nil => rfl
  | cons g gs ih =>
    have hg : g < 256 := hgs g List.mem_cons_self
    have hdot : toDigit 10 '.' = none := rfl
    have hnumber := number_octet hg (stops_continued hdot gs hs)
    rw [List.length_cons, octets, continued_cons]
    simp only [separated, if_pos hi, List.cons_append, given, if_true, Option.bind_some,
      List.append_assoc, hnumber, Option.bind_eq_bind,
      ih (fun g' hg' => hgs g' (List.mem_cons_of_mem _ hg')) (Nat.succ_pos i)]

theorem octets_joined {g : ℕ} (hgs : ∀ g' ∈ g :: gs, g' < 256) (hs : Stops 10 s) :
    octets 0 (gs.length + 1) (joined '.' 10 (g :: gs) ++ s) = some (g :: gs, s) := by
  have hg : g < 256 := hgs g List.mem_cons_self
  have hdot : toDigit 10 '.' = none := rfl
  have hnumber := number_octet hg (stops_continued hdot gs hs)
  rw [octets, joined_cons]
  simp only [separated, lt_irrefl, if_false, List.append_assoc, hnumber, Option.bind_eq_bind,
    Option.bind_some,
    octets_continued (fun g' hg' => hgs g' (List.mem_cons_of_mem _ hg')) Nat.one_pos hs]

theorem readIpv4_text (ip : Ipv4) (hs : Stops 10 s) :
    readIpv4 (Ipv4.text ip ++ s) = some (ip, s) := by
  obtain ⟨g, gs, hcons⟩ : ∃ g gs, ip.toList = g :: gs := by
    cases h : ip.toList with
    | nil => exact absurd ip.length_eq (by simp [h])
    | cons g gs => exact ⟨g, gs, rfl⟩
  have hlength : gs.length + 1 = 4 := by
    have := ip.length_eq
    rwa [hcons] at this
  have hlt : ∀ g' ∈ g :: gs, g' < 256 := by
    rw [← hcons]
    exact ip.lt_of_mem
  have hoctets := octets_joined hlt hs
  rw [hlength, ← hcons] at hoctets
  unfold readIpv4 Ipv4.text
  simp only [hoctets, Option.bind_eq_bind, Option.bind_some, Groups.ofList?_toList]

theorem readIpv4_of_stops (hs : Stops 10 s) : readIpv4 s = none := by
  simp [readIpv4, octets, separated, number_of_stops hs]

theorem readIpv4_of_number (h : (scan 10 s).2.head? ≠ some '.') : readIpv4 s = none := by
  have hgiven : given '.' (scan 10 s).2 = none := by
    cases hrest : (scan 10 s).2 with
    | nil => rfl
    | cons c t =>
      rw [hrest] at h
      exact if_neg fun hc => h (by rw [hc]; rfl)
  have hnumber : ∀ r ∈ number 10 (some 3) false 256 s, r.2 = (scan 10 s).2 := by
    intro r hr
    simp only [number, Option.mem_def] at hr
    split_ifs at hr
    cases hr
    rfl
  cases hfirst : number 10 (some 3) false 256 s with
  | none => simp [readIpv4, octets, separated, hfirst]
  | some r => simp [readIpv4, octets, separated, hfirst, hnumber r hfirst, hgiven]

/-! ### IPv6 -/

/-- A text that no list of segments goes on with. -/
structure Ends (s : List Char) : Prop where
  stops : Stops 16 s
  point : s.head? ≠ some '.'
  colon : ∀ t, s = ':' :: t → Stops 16 t

theorem Ends.cons {c : Char} (hc : toDigit 16 c = none) (hpoint : c ≠ '.') (hcolon : c ≠ ':')
    (s : List Char) : Ends (c :: s) where
  stops := stops_cons hc s
  point := fun h => hpoint (Option.some.inj h)
  colon := fun _ h => absurd (List.cons.inj h).1 hcolon

/-- `::` ends the segments before it. -/
theorem ends_colons (s : List Char) : Ends (':' :: ':' :: s) where
  stops := stops_cons rfl _
  point := by simp
  colon := fun t h => by
    rw [← (List.cons.inj h).2]
    exact stops_cons rfl s

theorem separated_of_ends {α : Type} {inner : Reader α} (hinner : ∀ s, Stops 16 s → inner s = none)
    (hs : Ends s) (i : ℕ) : separated ':' i inner s = none := by
  unfold separated
  split
  · cases s with
    | nil => rfl
    | cons c t =>
      by_cases hc : c = ':'
      · subst hc
        exact hinner t (hs.colon t rfl)
      · rw [given, if_neg hc]
        rfl
  · exact hinner s hs.stops

theorem readGroups_of_ends (hs : Ends s) (i n : ℕ) : readGroups i n s = (([], false), s) := by
  cases n with
  | zero => rfl
  | succ n =>
    have hip := separated_of_ends (fun t ht => readIpv4_of_stops (stops_ten ht)) hs i
    have hgroup : separated ':' i (number 16 (some 4) true 65536) s = none :=
      separated_of_ends (fun t ht => number_of_stops ht) hs i
    rw [readGroups, hip, ite_self, hgroup]

theorem scan_head_ne {b : ℕ} {c : Char} {t s : List Char} (ht : c ∉ t) (hs : Stops b s)
    (hhead : s.head? ≠ some c) : (scan b (t ++ s)).2.head? ≠ some c := by
  induction t with
  | nil => rwa [List.nil_append, scan_of_stops hs]
  | cons c' t ih =>
    rw [List.cons_append, scan]
    cases toDigit b c' with
    | none => exact fun h => ht (by rw [← Option.some.inj h]; exact List.mem_cons_self)
    | some d => exact ih fun hmem => ht (List.mem_cons_of_mem _ hmem)

/-- The characters of the texts. -/
def alphabet : List Char := "0123456789abcdef.:%[]".toList

theorem digitChar_mem {d : ℕ} (hd : d < 16) : d.digitChar ∈ "0123456789abcdef".toList := by
  interval_cases d <;> decide

theorem toDigits_mem {b : ℕ} (hb : 1 < b) (hb' : b ≤ 16) (n : ℕ) :
    ∀ c ∈ Nat.toDigits b n, c ∈ "0123456789abcdef".toList := by
  intro c hc
  rw [toDigits_eq_map hb] at hc
  obtain ⟨d, hd, rfl⟩ := List.mem_map.mp hc
  exact digitChar_mem (lt_of_lt_of_le (digits_lt hb n d hd) hb')

theorem readIpv4_group (g : ℕ) (hs : Stops 16 s) (hpoint : s.head? ≠ some '.') :
    readIpv4 (Nat.toDigits 16 g ++ s) = none :=
  readIpv4_of_number (scan_head_ne
    (fun h => absurd (toDigits_mem (by decide) (by decide) g '.' h) (by decide))
    (stops_ten hs) hpoint)

theorem number_group {g : ℕ} (hg : g < 65536) (hs : Stops 16 s) :
    number 16 (some 4) true 65536 (Nat.toDigits 16 g ++ s) = some (g, s) :=
  number_toDigits (by decide) (by decide) hg (by rintro m ⟨rfl⟩; exact ⟨by decide, hg⟩) hs

theorem continued_head_ne (gs : List ℕ) (hs : Ends s) :
    (continued ':' 16 gs ++ s).head? ≠ some '.' := by
  cases gs with
  | nil => exact hs.point
  | cons g gs => simp [continued_cons]

theorem readGroups_continued (hgs : ∀ g ∈ gs, g < 65536) (hs : Ends s) {i n : ℕ} (hi : 0 < i)
    (hn : gs.length ≤ n) : readGroups i n (continued ':' 16 gs ++ s) = ((gs, false), s) := by
  induction gs generalizing i n with
  | nil => exact readGroups_of_ends hs i n
  | cons g gs ih =>
    obtain ⟨n, rfl⟩ : ∃ m, n = m + 1 := ⟨n - 1, by simp at hn; omega⟩
    have hstops : Stops 16 (continued ':' 16 gs ++ s) := stops_continued rfl gs hs.stops
    have hip := readIpv4_group g hstops (continued_head_ne gs hs)
    have hgroup := number_group (hgs g List.mem_cons_self) hstops
    have hrest := ih (fun g' hg' => hgs g' (List.mem_cons_of_mem _ hg')) (Nat.succ_pos i)
      (Nat.succ_le_succ_iff.mp hn)
    rw [readGroups, continued_cons]
    simp only [separated, if_pos hi, List.cons_append, given, if_true, Option.bind_some,
      List.append_assoc, hip, ite_self, hgroup, hrest]

theorem readGroups_joined (hgs : ∀ g ∈ gs, g < 65536) (hs : Ends s) {n : ℕ} (hn : gs.length ≤ n) :
    readGroups 0 n (joined ':' 16 gs ++ s) = ((gs, false), s) := by
  cases gs with
  | nil => exact readGroups_of_ends hs 0 n
  | cons g gs =>
    obtain ⟨n, rfl⟩ : ∃ m, n = m + 1 := ⟨n - 1, by simp at hn; omega⟩
    have hstops : Stops 16 (continued ':' 16 gs ++ s) := stops_continued rfl gs hs.stops
    have hip := readIpv4_group g hstops (continued_head_ne gs hs)
    have hgroup := number_group (hgs g List.mem_cons_self) hstops
    have hrest := readGroups_continued (fun g' hg' => hgs g' (List.mem_cons_of_mem _ hg')) hs
      Nat.one_pos (Nat.succ_le_succ_iff.mp hn)
    rw [readGroups, joined_cons]
    simp only [separated, lt_irrefl, if_false, List.append_assoc, hip, ite_self, hgroup, hrest]

/-- A run of zeros of the segments. -/
def Span.In (run : Span) (segments : List ℕ) : Prop :=
  ∀ j, run.start ≤ j → j < run.start + run.len → segments[j]? = some 0

theorem Span.in_nil (segments : List ℕ) (start : ℕ) : Span.In ⟨start, 0⟩ segments := by
  intro j hle hlt
  exact absurd hlt (Nat.not_lt.mpr hle)

theorem zeroes_in {segments rest : List ℕ} {i : ℕ} {longest current : Span}
    (hrest : segments.drop i = rest) (hlongest : longest.In segments)
    (hcurrent : current.In segments) (hend : current.len ≠ 0 → current.start + current.len = i) :
    (zeroes rest i longest current).In segments := by
  induction rest generalizing i longest current with
  | nil => exact hlongest
  | cons g rest ih =>
    have hg : segments[i]? = some g := by
      rw [← List.head?_drop, hrest]
      rfl
    have hdrop : segments.drop (i + 1) = rest := by
      rw [← List.drop_drop, hrest]
      rfl
    rw [zeroes]
    split
    · next hzero =>
      subst hzero
      -- the run now ends behind segment `i`
      have hrun : Span.In ⟨if current.len = 0 then i else current.start, current.len + 1⟩
          segments := by
        intro j hle hlt
        by_cases hj : j = i
        · rw [hj, hg]
        · by_cases hlen : current.len = 0
          · simp only [hlen, if_true] at hle hlt
            omega
          · have := hend hlen
            simp only [hlen, if_false] at hle hlt
            exact hcurrent j hle (by omega)
      have hpick : ∀ run : Span, run.In segments →
          Span.In (if longest.len < run.len then run else longest) segments := by
        intro run h
        split
        · exact h
        · exact hlongest
      refine ih hdrop (hpick _ hrun) hrun fun _ => ?_
      by_cases hlen : current.len = 0
      · simp [hlen]
      · have := hend hlen
        simp only [hlen, if_false]
        omega
    · exact ih hdrop hlongest (Span.in_nil _ _) (fun h => absurd rfl h)

theorem Span.In.split {run : Span} {segments : List ℕ} (h : run.In segments) (hlen : 0 < run.len) :
    run.start + run.len ≤ segments.length ∧
      segments.take run.start ++ List.replicate run.len 0 ++
        segments.drop (run.start + run.len) = segments := by
  have hle : run.start + run.len ≤ segments.length := by
    have hlast := h (run.start + run.len - 1) (by omega) (by omega)
    have := (List.getElem?_eq_some_iff.mp hlast).1
    omega
  refine ⟨hle, List.ext_getElem? fun j => ?_⟩
  have htake : (segments.take run.start).length = run.start := by
    rw [List.length_take]
    omega
  rcases lt_or_ge j run.start with hj | hj
  · rw [List.append_assoc, List.getElem?_append_left (by omega), List.getElem?_take_of_lt hj]
  · rcases lt_or_ge j (run.start + run.len) with hj' | hj'
    · rw [List.getElem?_append_left (by simp; omega), List.getElem?_append_right (by omega), htake,
        List.getElem?_replicate, if_pos (by omega), h j hj hj']
    · rw [List.getElem?_append_right (by simp; omega), List.getElem?_drop]
      congr 1
      simp
      omega

theorem toList_of_mapped {ip : Ipv6} {v4 : Ipv4} (h : ip.toIpv4Mapped = some v4) :
    ip.toList = [0, 0, 0, 0, 0, 0xffff] ++ embedded v4 := by
  unfold Ipv6.toIpv4Mapped at h
  split at h
  · next ab cd hlist =>
    rw [hlist, embedded, Groups.toList_of_ofList? h]
    simp only [Nat.div_add_mod']
    rfl
  · cases h

theorem readIpv6_mapped {ip : Ipv6} {v4 : Ipv4} (h : ip.toIpv4Mapped = some v4)
    (hs : Ends s) : readIpv6 ("::ffff:".toList ++ Ipv4.text v4 ++ s) = some (ip, s) := by
  have hlist := toList_of_mapped h
  have hembedded : (embedded v4).length = 2 := by
    have := ip.length_eq
    rw [hlist] at this
    simpa using this
  have hv4 : readIpv4 (Ipv4.text v4 ++ s) = some (v4, s) := readIpv4_text v4 (stops_ten hs.stops)
  have hhead : readGroups 0 8 ("::ffff:".toList ++ Ipv4.text v4 ++ s) =
      (([], false), "::ffff:".toList ++ Ipv4.text v4 ++ s) := by
    exact readGroups_of_ends (ends_colons _) 0 8
  -- the group `ffff`, and the address behind its colon
  have htail : readGroups 0 7 ('f' :: 'f' :: 'f' :: 'f' :: ':' :: (Ipv4.text v4 ++ s)) =
      ((0xffff :: embedded v4, true), s) := by
    have hip : readIpv4 (Nat.toDigits 16 0xffff ++ ':' :: (Ipv4.text v4 ++ s)) = none :=
      readIpv4_group 0xffff (stops_cons rfl _) (by simp)
    have hgroup : number 16 (some 4) true 65536
        (Nat.toDigits 16 0xffff ++ ':' :: (Ipv4.text v4 ++ s)) =
        some (0xffff, ':' :: (Ipv4.text v4 ++ s)) :=
      number_group (by decide) (stops_cons rfl _)
    have hnext : readGroups 1 6 (':' :: (Ipv4.text v4 ++ s)) = ((embedded v4, true), s) := by
      rw [readGroups]
      simp [separated, given, hv4]
    have hfirst : readGroups 0 7 (Nat.toDigits 16 0xffff ++ ':' :: (Ipv4.text v4 ++ s)) =
        ((0xffff :: embedded v4, true), s) := by
      rw [readGroups]
      simp only [separated, lt_irrefl, if_false, hip, ite_self, hgroup, hnext]
    exact hfirst
  have hof : Groups.ofList? 8 65536 ([0, 0, 0, 0, 0, 0xffff] ++ embedded v4) = some ip := by
    rw [← hlist, Groups.ofList?_toList]
  have hzeros : [] ++ List.replicate (8 - 0 - (0xffff :: embedded v4).length) 0 ++
      0xffff :: embedded v4 = [0, 0, 0, 0, 0, 0xffff] ++ embedded v4 := by
    rw [List.length_cons, hembedded]
    rfl
  have htext : "::ffff:".toList ++ Ipv4.text v4 ++ s =
      ':' :: ':' :: 'f' :: 'f' :: 'f' :: 'f' :: ':' :: (Ipv4.text v4 ++ s) := rfl
  unfold readIpv6
  rw [hhead, htext]
  simp only [List.length_nil, given, if_true, Option.bind_eq_bind, Option.bind_some, htail, hzeros,
    hof]
  rfl

theorem readIpv6_text (ip : Ipv6) (hs : Ends s) : readIpv6 (Ipv6.text ip ++ s) = some (ip, s) := by
  unfold Ipv6.text
  split
  · next v4 hmapped => exact readIpv6_mapped hmapped hs
  · have hrun : (zeroes ip.toList 0 ⟨0, 0⟩ ⟨0, 0⟩).In ip.toList :=
      zeroes_in rfl (Span.in_nil _ _) (Span.in_nil _ _) (fun h => absurd rfl h)
    generalize zeroes ip.toList 0 ⟨0, 0⟩ ⟨0, 0⟩ = run at hrun
    have height : ip.toList.length = 8 := ip.length_eq
    simp only
    split
    · next hlen =>
      obtain ⟨hle, hsplit⟩ := hrun.split (by omega)
      have htake : (ip.toList.take run.start).length = run.start := by
        rw [List.length_take]
        omega
      have hdrop : (ip.toList.drop (run.start + run.len)).length = 8 - (run.start + run.len) := by
        rw [List.length_drop, height]
      have hlow : ∀ g ∈ ip.toList.take run.start, g < 65536 :=
        fun g hg => ip.lt_of_mem g (List.mem_of_mem_take hg)
      have hhigh : ∀ g ∈ ip.toList.drop (run.start + run.len), g < 65536 :=
        fun g hg => ip.lt_of_mem g (List.mem_of_mem_drop hg)
      have hfront := readGroups_joined hlow
        (ends_colons (joined ':' 16 (ip.toList.drop (run.start + run.len)) ++ s)) (n := 8)
        (by omega)
      have hback := readGroups_joined hhigh hs (n := 8 - (run.start + 1)) (by omega)
      have hzeros : 8 - run.start - (8 - (run.start + run.len)) = run.len := by omega
      have hcolons : "::".toList = [':', ':'] := rfl
      have hne : run.start ≠ 8 := by omega
      unfold readIpv6
      rw [hcolons, List.append_assoc, List.append_assoc, List.cons_append, List.cons_append,
        List.nil_append, hfront]
      simp only [htake, hne, if_false, Bool.false_eq_true, given, if_true, Option.bind_eq_bind,
        Option.bind_some, hback, hdrop, hzeros, hsplit, Groups.ofList?_toList]
    · have hread := readGroups_joined ip.lt_of_mem hs (n := 8) (by omega)
      unfold readIpv6
      rw [hread]
      simp only [height, if_true, Groups.ofList?_toList, Option.map_some]

/-! ### Socket addresses -/

theorem readPort_toDigits (port : UInt16) :
    readPort (':' :: Nat.toDigits 10 port.toNat) = some (port, []) := by
  have hnumber : number 10 none true 65536 (Nat.toDigits 10 port.toNat ++ []) =
      some (port.toNat, []) :=
    number_toDigits (by decide) (by decide) port.toNat_lt (by simp) (stops_nil 10)
  rw [List.append_nil] at hnumber
  simp [readPort, given, hnumber]

theorem readScopeId_toDigits (scopeId : UInt32) (hs : Stops 10 s) :
    readScopeId ('%' :: (Nat.toDigits 10 scopeId.toNat ++ s)) = some (scopeId, s) := by
  have hnumber : number 10 none true 4294967296 (Nat.toDigits 10 scopeId.toNat ++ s) =
      some (scopeId.toNat, s) :=
    number_toDigits (by decide) (by decide) scopeId.toNat_lt (by simp) hs
  simp [readScopeId, given, hnumber]

namespace SocketAddr

theorem parse_text : ∀ address : SocketAddr,
    parse address.text = some (match address with
      | v4 ip port => v4 ip port
      | v6 ip port _ scopeId => v6 ip port 0 scopeId)
  | v4 ip port => by
    have hip := readIpv4_text ip (s := ':' :: Nat.toDigits 10 port.toNat) (stops_cons rfl _)
    simp [parse, text, readSocketAddrV4, hip, readPort_toDigits]
  | v6 ip port flowinfo scopeId => by
    have hv4 : ∀ s, readSocketAddrV4 ('[' :: s) = none := by
      intro s
      simp [readSocketAddrV4, readIpv4_of_stops (stops_cons (c := '[') rfl s)]
    by_cases hscope : scopeId = 0
    · have hip := readIpv6_text ip (s := ']' :: ':' :: Nat.toDigits 10 port.toNat)
        (.cons rfl (by decide) (by decide) _)
      have hnone : ∀ s, readScopeId (']' :: s) = none := fun _ => rfl
      simp [parse, text, readSocketAddrV6, hv4, given, hscope, hip, hnone, readPort_toDigits]
    · have hip := readIpv6_text ip
        (s := '%' :: (Nat.toDigits 10 scopeId.toNat ++ ']' :: ':' :: Nat.toDigits 10 port.toNat))
        (.cons rfl (by decide) (by decide) _)
      have hid := readScopeId_toDigits scopeId
        (s := ']' :: ':' :: Nat.toDigits 10 port.toNat) (stops_cons rfl _)
      simp [parse, text, readSocketAddrV6, hv4, given, hscope, hip, hid, readPort_toDigits]

end SocketAddr

/-! ### The size of a text -/

theorem length_toDigits_le {b n e : ℕ} (hb : 1 < b) (he : 0 < e) (h : n < b ^ e) :
    (Nat.toDigits b n).length ≤ e := by
  rw [toDigits_eq_map hb, List.length_map]
  exact length_digits_le hb he h

theorem length_joined_le {sep : Char} {b e : ℕ} {gs : List ℕ} (hb : 1 < b) (he : 0 < e)
    (hgs : ∀ g ∈ gs, g < b ^ e) : (joined sep b gs).length ≤ gs.length * (e + 1) := by
  have hcontinued : ∀ l : List ℕ, (∀ g ∈ l, g < b ^ e) →
      (continued sep b l).length ≤ l.length * (e + 1) := by
    intro l hl
    induction l with
    | nil => exact Nat.zero_le _
    | cons g l ih =>
      have hg := length_toDigits_le hb he (hl g List.mem_cons_self)
      have hrest := ih fun g' hg' => hl g' (List.mem_cons_of_mem _ hg')
      rw [continued_cons, List.length_cons, List.length_append, List.length_cons, Nat.succ_mul]
      omega
  cases gs with
  | nil => exact Nat.zero_le _
  | cons g gs =>
    have hg := length_toDigits_le hb he (hgs g List.mem_cons_self)
    have hrest := hcontinued gs fun g' hg' => hgs g' (List.mem_cons_of_mem _ hg')
    rw [joined_cons, List.length_append, List.length_cons, Nat.succ_mul]
    omega

theorem length_text_ipv4_le (ip : Ipv4) : (Ipv4.text ip).length ≤ 16 := by
  have h : (Ipv4.text ip).length ≤ ip.toList.length * (3 + 1) :=
    length_joined_le (by decide) (by decide) fun g hg => by
      have := ip.lt_of_mem g hg
      omega
  rwa [ip.length_eq] at h

theorem length_text_ipv6_le (ip : Ipv6) : (Ipv6.text ip).length ≤ 42 := by
  have hjoined : ∀ gs : List ℕ, (∀ g ∈ gs, g ∈ ip.toList) →
      (joined ':' 16 gs).length ≤ gs.length * (4 + 1) := fun gs hgs =>
    length_joined_le (by decide) (by decide) fun g hg => ip.lt_of_mem g (hgs g hg)
  have height : ip.toList.length = 8 := ip.length_eq
  unfold Ipv6.text
  split
  · next v4 _ =>
    have := length_text_ipv4_le v4
    rw [List.length_append]
    simp
    omega
  · generalize zeroes ip.toList 0 ⟨0, 0⟩ ⟨0, 0⟩ = run
    have hfront := hjoined (ip.toList.take run.start) fun g hg => List.mem_of_mem_take hg
    have hback := hjoined (ip.toList.drop (run.start + run.len)) fun g hg => List.mem_of_mem_drop hg
    have hfull := hjoined ip.toList fun g hg => hg
    rw [List.length_take] at hfront
    rw [List.length_drop] at hback
    simp only
    split
    · rw [List.length_append, List.length_append]
      simp only [String.reduceToList, List.length_cons, List.length_nil]
      omega
    · omega

theorem SocketAddr.length_text_le : ∀ address : SocketAddr, address.text.length ≤ 61
  | v4 ip port => by
    have hip := length_text_ipv4_le ip
    have hport : (Nat.toDigits 10 port.toNat).length ≤ 5 :=
      length_toDigits_le (by decide) (by decide) (by have := port.toNat_lt; omega)
    rw [text, List.length_append, List.length_cons]
    omega
  | v6 ip port _ scopeId => by
    have hip := length_text_ipv6_le ip
    have hport : (Nat.toDigits 10 port.toNat).length ≤ 5 :=
      length_toDigits_le (by decide) (by decide) (by have := port.toNat_lt; omega)
    have hid : (Nat.toDigits 10 scopeId.toNat).length ≤ 10 :=
      length_toDigits_le (by decide) (by decide) (by have := scopeId.toNat_lt; omega)
    rw [text]
    split
    · simp only [List.length_cons, List.length_append, List.length_nil]
      omega
    · simp only [List.length_cons, List.length_append]
      omega

/-! ### The characters of a text -/

theorem toDigits_alphabet {b : ℕ} (hb : 1 < b) (hb' : b ≤ 16) (n : ℕ) :
    ∀ c ∈ Nat.toDigits b n, c ∈ alphabet := by
  intro c hc
  exact List.mem_append_left ".:%[]".toList (toDigits_mem hb hb' n c hc)

theorem joined_alphabet {sep : Char} (hsep : sep ∈ alphabet) {b : ℕ} (hb : 1 < b) (hb' : b ≤ 16)
    (gs : List ℕ) : ∀ c ∈ joined sep b gs, c ∈ alphabet := by
  have hcontinued : ∀ l : List ℕ, ∀ c ∈ continued sep b l, c ∈ alphabet := by
    intro l c hc
    obtain ⟨g, -, hg⟩ := List.mem_flatMap.mp hc
    rcases List.mem_cons.mp hg with rfl | hg
    · exact hsep
    · exact toDigits_alphabet hb hb' g c hg
  cases gs with
  | nil => simp
  | cons g gs =>
    intro c hc
    rw [joined_cons] at hc
    rcases List.mem_append.mp hc with hc | hc
    · exact toDigits_alphabet hb hb' g c hc
    · exact hcontinued gs c hc

theorem text_ipv4_alphabet (ip : Ipv4) : ∀ c ∈ Ipv4.text ip, c ∈ alphabet :=
  joined_alphabet (by decide) (by decide) (by decide) ip.toList

theorem text_ipv6_alphabet (ip : Ipv6) : ∀ c ∈ Ipv6.text ip, c ∈ alphabet := by
  have hjoined : ∀ gs, ∀ c ∈ joined ':' 16 gs, c ∈ alphabet := fun gs =>
    joined_alphabet (by decide) (by decide) (by decide) gs
  have hfixed : ∀ c ∈ "::ffff:".toList, c ∈ alphabet :=
    List.all_iff_forall_prop.mp (by decide)
  have hcolons : ∀ c ∈ "::".toList, c ∈ alphabet := List.all_iff_forall_prop.mp (by decide)
  intro c hc
  unfold Ipv6.text at hc
  split at hc
  · rcases List.mem_append.mp hc with hc | hc
    · exact hfixed c hc
    · exact text_ipv4_alphabet _ c hc
  · simp only at hc
    split at hc
    · rcases List.mem_append.mp hc with hc | hc
      · rcases List.mem_append.mp hc with hc | hc
        · exact hjoined _ c hc
        · exact hcolons c hc
      · exact hjoined _ c hc
    · exact hjoined _ c hc

theorem SocketAddr.text_alphabet : ∀ address : SocketAddr, ∀ c ∈ address.text, c ∈ alphabet
  | v4 ip port => by
    intro c hc
    rcases List.mem_append.mp hc with hc | hc
    · exact text_ipv4_alphabet ip c hc
    · rcases List.mem_cons.mp hc with rfl | hc
      · decide
      · exact toDigits_alphabet (by decide) (by decide) _ c hc
  | v6 ip port _ scopeId => by
    have hdigits := fun n => toDigits_alphabet (b := 10) (by decide) (by decide) n
    intro c hc
    rcases List.mem_cons.mp hc with rfl | hc
    · decide
    rcases List.mem_append.mp hc with hc | hc
    · exact text_ipv6_alphabet ip c hc
    rcases List.mem_append.mp hc with hc | hc
    · split at hc
      · cases hc
      · rcases List.mem_cons.mp hc with rfl | hc
        · decide
        · exact hdigits _ c hc
    · rcases List.mem_cons.mp hc with rfl | hc
      · decide
      rcases List.mem_cons.mp hc with rfl | hc
      · decide
      · exact hdigits _ c hc

end Net
