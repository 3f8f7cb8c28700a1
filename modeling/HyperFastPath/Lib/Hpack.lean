import Mathlib.Tactic.Ring
import Mathlib.Data.List.Basic

/-!
# HPACK decoding

The decoder of RFC 7541: prefix integers, string literals, the dynamic table with its eviction, and
the field representations of a header block.  A string is kept in the form it has on the wire, so
its decoded length, which is what the size of a table entry counts, is a parameter, as is the
static table.
-/

namespace Hpack

/-- A string literal: its octets, and whether they are Huffman coded (section 5.2). -/
structure Str where
  huffman : Bool
  octets : List UInt8
  deriving DecidableEq, Repr

structure Field where
  name : Str
  value : Str
  deriving DecidableEq, Repr

/-- The entries, most recent first, and the most they may add up to (section 4). -/
structure Table where
  entries : List Field
  capacity : Nat
  deriving DecidableEq, Repr

/-! ## 1. Integers and strings -/

/-- The octets that follow a full prefix (section 5.1). -/
def decodeIntRest (acc shift : Nat) : List UInt8 → Option (Nat × List UInt8)
  | [] => none
  | b :: bs =>
    let acc := acc + b.toNat % 128 * 2 ^ shift
    if b.toNat < 128 then some (acc, bs) else decodeIntRest acc (shift + 7) bs

/-- An integer with an `n` bit prefix (section 5.1). -/
def decodeInt (n : Nat) : List UInt8 → Option (Nat × List UInt8)
  | [] => none
  | b :: bs =>
    let i := b.toNat % 2 ^ n
    if i < 2 ^ n - 1 then some (i, bs) else decodeIntRest i 0 bs

def decodeStr (bs : List UInt8) : Option (Str × List UInt8) :=
  match decodeInt 7 bs with
  | none => none
  | some (len, rest) =>
    if rest.length < len then none
    else some (⟨decide (128 ≤ (bs.headD 0).toNat), rest.take len⟩, rest.drop len)

/-- A string short enough for a one octet length. -/
def shortStr (s : Str) : List UInt8 :=
  UInt8.ofNat ((if s.huffman then 128 else 0) + s.octets.length) :: s.octets

theorem decodeStr_shortStr (s : Str) (rest : List UInt8) (h : s.octets.length < 127) :
    decodeStr (shortStr s ++ rest) = some (s, rest) := by
  obtain ⟨huffman, octets⟩ := s
  simp only at h
  -- the flag is the top bit, and a length of 127 would be a full prefix
  have hb : (UInt8.ofNat ((if huffman then 128 else 0) + octets.length)).toNat =
      (if huffman then 128 else 0) + octets.length := by
    rw [UInt8.toNat_ofNat_of_lt']
    cases huffman <;> simp only [UInt8.size] <;> simp <;> omega
  have hmod : ((if huffman then 128 else 0) + octets.length) % 2 ^ 7 = octets.length := by
    cases huffman <;> simp <;> omega
  have hflag : decide (128 ≤ (if huffman then 128 else 0) + octets.length) = huffman := by
    cases huffman <;> simp
    omega
  simp only [decodeStr, shortStr, List.cons_append, decodeInt, hb, hmod]
  rw [if_pos (by omega)]
  simp only [List.headD_cons, hb, hflag]
  rw [if_neg (by simp), List.take_left, List.drop_left]

/-! ## 2. The dynamic table -/

section Decoder

variable (len : Str → Nat)

/-- Section 4.1. -/
def Field.size (f : Field) : Nat := len f.name + len f.value + 32

def totalSize (fs : List Field) : Nat := (fs.map (Field.size len)).sum

/-- The most recent entries that fit into `room`: what eviction leaves (section 4.3). -/
def fitting : Nat → List Field → List Field
  | _, [] => []
  | room, f :: fs => if f.size len ≤ room then f :: fitting (room - f.size len) fs else []

/-- Section 4.4.  An entry larger than the table empties it. -/
def Table.insert (t : Table) (f : Field) : Table :=
  { t with entries :=
      if f.size len ≤ t.capacity then f :: fitting len (t.capacity - f.size len) t.entries else [] }

theorem fitting_eq_self {room : Nat} {fs : List Field} (h : totalSize len fs ≤ room) :
    fitting len room fs = fs := by
  induction fs generalizing room with
  | nil => rfl
  | cons f fs ih =>
    simp only [totalSize, List.map_cons, List.sum_cons] at h
    rw [fitting, if_pos (by omega), ih (by simp only [totalSize]; omega)]

theorem insert_of_fits (t : Table) (f : Field)
    (h : f.size len + totalSize len t.entries ≤ t.capacity) :
    t.insert len f = { t with entries := f :: t.entries } := by
  rw [Table.insert, if_pos (by omega), fitting_eq_self len (by omega)]

/-- The entries do not add up to more than the table may hold. -/
def Table.Fits (t : Table) : Prop := totalSize len t.entries ≤ t.capacity

variable {len} in
theorem fitting_size (room : Nat) (fs : List Field) : totalSize len (fitting len room fs) ≤ room := by
  induction fs generalizing room with
  | nil => exact Nat.zero_le room
  | cons f fs ih =>
    rw [fitting]
    split
    · have := ih (room - f.size len)
      simp only [totalSize, List.map_cons, List.sum_cons] at this ⊢
      omega
    · exact Nat.zero_le room

variable {len} in
theorem insert_fits (t : Table) (f : Field) : (t.insert len f).Fits len := by
  simp only [Table.Fits, Table.insert]
  split
  · have hrest : totalSize len (fitting len (t.capacity - f.size len) t.entries) ≤
        t.capacity - f.size len := fitting_size _ _
    simp only [totalSize, List.map_cons, List.sum_cons] at hrest ⊢
    omega
  · exact Nat.zero_le t.capacity

/-! ## 3. Header blocks -/

variable (static : Nat → Option Field)

/-- The entry at an index of the static and the dynamic table (section 2.3.3). -/
def Table.lookup (t : Table) (i : Nat) : Option Field :=
  if i ≤ 61 then static i else t.entries[i - 62]?

/-- A literal representation: the name by index or spelled out, then the value. -/
def decodeLiteral (n : Nat) (t : Table) (bs : List UInt8) : Option (Field × List UInt8) :=
  match decodeInt n bs with
  | none => none
  | some (i, rest) =>
    match if i = 0 then decodeStr rest else (t.lookup static i).map fun f ↦ (f.name, rest) with
    | none => none
    | some (name, rest) => (decodeStr rest).map fun (value, rest) ↦ (⟨name, value⟩, rest)

/-- One representation (section 6): the field it stands for, if any, and the table after it. -/
def decodeRep (t : Table) (bs : List UInt8) : Option (Option Field × Table × List UInt8) :=
  let b := (bs.headD 0).toNat
  -- an entry of the tables
  if 128 ≤ b then
    match decodeInt 7 bs with
    | none => none
    | some (i, rest) => (t.lookup static i).map fun f ↦ (some f, t, rest)
  else if 64 ≤ b then
    -- a literal that is added to the table
    (decodeLiteral static 6 t bs).map fun (f, rest) ↦ (some f, t.insert len f, rest)
  else if 32 ≤ b then
    -- a new capacity, which may evict
    (decodeInt 5 bs).map fun (n, rest) ↦
      (none, { entries := fitting len n t.entries, capacity := n }, rest)
  -- a literal that is not added
  else (decodeLiteral static 4 t bs).map fun (f, rest) ↦ (some f, t, rest)

/-- Up to `fuel` representations. -/
def decodeReps : Nat → Table → List UInt8 → Option (List Field × Table)
  | _, t, [] => some ([], t)
  | 0, _, _ :: _ => none
  | fuel + 1, t, bs@(_ :: _) =>
    match decodeRep len static t bs with
    | none => none
    | some (f, t, rest) =>
      (decodeReps fuel t rest).map fun (fs, t) ↦ (f.toList ++ fs, t)

/-- A header block: the fields it lists and the table after it.  Every representation takes up at
least one octet, so there are no more of them than octets. -/
def decodeBlock (t : Table) (bs : List UInt8) : Option (List Field × Table) :=
  decodeReps len static bs.length t bs

variable {len static}

theorem decodeRep_fits {t t' : Table} {bs rest : List UInt8} {f : Option Field} (h : t.Fits len)
    (hrep : decodeRep len static t bs = some (f, t', rest)) : t'.Fits len := by
  unfold decodeRep at hrep
  simp only at hrep
  split at hrep
  · split at hrep
    · cases hrep
    · obtain ⟨_, -, heq⟩ := Option.map_eq_some_iff.mp hrep
      cases heq
      exact h
  · split at hrep
    · obtain ⟨_, -, heq⟩ := Option.map_eq_some_iff.mp hrep
      cases heq
      exact insert_fits t _
    · split at hrep
      · obtain ⟨_, -, heq⟩ := Option.map_eq_some_iff.mp hrep
        cases heq
        exact fitting_size _ _
      · obtain ⟨_, -, heq⟩ := Option.map_eq_some_iff.mp hrep
        cases heq
        exact h

theorem decodeReps_fits {fuel : Nat} {t t' : Table} {bs : List UInt8} {fs : List Field}
    (h : t.Fits len) (hreps : decodeReps len static fuel t bs = some (fs, t')) : t'.Fits len := by
  induction fuel generalizing t bs fs with
  | zero =>
    cases bs with
    | nil =>
      cases hreps
      exact h
    | cons => cases hreps
  | succ fuel ih =>
    cases bs with
    | nil =>
      cases hreps
      exact h
    | cons b bs =>
      rw [decodeReps] at hreps
      split at hreps
      · cases hreps
      · rename_i hrep
        obtain ⟨⟨fs', t''⟩, hrest, heq⟩ := Option.map_eq_some_iff.mp hreps
        cases heq
        exact ih (decodeRep_fits h hrep) hrest

/-- Eviction keeps a table within its capacity, whatever a block makes of it. -/
theorem decodeBlock_fits {t : Table} {bs : List UInt8} {decoded : List Field × Table}
    (h : t.Fits len) (hblock : decodeBlock len static t bs = some decoded) :
    decoded.2.Fits len :=
  decodeReps_fits h hblock

/-! ## 4. Blocks of literals with incremental indexing -/

/-- A literal with incremental indexing and a new name (section 6.2.1). -/
def newLiteral (f : Field) : List UInt8 := 0x40 :: (shortStr f.name ++ shortStr f.value)

theorem decodeRep_newLiteral (t : Table) (f : Field) (rest : List UInt8)
    (hn : f.name.octets.length < 127) (hv : f.value.octets.length < 127) :
    decodeRep len static t (newLiteral f ++ rest) = some (some f, t.insert len f, rest) := by
  have hlit : decodeLiteral static 6 t (newLiteral f ++ rest) = some (f, rest) := by
    simp only [decodeLiteral, newLiteral, List.cons_append, decodeInt]
    rw [if_pos (by decide)]
    simp only [show UInt8.toNat 0x40 % 2 ^ 6 = 0 from rfl, if_true, List.append_assoc,
      decodeStr_shortStr f.name _ hn, decodeStr_shortStr f.value _ hv, Option.map_some]
  simp only [decodeRep]
  rw [hlit]
  simp [newLiteral]

theorem decodeReps_succ (fuel : Nat) (t : Table) {bs : List UInt8} (hne : bs ≠ [])
    {f : Option Field} {t' : Table} {rest : List UInt8}
    (h : decodeRep len static t bs = some (f, t', rest)) :
    decodeReps len static (fuel + 1) t bs =
      (decodeReps len static fuel t' rest).map fun (fs, t) ↦ (f.toList ++ fs, t) := by
  cases bs with
  | nil => exact absurd rfl hne
  | cons b bs => simp only [decodeReps, h]

theorem decodeReps_newLiterals (fs : List Field) (t : Table) (fuel : Nat)
    (hs : ∀ f ∈ fs, f.name.octets.length < 127 ∧ f.value.octets.length < 127)
    (hcap : totalSize len fs + totalSize len t.entries ≤ t.capacity)
    (hfuel : (fs.flatMap newLiteral).length ≤ fuel) :
    decodeReps len static fuel t (fs.flatMap newLiteral) =
      some (fs, { t with entries := fs.reverse ++ t.entries }) := by
  induction fs generalizing t fuel with
  | nil => cases fuel <;> rfl
  | cons f fs ih =>
    obtain ⟨hn, hv⟩ := hs f List.mem_cons_self
    simp only [totalSize, List.map_cons, List.sum_cons] at hcap
    -- there is room for all of them, so nothing is evicted on the way
    have hins := insert_of_fits len t f (by simp only [totalSize]; omega)
    cases fuel with
    | zero => simp [newLiteral] at hfuel
    | succ fuel =>
      have hrest := ih (t.insert len f) fuel (fun g hg ↦ hs g (List.mem_cons_of_mem f hg))
        (by rw [hins]; simp only [totalSize, List.map_cons, List.sum_cons]; omega)
        (by
          simp only [List.flatMap_cons, List.length_append, newLiteral, List.length_cons] at hfuel
          omega)
      rw [List.flatMap_cons, decodeReps_succ fuel t (by simp [newLiteral])
        (decodeRep_newLiteral t f (fs.flatMap newLiteral) hn hv), hrest, hins]
      simp

variable (len static) in
/-- Replaying literals into a table with room for them puts them in front of what it holds. -/
theorem decodeBlock_newLiterals (fs : List Field) (t : Table)
    (hs : ∀ f ∈ fs, f.name.octets.length < 127 ∧ f.value.octets.length < 127)
    (hcap : totalSize len fs + totalSize len t.entries ≤ t.capacity) :
    decodeBlock len static t (fs.flatMap newLiteral) =
      some (fs, { t with entries := fs.reverse ++ t.entries }) :=
  decodeReps_newLiterals fs t _ hs hcap le_rfl

/-! ## 5. Fields by index -/

/-- A field of the tables (section 6.1). -/
theorem decodeRep_indexed (t : Table) {i : Nat} (hi : i < 127) (rest : List UInt8) :
    decodeRep len static t (UInt8.ofNat (128 + i) :: rest) =
      (t.lookup static i).map fun f ↦ (some f, t, rest) := by
  have hb : (UInt8.ofNat (128 + i)).toNat = 128 + i := by
    rw [UInt8.toNat_ofNat_of_lt']
    simp only [UInt8.size]
    omega
  have hmod : (128 + i) % 2 ^ 7 = i := by omega
  simp only [decodeRep, List.headD_cons, hb, decodeInt, hmod]
  rw [if_pos (by omega), if_pos (by omega)]

/-- A literal without indexing that takes its name from the tables, from an index that does not fit
the prefix (section 6.2.2). -/
def namedLiteral (i : Nat) (value : Str) : List UInt8 :=
  0x0F :: UInt8.ofNat (i - 15) :: shortStr value

theorem namedLiteral_ne_nil (i : Nat) (value : Str) (rest : List UInt8) :
    namedLiteral i value ++ rest ≠ [] := List.cons_ne_nil _ _

theorem decodeRep_namedLiteral (t : Table) {i : Nat} (hlo : 15 ≤ i) (hhi : i - 15 < 128) {f : Field}
    (hf : t.lookup static i = some f) {value : Str} (hv : value.octets.length < 127)
    (rest : List UInt8) :
    decodeRep len static t (namedLiteral i value ++ rest) =
      some (some ⟨f.name, value⟩, t, rest) := by
  have hb : (UInt8.ofNat (i - 15)).toNat = i - 15 := by
    rw [UInt8.toNat_ofNat_of_lt']
    simp only [UInt8.size]
    omega
  have hint (bs : List UInt8) :
      decodeInt 4 (0x0F :: UInt8.ofNat (i - 15) :: bs) = some (i, bs) := by
    have hsum : 15 + (i - 15) % 128 * 2 ^ 0 = i := by omega
    rw [decodeInt]
    simp only [show UInt8.toNat 0x0F % 2 ^ 4 = 15 from rfl]
    rw [if_neg (by decide), decodeIntRest, hb]
    simp only [hsum]
    rw [if_pos hhi]
  have hlit : decodeLiteral static 4 t (namedLiteral i value ++ rest) =
      some (⟨f.name, value⟩, rest) := by
    simp only [decodeLiteral, namedLiteral, List.cons_append, hint]
    rw [if_neg (by omega), hf]
    simp only [Option.map_some, decodeStr_shortStr value rest hv]
  simp only [decodeRep]
  rw [hlit]
  simp [namedLiteral]

end Decoder

/-! ## 6. The static table -/

/-- Names and values of Appendix A, the first of which has the index 1. -/
def staticEntries : List (String × String) :=
  [(":authority", ""), (":method", "GET"), (":method", "POST"), (":path", "/"),
    (":path", "/index.html"), (":scheme", "http"), (":scheme", "https"), (":status", "200"),
    (":status", "204"), (":status", "206"), (":status", "304"), (":status", "400"),
    (":status", "404"), (":status", "500"), ("accept-charset", ""),
    ("accept-encoding", "gzip, deflate"), ("accept-language", ""), ("accept-ranges", ""),
    ("accept", ""), ("access-control-allow-origin", ""), ("age", ""), ("allow", ""),
    ("authorization", ""), ("cache-control", ""), ("content-disposition", ""),
    ("content-encoding", ""), ("content-language", ""), ("content-length", ""),
    ("content-location", ""), ("content-range", ""), ("content-type", ""), ("cookie", ""),
    ("date", ""), ("etag", ""), ("expect", ""), ("expires", ""), ("from", ""), ("host", ""),
    ("if-match", ""), ("if-modified-since", ""), ("if-none-match", ""), ("if-range", ""),
    ("if-unmodified-since", ""), ("last-modified", ""), ("link", ""), ("location", ""),
    ("max-forwards", ""), ("proxy-authenticate", ""), ("proxy-authorization", ""), ("range", ""),
    ("referer", ""), ("refresh", ""), ("retry-after", ""), ("server", ""), ("set-cookie", ""),
    ("strict-transport-security", ""), ("transfer-encoding", ""), ("user-agent", ""), ("vary", ""),
    ("via", ""), ("www-authenticate", "")]

/-- A string of ASCII characters that is spelled out. -/
def Str.plain (s : String) : Str := ⟨false, s.toList.map fun c ↦ UInt8.ofNat c.toNat⟩

def staticTable (i : Nat) : Option Field :=
  if i = 0 then none
  else staticEntries[i - 1]?.map fun (name, value) ↦ ⟨.plain name, .plain value⟩

end Hpack
