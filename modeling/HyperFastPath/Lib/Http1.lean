import HyperFastPath.Lib.Numerals
import Mathlib.Data.List.Basic
import Mathlib.Data.List.DropRight

/-!
# HTTP/1.1

Its framing layer: a header block, which ends with an empty line, and the body behind it.  Where a
response ends depends on the request it is for.
-/

namespace Http1

open Numerals

/-! ## 1. Requests -/

def ascii (s : String) : List UInt8 := s.toList.map fun c ↦ UInt8.ofNat c.toNat

def crlf : List UInt8 := [0x0D, 0x0A]

/-- The length of the header block `bytes` start with, if it is whole. -/
def headLen : List UInt8 → Option Nat
  | [] => none
  | b :: bs =>
    if (crlf ++ crlf).isPrefixOf (b :: bs) then some 4 else (headLen bs).map (· + 1)

inductive Body where
  | none
  | sized (content : List UInt8)
  | chunked (chunks : List (List UInt8))
  deriving DecidableEq, Repr

def hexDigits (n : Nat) : List UInt8 := ascii (String.ofList (Nat.toDigits 16 n))

/-- The chunked coding ends with an empty chunk. -/
def Body.encode : Body → List UInt8
  | .none => []
  | .sized content => content
  | .chunked chunks =>
    (chunks ++ [[]]).flatMap fun chunk : List UInt8 ↦
      hexDigits chunk.length ++ crlf ++ chunk ++ crlf

/-- A request whose header block ends where it says. -/
structure Request where
  head : List UInt8
  body : Body
  whole : headLen head = some head.length

def Request.encode (r : Request) : List UInt8 := r.head ++ r.body.encode

/-- The first word of the request line. -/
def Request.method (r : Request) : List UInt8 := r.head.takeWhile (· ≠ 0x20)

theorem headLen_bounds {bytes : List UInt8} {n : Nat} (h : headLen bytes = some n) :
    4 ≤ n ∧ n ≤ bytes.length := by
  induction bytes generalizing n with
  | nil => cases h
  | cons b bs ih =>
    unfold headLen at h
    split at h
    · rename_i hp
      have hle := (List.isPrefixOf_iff_prefix.mp hp).length_le
      simp only [Option.some.injEq] at h
      exact ⟨Nat.le_of_eq h, h ▸ hle⟩
    · obtain ⟨m, hm, rfl⟩ := Option.map_eq_some_iff.mp h
      have := ih hm
      simp only [List.length_cons]
      omega

/-- More bytes do not move the end of a whole header block. -/
theorem headLen_append {bytes : List UInt8} {n : Nat} (h : headLen bytes = some n)
    (rest : List UInt8) : headLen (bytes ++ rest) = some n := by
  induction bytes generalizing n with
  | nil => cases h
  | cons b bs ih =>
    unfold headLen at h
    rw [List.cons_append, headLen]
    have hpre : b :: bs <+: b :: (bs ++ rest) := List.prefix_append (b :: bs) rest
    split at h
    · rename_i hp
      have hp' := (List.isPrefixOf_iff_prefix.mp hp).trans hpre
      rw [if_pos (List.isPrefixOf_iff_prefix.mpr hp')]
      exact h
    · rename_i hp
      obtain ⟨m, hm, rfl⟩ := Option.map_eq_some_iff.mp h
      have hlen := headLen_bounds hm
      rw [if_neg, ih hm, Option.map_some]
      -- the block found later is four bytes long at least, so the empty line would be inside it
      intro hp'
      refine hp (List.isPrefixOf_iff_prefix.mpr ?_)
      apply List.prefix_of_prefix_length_le (List.isPrefixOf_iff_prefix.mp hp') hpre
      simp only [crlf, List.length_append, List.length_cons, List.length_nil]
      omega

/-- Nor does it matter how much of what is behind it is there. -/
theorem headLen_of_prefix {a b : List UInt8} {n : Nat} (hab : a <+: b)
    (h : headLen a = some n) : headLen b = some n := by
  obtain ⟨rest, rfl⟩ := hab
  exact headLen_append h rest

/-! ## 2. Reading responses -/

/-- A line, without its end, and what is behind it. -/
def readLine : List UInt8 → Option (List UInt8 × List UInt8)
  | [] => none
  | b :: bs =>
    if crlf.isPrefixOf (b :: bs) then some ([], bs.drop 1)
    else (readLine bs).map fun (line, rest) ↦ (b :: line, rest)

/-- The lines up to an empty one, of at most `fuel` lines, and what is behind that. -/
def readLines : Nat → List UInt8 → Option (List (List UInt8) × List UInt8)
  | 0, _ => none
  | fuel + 1, bytes =>
    (readLine bytes).bind fun (line, rest) ↦
      if line = [] then some ([], rest)
      else (readLines fuel rest).map fun (lines, rest) ↦ (line :: lines, rest)

def toLower (b : UInt8) : UInt8 := if 0x41 ≤ b ∧ b ≤ 0x5A then b + 0x20 else b

/-- The name of a field, which is case insensitive. -/
def fieldName (line : List UInt8) : List UInt8 := (line.takeWhile (· ≠ 0x3A)).map toLower

/-- The value of a field, without the blanks around it. -/
def fieldValue (line : List UInt8) : List UInt8 :=
  (((line.dropWhile (· ≠ 0x3A)).drop 1).dropWhile (· = 0x20)).rdropWhile (· = 0x20)

def field (name : String) (lines : List (List UInt8)) : Option (List UInt8) :=
  (lines.find? fun line ↦ fieldName line = ascii name).map fieldValue

/-- The code in a status line. -/
def statusCode (line : List UInt8) : Option Nat :=
  if ascii "HTTP/1.1 " <+: line then some (decimal ((line.drop 9).take 3)) else none

/-- What a response says. -/
structure Reply where
  status : Nat
  body : List UInt8
  deriving DecidableEq, Repr

section

variable (coded : List UInt8 → Option (List UInt8 × List UInt8))

/-- The body of a response to a request with `method`, and what is behind it.  `coded` takes one with
a transfer coding off the front. -/
def readBody (method : List UInt8) (status : Nat) (fields : List (List UInt8))
    (bytes : List UInt8) : Option (List UInt8 × List UInt8) :=
  if method = ascii "HEAD" ∨ status / 100 = 1 ∨ status = 204 ∨ status = 304 then some ([], bytes)
  else if (field "transfer-encoding" fields).isSome then coded bytes
  else
    match field "content-length" fields with
    | some value =>
      if bytes.length < decimal value then none
      else some (bytes.take (decimal value), bytes.drop (decimal value))
    -- the connection is closed behind it
    | none => some (bytes, [])

def readResponse (method : List UInt8) (bytes : List UInt8) : Option (Reply × List UInt8) :=
  (readLines bytes.length bytes).bind fun (lines, rest) ↦
    (statusCode (lines.headD [])).bind fun status ↦
      (readBody coded method status lines.tail rest).map fun (body, rest) ↦ (⟨status, body⟩, rest)

/-- The responses to requests with these methods. -/
def readResponses : List (List UInt8) → List UInt8 → Option (List Reply × List UInt8)
  | [], bytes => some ([], bytes)
  | method :: methods, bytes =>
    (readResponse coded method bytes).bind fun (reply, rest) ↦
      (readResponses methods rest).map fun (replies, rest) ↦ (reply :: replies, rest)

/-- A response that says where it ends, whatever is behind it. -/
def Delimited (method response : List UInt8) (reply : Reply) : Prop :=
  ∀ rest, readResponse coded method (response ++ rest) = some (reply, rest)

end

variable {coded : List UInt8 → Option (List UInt8 × List UInt8)}

/-- After any number of responses that say where they end, the next one is where its reader is. -/
theorem readResponses_flatMap {rs : List (List UInt8 × List UInt8)}
    (h : ∀ r ∈ rs, ∃ reply, Delimited coded r.1 r.2 reply) (rest : List UInt8) :
    ∃ replies, readResponses coded (rs.map Prod.fst) (rs.flatMap Prod.snd ++ rest) =
      some (replies, rest) := by
  induction rs with
  | nil => exact ⟨[], rfl⟩
  | cons r rs ih =>
    obtain ⟨reply, hreply⟩ := h r (.head _)
    obtain ⟨replies, hreplies⟩ := ih fun r hr ↦ h r (.tail _ hr)
    refine ⟨reply :: replies, ?_⟩
    rw [List.map_cons, List.flatMap_cons, List.append_assoc, readResponses, hreply]
    simp only [Option.bind_some, hreplies, Option.map_some]

theorem readLine_append {line : List UInt8} (h : 0x0D ∉ line) (rest : List UInt8) :
    readLine (line ++ crlf ++ rest) = some (line, rest) := by
  induction line with
  | nil => rfl
  | cons b line ih =>
    have hb : ¬ crlf.isPrefixOf (b :: (line ++ crlf ++ rest)) := by
      intro hp
      obtain ⟨tail, htail⟩ := List.isPrefixOf_iff_prefix.mp hp
      exact h (List.mem_cons.mpr (.inl (List.cons.inj htail).1))
    rw [List.cons_append, List.cons_append, readLine, if_neg hb,
      ih fun hmem ↦ h (.tail _ hmem)]
    rfl

/-- The lines of a header block. -/
theorem readLines_append {lines : List (List UInt8)} (h : ∀ line ∈ lines, line ≠ [] ∧ 0x0D ∉ line)
    {fuel : Nat} (hfuel : lines.length < fuel) (rest : List UInt8) :
    readLines fuel (lines.flatMap (· ++ crlf) ++ crlf ++ rest) = some (lines, rest) := by
  induction lines generalizing fuel with
  | nil =>
    obtain ⟨fuel, rfl⟩ := Nat.exists_eq_succ_of_ne_zero (Nat.ne_of_gt hfuel)
    rfl
  | cons line lines ih =>
    obtain ⟨fuel, rfl⟩ := Nat.exists_eq_succ_of_ne_zero (Nat.ne_of_gt (Nat.zero_lt_of_lt hfuel))
    obtain ⟨hne, hcr⟩ := h line (.head _)
    rw [List.flatMap_cons, readLines, List.append_assoc, List.append_assoc, readLine_append hcr]
    simp only [Option.bind_some]
    rw [if_neg hne, ← List.append_assoc, ih (fun line hmem ↦ h line (.tail _ hmem))
      (Nat.lt_of_succ_lt_succ hfuel)]
    rfl

/-- The line of a field. -/
def fieldLine (name : String) (value : List UInt8) : List UInt8 :=
  ascii name ++ 0x3A :: 0x20 :: value

theorem fieldName_fieldLine {name : String} (h : 0x3A ∉ ascii name) (value : List UInt8) :
    fieldName (fieldLine name value) = (ascii name).map toLower := by
  have hall : ∀ b ∈ ascii name, decide (b ≠ 0x3A) = true := fun b hb ↦
    decide_eq_true fun heq ↦ h (heq ▸ hb)
  rw [fieldName, fieldLine, List.takeWhile_append_of_pos hall]
  simp

theorem fieldValue_fieldLine {name : String} (h : 0x3A ∉ ascii name) {value : List UInt8}
    (hvalue : 0x20 ∉ value) : fieldValue (fieldLine name value) = value := by
  have hall : ∀ b ∈ ascii name, decide (b ≠ 0x3A) = true := fun b hb ↦
    decide_eq_true fun heq ↦ h (heq ▸ hb)
  have hdrop : ((fieldLine name value).dropWhile (· ≠ 0x3A)).drop 1 = 0x20 :: value := by
    rw [fieldLine, List.dropWhile_append_of_pos hall]
    simp
  have hfront : (0x20 :: value).dropWhile (· = 0x20) = value := by
    rw [List.dropWhile_cons_of_pos (by decide)]
    cases value with
    | nil => rfl
    | cons b value =>
      exact List.dropWhile_cons_of_neg fun hb ↦
        hvalue (List.mem_cons.mpr (.inl (of_decide_eq_true hb).symm))
  rw [fieldValue, hdrop, hfront, List.rdropWhile_eq_self_iff]
  exact fun hne hb ↦ hvalue (of_decide_eq_true hb ▸ List.getLast_mem hne)

variable {status : List UInt8} {fields : List (List UInt8)} {code : Nat} {body method : List UInt8}

/-- A response with a header block of these lines ends where its body does. -/
theorem delimited_of_block {bytes : List UInt8}
    (h : ∀ line ∈ status :: fields, line ≠ [] ∧ 0x0D ∉ line) (hcode : statusCode status = some code)
    (hread : ∀ rest, readBody coded method code fields (bytes ++ rest) = some (body, rest)) :
    Delimited coded method ((status :: fields).flatMap (· ++ crlf) ++ crlf ++ bytes)
      ⟨code, body⟩ := by
  intro rest
  have hlines (lines : List (List UInt8)) : lines.length ≤ (lines.flatMap (· ++ crlf)).length := by
    induction lines with
    | nil => exact Nat.le_refl _
    | cons line lines ih =>
      rw [List.flatMap_cons, List.length_append, List.length_append, List.length_cons,
        show crlf.length = 2 from rfl]
      omega
  have hfuel : (status :: fields).length <
      ((status :: fields).flatMap (· ++ crlf) ++ crlf ++ (bytes ++ rest)).length := by
    have hle := hlines (status :: fields)
    rw [List.length_append, List.length_append, show crlf.length = 2 from rfl]
    omega
  rw [readResponse, List.append_assoc, readLines_append h hfuel, Option.bind_some]
  simp only [List.headD_cons, hcode, Option.bind_some, List.tail_cons, hread, Option.map_some]

/-- To a request that is answered with a body. -/
theorem delimited_of_lines {value : List UInt8}
    (h : ∀ line ∈ status :: fields, line ≠ [] ∧ 0x0D ∉ line) (hcode : statusCode status = some code)
    (hbody : ¬ (method = ascii "HEAD" ∨ code / 100 = 1 ∨ code = 204 ∨ code = 304))
    (hcoded : field "transfer-encoding" fields = none)
    (hvalue : field "content-length" fields = some value) (hlen : decimal value = body.length) :
    Delimited coded method ((status :: fields).flatMap (· ++ crlf) ++ crlf ++ body)
      ⟨code, body⟩ := by
  refine delimited_of_block h hcode fun rest ↦ ?_
  unfold readBody
  rw [if_neg hbody, if_neg (by rw [hcoded]; exact Bool.noConfusion), hvalue]
  simp only [hlen, List.length_append]
  rw [if_neg (by omega), List.take_left, List.drop_left]

/-- To a request for a head, whatever length the lines announce. -/
theorem delimited_of_head (h : ∀ line ∈ status :: fields, line ≠ [] ∧ 0x0D ∉ line)
    (hcode : statusCode status = some code) :
    Delimited coded (ascii "HEAD") ((status :: fields).flatMap (· ++ crlf) ++ crlf) ⟨code, []⟩ := by
  have hblock : Delimited coded (ascii "HEAD") (_ ++ []) ⟨code, []⟩ :=
    delimited_of_block h hcode fun rest ↦ by rw [readBody, if_pos (.inl rfl), List.nil_append]
  rwa [List.append_nil] at hblock

end Http1
