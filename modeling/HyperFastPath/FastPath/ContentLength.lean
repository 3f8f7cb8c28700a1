import HyperFastPath.FastPath.Message
import HyperFastPath.Lib.Numerals
import Mathlib.Data.Int.Init
import Mathlib.Data.List.TakeWhile

/-!
# The length of a request body

`parse_content_length` of `fast_path.bpf.c`, and the `bpf_strtoul` it rests on.
-/

namespace HyperFastPath.FastPath

open Numerals

/-- Conversion to a signed 32 bit integer. -/
def s32 (x : Int) : Int := Int.bmod x (2 ^ 32)

theorem s32_eq {x : Int} (hlo : -2 ^ 31 ≤ x) (hhi : x < 2 ^ 31) : s32 x = x :=
  Int.bmod_eq_of_le (by norm_num at *; omega) (by norm_num at *; omega)

/-- The value of a digit, in any base up to sixteen. -/
def digitVal (b : UInt8) : Option Nat :=
  if 0x30 ≤ b ∧ b ≤ 0x39 then some (b.toNat - 0x30)
  else if 0x41 ≤ b ∧ b ≤ 0x46 then some (b.toNat - 0x41 + 10)
  else if 0x61 ≤ b ∧ b ≤ 0x66 then some (b.toNat - 0x61 + 10)
  else none

def isSpace (b : UInt8) : Bool := b == 0x20 || (0x09 ≤ b && b ≤ 0x0D) || b == 0xA0

/-- The number the digits at the front of `bs` spell out, or nothing if there are none. -/
def parseInteger (base : Nat) (bs : List UInt8) : Option Nat :=
  let digits := (bs.map digitVal).takeWhile (·.any (· < base))
  if digits.isEmpty then none else some (digits.foldl (fun acc d ↦ acc * base + d.getD 0) 0)

/-- `bpf_strtoul` with a base of 0: `0x` announces a hexadecimal number, another leading zero an
octal one.  Nothing stands for an error. -/
def bpfStrtoul (buf : List UInt8) : Option Nat :=
  let s := buf.dropWhile isSpace
  if s.head? = some 0x2D then none
  else if s.head? = some 0x30 then
    if (s[1]? = some 0x78 ∨ s[1]? = some 0x58) ∧ (s[2]?.bind digitVal).isSome then
      parseInteger 16 (s.drop 2)
    else parseInteger 8 s
  else parseInteger 10 s

/-- `parse_content_length` on a captured value, of which it reads at most fifteen bytes.  A number
that short never overflows 64 bits. -/
def parseContentLength (h : Helpers) (value : List UInt8) : Int :=
  if 0 < value.length ∧ h.ok .readContentLength then
    match bpfStrtoul (value.take 15) with
    | some len => if 0 < len then s32 len else -1
    | none => -1
  else -1

example : bpfStrtoul [0x31, 0x32, 0x38] = some 128 := by decide

/-! ## 1. What a string of digits is taken for -/

/-- What a server that takes it for a decimal number expects of a content length that is read into
an `int`. -/
def ReadAs (value : List UInt8) (res : Int) : Prop :=
  if 1 ≤ decimal value ∧ decimal value < 2 ^ 31 then res = decimal value else res ≤ 0

instance (value : List UInt8) (res : Int) : Decidable (ReadAs value res) :=
  inferInstanceAs (Decidable (if 1 ≤ decimal value ∧ decimal value < 2 ^ 31 then _ else _))

/-- The number in the first fifteen digits: a leading zero makes it octal, and then it ends ahead of
the first digit that is not. -/
def cutNumeral (value : List UInt8) : Nat :=
  if value.head? = some 0x30 then numeral 8 (((value.take 15).map digit).takeWhile (· < 8))
  else decimal value / 10 ^ (value.length - 15)

/-- A value in the range of an `int` has no leading zero, or is a single digit behind zeros. Of one
out of that range the lowest 32 bits stand for no positive `int`. -/
def WellRead (value : List UInt8) : Prop :=
  if decimal value = 0 then True
  else if decimal value < 2 ^ 31 then
    value.head? = some 0x30 → decimal value < 8 ∧ value.length ≤ 15
  else cutNumeral value % 2 ^ 32 = 0 ∨ 2 ^ 31 ≤ cutNumeral value % 2 ^ 32

variable {value : List UInt8}

theorem digitVal_eq {c : UInt8} (h : IsDigit c) : digitVal c = some (digit c) := if_pos h

theorem parseInteger_digits (base : Nat) (h : ∀ c ∈ value, IsDigit c) :
    parseInteger base value =
      let ds := (value.map digit).takeWhile (· < base)
      if ds = [] then none else some (numeral base ds) := by
  have hmap : value.map digitVal = (value.map digit).map some := by
    rw [List.map_map]
    exact List.map_congr_left fun c hc ↦ digitVal_eq (h c hc)
  have htake : ((value.map digit).map some).takeWhile (·.any (· < base)) =
      ((value.map digit).takeWhile (· < base)).map some := by
    rw [List.takeWhile_map]
    rfl
  unfold parseInteger
  rw [hmap, htake]
  simp only [List.isEmpty_iff, List.map_eq_nil_iff, List.foldl_map, Option.getD_some,
    foldl_eq_numeral]

theorem isDigit_not_space {c : UInt8} (h : IsDigit c) : isSpace c = false ∧ c ≠ 0x2D := by
  obtain ⟨hlo, hhi⟩ := h
  simp only [UInt8.le_iff_toNat_le] at hlo hhi
  simp only [isSpace, Bool.or_eq_false_iff, beq_eq_false_iff_ne, ne_eq, ← UInt8.toNat_inj,
    Bool.and_eq_false_iff, decide_eq_false_iff_not, UInt8.le_iff_toNat_le]
  simp at *
  omega

theorem bpfStrtoul_digits (hne : value ≠ []) (h : ∀ c ∈ value, IsDigit c) :
    bpfStrtoul (value.take 15) = some (cutNumeral value) := by
  obtain ⟨c, cs, rfl⟩ := List.exists_cons_of_ne_nil hne
  have hc := h c List.mem_cons_self
  have hcs : ∀ d ∈ (c :: cs).take 15, IsDigit d := fun d hd ↦ h d (List.mem_of_mem_take hd)
  have hhead : (c :: cs).take 15 = c :: cs.take 14 := rfl
  unfold bpfStrtoul cutNumeral
  rw [hhead] at hcs ⊢
  simp only [List.dropWhile_cons, (isDigit_not_space hc).1, Bool.false_eq_true, if_false,
    List.head?_cons, Option.some.injEq, (isDigit_not_space hc).2]
  by_cases hzero : c = 0x30
  · -- no digit announces a hexadecimal number
    have hnot : ¬ (((c :: cs.take 14)[1]? = some 0x78 ∨ (c :: cs.take 14)[1]? = some 0x58) ∧
        ((c :: cs.take 14)[2]?.bind digitVal).isSome) := by
      rintro ⟨hx, -⟩
      have hmem (x : UInt8) (hx : (c :: cs.take 14)[1]? = some x) : IsDigit x :=
        hcs x (List.mem_of_getElem? hx)
      rcases hx with hx | hx
      · exact absurd (hmem _ hx) (by decide)
      · exact absurd (hmem _ hx) (by decide)
    rw [if_pos hzero, if_neg hnot, if_pos hzero, parseInteger_digits 8 hcs]
    subst hzero
    exact if_neg (List.cons_ne_nil _ _)
  · have hten : ((c :: cs.take 14).map digit).takeWhile (· < 10) = (c :: cs.take 14).map digit := by
      rw [List.takeWhile_eq_self_iff]
      intro d hd
      exact decide_eq_true (digit_map_lt hcs d hd)
    rw [if_neg hzero, if_neg hzero, parseInteger_digits 10 hcs, hten]
    have hcut := numeral_take (b := 10) (by decide) (digit_map_lt h) 15
    rw [← List.map_take, List.length_map, hhead] at hcut
    rw [decimal, ← hcut]
    exact if_neg (List.cons_ne_nil _ _)

theorem parseContentLength_digits (h : Helpers) (hne : value ≠ []) (hdig : ∀ c ∈ value, IsDigit c) :
    parseContentLength h value =
      if h.ok .readContentLength ∧ 0 < cutNumeral value then s32 (cutNumeral value) else -1 := by
  unfold parseContentLength
  have hpos := List.length_pos_iff.mpr hne
  simp only [hpos, true_and, bpfStrtoul_digits hne hdig]
  by_cases hok : h.ok .readContentLength = true
  · rw [if_pos hok]
    by_cases hcut : 0 < cutNumeral value
    · rw [if_pos hcut, if_pos ⟨hok, hcut⟩]
    · rw [if_neg hcut, if_neg fun hboth ↦ hcut hboth.2]
  · rw [if_neg hok, if_neg fun hboth ↦ hok hboth.1]

theorem s32_nonpos_iff (n : Nat) : s32 n ≤ 0 ↔ n % 2 ^ 32 = 0 ∨ 2 ^ 31 ≤ n % 2 ^ 32 := by
  unfold s32 Int.bmod
  norm_num
  split <;> omega

theorem cutNumeral_le (value : List UInt8) : cutNumeral value ≤ decimal value := by
  unfold cutNumeral
  split
  · have hpre : ((value.take 15).map digit).takeWhile (· < 8) <+: value.map digit := by
      refine (List.takeWhile_prefix _).trans ?_
      rw [List.map_take]
      exact List.take_prefix _ _
    obtain ⟨es, hes⟩ := hpre
    rw [decimal, ← hes]
    exact (numeral_mono _ (by decide)).trans (le_numeral_append (by decide) _ es)
  · exact Nat.div_le_self _ _

/-- Without a leading zero a value in the range of an `int` is not cut. -/
theorem cutNumeral_plain (hne : value ≠ []) (hdig : ∀ c ∈ value, IsDigit c)
    (hzero : value.head? ≠ some 0x30) (hlt : decimal value < 2 ^ 31) :
    cutNumeral value = decimal value := by
  obtain ⟨c, cs, rfl⟩ := List.exists_cons_of_ne_nil hne
  have hc : digit c ≠ 0 := by
    intro h0
    refine hzero (congrArg some (UInt8.toNat_inj.mp ?_))
    have hge : 48 ≤ c.toNat := UInt8.le_iff_toNat_le.mp (hdig c List.mem_cons_self).1
    rw [digit] at h0
    show c.toNat = 48
    omega
  have hlen : cs.length < 10 := by
    have hpow := pow_le_numeral_cons 10 hc (cs.map digit)
    rw [List.length_map] at hpow
    rw [← Nat.pow_lt_pow_iff_right (show 1 < 10 by decide)]
    exact (hpow.trans_lt hlt).trans (by decide)
  rw [cutNumeral, if_neg hzero, List.length_cons, show cs.length + 1 - 15 = 0 by omega, pow_zero,
    Nat.div_one]

/-- With one it is read as what it is only where a single digit follows the zeros. -/
theorem cutNumeral_zero_iff (hzero : value.head? = some 0x30)
    (hpos : 0 < decimal value) :
    cutNumeral value = decimal value ↔ decimal value < 8 ∧ value.length ≤ 15 := by
  rw [cutNumeral, if_pos hzero, List.map_take]
  generalize hds : value.map digit = ds at *
  have hlen : ds.length = value.length := by rw [← hds, List.length_map]
  rw [decimal, hds] at hpos ⊢
  constructor
  · intro heq
    -- the octal digits are a prefix of the value
    have hpre : (ds.take 15).takeWhile (· < 8) <+: ds :=
      (List.takeWhile_prefix _).trans (List.take_prefix _ _)
    have hshort : ((ds.take 15).takeWhile (· < 8)).length ≤ 15 :=
      (List.takeWhile_prefix _).length_le.trans (List.length_take_le _ _)
    have hsmall (d : Nat) (hd : d ∈ (ds.take 15).takeWhile (· < 8)) : d < 8 :=
      of_decide_eq_true (List.mem_takeWhile_imp (p := fun d ↦ decide (d < 8)) hd)
    generalize (ds.take 15).takeWhile (· < 8) = os at *
    obtain ⟨es, hes⟩ := hpre
    rw [← hes] at heq hpos
    obtain ⟨rfl, init, d, rfl, -, hd⟩ :=
      last_of_numeral_eq (show 8 < 10 by decide) (by decide) hpos heq
    rw [List.append_nil] at hes
    rw [← hlen, ← hes, hd]
    exact ⟨hsmall d (by simp), hshort⟩
  · rintro ⟨hlt, hshort⟩
    rw [List.take_of_length_le (by omega)]
    cases ds using List.reverseRecOn with
    | nil => rfl
    | append_singleton init d =>
      rw [numeral_concat] at hlt ⊢
      have hinit : numeral 10 init = 0 := by omega
      have hsum := Nat.sum_le_ofDigits init.reverse (show 1 ≤ 10 by decide)
      rw [← numeral, hinit, List.sum_reverse, Nat.le_zero, List.sum_eq_zero_iff_forall_eq_nat] at hsum
      have hall : (init ++ [d]).takeWhile (· < 8) = init ++ [d] := by
        rw [List.takeWhile_eq_self_iff]
        intro e he
        rcases List.mem_append.mp he with he | he
        · rw [hsum e he]
          rfl
        · rw [List.mem_singleton.mp he]
          exact decide_eq_true (by omega)
      rw [hall, numeral_concat, numeral_eq_zero_of_le hinit (by decide), hinit]

/-- A string of digits is read as the number it is, where it can be read at all, unless a leading
zero or one of more than fifteen digits changes it. -/
theorem contentLength_iff (h : Helpers) (hne : value ≠ []) (hdig : ∀ c ∈ value, IsDigit c) :
    ReadAs value (parseContentLength h value) ↔
      if h.ok .readContentLength then WellRead value
      else decimal value = 0 ∨ 2 ^ 31 ≤ decimal value := by
  rw [parseContentLength_digits h hne hdig]
  unfold ReadAs WellRead
  by_cases hok : h.ok .readContentLength = true
  swap
  · have hunread : ¬ (h.ok .readContentLength = true ∧ 0 < cutNumeral value) := fun hboth ↦
      hok hboth.1
    rw [if_neg hunread, if_neg hok]
    split <;> omega
  rw [if_pos hok]
  have hle := cutNumeral_le value
  by_cases hv : decimal value = 0
  · rw [if_neg (by omega), if_neg fun hboth ↦ by omega, if_pos hv]
    exact ⟨fun _ ↦ trivial, fun _ ↦ by decide⟩
  rw [if_neg hv]
  by_cases hlt : decimal value < 2 ^ 31
  · -- the range of an `int`: nothing wraps around
    rw [if_pos ⟨Nat.pos_of_ne_zero hv, hlt⟩, if_pos hlt]
    have hcut : (if h.ok .readContentLength = true ∧ 0 < cutNumeral value then
        s32 (cutNumeral value) else -1) = decimal value ↔ cutNumeral value = decimal value := by
      by_cases hpos : 0 < cutNumeral value
      · rw [if_pos ⟨hok, hpos⟩, s32_eq (by omega) (by omega)]
        exact Int.ofNat_inj
      · rw [if_neg fun hboth ↦ hpos hboth.2]
        omega
    rw [hcut]
    by_cases hzero : value.head? = some 0x30
    · rw [cutNumeral_zero_iff hzero (Nat.pos_of_ne_zero hv)]
      exact ⟨fun hboth _ ↦ hboth, fun himp ↦ himp hzero⟩
    · exact ⟨fun _ hhead ↦ absurd hhead hzero, fun _ ↦ cutNumeral_plain hne hdig hzero hlt⟩
  · rw [if_neg fun hboth ↦ hlt hboth.2, if_neg hlt, ← s32_nonpos_iff]
    by_cases hpos : 0 < cutNumeral value
    · rw [if_pos ⟨hok, hpos⟩]
    · rw [if_neg fun hboth ↦ hpos hboth.2, show cutNumeral value = 0 by omega]
      decide

/-- `128`. -/
theorem contentLength_iff_plain :
    ReadAs [0x31, 0x32, 0x38] (parseContentLength allOk [0x31, 0x32, 0x38]) := by
  have hdig : ∀ c ∈ [0x31, 0x32, 0x38], IsDigit c :=
    List.forall_iff_forall_mem.mp (show IsDigit 0x31 ∧ IsDigit 0x32 ∧ IsDigit 0x38 by decide)
  exact (contentLength_iff allOk (by decide) hdig).mpr fun h0 ↦ absurd h0 (by decide)

/-- `010` is taken for eight, and `4294967297` for one. -/
theorem contentLength_misread :
    parseContentLength allOk [0x30, 0x31, 0x30] = 8 ∧ ¬ ReadAs [0x30, 0x31, 0x30] 8 ∧
      parseContentLength allOk [0x34, 0x32, 0x39, 0x34, 0x39, 0x36, 0x37, 0x32, 0x39, 0x37] = 1 ∧
      ¬ ReadAs [0x34, 0x32, 0x39, 0x34, 0x39, 0x36, 0x37, 0x32, 0x39, 0x37] 1 := by
  decide

end HyperFastPath.FastPath
