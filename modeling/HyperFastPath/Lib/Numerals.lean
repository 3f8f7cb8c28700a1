import Mathlib.Data.Nat.Digits.Lemmas
import Mathlib.Tactic.IntervalCases

/-!
# Numerals

Strings of digits with the most significant one first, as they are written down, and how the
readings of one string in two bases compare.
-/

namespace Numerals

/-- The number that digits spell out in base `b`. -/
def numeral (b : Nat) (ds : List Nat) : Nat := Nat.ofDigits b ds.reverse

variable {b c : Nat} {ds es : List Nat}

@[simp] theorem numeral_nil (b : Nat) : numeral b [] = 0 := rfl

@[simp] theorem numeral_singleton (b d : Nat) : numeral b [d] = d := Nat.ofDigits_singleton

theorem numeral_append (b : Nat) (ds es : List Nat) :
    numeral b (ds ++ es) = numeral b ds * b ^ es.length + numeral b es := by
  rw [numeral, List.reverse_append, Nat.ofDigits_append, List.length_reverse, Nat.add_comm,
    Nat.mul_comm]
  rfl

theorem numeral_concat (b : Nat) (ds : List Nat) (d : Nat) :
    numeral b (ds ++ [d]) = numeral b ds * b + d := by
  rw [numeral_append, List.length_singleton, pow_one, numeral_singleton]

/-- Digits that are read one after the other. -/
theorem foldl_eq_numeral (b : Nat) (ds : List Nat) :
    ds.foldl (fun acc d ↦ acc * b + d) 0 = numeral b ds := by
  induction ds using List.reverseRecOn with
  | nil => rfl
  | append_singleton ds d ih => rw [List.foldl_concat, ih, numeral_concat]

theorem numeral_lt (hb : 1 < b) (h : ∀ d ∈ ds, d < b) : numeral b ds < b ^ ds.length := by
  rw [← List.length_reverse]
  exact Nat.ofDigits_lt_base_pow_length hb fun d hd ↦ h d (List.mem_reverse.mp hd)

theorem numeral_mono (ds : List Nat) (h : b ≤ c) : numeral b ds ≤ numeral c ds :=
  Nat.ofDigits_monotone _ h

theorem le_numeral_append (hb : 0 < b) (ds es : List Nat) :
    numeral b ds ≤ numeral b (ds ++ es) := by
  rw [numeral_append]
  exact (Nat.le_mul_of_pos_right _ (Nat.pow_pos hb)).trans (Nat.le_add_right _ _)

/-- A numeral is at least as large as its leading digit makes it. -/
theorem pow_le_numeral_cons (b : Nat) {d : Nat} (hd : d ≠ 0) (ds : List Nat) :
    b ^ ds.length ≤ numeral b (d :: ds) := by
  rw [← List.singleton_append, numeral_append, numeral_singleton]
  exact (Nat.le_mul_of_pos_left _ (Nat.pos_of_ne_zero hd)).trans (Nat.le_add_right _ _)

theorem numeral_eq_zero_of_le (h : numeral c ds = 0) (hle : b ≤ c) : numeral b ds = 0 :=
  Nat.le_zero.mp (h ▸ numeral_mono ds hle)

/-- Leaving off digits divides by a power of the base. -/
theorem numeral_take (hb : 1 < b) (h : ∀ d ∈ ds, d < b) (n : Nat) :
    numeral b (ds.take n) = numeral b ds / b ^ (ds.length - n) := by
  have hlt : numeral b (ds.drop n) < b ^ (ds.drop n).length :=
    numeral_lt hb fun d hd ↦ h d (List.mem_of_mem_drop hd)
  conv_rhs => rw [← List.take_append_drop n ds, numeral_append]
  rw [List.take_append_drop, ← List.length_drop, Nat.mul_comm, Nat.mul_add_div (by omega),
    Nat.div_eq_of_lt hlt, Nat.add_zero]

/-- Two readings of a prefix and the whole in a smaller and a larger base only come to the same where
there is one digit at most behind leading zeros. -/
theorem last_of_numeral_eq (hbc : b < c) (hb : 0 < b) (hpos : 0 < numeral c (ds ++ es))
    (h : numeral b ds = numeral c (ds ++ es)) :
    es = [] ∧ ∃ init d, ds = init ++ [d] ∧ numeral c init = 0 ∧ numeral c ds = d := by
  have hle := numeral_mono ds hbc.le
  have heq : numeral c (ds ++ es) = numeral c ds := by
    have := le_numeral_append (by omega) ds es (b := c)
    omega
  have hes : es = [] := by
    rw [numeral_append] at heq
    by_contra hne
    have hone : 1 < c ^ es.length := Nat.one_lt_pow (by simpa using hne) (by omega)
    have hpos' : 0 < numeral c ds := by omega
    have hlt := (Nat.lt_mul_iff_one_lt_right hpos').mpr hone
    omega
  refine ⟨hes, ?_⟩
  rw [heq] at h hpos
  cases ds using List.reverseRecOn with
  | nil => exact absurd hpos (Nat.lt_irrefl 0)
  | append_singleton init d =>
    rw [numeral_concat, numeral_concat] at h
    -- the leading digits weigh more in the larger base
    have hinit : numeral c init = 0 := by
      by_contra hne
      have hle := numeral_mono init hbc.le
      have hmul := Nat.mul_lt_mul_of_le_of_lt hle hbc (Nat.pos_of_ne_zero hne)
      omega
    exact ⟨init, d, rfl, hinit, by rw [numeral_concat, hinit, Nat.zero_mul, Nat.zero_add]⟩

/-! ## ASCII digits -/

def IsDigit (c : UInt8) : Prop := 0x30 ≤ c ∧ c ≤ 0x39

instance (c : UInt8) : Decidable (IsDigit c) := inferInstanceAs (Decidable (_ ∧ _))

def digit (c : UInt8) : Nat := c.toNat - 0x30

/-- The decimal value of a string of digits. -/
def decimal (cs : List UInt8) : Nat := numeral 10 (cs.map digit)

theorem digit_lt {c : UInt8} (h : IsDigit c) : digit c < 10 := by
  have hle := UInt8.le_iff_toNat_le.mp h.2
  rw [show UInt8.toNat 0x39 = 57 from rfl] at hle
  rw [digit]
  omega

theorem digit_map_lt {cs : List UInt8} (h : ∀ c ∈ cs, IsDigit c) : ∀ d ∈ cs.map digit, d < 10 := by
  intro d hd
  obtain ⟨c, hc, rfl⟩ := List.mem_map.mp hd
  exact digit_lt (h c hc)

/-- A number as it is written down. -/
def written (n : Nat) : List UInt8 := (Nat.toDigits 10 n).map fun c ↦ UInt8.ofNat c.toNat

theorem written_of_lt {n : Nat} (h : n < 10) : written n = [UInt8.ofNat (0x30 + n)] := by
  rw [written, Nat.toDigits_of_lt_base h, List.map_singleton]
  interval_cases n <;> rfl

/-- The last digit is the remainder. -/
theorem written_of_ge {n : Nat} (h : 10 ≤ n) :
    written n = written (n / 10) ++ [UInt8.ofNat (0x30 + n % 10)] := by
  rw [← written_of_lt (Nat.mod_lt n (by decide)), written, written, written, ← List.map_append,
    Nat.toDigits_append_toDigits (by decide) (by omega) (Nat.mod_lt n (by decide)),
    Nat.div_add_mod]

theorem written_spec (n : Nat) : (∀ c ∈ written n, IsDigit c) ∧ decimal (written n) = n := by
  have hlast (d : Nat) (hd : d < 10) :
      IsDigit (UInt8.ofNat (0x30 + d)) ∧ digit (UInt8.ofNat (0x30 + d)) = d := by
    interval_cases d <;> decide
  induction n using Nat.strongRecOn with
  | ind n ih =>
    by_cases h : n < 10
    · rw [written_of_lt h]
      refine ⟨fun c hc ↦ List.mem_singleton.mp hc ▸ (hlast n h).1, ?_⟩
      rw [decimal, List.map_singleton, numeral_singleton, (hlast n h).2]
    · obtain ⟨hdigits, hvalue⟩ := ih (n / 10) (by omega)
      obtain ⟨hdigit, hrem⟩ := hlast (n % 10) (Nat.mod_lt n (by decide))
      rw [written_of_ge (Nat.le_of_not_lt h)]
      refine ⟨fun c hc ↦ ?_, ?_⟩
      · rcases List.mem_append.mp hc with hc | hc
        · exact hdigits c hc
        · rwa [List.mem_singleton.mp hc]
      · rw [decimal] at hvalue
        rw [decimal, List.map_append, List.map_singleton, numeral_concat, hvalue, hrem]
        omega

theorem written_length_le {n k : Nat} (h : n < 10 ^ k) (hk : 0 < k) : (written n).length ≤ k := by
  rw [written, List.length_map]
  exact (Nat.length_toDigits_le_iff (by decide) hk).mpr h

end Numerals
