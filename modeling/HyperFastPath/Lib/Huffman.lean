import HyperFastPath.Lib.PrefixCode
import Mathlib.Tactic.IntervalCases

/-!
# The string code of HPACK

Strings as section 5.2 of RFC 7541 has them Huffman coded: symbol after symbol of the canonical
code of its appendix B, and as many ones as the last octet has room for, which is how the word for
the end of a string starts.
-/

namespace Huffman

open PrefixCode

/-- The lengths of the words, sixteen symbols a line; the last one is the end of a string. -/
def lengths : List (List ℕ) :=
  [[13, 23, 28, 28, 28, 28, 28, 28, 28, 24, 30, 28, 28, 30, 28, 28],
   [28, 28, 28, 28, 28, 28, 30, 28, 28, 28, 28, 28, 28, 28, 28, 28],
   [6, 10, 10, 12, 13, 6, 8, 11, 10, 10, 8, 11, 8, 6, 6, 6],
   [5, 5, 5, 6, 6, 6, 6, 6, 6, 6, 7, 8, 15, 6, 12, 10],
   [13, 6, 7, 7, 7, 7, 7, 7, 7, 7, 7, 7, 7, 7, 7, 7],
   [7, 7, 7, 7, 7, 7, 7, 7, 8, 7, 8, 13, 19, 13, 14, 6],
   [15, 5, 6, 5, 6, 5, 6, 6, 6, 5, 7, 7, 6, 6, 6, 5],
   [6, 7, 6, 5, 5, 6, 7, 7, 7, 7, 7, 15, 11, 14, 13, 28],
   [20, 22, 20, 20, 22, 22, 22, 23, 22, 23, 23, 23, 23, 23, 24, 23],
   [24, 24, 22, 23, 24, 23, 23, 23, 23, 21, 22, 23, 22, 23, 23, 24],
   [22, 21, 20, 22, 22, 23, 23, 21, 23, 22, 22, 24, 21, 22, 23, 23],
   [21, 21, 22, 21, 23, 22, 23, 23, 20, 22, 22, 22, 23, 22, 22, 23],
   [26, 26, 20, 19, 22, 23, 22, 25, 26, 26, 26, 27, 27, 26, 24, 25],
   [19, 21, 26, 27, 27, 26, 27, 24, 21, 21, 26, 26, 28, 27, 27, 27],
   [20, 24, 20, 21, 22, 21, 21, 23, 22, 22, 25, 25, 24, 24, 26, 23],
   [26, 27, 26, 26, 27, 27, 27, 27, 27, 28, 27, 27, 27, 27, 27, 26],
   [30]]

def length (s : Fin 257) : ℕ := (lengths.getD (s.val / 16) []).getD (s.val % 16) 30

set_option maxRecDepth 4000 in
theorem length_bounds : ∀ s, 0 < length s ∧ length s ≤ 30 := by decide +kernel

set_option maxRecDepth 4000 in
theorem length_kraft : ∑ s, 2 ^ (30 - length s) ≤ 2 ^ 30 := by decide +kernel

def symbolCode : Code (Fin 257) :=
  canonical length 30 (fun s ↦ (length_bounds s).1) (fun s ↦ (length_bounds s).2) length_kraft

theorem symbol_injective :
    Function.Injective fun b : UInt8 ↦ (⟨b.toNat, b.toNat_lt.trans (by decide)⟩ : Fin 257) :=
  fun _ _ h ↦ UInt8.toNat_inj.mp (Fin.mk.inj h)

/-- The code of the bytes alone. -/
def code : Code UInt8 := symbolCode.comap _ symbol_injective

/-- The ones that fill up the last octet. -/
def padding (s : List UInt8) : ℕ := (8 - (code.encode s).length % 8) % 8

def encode (s : List UInt8) : List UInt8 :=
  pack (code.encode s ++ List.replicate (padding s) true)

/-- The first string of the examples in appendix C.4, `www.example.com`. -/
example :
    encode [0x77, 0x77, 0x77, 0x2E, 0x65, 0x78, 0x61, 0x6D, 0x70, 0x6C, 0x65, 0x2E, 0x63, 0x6F,
      0x6D] = [0xF1, 0xE3, 0xC2, 0xE5, 0xF2, 0x3A, 0x6B, 0xA0, 0xAB, 0x90, 0xF4, 0xFF] := by
  decide +kernel

theorem padding_lt (s : List UInt8) : padding s < 8 := Nat.mod_lt _ (by decide)

theorem padded_length (s : List UInt8) : 8 ∣ (code.encode s).length + padding s := by
  unfold padding
  omega

theorem bits_encode (s : List UInt8) :
    byteCode.encode (encode s) = code.encode s ++ List.replicate (padding s) true :=
  encode_pack (by simpa using padded_length s)

/-! ## 2. Strings that end in zeros -/

/-- The symbol written as that many ones and then zeros. -/
def filler : ℕ → List UInt8
  | 1 => [0x3D]
  | 2 => [0x45]
  | 3 => [0x55]
  | 4 => [0x77]
  | 5 => [0x26]
  | 6 => [0x58]
  | 7 => [0x21]
  | _ => []

theorem word_zero : code.word 0x30 = List.replicate 5 false := by decide +kernel

theorem filler_cases {j : ℕ} (hj : 0 < j) (hlt : j < 8) :
    ∃ b k, filler j = [b] ∧ code.word b = List.replicate j true ++ List.replicate (k + 1) false := by
  interval_cases j
  · exact ⟨0x3D, 4, rfl, by decide +kernel⟩
  · exact ⟨0x45, 4, rfl, by decide +kernel⟩
  · exact ⟨0x55, 3, rfl, by decide +kernel⟩
  · exact ⟨0x77, 2, rfl, by decide +kernel⟩
  · exact ⟨0x26, 2, rfl, by decide +kernel⟩
  · exact ⟨0x58, 1, rfl, by decide +kernel⟩
  · exact ⟨0x21, 2, rfl, by decide +kernel⟩

theorem replicate_leads {α : Type*} (x : α) {k l : ℕ} (h : k ≤ l) :
    List.replicate k x <+: List.replicate l x :=
  List.prefix_iff_eq_take.mpr (by rw [List.take_replicate, List.length_replicate, Nat.min_eq_left h])

/-- Zeros and nothing else are written for `0`s. -/
theorem encode_eq_zeros {s : List UInt8} {m : ℕ}
    (h : code.encode s = List.replicate m false) : ∃ n, s = List.replicate n 0x30 := by
  induction s generalizing m with
  | nil => exact ⟨0, rfl⟩
  | cons b s ih =>
    rw [Code.encode_cons] at h
    obtain ⟨-, hword, hrest⟩ := List.append_eq_replicate_iff.mp h
    -- enough zeros start with either word
    have hb : b = 0x30 := by
      apply @Code.word_unique _ code b 0x30 (List.replicate ((code.word b).length + 5) false)
      · rw [hword, List.length_replicate]
        exact replicate_leads _ (Nat.le_add_right _ _)
      · rw [word_zero]
        exact replicate_leads _ (Nat.le_add_left _ _)
    obtain ⟨n, hn⟩ := ih hrest
    exact ⟨n + 1, by rw [hb, hn, List.replicate_succ]⟩

/-- Few ones and then zeros are written for the filler and `0`s. -/
theorem encode_eq_filler {s : List UInt8} {j m : ℕ} (hj : j < 8)
    (h : code.encode s = List.replicate j true ++ List.replicate m false) :
    ∃ n, s = filler j ++ List.replicate n 0x30 := by
  rcases Nat.eq_zero_or_pos j with rfl | hpos
  · exact encode_eq_zeros h
  obtain ⟨b, k, hfiller, hword⟩ := filler_cases hpos hj
  cases s with
  | nil =>
    have hlen := congrArg List.length h
    simp only [Code.encode_nil, List.length_nil, List.length_append, List.length_replicate] at hlen
    omega
  | cons c s =>
    rw [Code.encode_cons] at h
    -- with zeros enough behind them, the ones start with either word
    have hc : c = b := by
      apply @Code.word_unique _ code c b
        (List.replicate j true ++ List.replicate (m + (k + 1)) false)
      · apply List.IsPrefix.trans (List.prefix_append (code.word c) (code.encode s))
        rw [h]
        exact (List.prefix_append_right_inj _).mpr (replicate_leads _ (Nat.le_add_right _ _))
      · rw [hword]
        exact (List.prefix_append_right_inj _).mpr (replicate_leads _ (Nat.le_add_left _ _))
    rw [hc, hword, List.append_assoc, List.append_cancel_left_eq] at h
    obtain ⟨n, hn⟩ := encode_eq_zeros (List.append_eq_replicate_iff.mp h).2.2
    exact ⟨n, by rw [hfiller, hc, hn]; rfl⟩

/-- The bits of the filler and `0`s. -/
theorem encode_filler {j : ℕ} (hj : j < 8) (n : ℕ) :
    ∃ m, code.encode (filler j ++ List.replicate n 0x30) =
      List.replicate j true ++ List.replicate m false := by
  have hzeros : code.encode (List.replicate n 0x30) = List.replicate (5 * n) false := by
    induction n with
    | zero => rfl
    | succ n ih => rw [List.replicate_succ, Code.encode_cons, ih, word_zero, ← List.replicate_add,
        Nat.mul_succ, Nat.add_comm]
  rw [Code.encode_append, hzeros]
  rcases Nat.eq_zero_or_pos j with rfl | hpos
  · exact ⟨5 * n, rfl⟩
  · obtain ⟨b, k, hfiller, hword⟩ := filler_cases hpos hj
    refine ⟨k + 1 + 5 * n, ?_⟩
    rw [hfiller, Code.encode_cons, Code.encode_nil, List.append_nil, hword, List.append_assoc,
      ← List.replicate_add]

/-- No string is written as a few ones. -/
theorem encode_eq_ones {s : List UInt8} {j : ℕ} (hj : j < 8)
    (h : code.encode s = List.replicate j true) : s = [] := by
  cases s with
  | nil => rfl
  | cons c s =>
    rw [Code.encode_cons] at h
    obtain ⟨hlen, hword, -⟩ := List.append_eq_replicate_iff.mp h
    have hpos := List.length_pos_of_ne_nil (code.word_ne_nil c)
    -- the word of the filler goes on
    obtain ⟨b, k, -, hb⟩ := filler_cases hpos (show (code.word c).length < 8 by omega)
    have hc : c = b := code.prefix_free c b (by rw [hb, ← hword]; exact List.prefix_append _ _)
    have hlen' := congrArg List.length hb
    rw [← hc, List.length_append, List.length_replicate, List.length_replicate] at hlen'
    omega

theorem encode_injective : Function.Injective encode := by
  have hone {s t : List UInt8} {z : List Bool} {j : ℕ} (hj : j < 8)
      (ht : code.encode t = code.encode s ++ z) (hz : ∃ i ≤ j, z = List.replicate i true) :
      t = s := by
    obtain ⟨i, hi, rfl⟩ := hz
    obtain ⟨u, rfl, hu⟩ := Code.encode_eq_append ht
    rw [encode_eq_ones (by omega) hu, List.append_nil]
  intro s t h
  have hbits := congrArg byteCode.encode h
  rw [bits_encode, bits_encode] at hbits
  rcases List.append_eq_append_iff.mp hbits with ⟨z, ht, hz⟩ | ⟨z, hs, hz⟩
  · obtain ⟨hlen, hz, -⟩ := List.append_eq_replicate_iff.mp hz.symm
    exact (hone (padding_lt s) ht ⟨_, by omega, hz⟩).symm
  · obtain ⟨hlen, hz, -⟩ := List.append_eq_replicate_iff.mp hz.symm
    exact hone (padding_lt t) hs ⟨_, by omega, hz⟩

theorem byteCode_zeros (k : ℕ) :
    byteCode.encode (List.replicate k 0) = List.replicate (8 * k) false := by
  induction k with
  | zero => rfl
  | succ k ih =>
    rw [List.replicate_succ, Code.encode_cons, ih, Nat.mul_succ, Nat.add_comm, List.replicate_add]
    rfl

/-- `t` is written as `s` is with the filler in place of the padding, and then zeros. -/
def Extends (s t : List UInt8) : Prop :=
  8 ∣ (code.encode t).length ∧ ∃ n ≤ t.length, t = s ++ (filler (padding s) ++ List.replicate n 0x30)

instance (s t : List UInt8) : Decidable (Extends s t) :=
  inferInstanceAs (Decidable (_ ∧ ∃ n ≤ t.length, _))

/-- What comes behind the octets of a string in those of another is zeros for no others. -/
theorem encode_append_zeros {s t : List UInt8} :
    (∃ k, encode t = encode s ++ List.replicate k 0) ↔ t = s ∨ Extends s t := by
  constructor
  · rintro ⟨k, hk⟩
    rcases Nat.eq_zero_or_pos k with rfl | hpos
    · exact .inl (encode_injective (hk.trans (List.append_nil _)))
    have hbits := congrArg byteCode.encode hk
    rw [Code.encode_append, bits_encode, bits_encode, byteCode_zeros] at hbits
    -- the last octet is a zero, so there is no padding
    have hpad : padding t = 0 := by
      by_contra hne
      have hlast := congrArg List.getLast? hbits
      rw [List.getLast?_append_of_ne_nil _ (by simpa using hne),
        List.getLast?_append_of_ne_nil _ (by simp; omega), List.getLast?_replicate,
        List.getLast?_replicate, if_neg hne, if_neg (by omega)] at hlast
      cases hlast
    rw [hpad, List.replicate_zero, List.append_nil, List.append_assoc] at hbits
    obtain ⟨u, ht, hu⟩ := Code.encode_eq_append hbits
    obtain ⟨n, rfl⟩ := encode_eq_filler (padding_lt s) hu
    have hwhole := padded_length t
    rw [hpad] at hwhole
    refine .inr ⟨hwhole, n, ?_, ht⟩
    rw [ht, List.length_append, List.length_append, List.length_replicate]
    omega
  · rintro (rfl | ⟨hwhole, n, -, ht⟩)
    · exact ⟨0, (List.append_nil _).symm⟩
    obtain ⟨m, hm⟩ := encode_filler (padding_lt s) n
    have hbits : code.encode t = code.encode s ++ (List.replicate (padding s) true ++
        List.replicate m false) := by rw [ht, Code.encode_append, hm]
    have hpad : padding t = 0 := by
      unfold padding
      omega
    -- whole octets of zeros
    have hlen := congrArg List.length hbits
    simp only [List.length_append, List.length_replicate] at hlen
    have hs := padded_length s
    obtain ⟨k, rfl⟩ : 8 ∣ m := by omega
    refine ⟨k, byteCode.encode_injective ?_⟩
    rw [Code.encode_append, bits_encode, bits_encode, byteCode_zeros, hpad, hbits,
      List.replicate_zero, List.append_nil, List.append_assoc]

end Huffman
