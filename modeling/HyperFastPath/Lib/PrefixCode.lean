import Mathlib.Algebra.BigOperators.Group.Finset.Basic
import Mathlib.Algebra.BigOperators.Ring.Finset
import Mathlib.Algebra.Order.BigOperators.Group.Finset
import Mathlib.Data.Fintype.Basic
import Mathlib.Data.Nat.Bitwise
import Mathlib.Tactic.Ring

/-!
# Prefix codes

Codes none of whose words starts another one, so that a text is told from what it is written as.
The canonical code for given word lengths is one as soon as the lengths leave enough words
(Kraft's inequality), and so is the code that writes a byte as its eight bits.
-/

namespace PrefixCode

/-! ## 1. The bits of a number -/

/-- The last `n` bits of a number, the most significant one first. -/
def toBits (n v : Nat) : List Bool := (List.range n).map fun i ↦ v.testBit (n - 1 - i)

@[simp] theorem toBits_length (n v : Nat) : (toBits n v).length = n := by simp [toBits]

theorem toBits_getElem? {n i : Nat} (v : Nat) (h : i < n) :
    (toBits n v)[i]? = some (v.testBit (n - 1 - i)) := by
  rw [toBits, List.getElem?_map, List.getElem?_range h]
  rfl

/-- The first bits of a number are those of what is left without the last ones. -/
theorem take_toBits {m n : Nat} (v : Nat) (h : m ≤ n) :
    (toBits n v).take m = toBits m (v / 2 ^ (n - m)) := by
  refine List.ext_getElem? fun i ↦ ?_
  by_cases hi : i < m
  · rw [List.getElem?_take_of_lt hi, toBits_getElem? v (by omega), toBits_getElem? _ hi,
      Nat.testBit_div_two_pow]
    congr 2
    omega
  · rw [List.getElem?_eq_none (by simp; omega), List.getElem?_eq_none (by simp; omega)]

theorem toBits_inj {n v w : Nat} (hv : v < 2 ^ n) (hw : w < 2 ^ n) :
    toBits n v = toBits n w ↔ v = w := by
  refine ⟨fun h ↦ Nat.eq_of_testBit_eq fun i ↦ ?_, fun h ↦ by rw [h]⟩
  by_cases hi : i < n
  · have hbit := congrArg (·[n - 1 - i]?) h
    rw [toBits_getElem? v (by omega), toBits_getElem? w (by omega),
      show n - 1 - (n - 1 - i) = i by omega] at hbit
    exact Option.some.inj hbit
  · have hpow : 2 ^ n ≤ 2 ^ i := Nat.pow_le_pow_right (by decide) (by omega)
    rw [Nat.testBit_lt_two_pow (hv.trans_le hpow), Nat.testBit_lt_two_pow (hw.trans_le hpow)]

/-! ## 2. Texts -/

/-- What every symbol is written as. -/
structure Code (α : Type*) where
  word : α → List Bool
  word_ne_nil : ∀ x, word x ≠ []
  prefix_free : ∀ x y, word x <+: word y → x = y

variable {α : Type*} (c : Code α)

def Code.encode (xs : List α) : List Bool := xs.flatMap c.word

@[simp] theorem Code.encode_nil : c.encode [] = [] := rfl

@[simp] theorem Code.encode_cons (x : α) (xs : List α) :
    c.encode (x :: xs) = c.word x ++ c.encode xs := List.flatMap_cons

@[simp] theorem Code.encode_append (xs ys : List α) :
    c.encode (xs ++ ys) = c.encode xs ++ c.encode ys := List.flatMap_append

variable {c}

/-- Of two words that start the same bits, one is the other. -/
theorem Code.word_unique {x y : α} {bits : List Bool} (hx : c.word x <+: bits)
    (hy : c.word y <+: bits) : x = y := by
  rcases List.prefix_or_prefix_of_prefix hx hy with h | h
  · exact c.prefix_free x y h
  · exact (c.prefix_free y x h).symm

/-- What starts as a text does is that text and something behind it. -/
theorem Code.encode_eq_append {xs ys : List α} {rest : List Bool}
    (h : c.encode ys = c.encode xs ++ rest) : ∃ zs, ys = xs ++ zs ∧ c.encode zs = rest := by
  induction xs generalizing ys with
  | nil => exact ⟨ys, rfl, h⟩
  | cons x xs ih =>
    cases ys with
    | nil =>
      rw [encode_nil, encode_cons, List.append_assoc] at h
      exact absurd (List.append_eq_nil_iff.mp h.symm).1 (c.word_ne_nil x)
    | cons y ys =>
      rw [encode_cons, encode_cons, List.append_assoc] at h
      have hxy : y = x := c.word_unique (List.prefix_append _ _)
        (h.symm ▸ List.prefix_append _ _)
      subst hxy
      obtain ⟨zs, hzs, hrest⟩ := ih (List.append_cancel_left h)
      exact ⟨zs, by rw [hzs, List.cons_append], hrest⟩

theorem Code.encode_injective : Function.Injective c.encode := by
  intro xs ys h
  obtain ⟨zs, hzs, hnil⟩ := c.encode_eq_append (h.symm.trans (List.append_nil _).symm)
  cases zs with
  | nil => rw [hzs, List.append_nil]
  | cons z zs => exact absurd (List.append_eq_nil_iff.mp hnil).1 (c.word_ne_nil z)

/-- The code of the symbols that stand for others. -/
def Code.comap {β : Type*} (c : Code α) (f : β → α) (hf : Function.Injective f) : Code β where
  word x := c.word (f x)
  word_ne_nil x := c.word_ne_nil (f x)
  prefix_free _ _ h := hf (c.prefix_free _ _ h)

/-! ## 3. Canonical codes -/

section Canonical

variable {ι : Type*} [LinearOrder ι] (len : ι → ℕ)

/-- Shorter words come first, those of one length in the order of the symbols. -/
def Before (t s : ι) : Prop := len t < len s ∨ len t = len s ∧ t < s

instance (t s : ι) : Decidable (Before len t s) :=
  inferInstanceAs (Decidable (len t < len s ∨ len t = len s ∧ t < s))

variable {len} {s t u : ι}

theorem Before.le (h : Before len t s) : len t ≤ len s := by
  rcases h with h | h
  · exact h.le
  · exact h.1.le

theorem Before.trans (h : Before len u t) (h' : Before len t s) : Before len u s := by
  rcases h with h | ⟨heq, h⟩ <;> rcases h' with h' | ⟨heq', h'⟩
  · exact .inl (h.trans h')
  · exact .inl (heq' ▸ h)
  · exact .inl (heq ▸ h')
  · exact .inr ⟨heq.trans heq', h.trans h'⟩

theorem Before.irrefl (s : ι) : ¬ Before len s s := by
  rintro (h | ⟨-, h⟩)
  · exact lt_irrefl _ h
  · exact lt_irrefl _ h

variable (len) in
theorem before_or (h : t ≠ s) : Before len t s ∨ Before len s t := by
  rcases lt_trichotomy (len t) (len s) with hlt | heq | hlt
  · exact .inl (.inl hlt)
  · rcases lt_or_gt_of_ne h with hts | hts
    · exact .inl (.inr ⟨heq, hts⟩)
    · exact .inr (.inr ⟨heq.symm, hts⟩)
  · exact .inr (.inl hlt)

variable [Fintype ι]

variable (len) in
/-- The word of `s` as a number: as many words of its length are taken by those before it. -/
def value (s : ι) : ℕ := ∑ t with Before len t s, 2 ^ (len s - len t)

/-- A word and the ones before it, counted at a greater length. -/
theorem value_succ_mul (t : ι) {m : ℕ} (h : len t ≤ m) :
    (value len t + 1) * 2 ^ (m - len t) =
      ∑ u ∈ insert t (Finset.univ.filter (Before len · t)), 2 ^ (m - len u) := by
  rw [Finset.sum_insert (by simp [Before.irrefl]), value, Nat.add_mul, Finset.sum_mul, Nat.one_mul,
    Nat.add_comm]
  congr 1
  refine Finset.sum_congr rfl fun u hu ↦ ?_
  have hle := (Finset.mem_filter.mp hu).2.le
  rw [← pow_add]
  congr 1
  omega

/-- The words that start with one are all taken before the next one's. -/
theorem value_succ_le (h : Before len t s) :
    (value len t + 1) * 2 ^ (len s - len t) ≤ value len s := by
  rw [value_succ_mul t h.le]
  refine Finset.sum_le_sum_of_subset fun u hu ↦ ?_
  rcases Finset.mem_insert.mp hu with rfl | hu
  · exact Finset.mem_filter.mpr ⟨Finset.mem_univ _, h⟩
  · exact Finset.mem_filter.mpr ⟨Finset.mem_univ _, (Finset.mem_filter.mp hu).2.trans h⟩

/-- The lengths leave a word for every symbol. -/
theorem value_lt {m : ℕ} (hle : ∀ s, len s ≤ m) (hkraft : ∑ s, 2 ^ (m - len s) ≤ 2 ^ m) (s : ι) :
    value len s < 2 ^ len s := by
  have hsum : (value len s + 1) * 2 ^ (m - len s) ≤ 2 ^ len s * 2 ^ (m - len s) := by
    rw [value_succ_mul s (hle s), ← pow_add, Nat.add_sub_cancel' (hle s)]
    exact (Finset.sum_le_sum_of_subset (Finset.subset_univ _)).trans hkraft
  exact Nat.le_of_mul_le_mul_right hsum (Nat.two_pow_pos _)

variable (len) in
/-- The canonical code with words of the lengths `len`. -/
def canonical (m : ℕ) (hpos : ∀ s, 0 < len s) (hle : ∀ s, len s ≤ m)
    (hkraft : ∑ s, 2 ^ (m - len s) ≤ 2 ^ m) : Code ι where
  word s := toBits (len s) (value len s)
  word_ne_nil s h := by
    have hlen := congrArg List.length h
    rw [toBits_length, List.length_nil] at hlen
    exact absurd hlen (hpos s).ne'
  prefix_free t s h := by
    by_contra hts
    have hlen := h.length_le
    rw [toBits_length, toBits_length] at hlen
    -- as a number, the shorter word is what the longer one starts with
    have hstart := List.prefix_iff_eq_take.mp h
    rw [toBits_length, take_toBits _ hlen] at hstart
    have hlt : value len s / 2 ^ (len s - len t) < 2 ^ len t := by
      rw [Nat.div_lt_iff_lt_mul (Nat.two_pow_pos _), ← pow_add, Nat.add_sub_cancel' hlen]
      exact value_lt hle hkraft s
    have heq := (toBits_inj (value_lt hle hkraft t) hlt).mp hstart
    rcases before_or len hts with hbefore | hbefore
    · have hnext := (Nat.le_div_iff_mul_le (Nat.two_pow_pos _)).mpr (value_succ_le hbefore)
      omega
    · -- only words of one length
      have hsame : len s = len t := Nat.le_antisymm hbefore.le hlen
      have hnext := value_succ_le hbefore
      simp only [hsame, Nat.sub_self, pow_zero, Nat.div_one, Nat.mul_one] at heq hnext
      omega

end Canonical

/-! ## 4. Bytes -/

/-- A byte is its eight bits. -/
def byteCode : Code UInt8 where
  word b := toBits 8 b.toNat
  word_ne_nil b h := absurd (congrArg List.length h) (by simp)
  prefix_free b c h := UInt8.toNat_inj.mp
    ((toBits_inj b.toNat_lt c.toNat_lt).mp (h.eq_of_length (by simp)))

def ofBits (bits : List Bool) : Nat := bits.foldl (fun v b ↦ 2 * v + b.toNat) 0

/-- Eight bits a byte; bits that do not fill one are left out. -/
def pack : List Bool → List UInt8
  | b₀ :: b₁ :: b₂ :: b₃ :: b₄ :: b₅ :: b₆ :: b₇ :: bits =>
    UInt8.ofNat (ofBits [b₀, b₁, b₂, b₃, b₄, b₅, b₆, b₇]) :: pack bits
  | _ => []

theorem word_ofBits (b₀ b₁ b₂ b₃ b₄ b₅ b₆ b₇ : Bool) :
    byteCode.word (UInt8.ofNat (ofBits [b₀, b₁, b₂, b₃, b₄, b₅, b₆, b₇])) =
      [b₀, b₁, b₂, b₃, b₄, b₅, b₆, b₇] := by
  revert b₀ b₁ b₂ b₃ b₄ b₅ b₆ b₇
  decide

theorem encode_pack {bits : List Bool} (h : 8 ∣ bits.length) : byteCode.encode (pack bits) = bits := by
  fun_induction pack bits with
  | case1 b₀ b₁ b₂ b₃ b₄ b₅ b₆ b₇ bits ih =>
    rw [Code.encode_cons, word_ofBits, ih (by simp only [List.length_cons] at h; omega)]
    rfl
  | case2 bits hshort =>
    obtain ⟨k, hk⟩ := h
    match bits, hk with
    | [], _ => rfl
    | [_], hk | [_, _], hk | [_, _, _], hk | [_, _, _, _], hk | [_, _, _, _, _], hk
    | [_, _, _, _, _, _], hk | [_, _, _, _, _, _, _], hk =>
      simp only [List.length_cons, List.length_nil] at hk
      omega
    | b₀ :: b₁ :: b₂ :: b₃ :: b₄ :: b₅ :: b₆ :: b₇ :: bits, _ =>
      exact (hshort b₀ b₁ b₂ b₃ b₄ b₅ b₆ b₇ bits rfl).elim

end PrefixCode
