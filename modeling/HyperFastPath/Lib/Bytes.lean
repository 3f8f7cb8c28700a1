import Mathlib.Tactic.Ring
import Mathlib.Data.List.Induction

/-!
# Byte strings

Big-endian numbers as lists of bytes, and overwriting a stretch of a list in place.
-/

namespace Bytes

/-! ## 1. Big-endian numbers -/

/-- The low `k` bytes of `n`, most significant first. -/
def toBe : Nat → Nat → List UInt8
  | 0, _ => []
  | k + 1, n => UInt8.ofNat (n >>> (8 * k)) :: toBe k n

/-- The number a list of bytes spells out, most significant byte first. -/
def ofBe (bs : List UInt8) : Nat := bs.foldl (fun acc b ↦ acc * 256 + b.toNat) 0

@[simp] theorem toBe_length (k n : Nat) : (toBe k n).length = k := by
  induction k with
  | zero => rfl
  | succ k ih => simp [toBe, ih]

private theorem foldl_toBe (k n acc : Nat) :
    (toBe k n).foldl (fun acc b ↦ acc * 256 + b.toNat) acc = acc * 256 ^ k + n % 256 ^ k := by
  induction k generalizing acc with
  | zero => simp [toBe, Nat.mod_one]
  | succ k ih =>
    have hd : n >>> (8 * k) = n / 256 ^ k := by
      rw [Nat.shiftRight_eq_div_pow, Nat.pow_mul]
    -- the top byte, and what is below it
    have hm : n % 256 ^ (k + 1) = n % 256 ^ k + 256 ^ k * (n / 256 ^ k % 256) := by
      rw [pow_succ, Nat.mod_mul]
    rw [toBe, List.foldl_cons, ih, UInt8.toNat_ofNat', show (2 : Nat) ^ 8 = 256 from rfl, hd, hm,
      pow_succ]
    ring

theorem ofBe_toBe_mod (k n : Nat) : ofBe (toBe k n) = n % 256 ^ k := by
  rw [ofBe, foldl_toBe, Nat.zero_mul, Nat.zero_add]

theorem ofBe_toBe {k n : Nat} (h : n < 256 ^ k) : ofBe (toBe k n) = n := by
  rw [ofBe_toBe_mod, Nat.mod_eq_of_lt h]

theorem ofBe_concat (l : List UInt8) (b : UInt8) : ofBe (l ++ [b]) = ofBe l * 256 + b.toNat :=
  List.foldl_append

theorem ofBe_lt (l : List UInt8) : ofBe l < 256 ^ l.length := by
  induction l using List.reverseRecOn with
  | nil => decide
  | append_singleton l b ih =>
    have hb := b.toNat_lt
    rw [ofBe_concat, List.length_append, List.length_singleton, pow_succ]
    omega

theorem toBe_concat (k n : Nat) : toBe (k + 1) n = toBe k (n / 256) ++ [UInt8.ofNat n] := by
  induction k with
  | zero => simp [toBe]
  | succ k ih =>
    have hshift : n >>> (8 * (k + 1)) = (n / 256) >>> (8 * k) := by
      rw [Nat.mul_add, Nat.add_comm, Nat.shiftRight_add, Nat.shiftRight_eq_div_pow n]
    rw [toBe, ih, toBe, hshift, List.cons_append]

theorem toBe_ofBe (l : List UInt8) : toBe l.length (ofBe l) = l := by
  induction l using List.reverseRecOn with
  | nil => rfl
  | append_singleton l b ih =>
    have hb := b.toNat_lt
    have hdiv : (ofBe l * 256 + b.toNat) / 256 = ofBe l := by omega
    have hlast : UInt8.ofNat (ofBe l * 256 + b.toNat) = b := by
      apply UInt8.toNat_inj.mp
      rw [UInt8.toNat_ofNat']
      omega
    rw [ofBe_concat, List.length_append, List.length_singleton, toBe_concat, hdiv, ih, hlast]

/-! ## 2. Overwriting in place -/

variable {α : Type*}

/-- `l` with `new` written over its elements from position `p` on. -/
def overwrite (l : List α) (p : Nat) (new : List α) : List α :=
  l.take p ++ new ++ l.drop (p + new.length)

@[simp] theorem overwrite_length {l : List α} {p : Nat} {new : List α}
    (h : p + new.length ≤ l.length) : (overwrite l p new).length = l.length := by
  simp only [overwrite, List.length_append, List.length_take, List.length_drop]
  omega

@[simp] theorem overwrite_nil (l : List α) (p : Nat) : overwrite l p [] = l := by
  simp [overwrite]

theorem overwrite_zero (l new : List α) : overwrite l 0 new = new ++ l.drop new.length := by
  simp [overwrite]

/-- Overwriting the front part of an append leaves the rest alone. -/
theorem overwrite_append {a b new : List α} {p : Nat} (h : p + new.length ≤ a.length) :
    overwrite (a ++ b) p new = overwrite a p new ++ b := by
  simp only [overwrite, List.append_assoc]
  rw [List.take_append_of_le_length (by omega), List.drop_append_of_le_length h]

theorem overwrite_behind (a b new : List α) (p : Nat) :
    overwrite (a ++ b) (a.length + p) new = a ++ overwrite b p new := by
  simp only [overwrite, List.append_assoc, Nat.add_assoc]
  rw [List.take_length_add_append, List.drop_length_add_append, List.append_assoc]

theorem overwrite_adjacent {l a b : List α} {p : Nat} (h : p + a.length ≤ l.length) :
    overwrite (overwrite l p a) (p + a.length) b = overwrite l p (a ++ b) := by
  have hl : (l.take p ++ a).length = p + a.length := by
    simp only [List.length_append, List.length_take]
    omega
  -- the second stretch starts where the first one ends
  have htake : (overwrite l p a).take (p + a.length) = l.take p ++ a := by
    rw [overwrite, List.take_append_of_le_length hl.ge, List.take_of_length_le hl.le]
  have hdrop : (overwrite l p a).drop (p + a.length + b.length) =
      l.drop (p + a.length + b.length) := by
    rw [overwrite, ← hl, List.drop_append, List.drop_of_length_le (by omega), List.nil_append,
      List.drop_drop]
    congr 1
    omega
  rw [overwrite, htake, hdrop, overwrite]
  simp only [List.append_assoc, List.length_append, Nat.add_assoc]

theorem set_eq_overwrite {l : List α} {p : Nat} (h : p < l.length) (a : α) :
    l.set p a = overwrite l p [a] := by
  rw [List.set_eq_take_append_cons_drop, if_pos h, overwrite, List.length_singleton,
    List.append_assoc, List.singleton_append]

theorem take_succ_getD {l : List α} {i : Nat} (h : i < l.length) (d : α) :
    l.take (i + 1) = l.take i ++ [l.getD i d] := by
  rw [List.take_add_one, List.getElem?_eq_getElem h, List.getD_eq_getElem?_getD,
    List.getElem?_eq_getElem h]
  rfl

theorem overwrite_take_succ {l new : List α} {p i : Nat} (hi : i < new.length)
    (h : p + new.length ≤ l.length) (d : α) :
    overwrite (overwrite l p (new.take i)) (p + i) [new.getD i d] =
      overwrite l p (new.take (i + 1)) := by
  have hlen : (new.take i).length = i := by
    rw [List.length_take]
    omega
  have hadj := overwrite_adjacent (l := l) (p := p) (a := new.take i) (b := [new.getD i d])
    (by omega)
  rw [hlen] at hadj
  rw [hadj, take_succ_getD hi d]

end Bytes
