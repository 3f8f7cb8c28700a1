import Mathlib.Data.List.Basic

/-!
# Blocks laid out one after another

Blocks placed in a memory without a gap: they do not overlap, they lie within the stretch the layout
takes up, and what is read back of a block is what was placed there.  `chunks` cuts a list into
pieces of one length.
-/

namespace Layout

variable {α : Type*}

structure Block (α : Type*) where
  off : Nat
  data : List α

def Block.stop (b : Block α) : Nat := b.off + b.data.length

/-- The blocks follow one another from `start` to `stop`. -/
def Packed : Nat → List (Block α) → Nat → Prop
  | start, [], stop => start = stop
  | start, b :: bs, stop => b.off = start ∧ Packed b.stop bs stop

/-- The memory with a block placed in it. -/
def place (mem : Nat → α) (b : Block α) : Nat → α :=
  fun k ↦ if b.off ≤ k ∧ k < b.stop then b.data.getD (k - b.off) (mem k) else mem k

def load (mem : Nat → α) (bs : List (Block α)) : Nat → α := bs.foldl place mem

/-- What the memory holds where the block lies. -/
def Block.read (b : Block α) (mem : Nat → α) : List α :=
  (List.range b.data.length).map fun k ↦ mem (b.off + k)

variable {start mid stop : Nat} {b : Block α} {bs cs : List (Block α)}

theorem Packed.append (h : Packed start bs mid) (h' : Packed mid cs stop) :
    Packed start (bs ++ cs) stop := by
  induction bs generalizing start with
  | nil =>
    cases h
    exact h'
  | cons b bs ih => exact ⟨h.1, ih h.2⟩

theorem Packed.le (h : Packed start bs stop) : start ≤ stop := by
  induction bs generalizing start with
  | nil => exact Nat.le_of_eq h
  | cons b bs ih =>
    have hle := ih h.2
    rw [Block.stop, h.1] at hle
    omega

theorem Packed.within (h : Packed start bs stop) (hb : b ∈ bs) :
    start ≤ b.off ∧ b.stop ≤ stop := by
  induction bs generalizing start with
  | nil => cases hb
  | cons c cs ih =>
    rcases List.mem_cons.mp hb with rfl | hb
    · exact ⟨Nat.le_of_eq h.1.symm, h.2.le⟩
    · obtain ⟨hlo, hhi⟩ := ih h.2 hb
      have hstop : c.off ≤ c.stop := Nat.le_add_right _ _
      exact ⟨by rw [← h.1]; omega, hhi⟩

/-- No two blocks overlap: each one ends before the next one starts. -/
theorem Packed.pairwise (h : Packed start bs stop) :
    bs.Pairwise fun b c ↦ b.stop ≤ c.off := by
  induction bs generalizing start with
  | nil => exact .nil
  | cons b bs ih => exact .cons (fun c hc ↦ (h.2.within hc).1) (ih h.2)

/-! ## Reading back -/

theorem place_of_lt {mem : Nat → α} {k : Nat} (h : k < b.off) : place mem b k = mem k :=
  if_neg fun hin ↦ by omega

theorem read_place (mem : Nat → α) (b : Block α) : b.read (place mem b) = b.data := by
  apply List.ext_getElem (by simp [Block.read])
  intro i hi hi'
  have hin : b.off ≤ b.off + i ∧ b.off + i < b.stop := by
    rw [Block.stop]
    omega
  simp only [Block.read, List.getElem_map, List.getElem_range, place, if_pos hin,
    Nat.add_sub_cancel_left, List.getD_eq_getElem?_getD, List.getElem?_eq_getElem hi',
    Option.getD_some]

/-- Blocks that start behind a position do not change what is below it. -/
theorem load_of_lt {mem : Nat → α} {k : Nat} (h : ∀ c ∈ bs, k < c.off) : load mem bs k = mem k := by
  induction bs generalizing mem with
  | nil => rfl
  | cons c cs ih =>
    rw [load, List.foldl_cons, ← load, ih fun d hd ↦ h d (.tail _ hd), place_of_lt (h c (.head _))]

theorem Packed.read_load (h : Packed start bs stop) (hb : b ∈ bs) (mem : Nat → α) :
    b.read (load mem bs) = b.data := by
  induction bs generalizing start mem with
  | nil => cases hb
  | cons c cs ih =>
    rw [load, List.foldl_cons, ← load]
    rcases List.mem_cons.mp hb with rfl | hb
    -- what follows a block is placed behind it
    · conv_rhs => rw [← read_place mem b]
      rw [Block.read, Block.read, List.map_inj_left]
      intro k hk
      refine load_of_lt fun d hd ↦ ?_
      have hlo := (h.2.within hd).1
      have hlt := List.mem_range.mp hk
      rw [Block.stop] at hlo
      omega
    · exact ih h.2 hb _

/-! ## Chunks -/

/-- Pieces of `n` elements, `todo` of them at most. -/
def chunksFrom (n : Nat) : (todo : Nat) → List α → List (List α)
  | 0, _ => []
  | todo + 1, l => if l.isEmpty then [] else l.take n :: chunksFrom n todo (l.drop n)

/-- The pieces of `n` elements a list is cut into, the last of which may be shorter. -/
def chunks (n : Nat) (l : List α) : List (List α) := chunksFrom n l.length l

theorem chunksFrom_flatten {n todo : Nat} (hn : 0 < n) {l : List α} (h : l.length ≤ todo) :
    (chunksFrom n todo l).flatten = l := by
  induction todo generalizing l with
  | zero =>
    have hnil : l = [] := List.eq_nil_of_length_eq_zero (by omega)
    rw [hnil]
    rfl
  | succ todo ih =>
    unfold chunksFrom
    split
    · rename_i hempty
      rw [List.isEmpty_iff.mp hempty, List.flatten_nil]
    · rw [List.flatten_cons, ih (by rw [List.length_drop]; omega), List.take_append_drop]

theorem chunks_flatten {n : Nat} (hn : 0 < n) (l : List α) : (chunks n l).flatten = l :=
  chunksFrom_flatten hn (Nat.le_refl _)

theorem length_le_of_mem_chunksFrom {n todo : Nat} {l c : List α} (h : c ∈ chunksFrom n todo l) :
    c.length ≤ n := by
  induction todo generalizing l with
  | zero => cases h
  | succ todo ih =>
    unfold chunksFrom at h
    split at h
    · cases h
    · rcases List.mem_cons.mp h with rfl | h
      · exact List.length_take_le _ _
      · exact ih h

theorem length_le_of_mem_chunks {n : Nat} {l c : List α} (h : c ∈ chunks n l) : c.length ≤ n :=
  length_le_of_mem_chunksFrom h

theorem chunksFrom_nil (n todo : Nat) : chunksFrom n todo ([] : List α) = [] := by
  cases todo <;> rfl

theorem chunksFrom_length_le {n todo : Nat} (hn : 0 < n) (l : List α) :
    (chunksFrom n todo l).length ≤ l.length / n + 1 := by
  induction todo generalizing l with
  | zero => exact Nat.zero_le _
  | succ todo ih =>
    unfold chunksFrom
    split
    · exact Nat.zero_le _
    by_cases hlast : l.length < n
    · rw [List.drop_of_length_le (Nat.le_of_lt hlast), chunksFrom_nil]
      exact Nat.le_add_left _ _
    · -- a whole piece, and the pieces of the rest
      have hrest := ih (l.drop n)
      have hdiv := Nat.div_eq_sub_div hn (Nat.le_of_not_lt hlast)
      rw [List.length_drop] at hrest
      rw [List.length_cons]
      omega

theorem chunks_length_le {n : Nat} (hn : 0 < n) (l : List α) :
    (chunks n l).length ≤ l.length / n + 1 := chunksFrom_length_le hn l

end Layout
