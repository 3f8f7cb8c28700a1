import HyperFastPath.Lib.Segments

/-!
# Two writers on one stream

One of them puts whole items on the stream, the other writes a stream of its own in pieces of any
length.  As long as nothing is put between two pieces of one item, the stream is a sequence of whole
items, but for the one that is being written.
-/

namespace Writers

open Segments

variable {α β : Type*}

/-- `written` counts what the second writer has written of its own stream. -/
structure Shared (α : Type*) where
  wire : List α
  written : Nat
  deriving DecidableEq, Repr

def Shared.new : Shared α := ⟨[], 0⟩

def Shared.put (s : Shared α) (piece : List α) : Shared α := { s with wire := s.wire ++ piece }

/-- At most the next `n` of `own`. -/
def Shared.write (s : Shared α) (own : List α) (n : Nat) : Shared α where
  wire := s.wire ++ (own.drop s.written).take n
  written := s.written + ((own.drop s.written).take n).length

/-- The items of the second writer. -/
def ownOf (items : List (Bool × β)) : List β := (items.filter Prod.fst).map Prod.snd

/-- The items that were put. -/
def putOf (items : List (Bool × β)) : List β := (items.filter fun i ↦ !i.1).map Prod.snd

/-- The stream consists of `items` and of the first `n` symbols of what is left of `own`. -/
structure Orderly (enc : β → List α) (own : List β) (s : Shared α) (items : List (Bool × β))
    (rest : List β) (n : Nat) : Prop where
  own : ownOf items ++ rest = own
  le : n ≤ (rest.flatMap enc).length
  written : s.written = ((ownOf items).flatMap enc).length + n
  wire : s.wire = (items.map Prod.snd).flatMap enc ++ (rest.flatMap enc).take n

@[simp] theorem ownOf_append (is js : List (Bool × β)) :
    ownOf (is ++ js) = ownOf is ++ ownOf js := by
  simp [ownOf]

@[simp] theorem putOf_append (is js : List (Bool × β)) :
    putOf (is ++ js) = putOf is ++ putOf js := by
  simp [putOf]

@[simp] theorem ownOf_own (bs : List β) : ownOf (bs.map fun b ↦ (true, b)) = bs := by
  simp [ownOf, List.filter_map, Function.comp_def]

@[simp] theorem ownOf_put (bs : List β) : ownOf (bs.map fun b ↦ (false, b)) = [] := by
  simp [ownOf, List.filter_map, Function.comp_def]

@[simp] theorem putOf_own (bs : List β) : putOf (bs.map fun b ↦ (true, b)) = [] := by
  simp [putOf, List.filter_map, Function.comp_def]

@[simp] theorem putOf_put (bs : List β) : putOf (bs.map fun b ↦ (false, b)) = bs := by
  simp [putOf, List.filter_map, Function.comp_def]

variable {enc : β → List α} {own rest : List β} {s : Shared α} {items : List (Bool × β)} {n : Nat}

theorem Orderly.new (enc : β → List α) (own : List β) : Orderly enc own .new [] own 0 :=
  ⟨rfl, Nat.zero_le _, rfl, rfl⟩

/-- Up to whole items, the stream consists of whole items. -/
theorem Orderly.whole (h : Orderly enc own s items rest n) :
    s.wire <+: ((items ++ rest.map fun b ↦ (true, b)).map Prod.snd).flatMap enc := by
  rw [h.wire, List.map_append, List.flatMap_append, List.prefix_append_right_inj, List.map_map]
  simpa [Function.comp_def] using List.take_prefix _ _

theorem Orderly.extend (h : Orderly enc own s items rest n) (more : List β) :
    Orderly enc (own ++ more) s items (rest ++ more) n where
  own := by rw [← List.append_assoc, h.own]
  le := by
    rw [List.flatMap_append, List.length_append]
    exact h.le.trans (Nat.le_add_right _ _)
  written := h.written
  wire := by rw [List.flatMap_append, List.take_append_of_le_length h.le, h.wire]

theorem Orderly.left (h : Orderly enc own s items rest n) :
    (own.flatMap enc).drop s.written = (rest.flatMap enc).drop n := by
  rw [← h.own, h.written, List.flatMap_append, List.drop_length_add_append]

theorem Orderly.write (h : Orderly enc own s items rest n) (m : Nat) :
    Orderly enc own (s.write (own.flatMap enc) m) items rest
      (n + (((rest.flatMap enc).drop n).take m).length) := by
  have hleft := h.left
  refine ⟨h.own, ?_, ?_, ?_⟩
  · have hle := h.le
    rw [List.length_take, List.length_drop]
    omega
  · rw [Shared.write, hleft, h.written, Nat.add_assoc]
  · have htake : (rest.flatMap enc).take n ++ ((rest.flatMap enc).drop n).take m =
        (rest.flatMap enc).take (n + (((rest.flatMap enc).drop n).take m).length) := by
      rw [← List.take_add, List.take_eq_take_iff, List.length_take, List.length_drop]
      omega
    rw [← htake, ← List.append_assoc, ← h.wire, ← hleft]
    rfl

/-- Where `n` symbols are a number of whole items, anything whole may be put. -/
theorem Orderly.put_at (h : Orderly enc own s items rest n) {l : Nat}
    (hl : ((rest.take l).flatMap enc).length = n) (pieces : List β) :
    Orderly enc own (s.put (pieces.flatMap enc))
      (items ++ (rest.take l).map (fun b ↦ (true, b)) ++ pieces.map fun b ↦ (false, b))
      (rest.drop l) 0 where
  own := by
    rw [ownOf_append, ownOf_append, ownOf_own, ownOf_put, List.append_nil, List.append_assoc,
      List.take_append_drop, h.own]
  le := Nat.zero_le _
  written := by
    rw [ownOf_append, ownOf_append, ownOf_own, ownOf_put, List.append_nil, List.flatMap_append,
      List.length_append, hl]
    exact h.written
  wire := by
    have hwhole : (rest.flatMap enc).take n = (rest.take l).flatMap enc := by
      conv_lhs => rw [← List.take_append_drop l rest, List.flatMap_append, ← hl, List.take_left]
    rw [Shared.put, h.wire, hwhole]
    simp [Function.comp_def, List.flatMap_def]

theorem Orderly.boundary (h : Orderly enc own s items rest n)
    (hbetween : Boundary (own.map enc) s.written) :
    ∃ l, ((rest.take l).flatMap enc).length = n := by
  obtain ⟨j, -, hj⟩ := hbetween
  rw [← h.own, h.written, ← List.map_take, ← List.flatMap_def, List.take_append,
    List.flatMap_append, List.length_append] at hj
  rcases Nat.le_total (ownOf items).length j with hle | hle
  · rw [List.take_of_length_le hle] at hj
    exact ⟨j - (ownOf items).length, by omega⟩
  · -- all that was written are the items that are there already
    rw [Nat.sub_eq_zero_of_le hle, List.take_zero, List.flatMap_nil, List.length_nil] at hj
    have hshort : ((ownOf items).take j).flatMap enc <+: (ownOf items).flatMap enc := by
      conv_rhs => rw [← List.take_append_drop j (ownOf items), List.flatMap_append]
      exact List.prefix_append _ _
    have hlen := hshort.length_le
    refine ⟨0, ?_⟩
    rw [List.take_zero, List.flatMap_nil, List.length_nil]
    omega

end Writers
