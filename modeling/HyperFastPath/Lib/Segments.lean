import Mathlib.Data.List.Infix

/-!
# Streams of segments

A stream that is the concatenation of segments, and the positions in it that lie between two of
them.
-/

namespace Segments

variable {α : Type*} {us : List (List α)} {n : Nat}

/-- No segment is cut in two at position `n`. -/
def Boundary (us : List (List α)) (n : Nat) : Prop :=
  ∃ k, k ≤ us.length ∧ (us.take k).flatten.length = n

/-- A segment starts at position `n`. -/
def Starts (us : List (List α)) (n : Nat) : Prop :=
  ∃ k, k < us.length ∧ (us.take k).flatten.length = n

instance (us : List (List α)) (n : Nat) : Decidable (Boundary us n) :=
  inferInstanceAs (Decidable (∃ k, k ≤ us.length ∧ _))

instance (us : List (List α)) (n : Nat) : Decidable (Starts us n) :=
  inferInstanceAs (Decidable (∃ k, k < us.length ∧ _))

theorem boundary_zero (us : List (List α)) : Boundary us 0 := ⟨0, Nat.zero_le _, rfl⟩

theorem boundary_head (u : List α) (us : List (List α)) : Boundary (u :: us) u.length :=
  ⟨1, by simp, by simp⟩

/-- Short of the end of the stream, the next segment starts where the last one ended. -/
theorem Boundary.starts (h : Boundary us n) (hlt : n < us.flatten.length) : Starts us n := by
  obtain ⟨k, hk, hn⟩ := h
  refine ⟨k, Nat.lt_of_le_of_ne hk fun hend ↦ ?_, hn⟩
  rw [hend, List.take_length] at hn
  omega

/-- The stream from there on begins with that segment. -/
theorem Starts.exists_prefix (h : Starts us n) : ∃ u ∈ us, u <+: us.flatten.drop n := by
  obtain ⟨k, hk, rfl⟩ := h
  refine ⟨us[k], List.getElem_mem hk, ?_⟩
  have hsplit : us.flatten = (us.take k).flatten ++ (us[k] ++ (us.drop (k + 1)).flatten) := by
    rw [← List.flatten_cons, ← List.flatten_append, ← List.drop_eq_getElem_cons hk,
      List.take_append_drop]
  rw [hsplit, List.drop_left]
  exact List.prefix_append _ _

/-- What lies between two boundaries is a stretch of whole segments. -/
theorem Boundary.between {i j : Nat} (hi : Boundary us i) (hj : Boundary us j) (hij : i ≤ j) :
    ∃ k l, (us.flatten.drop i).take (j - i) = ((us.drop k).take l).flatten := by
  obtain ⟨k, hk, rfl⟩ := hi
  obtain ⟨l, hl, rfl⟩ := hj
  -- nothing lies between them if the first one comes last
  rcases Nat.le_total k l with hkl | hlk
  · refine ⟨k, l - k, ?_⟩
    have hfront : (us.take l).flatten = (us.take k).flatten ++ ((us.drop k).take (l - k)).flatten := by
      rw [← List.flatten_append, ← List.take_add, Nat.add_sub_cancel' hkl]
    have hsplit : us.flatten =
        (us.take k).flatten ++ (((us.drop k).take (l - k)).flatten ++ (us.drop l).flatten) := by
      rw [← List.append_assoc, ← hfront, ← List.flatten_append, List.take_append_drop]
    rw [hfront, List.length_append, Nat.add_sub_cancel_left, hsplit, List.drop_left, List.take_left]
  · refine ⟨0, 0, ?_⟩
    have hle := (List.take_prefix_take_left (l := us) hlk).flatten.length_le
    rw [Nat.sub_eq_zero_of_le hle, List.take_zero, List.take_zero, List.flatten_nil]

/-! ## Labels -/

/-- One segment reaches from `m` to `n`. -/
def Covers (us : List (List α)) (m n : Nat) : Prop :=
  ∃ k, k < us.length ∧ (us.take k).flatten.length = m ∧ (us.take (k + 1)).flatten.length = n

instance (us : List (List α)) (m n : Nat) : Decidable (Covers us m n) :=
  inferInstanceAs (Decidable (∃ k, k < us.length ∧ _ ∧ _))

variable {β : Type*}

/-- Where every symbol of the stream has a label, the labels that the segments start with. -/
def heads : List (List α) → List β → List β
  | [], _ => []
  | _ :: _, [] => []
  | u :: us, b :: bs => b :: heads us ((b :: bs).drop u.length)

@[simp] theorem heads_nil (us : List (List α)) : heads us ([] : List β) = [] := by
  cases us <;> rfl

theorem mem_of_mem_heads {bs : List β} {b : β} (h : b ∈ heads us bs) : b ∈ bs := by
  induction us generalizing bs with
  | nil => cases h
  | cons u us ih =>
    cases bs with
    | nil => cases h
    | cons c bs =>
      rcases List.mem_cons.mp h with rfl | h
      · exact List.mem_cons_self
      · exact List.mem_of_mem_drop (ih h)

/-- More labels leave the ones there are alone. -/
theorem heads_append (us : List (List α)) (bs cs : List β) :
    ∃ ds, heads us (bs ++ cs) = heads us bs ++ ds ∧ ∀ d ∈ ds, d ∈ cs := by
  induction us generalizing bs cs with
  | nil => exact ⟨[], rfl, fun _ h ↦ by cases h⟩
  | cons u us ih =>
    cases bs with
    | nil => exact ⟨heads (u :: us) cs, rfl, fun _ ↦ mem_of_mem_heads⟩
    | cons b bs =>
      obtain ⟨ds, hds, hmem⟩ := ih ((b :: bs).drop u.length) (cs.drop (u.length - (b :: bs).length))
      refine ⟨ds, ?_, fun d hd ↦ List.mem_of_mem_drop (hmem d hd)⟩
      rw [← List.drop_append] at hds
      rw [List.cons_append, heads, heads, List.cons_append, ← hds, List.cons_append]

/-- Where a segment starts, the labels to come are those of the segments to come. -/
theorem heads_append_at (hne : ∀ u ∈ us, u ≠ []) {k : Nat} {bs : List β}
    (hlen : bs.length = (us.take k).flatten.length) (cs : List β) :
    heads us (bs ++ cs) = heads us bs ++ heads (us.drop k) cs := by
  induction k generalizing us bs with
  | zero => simp [List.eq_nil_of_length_eq_zero hlen]
  | succ k ih =>
    cases us with
    | nil => simp [heads]
    | cons u us =>
      rw [List.take_succ_cons, List.flatten_cons, List.length_append] at hlen
      have hpos := List.length_pos_iff.mpr (hne u List.mem_cons_self)
      cases bs with
      | nil =>
        rw [List.length_nil] at hlen
        omega
      | cons b bs =>
        have hdrop : ((b :: bs).drop u.length).length = (us.take k).flatten.length := by
          rw [List.length_drop]
          omega
        have hrest := ih (fun v hv ↦ hne v (List.mem_cons_of_mem u hv)) hdrop
        rw [← List.drop_append_of_le_length (by omega)] at hrest
        rw [List.cons_append, heads, heads, List.cons_append, List.drop_succ_cons, ← hrest,
          List.cons_append]

theorem heads_length_le (us : List (List α)) (bs : List β) : (heads us bs).length ≤ us.length := by
  induction us generalizing bs with
  | nil => exact Nat.le_refl _
  | cons u us ih =>
    cases bs with
    | nil => exact Nat.zero_le _
    | cons b bs => exact Nat.succ_le_succ (ih _)

/-- Where a segment starts, there are as many labels as segments so far. -/
theorem heads_length_at (hne : ∀ u ∈ us, u ≠ []) {k : Nat} (hk : k ≤ us.length) {bs : List β}
    (hlen : bs.length = (us.take k).flatten.length) : (heads us bs).length = k := by
  induction k generalizing us bs with
  | zero => simp [List.eq_nil_of_length_eq_zero hlen]
  | succ k ih =>
    cases us with
    | nil => cases hk
    | cons u us =>
      rw [List.take_succ_cons, List.flatten_cons, List.length_append] at hlen
      have hpos := List.length_pos_iff.mpr (hne u List.mem_cons_self)
      cases bs with
      | nil =>
        rw [List.length_nil] at hlen
        omega
      | cons b bs =>
        have hdrop : ((b :: bs).drop u.length).length = (us.take k).flatten.length := by
          rw [List.length_drop]
          omega
        rw [heads, List.length_cons, ih (fun v hv ↦ hne v (List.mem_cons_of_mem u hv))
          (Nat.le_of_succ_le_succ hk) hdrop]

theorem length_of_covers {k m n : Nat} (hk : k < us.length)
    (hstart : (us.take k).flatten.length = m)
    (hend : (us.take (k + 1)).flatten.length = m + n) : (us[k]).length = n := by
  rw [List.take_succ_eq_append_getElem hk, List.flatten_append, List.length_append, hstart] at hend
  simpa using hend

/-- One label for the whole of a segment. -/
theorem heads_covers (hne : ∀ u ∈ us, u ≠ []) {bs : List β} {m : Nat}
    (hcovers : Covers us bs.length (bs.length + m)) (c : β) :
    heads us (bs ++ List.replicate m c) = heads us bs ++ [c] := by
  obtain ⟨k, hk, hstart, hend⟩ := hcovers
  rw [heads_append_at hne hstart.symm, List.drop_eq_getElem_cons hk]
  -- it is as long as the segment
  have hlen := (length_of_covers hk hstart hend).symm
  have hpos := List.length_pos_iff.mpr (hne us[k] (List.getElem_mem hk))
  generalize us[k] = u at hlen hpos
  cases m with
  | zero => omega
  | succ l =>
    have hnone : (c :: List.replicate l c).drop u.length = [] :=
      List.drop_of_length_le (by simp [hlen])
    rw [List.replicate_succ, heads, hnone, heads_nil]

end Segments
