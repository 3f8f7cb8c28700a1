import HyperFastPath.Lib.Http2
import HyperFastPath.Listener.Filter
import Mathlib.Data.List.Induction

/-!
# Feeding the scanner in chunks

The reader that takes every update off the handle as soon as it is there, which is how the tests of
`listener.rs` drive the scanner.
-/

namespace HyperFastPath.Listener

open Bytes Http2

/-- A scan that ends at an update has consumed something on the way. -/
theorem scanLoop_hold_lt (s : Scanner) (rest : List UInt8) (hh : s.hold = [])
    (hb : s.blocks = []) (hp : (s.scanLoop rest).blocks ≠ []) :
    2 * (s.scanLoop rest).hold.length + (s.scanLoop rest).state.idle <
      2 * rest.length + s.state.idle := by
  fun_induction Scanner.scanLoop s rest with
  | case1 => exact absurd hb hp
  | case2 => exact absurd hb hp
  | case3 => exact absurd hb hp
  | case4 s rest hne m hs n heq state ih =>
    have hpos := List.length_pos_iff.mpr hne
    have := m.isLt
    have hn : 0 < n := by simp only [n, show preface.length = 24 from rfl]; omega
    exact lt_trans (ih hh hb hp) (State.turn_lt _ hne hn)
  | case5 => exact absurd hb hp
  | case6 s rest hne buf hs n hdr hge state passed hof ih =>
    have hpos := List.length_pos_iff.mpr hne
    have := buf.2
    exact lt_trans (ih hh hb hp) (State.turn_lt _ hne (by omega))
  | case7 s rest hne remaining hs n state ih =>
    have hpos := List.length_pos_iff.mpr hne
    apply lt_trans (ih hh hb hp)
    cases remaining with
    | zero => simp [hs, state, n, State.atHeader, State.idle]
    | succ r => exact State.turn_lt _ hne (by omega)
  | case8 s rest hne buf hs n body hlt ih =>
    have hpos := List.length_pos_iff.mpr hne
    have := buf.2
    exact lt_trans (ih hh hb hp) (State.turn_lt _ hne (by omega))
  | case9 s rest hne buf hs n body hge ih =>
    have hpos := List.length_pos_iff.mpr hne
    have := buf.2
    exact lt_trans (ih hh hb hp) (State.turn_lt _ hne (by omega))
  | case10 s rest hne block remaining hs n hzero =>
    simp only [hh, hs, List.nil_append]
    cases remaining with
    | zero => simp [n, State.atHeader, State.idle]
    | succ r =>
      have hpos := List.length_pos_iff.mpr hne
      exact State.turn_lt _ hne (by omega)
  | case11 s rest hne block remaining hs n hnz ih =>
    have hpos := List.length_pos_iff.mpr hne
    exact lt_trans (ih hh hb hp) (State.turn_lt _ hne (by omega))

/-- Takes what is on the handle and scans what is held back, for as long as there is something to
take. -/
def Scanner.drain (s : Scanner) : List (List UInt8) × Scanner :=
  if s.isPending then
    let t := { s.takeSync.2 with hold := [] }.scan s.hold
    (s.takeSync.1 ++ t.drain.1, t.drain.2)
  else ([], s)
termination_by if s.isPending then 2 * s.hold.length + s.state.idle + 1 else 0
decreasing_by
  rename_i hp
  have hlt := scanLoop_hold_lt { s with blocks := [], hold := [] } s.hold rfl rfl
  change t.blocks ≠ [] → 2 * t.hold.length + t.state.idle < 2 * s.hold.length + s.state.idle at hlt
  show (if t.isPending then 2 * t.hold.length + t.state.idle + 1 else 0) < _
  rw [if_pos hp]
  split
  · rename_i hq
    exact Nat.succ_lt_succ (hlt (by simpa only [isPending_iff] using hq))
  · omega

/-- What the scanner has put out so far, and the blocks taken off its handle. -/
structure Feed where
  taken : List (List UInt8)
  scanner : Scanner
  deriving DecidableEq, Repr

def Feed.new : Feed := ⟨[], .new⟩

def Feed.chunk (f : Feed) (c : List UInt8) : Feed :=
  ⟨f.taken ++ (f.scanner.scan c).drain.1, (f.scanner.scan c).drain.2⟩

def Feed.chunks (f : Feed) (cs : List (List UInt8)) : Feed := cs.foldl Feed.chunk f

/-- `base` after the filter has come to the state `t.1` and put out `t.2` on the way. -/
def Feed.after (base : Feed) (t : State × List Event) : Feed where
  taken := base.taken ++ updates t.2
  scanner :=
    { state := t.1
      out := base.scanner.out ++ passed t.2
      hold := []
      blocks := []
      sent := base.scanner.sent + reported t.2 }

theorem Scans.hold_eq_nil {s s' : Scanner} {input : List UInt8} {es : List Event}
    (h : Scans s input s' es) (hb : s'.blocks = []) : s'.hold = [] := by
  rcases h.stop with ⟨-, hh⟩ | ⟨es', block, rfl, -, -⟩
  · exact hh
  · have := h.blocks
    simp [hb] at this

theorem drain_spec (s : Scanner) (hok : s.blocks = [] → s.hold = []) :
    s.drain = (s.blocks ++ updates (walk s.state s.hold).2,
      { state := (walk s.state s.hold).1
        out := s.out ++ passed (walk s.state s.hold).2
        hold := []
        blocks := []
        sent := s.sent + reported (walk s.state s.hold).2 }) := by
  fun_induction Scanner.drain s with
  | case1 s hp t ih =>
    obtain ⟨es, h⟩ := scanLoop_scans { s with blocks := [], hold := [] } s.hold rfl
    change Scans _ _ t es at h
    rw [ih h.hold_eq_nil]
    obtain ⟨hrun, hout, hblocks, hsent, -⟩ := h
    simp only at hrun hout hblocks hsent
    simp only [hrun, hout, hblocks, hsent, passed_append, updates_append, reported_append,
      Scanner.takeSync, List.nil_append, List.append_assoc, UInt32.add_assoc]
  | case2 s hp =>
    have hb : s.blocks = [] := by simpa [Scanner.isPending] using hp
    cases s
    simp_all

/-- Chunks that are scanned one after the other, with nothing taken in between, are scanned as
one. -/
theorem scans_chunks (s : Scanner) (hb : s.blocks = []) (hh : s.hold = [])
    (cs : List (List UInt8)) : ∃ es, Scans s cs.flatten (cs.foldl Scanner.scan s) es := by
  induction cs using List.reverseRecOn with
  | nil => exact ⟨[], by simp [hh], by simp, by simp, by simp, .inl ⟨rfl, hh⟩⟩
  | append_singleton cs c ih =>
    obtain ⟨es, h⟩ := ih
    rw [List.flatten_append, List.flatten_singleton, List.foldl_append, List.foldl_cons,
      List.foldl_nil]
    generalize cs.foldl Scanner.scan s = s₁ at h
    have hup : s₁.blocks = updates es := by rw [h.blocks, hb, List.nil_append]
    -- once an update is waiting, further chunks are held back as they are
    by_cases hb₁ : s₁.blocks = []
    · obtain ⟨es', h'⟩ := scanLoop_scans s₁ c (h.hold_eq_nil hb₁)
      have hscan : s₁.scan c = s₁.scanLoop c := if_neg (by simp [Scanner.isPending, hb₁])
      rw [hscan]
      refine ⟨es ++ es', h'.turn ?_ h.out (by rw [hb₁, hb]) h.sent (hup ▸ hb₁)⟩
      rw [walk_append, h.run, h.hold_eq_nil hb₁]
      simp
    · have hscan : s₁.scan c = { s₁ with hold := s₁.hold ++ c } := if_pos (isPending_iff.mpr hb₁)
      rw [hscan]
      refine ⟨es, ?_, h.out, h.blocks, h.sent, ?_⟩
      · rw [walk_append, h.run, walk_append]
        simp only [List.append_assoc]
      · rcases h.stop with ⟨hu, -⟩ | hstop
        · exact absurd (hup.trans hu) hb₁
        · exact .inr hstop

/-- Several chunks, and only then whatever there is to take. -/
def Feed.batch (f : Feed) (cs : List (List UInt8)) : Feed :=
  ⟨f.taken ++ (cs.foldl Scanner.scan f.scanner).drain.1, (cs.foldl Scanner.scan f.scanner).drain.2⟩

theorem Feed.batch_after (base : Feed) (s : State) (es : List Event) (cs : List (List UInt8)) :
    (base.after (s, es)).batch cs =
      base.after ((walk s cs.flatten).1, es ++ (walk s cs.flatten).2) := by
  obtain ⟨es', h⟩ := scans_chunks (base.after (s, es)).scanner rfl rfl cs
  rw [Feed.batch, drain_spec _ h.hold_eq_nil]
  obtain ⟨hrun, hout, hblocks, hsent, -⟩ := h
  simp only [Feed.after] at hrun hout hblocks hsent ⊢
  simp only [hrun, hout, hblocks, hsent, passed_append, updates_append, reported_append,
    List.nil_append, List.append_assoc, UInt32.add_assoc]

/-- However the stream is cut into chunks, and whenever updates are taken, feeding it runs the
filter over it. -/
theorem Feed.batches_after (base : Feed) (s : State) (css : List (List (List UInt8))) :
    css.foldl Feed.batch (base.after (s, [])) = base.after (walk s css.flatten.flatten) := by
  have h : css.foldl Feed.batch (base.after (s, [])) = base.after _ :=
    Mealy.fold_eq_run (R := fun f t ↦ f = base.after t)
      (fun f s es cs hf ↦ by rw [hf]; exact base.batch_after s es cs) rfl css
  rw [h, List.nil_append, List.flatten_flatten, ← List.flatMap_def]
  rfl

theorem Feed.chunks_after (base : Feed) (s : State) (cs : List (List UInt8)) :
    (base.after (s, [])).chunks cs = base.after (walk s cs.flatten) := by
  have h := Feed.batches_after base s (cs.map fun c ↦ [c])
  rw [List.foldl_map, ← List.flatMap_def, List.flatMap_singleton'] at h
  exact h

end HyperFastPath.Listener
