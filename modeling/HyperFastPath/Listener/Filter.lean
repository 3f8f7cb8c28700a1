import Mathlib.Data.UInt
import HyperFastPath.Lib.Mealy
import HyperFastPath.Listener.Scanner

/-!
# The filter

What the scanner is for: a machine that reads the stream byte by byte and says, in stream order,
which bytes pass and which updates and reports are taken out.  `scanLoop_scans` says that one
call of the scanner runs this machine over as much of its input as it does not hold back.
-/

namespace HyperFastPath.Listener

open Bytes

/-- What a stretch of the stream amounts to: a byte that passes, a dynamic table update or a report
of bytes sent out of band. -/
inductive Event where
  | byte (b : UInt8)
  | sync (block : List UInt8)
  | flow (sent : UInt32)
  deriving DecidableEq, Repr

def Event.byte? : Event → Option UInt8
  | .byte b => some b
  | _ => none

def Event.sync? : Event → Option (List UInt8)
  | .sync block => some block
  | _ => none

def Event.flow? : Event → Option UInt32
  | .flow sent => some sent
  | _ => none

def passed (es : List Event) : List UInt8 := es.filterMap Event.byte?

def updates (es : List Event) : List (List UInt8) := es.filterMap Event.sync?

/-- The total of the reports, with the wrap-around of the counter they are added up in. -/
def reported (es : List Event) : UInt32 := (es.filterMap Event.flow?).sum

section Projections

variable (es fs : List Event) (bs : List UInt8)

@[simp] theorem passed_append : passed (es ++ fs) = passed es ++ passed fs := List.filterMap_append

@[simp] theorem updates_append : updates (es ++ fs) = updates es ++ updates fs :=
  List.filterMap_append

@[simp] theorem reported_append : reported (es ++ fs) = reported es + reported fs := by
  simp [reported]

@[simp] theorem passed_bytes : passed (bs.map .byte) = bs := by
  induction bs with
  | nil => rfl
  | cons b bs ih => simpa [passed, Event.byte?] using ih

@[simp] theorem updates_bytes : updates (bs.map .byte) = [] := by
  induction bs with
  | nil => rfl
  | cons b bs ih => exact ih

@[simp] theorem reported_bytes : reported (bs.map .byte) = 0 := by
  induction bs with
  | nil => rfl
  | cons b bs ih => exact ih

@[simp] theorem passed_nil : passed [] = [] := rfl
@[simp] theorem updates_nil : updates [] = [] := rfl
@[simp] theorem reported_nil : reported [] = 0 := rfl
@[simp] theorem passed_sync (b : List UInt8) : passed [.sync b] = [] := rfl
@[simp] theorem updates_sync (b : List UInt8) : updates [.sync b] = [b] := rfl
@[simp] theorem reported_sync (b : List UInt8) : reported [.sync b] = 0 := rfl
@[simp] theorem passed_flow (n : UInt32) : passed [.flow n] = [] := rfl
@[simp] theorem updates_flow (n : UInt32) : updates [.flow n] = [] := rfl
@[simp] theorem reported_flow (n : UInt32) : reported [.flow n] = n := by simp [reported, Event.flow?]

end Projections

/-! ## 1. One byte at a time -/

/-- A frame without a payload ends once there is a byte behind it. -/
def State.settle : State → State × List Event
  | .payload 0 => (.atHeader, [])
  | .sync block 0 => (.atHeader, [.sync block])
  | s => (s, [])

def State.consume (s : State) (b : UInt8) : State × List Event :=
  match s with
  | .blind => (.blind, [.byte b])
  | .preface matched =>
    if b = Listener.preface.getD matched 0 then
      (if h : (matched : Nat) + 1 < 24 then .preface ⟨matched + 1, h⟩ else .atHeader, [.byte b])
    else (.blind, [.byte b])
  | .header buf =>
    -- the byte that completes a header decides where it leads
    if h : (buf.1 ++ [b]).length < frameHeaderLen then (.header ⟨buf.1 ++ [b], h⟩, [])
    else
      ((State.ofHeader (buf.1 ++ [b])).1, (State.ofHeader (buf.1 ++ [b])).2.map .byte)
  | .payload remaining =>
    (if remaining - 1 = 0 then .atHeader else .payload (remaining - 1), [.byte b])
  | .flow buf =>
    if h : (buf.1 ++ [b]).length < fcSyncBodyLen then (.flow ⟨buf.1 ++ [b], h⟩, [])
    else (.atHeader, [.flow (UInt32.ofNat (ofBe (buf.1 ++ [b])))])
  | .sync block remaining =>
    if remaining - 1 = 0 then (.atHeader, [.sync (block ++ [b])])
    else (.sync (block ++ [b]) (remaining - 1), [])

def State.advance (s : State) (b : UInt8) : State × List Event :=
  ((s.settle.1.consume b).1, s.settle.2 ++ (s.settle.1.consume b).2)

def walk (s : State) (bs : List UInt8) : State × List Event := Mealy.run State.advance s bs

@[simp] theorem walk_nil (s : State) : walk s [] = (s, []) := rfl

theorem walk_append (s : State) (as bs : List UInt8) :
    walk s (as ++ bs) =
      ((walk (walk s as).1 bs).1, (walk s as).2 ++ (walk (walk s as).1 bs).2) :=
  Mealy.run_append State.advance s as bs

theorem walk_cons (s : State) (b : UInt8) (bs : List UInt8) :
    walk s (b :: bs) =
      ((walk (s.advance b).1 bs).1, (s.advance b).2 ++ (walk (s.advance b).1 bs).2) := rfl

@[simp] theorem settle_settle (s : State) : s.settle.1.settle = (s.settle.1, []) := by
  cases s with
  | payload r => cases r <;> rfl
  | sync block r => cases r <;> rfl
  | _ => rfl

/-- Settling first changes nothing as long as there is a byte to come. -/
theorem walk_settle (s : State) {bs : List UInt8} (hne : bs ≠ []) :
    walk s bs = ((walk s.settle.1 bs).1, s.settle.2 ++ (walk s.settle.1 bs).2) := by
  cases bs with
  | nil => exact absurd rfl hne
  | cons b bs => simp [walk_cons, State.advance]

/-- What a stretch has come to once a frame without a payload at its end counts as over. -/
def settled (t : State × List Event) : State × List Event := (t.1.settle.1, t.2 ++ t.1.settle.2)

/-- The stretch `bs` leads from one state to another and amounts to `es`, up to settling. -/
def Leads (s : State) (bs : List UInt8) (s' : State) (es : List Event) : Prop :=
  settled (s', es) = settled (walk s bs)

theorem settled_walk_append (s : State) (bs cs : List UInt8) :
    settled (walk s (bs ++ cs)) =
      ((settled (walk (settled (walk s bs)).1 cs)).1,
        (settled (walk s bs)).2 ++ (settled (walk (settled (walk s bs)).1 cs)).2) := by
  by_cases hcs : cs = []
  · simp [settled, hcs]
  · have hstep := walk_settle (walk s bs).1 hcs
    simp only [settled, walk_append]
    rw [hstep]
    simp only [List.append_assoc]

theorem Leads.of_walk {s s' : State} {bs : List UInt8} {es : List Event}
    (h : walk s bs = (s', es)) : Leads s bs s' es := by
  rw [Leads, h]

theorem Leads.of_settle (s : State) : Leads s [] s.settle.1 s.settle.2 := by
  simp [Leads, settled]

theorem Leads.trans {s s₁ s' : State} {bs cs : List UInt8} {es₁ es : List Event}
    (h₁ : Leads s bs s₁ es₁) (h : Leads s₁ cs s' es) : Leads s (bs ++ cs) s' (es₁ ++ es) := by
  have hfirst := settled_walk_append s₁ [] cs
  simp only [List.nil_append, walk_nil] at hfirst
  rw [Leads, hfirst] at h
  rw [Leads, settled_walk_append, ← h₁]
  have hstate := congrArg Prod.fst h
  have hevents := congrArg Prod.snd h
  simp only [settled, List.nil_append] at hstate hevents ⊢
  rw [hstate, List.append_assoc, hevents, List.append_assoc]

/-! ## 2. Several bytes at a time -/

theorem walk_blind (bs : List UInt8) : walk .blind bs = (.blind, bs.map .byte) := by
  induction bs with
  | nil => rfl
  | cons b bs ih => simp [walk_cons, State.advance, State.settle, State.consume, ih]

theorem walk_payload {r : Nat} {bs : List UInt8} (hne : bs ≠ []) (hle : bs.length ≤ r) :
    walk (.payload r) bs =
      (if r - bs.length = 0 then .atHeader else .payload (r - bs.length), bs.map .byte) := by
  induction bs generalizing r with
  | nil => exact absurd rfl hne
  | cons b bs ih =>
    simp only [List.length_cons] at hle ⊢
    obtain ⟨r, rfl⟩ : ∃ k, r = k + 1 := ⟨r - 1, by omega⟩
    have hadv : (State.payload (r + 1)).advance b =
        (if r = 0 then .atHeader else .payload r, [.byte b]) := rfl
    -- only the last byte of the payload leads back to a header
    by_cases hbs : bs = []
    · subst hbs
      simp [walk_cons, hadv]
    · have hpos := List.length_pos_iff.mpr hbs
      rw [walk_cons, hadv, if_neg (by omega), ih hbs (by omega)]
      simp [Nat.add_sub_add_right]

theorem walk_sync {block : List UInt8} {r : Nat} {bs : List UInt8} (hle : bs.length < r) :
    walk (.sync block r) bs = (.sync (block ++ bs) (r - bs.length), []) := by
  induction bs generalizing block r with
  | nil => simp
  | cons b bs ih =>
    simp only [List.length_cons] at hle ⊢
    obtain ⟨r, rfl⟩ : ∃ k, r = k + 1 := ⟨r - 1, by omega⟩
    have hadv : (State.sync block (r + 1)).advance b = (.sync (block ++ [b]) r, []) := by
      simp only [State.advance, State.settle, State.consume, Nat.add_sub_cancel]
      rw [if_neg (by omega)]
      rfl
    rw [walk_cons, hadv, ih (by omega)]
    simp [Nat.add_sub_add_right]

theorem walk_sync_full {block bs : List UInt8} (hne : bs ≠ []) :
    walk (.sync block bs.length) bs = (.atHeader, [.sync (block ++ bs)]) := by
  obtain ⟨init, b, rfl⟩ := List.eq_nil_or_concat' bs |>.resolve_left hne
  rw [walk_append, walk_sync (by simp)]
  simp [walk_cons, State.advance, State.settle, State.consume]

theorem walk_header {buf : { l : List UInt8 // l.length < frameHeaderLen }} {bs : List UInt8}
    (h : (buf.1 ++ bs).length < frameHeaderLen) :
    walk (.header buf) bs = (.header ⟨buf.1 ++ bs, h⟩, []) := by
  induction bs generalizing buf with
  | nil => simp
  | cons b bs ih =>
    have hb : (buf.1 ++ [b]).length < frameHeaderLen := by
      simp only [List.length_append, List.length_cons, List.length_nil] at h ⊢
      omega
    have hadv : (State.header buf).advance b = (.header ⟨buf.1 ++ [b], hb⟩, []) := by
      simp only [State.advance, State.settle, State.consume, dif_pos hb, List.nil_append]
    rw [walk_cons, hadv, ih (by simpa using h)]
    simp

theorem walk_header_full {buf : { l : List UInt8 // l.length < frameHeaderLen }}
    {bs : List UInt8} (h : (buf.1 ++ bs).length = frameHeaderLen) :
    walk (.header buf) bs =
      ((State.ofHeader (buf.1 ++ bs)).1, (State.ofHeader (buf.1 ++ bs)).2.map .byte) := by
  have hne : bs ≠ [] := by
    rintro rfl
    have := buf.2
    simp at h
    omega
  obtain ⟨init, b, rfl⟩ := List.eq_nil_or_concat' bs |>.resolve_left hne
  have hi : (buf.1 ++ init).length < frameHeaderLen := by
    simp only [List.length_append, List.length_cons, List.length_nil] at h ⊢
    omega
  rw [walk_append, walk_header hi]
  simp only [walk_cons, walk_nil, State.advance, State.settle, State.consume, List.nil_append,
    List.append_nil]
  rw [dif_neg (by simp only [List.append_assoc]; omega)]
  simp

theorem walk_flow {buf : { l : List UInt8 // l.length < fcSyncBodyLen }} {bs : List UInt8}
    (h : (buf.1 ++ bs).length < fcSyncBodyLen) :
    walk (.flow buf) bs = (.flow ⟨buf.1 ++ bs, h⟩, []) := by
  induction bs generalizing buf with
  | nil => simp
  | cons b bs ih =>
    have hb : (buf.1 ++ [b]).length < fcSyncBodyLen := by
      simp only [List.length_append, List.length_cons, List.length_nil] at h ⊢
      omega
    have hadv : (State.flow buf).advance b = (.flow ⟨buf.1 ++ [b], hb⟩, []) := by
      simp only [State.advance, State.settle, State.consume, dif_pos hb, List.nil_append]
    rw [walk_cons, hadv, ih (by simpa using h)]
    simp

theorem walk_flow_full {buf : { l : List UInt8 // l.length < fcSyncBodyLen }}
    {bs : List UInt8} (h : (buf.1 ++ bs).length = fcSyncBodyLen) :
    walk (.flow buf) bs = (.atHeader, [.flow (UInt32.ofNat (ofBe (buf.1 ++ bs)))]) := by
  have hne : bs ≠ [] := by
    rintro rfl
    have := buf.2
    simp at h
    omega
  obtain ⟨init, b, rfl⟩ := List.eq_nil_or_concat' bs |>.resolve_left hne
  have hi : (buf.1 ++ init).length < fcSyncBodyLen := by
    simp only [List.length_append, List.length_cons, List.length_nil] at h ⊢
    omega
  rw [walk_append, walk_flow hi]
  simp only [walk_cons, walk_nil, State.advance, State.settle, State.consume, List.nil_append,
    List.append_nil]
  rw [dif_neg (by simp only [List.append_assoc]; omega)]
  simp

private theorem preface_getD (m : Fin 24) : preface.getD m 0 = preface[m] := by
  rw [List.getD_eq_getElem?_getD, List.getElem?_eq_getElem (l := preface) m.isLt]
  rfl

theorem walk_preface {m : Fin 24} {bs : List UInt8}
    (h : bs = (preface.drop m).take bs.length) :
    walk (.preface m) bs =
      (if h : m + bs.length < 24 then .preface ⟨m + bs.length, h⟩ else .atHeader,
        bs.map .byte) := by
  induction bs generalizing m with
  | nil => simp
  | cons b bs ih =>
    have hm : (m : Nat) < preface.length := m.isLt
    rw [List.drop_eq_getElem_cons hm, List.length_cons, List.take_succ_cons, List.cons.injEq] at h
    have hadv : (State.preface m).advance b =
        (if h : (m : Nat) + 1 < 24 then .preface ⟨m + 1, h⟩ else .atHeader, [.byte b]) := by
      simp only [State.advance, State.settle, State.consume, preface_getD, Fin.getElem_fin,
        if_pos h.1, List.nil_append]
    rw [walk_cons, hadv]
    by_cases hlast : (m : Nat) + 1 < 24
    · rw [dif_pos hlast, ih h.2]
      simp only [List.map_cons, List.length_cons, List.singleton_append, Nat.add_assoc,
        Nat.add_comm 1]
    · have hbs : bs = [] := by
        rw [h.2, List.drop_of_length_le (by simp only [show preface.length = 24 from rfl]; omega),
          List.take_nil]
      subst hbs
      simp [hlast]

/-- A stream that diverges from the preface passes as a whole. -/
theorem walk_preface_diverges {m : Fin 24} {bs : List UInt8}
    (h : bs.take (min (preface.length - m) bs.length) ≠
      (preface.drop m).take (min (preface.length - m) bs.length)) :
    walk (.preface m) bs = (.blind, bs.map .byte) := by
  induction bs generalizing m with
  | nil => simp at h
  | cons b bs ih =>
    have hm : (m : Nat) < preface.length := m.isLt
    -- a byte that matches leaves the divergence to the bytes behind it
    by_cases hb : b = preface.getD m 0
    · have hget : preface[(m : Nat)] = b := by rw [hb, preface_getD]; rfl
      obtain ⟨k, hk⟩ : ∃ k, min (preface.length - m) (bs.length + 1) = k + 1 :=
        ⟨min (preface.length - m) (bs.length + 1) - 1, by omega⟩
      rw [List.length_cons, hk, List.drop_eq_getElem_cons hm, hget, List.take_succ_cons,
        List.take_succ_cons, ne_eq, List.cons.injEq, not_and] at h
      have hlast : (m : Nat) + 1 < 24 := by
        -- past the last byte there is nothing left to diverge from
        by_contra hge
        have hk0 : k = 0 := by
          rw [show preface.length = 24 from rfl] at hk
          omega
        subst hk0
        simp at h
      have hmin : min (preface.length - (m + 1)) bs.length = k := by omega
      have hadv : (State.preface m).advance b = (.preface ⟨m + 1, hlast⟩, [.byte b]) := by
        simp only [State.advance, State.settle, State.consume, if_pos hb, dif_pos hlast,
          List.nil_append]
      rw [walk_cons, hadv, ih (m := ⟨m + 1, hlast⟩) (by simpa only [hmin] using h rfl)]
      rfl
    · have hadv : (State.preface m).advance b = (.blind, [.byte b]) := by
        simp only [State.advance, State.settle, State.consume, if_neg hb, List.nil_append]
      rw [walk_cons, hadv, walk_blind]
      rfl

/-! ## 3. The scanner runs the filter -/

/-- What a scan that starts with nothing held back does: it runs the filter over its input, up to
and with the first update, and holds back the rest. -/
structure Scans (s : Scanner) (input : List UInt8) (s' : Scanner) (es : List Event) : Prop where
  run : walk s.state input =
    ((walk s'.state s'.hold).1, es ++ (walk s'.state s'.hold).2)
  out : s'.out = s.out ++ passed es
  blocks : s'.blocks = s.blocks ++ updates es
  sent : s'.sent = s.sent + reported es
  stop : (updates es = [] ∧ s'.hold = []) ∨
    ∃ es' block, es = es' ++ [.sync block] ∧ updates es' = [] ∧ s'.state = .atHeader

/-- A turn of the loop, and the scan that goes on from there. -/
theorem Scans.turn {s s₁ s' : Scanner} {input rest : List UInt8} {es₁ es : List Event}
    (h : Scans s₁ rest s' es)
    (hwalk : walk s.state input = ((walk s₁.state rest).1, es₁ ++ (walk s₁.state rest).2))
    (hout : s₁.out = s.out ++ passed es₁) (hblocks : s₁.blocks = s.blocks)
    (hsent : s₁.sent = s.sent + reported es₁) (hup : updates es₁ = []) :
    Scans s input s' (es₁ ++ es) := by
  refine ⟨?_, ?_, ?_, ?_, ?_⟩
  · rw [hwalk, h.run, List.append_assoc]
  · rw [h.out, hout, passed_append, List.append_assoc]
  · rw [h.blocks, hblocks, updates_append, hup, List.nil_append]
  · rw [h.sent, hsent, reported_append, UInt32.add_assoc]
  · rcases h.stop with ⟨hu, hh⟩ | ⟨es', block, rfl, hu, hs⟩
    · exact .inl ⟨by rw [updates_append, hup, hu, List.nil_append], hh⟩
    · exact .inr ⟨es₁ ++ es', block, by rw [List.append_assoc],
        by rw [updates_append, hup, hu, List.nil_append], hs⟩

/-- A turn of the loop takes what is ahead of `rest`, or does no more than settle the state. -/
structure Turn (s : State) (input : List UInt8) (s₁ : State) (rest : List UInt8)
    (es₁ : List Event) : Prop where
  run : walk s input = ((walk s₁ rest).1, es₁ ++ (walk s₁ rest).2)
  used : ∃ bs, input = bs ++ rest ∧ Leads s bs s₁ es₁

theorem Turn.take {s s₁ : State} {rest : List UInt8} {n : Nat} {es : List Event}
    (h : walk s (rest.take n) = (s₁, es)) : Turn s rest s₁ (rest.drop n) es where
  run := by
    conv_lhs => rw [← List.take_append_drop n rest, walk_append, h]
  used := ⟨rest.take n, (List.take_append_drop n rest).symm, .of_walk h⟩

theorem Turn.settle (s : State) {rest : List UInt8} (hne : rest ≠ []) :
    Turn s rest s.settle.1 rest s.settle.2 where
  run := walk_settle s hne
  used := ⟨[], rfl, .of_settle s⟩

/-- A scan along with how much of its input it takes. -/
structure Stops (s : Scanner) (input : List UInt8) (s' : Scanner) (es : List Event) : Prop extends
    Scans s input s' es where
  used : ∃ used, input = used ++ s'.hold ∧ Leads s.state used s'.state es

theorem Stops.turn {s s₁ s' : Scanner} {input rest : List UInt8} {es₁ es : List Event}
    (h : Stops s₁ rest s' es) (hturn : Turn s.state input s₁.state rest es₁)
    (hout : s₁.out = s.out ++ passed es₁) (hblocks : s₁.blocks = s.blocks)
    (hsent : s₁.sent = s.sent + reported es₁) (hup : updates es₁ = []) :
    Stops s input s' (es₁ ++ es) where
  toScans := h.toScans.turn hturn.run hout hblocks hsent hup
  used := by
    obtain ⟨bs, hinput, hleads⟩ := hturn.used
    obtain ⟨used, hrest, hleads'⟩ := h.used
    exact ⟨bs ++ used, by rw [hinput, hrest, List.append_assoc], hleads.trans hleads'⟩

/-- A turn that passes on bytes and does nothing else. -/
theorem Stops.turn_bytes {s s₁ s' : Scanner} {input rest bs : List UInt8} {es : List Event}
    (h : Stops s₁ rest s' es) (hturn : Turn s.state input s₁.state rest (bs.map .byte))
    (hout : s₁.out = s.out ++ bs) (hblocks : s₁.blocks = s.blocks) (hsent : s₁.sent = s.sent) :
    Stops s input s' (bs.map .byte ++ es) :=
  h.turn hturn (by rw [passed_bytes, hout]) hblocks
    (by rw [reported_bytes, hsent, UInt32.add_zero]) (updates_bytes bs)

/-- The loop ends here, with nothing held back and no update. -/
theorem Stops.all {s s' : Scanner} {input : List UInt8} {es : List Event}
    (hwalk : walk s.state input = (s'.state, es)) (hout : s'.out = s.out ++ passed es)
    (hblocks : s'.blocks = s.blocks) (hsent : s'.sent = s.sent + reported es)
    (hup : updates es = []) (hh : s'.hold = []) : Stops s input s' es where
  run := by rw [hwalk, hh, walk_nil, List.append_nil]
  out := hout
  blocks := by rw [hblocks, hup, List.append_nil]
  sent := hsent
  stop := .inl ⟨hup, hh⟩
  used := ⟨input, by rw [hh, List.append_nil], .of_walk hwalk⟩

theorem scanLoop_stops (s : Scanner) (rest : List UInt8) (hh : s.hold = []) :
    ∃ es, Stops s rest (s.scanLoop rest) es := by
  fun_induction Scanner.scanLoop s rest with
  | case1 s => exact ⟨[], .all rfl (by simp) rfl (by simp) rfl hh⟩
  | case2 s rest hne hs =>
    exact ⟨rest.map .byte, .all (by rw [hs, walk_blind]) (by simp) rfl (by simp) (by simp) hh⟩
  | case3 s rest hne m hs n hdiv =>
    exact ⟨rest.map .byte, .all (by rw [hs, walk_preface_diverges hdiv]) (by simp) rfl (by simp)
      (by simp) hh⟩
  -- every turn that goes on runs the filter over the bytes it takes, and `ih` over the others
  | case4 s rest hne m hs n heq state ih =>
    obtain ⟨es, h⟩ := ih hh
    have hlen : (rest.take n).length = n := by
      simp only [List.length_take, n]
      omega
    have hwalk := @walk_preface m (rest.take n) (by rw [hlen]; exact not_not.mp heq)
    simp only [hlen] at hwalk
    exact ⟨_, h.turn_bytes (.take (by rw [hs, hwalk])) rfl rfl rfl⟩
  | case5 s rest hne buf hs n hdr hlt =>
    have hall : rest.take n = rest := by
      apply List.take_of_length_le
      simp only [hdr, List.length_append, List.length_take, n] at hlt ⊢
      omega
    have hwalk : walk s.state rest = (.header ⟨hdr, hlt⟩, []) := by
      rw [hs, ← walk_header hlt, hall]
    exact ⟨[], .all hwalk (by simp) rfl (by simp) rfl hh⟩
  | case6 s rest hne buf hs n hdr hge state passed hof ih =>
    obtain ⟨es, h⟩ := ih hh
    have hfull : (buf.1 ++ rest.take n).length = frameHeaderLen := by
      have := buf.2
      simp only [hdr, List.length_append, List.length_take, n] at hge ⊢
      omega
    have hwalk := walk_header_full hfull
    rw [show buf.1 ++ rest.take n = hdr from rfl, hof] at hwalk
    exact ⟨_, h.turn_bytes (.take (by rw [hs, hwalk])) rfl rfl rfl⟩
  | case7 s rest hne remaining hs n state ih =>
    obtain ⟨es, h⟩ := ih hh
    -- without a payload the turn takes no byte, and settles the state
    by_cases hzero : remaining = 0
    · subst hzero
      have hn : n = 0 := by simp [n]
      have hturn := Turn.settle s.state hne
      rw [hs] at hturn
      refine ⟨[] ++ es, h.turn ?_ (by simp [hn]) rfl (by simp) rfl⟩
      rw [hs]
      simp only [hn, List.drop_zero, state]
      exact hturn
    · have hpos := List.length_pos_iff.mpr hne
      have hlen : (rest.take n).length = n := by
        simp only [List.length_take, n]
        omega
      have hwalk := @walk_payload remaining (rest.take n)
        (List.ne_nil_of_length_pos (by rw [hlen]; omega)) (by rw [hlen]; omega)
      rw [hlen] at hwalk
      exact ⟨_, h.turn_bytes (.take (by rw [hs, hwalk]; rfl)) rfl rfl rfl⟩
  | case8 s rest hne buf hs n body hlt ih =>
    obtain ⟨es, h⟩ := ih hh
    exact ⟨[] ++ es, h.turn (.take (by rw [hs, walk_flow hlt])) (by simp) rfl (by simp) rfl⟩
  | case9 s rest hne buf hs n body hge ih =>
    obtain ⟨es, h⟩ := ih hh
    have hfull : (buf.1 ++ rest.take n).length = fcSyncBodyLen := by
      have := buf.2
      simp only [body, List.length_append, List.length_take, n] at hge ⊢
      omega
    exact ⟨_, h.turn (.take (by rw [hs, walk_flow_full hfull])) (by simp) rfl
      (by simp [body]) (by simp)⟩
  | case10 s rest hne block remaining hs n hzero =>
    -- an update: the scan stops here and the rest is held back
    have hturn : Turn s.state rest .atHeader (rest.drop n) [.sync (block ++ rest.take n)] := by
      by_cases hr : remaining = 0
      · subst hr
        have hsettle := Turn.settle s.state hne
        have hn : n = 0 := by simp [n]
        rw [hs] at hsettle ⊢
        simp only [hn, List.take_zero, List.drop_zero, List.append_nil]
        exact hsettle
      · have hpos := List.length_pos_iff.mpr hne
        have hlen : (rest.take n).length = remaining := by
          simp only [List.length_take, n] at hzero ⊢
          omega
        have hwalk := @walk_sync_full block (rest.take n)
          (List.ne_nil_of_length_pos (by omega))
        rw [hlen] at hwalk
        exact .take (by rw [hs, hwalk])
    refine ⟨[.sync (block ++ rest.take n)], ⟨⟨?_, by simp, by simp, by simp,
      .inr ⟨[], _, rfl, rfl, rfl⟩⟩, ?_⟩⟩
    · simpa only [hh, List.nil_append] using hturn.run
    · simpa only [hh, List.nil_append] using hturn.used
  | case11 s rest hne block remaining hs n hnz ih =>
    obtain ⟨es, h⟩ := ih hh
    have hlen : (rest.take n).length = n := by
      simp only [List.length_take, n]
      omega
    have hwalk := @walk_sync block remaining (rest.take n) (by omega)
    rw [hlen] at hwalk
    exact ⟨[] ++ es, h.turn (.take (by rw [hs, hwalk])) (by simp) rfl (by simp) rfl⟩

theorem scanLoop_scans (s : Scanner) (rest : List UInt8) (hh : s.hold = []) :
    ∃ es, Scans s rest (s.scanLoop rest) es := by
  obtain ⟨es, h⟩ := scanLoop_stops s rest hh
  exact ⟨es, h.toScans⟩

end HyperFastPath.Listener
