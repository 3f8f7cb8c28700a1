import HyperFastPath.Lib.Bytes

/-!
# The scanner

`Scanner::scan` of `listener.rs`: it walks a client's byte stream and separates the frames the fast
path puts into it from everything the HTTP/2 codec above is meant to see.
-/

namespace HyperFastPath.Listener

open Bytes

def dtSyncFrameType : UInt8 := 0xFB

def fcSyncFrameType : UInt8 := 0xFA

def fcSyncBodyLen : Nat := 4

/-- `PRI * HTTP/2.0`, an empty line, `SM` and another empty line. -/
def preface : List UInt8 :=
  [0x50, 0x52, 0x49, 0x20, 0x2A, 0x20, 0x48, 0x54, 0x54, 0x50, 0x2F, 0x32, 0x2E, 0x30, 0x0D, 0x0A,
    0x0D, 0x0A, 0x53, 0x4D, 0x0D, 0x0A, 0x0D, 0x0A]

def frameHeaderLen : Nat := 9

def maxSyncFrame : Nat := 64 * 1024

/-- Where the scanner is in the stream it is walking.  A state that collects bytes holds fewer of
them than it waits for, as the last one moves it on. -/
inductive State where
  | preface (matched : Fin 24)
  | header (buf : { l : List UInt8 // l.length < frameHeaderLen })
  | payload (remaining : Nat)
  | sync (block : List UInt8) (remaining : Nat)
  | flow (buf : { l : List UInt8 // l.length < fcSyncBodyLen })
  | blind
  deriving DecidableEq, Repr

/-- `State::header()`. -/
def State.atHeader : State := .header ⟨[], by decide⟩

/-- The scanner along with what its two handles hold: the blocks of the `SyncHandle`, oldest first,
and the count of the `FlowHandle`, an `AtomicU32`. -/
structure Scanner where
  state : State
  out : List UInt8
  hold : List UInt8
  blocks : List (List UInt8)
  sent : UInt32
  deriving DecidableEq, Repr

/-- `Scanner::new` on two fresh handles. -/
def Scanner.new : Scanner :=
  { state := .preface 0, out := [], hold := [], blocks := [], sent := 0 }

def Scanner.isPending (s : Scanner) : Bool := !s.blocks.isEmpty

theorem isPending_iff {s : Scanner} : s.isPending = true ↔ s.blocks ≠ [] := by
  simp [Scanner.isPending]

/-- `SyncHandle::take`, which drains the handle. -/
def Scanner.takeSync (s : Scanner) : List (List UInt8) × Scanner := (s.blocks, { s with blocks := [] })

/-- `FlowHandle::take`. -/
def Scanner.takeFlow (s : Scanner) : UInt32 × Scanner := (s.sent, { s with sent := 0 })

/-- What a complete frame header makes of the state, and whether it is passed on. -/
def State.ofHeader (hdr : List UInt8) : State × List UInt8 :=
  let len := ofBe (hdr.take 3)
  let kind := hdr.getD 3 0
  if kind = fcSyncFrameType then
    -- no length the fast path would have sent, so the framing is given up on
    if len ≠ fcSyncBodyLen then (.blind, []) else (.flow ⟨[], by decide⟩, [])
  else if kind ≠ dtSyncFrameType then (.payload len, hdr)
  else if len > maxSyncFrame then (.blind, [])
  else (.sync [] len, [])

/-- How many turns the loop may take without consuming a byte: a frame without a payload. -/
def State.idle : State → Nat
  | .payload 0 => 1
  | .sync _ 0 => 1
  | _ => 0

theorem State.idle_le_one (s : State) : s.idle ≤ 1 := by
  unfold State.idle
  split <;> decide

/-- A turn that consumes a byte may leave the next one idle. -/
theorem State.turn_lt (state : State) {rest : List UInt8} {n k : Nat} (hne : rest ≠ [])
    (hn : 0 < n) : 2 * (rest.drop n).length + state.idle < 2 * rest.length + k := by
  have hpos := List.length_pos_iff.mpr hne
  have := state.idle_le_one
  rw [List.length_drop]
  omega

/-- The loop of `Scanner::scan`. -/
def Scanner.scanLoop (s : Scanner) (rest : List UInt8) : Scanner :=
  if rest = [] then s
  else
    match _hs : s.state with
    | .blind => { s with out := s.out ++ rest }
    | .preface matched =>
      -- the preface itself is part of what the codec gets to see
      let n := min (preface.length - matched) rest.length
      if rest.take n ≠ (preface.drop matched).take n then
        { s with out := s.out ++ rest, state := .blind }
      else
        let state := if h : matched + n < 24 then .preface ⟨matched + n, h⟩ else .atHeader
        scanLoop { s with out := s.out ++ rest.take n, state := state } (rest.drop n)
    | .header buf =>
      -- a header is only passed on once it is known not to be one of the fast path's
      let n := min (frameHeaderLen - buf.1.length) rest.length
      let hdr := buf.1 ++ rest.take n
      if h : hdr.length < frameHeaderLen then { s with state := .header ⟨hdr, h⟩ }
      else
        let (state, passed) := State.ofHeader hdr
        scanLoop { s with out := s.out ++ passed, state := state } (rest.drop n)
    | .payload remaining =>
      let n := min remaining rest.length
      let state := if remaining - n = 0 then .atHeader else .payload (remaining - n)
      scanLoop { s with out := s.out ++ rest.take n, state := state } (rest.drop n)
    | .flow buf =>
      let n := min (fcSyncBodyLen - buf.1.length) rest.length
      let body := buf.1 ++ rest.take n
      if h : body.length < fcSyncBodyLen then
        scanLoop { s with state := .flow ⟨body, h⟩ } (rest.drop n)
      else
        scanLoop { s with sent := s.sent + UInt32.ofNat (ofBe body), state := .atHeader }
          (rest.drop n)
    | .sync block remaining =>
      let n := min remaining rest.length
      if remaining - n = 0 then
        -- everything behind the update has to wait for it to be applied
        { s with
          blocks := s.blocks ++ [block ++ rest.take n]
          state := .atHeader
          hold := s.hold ++ rest.drop n }
      else
        scanLoop { s with state := .sync (block ++ rest.take n) (remaining - n) } (rest.drop n)
termination_by 2 * rest.length + s.state.idle
decreasing_by
  all_goals have hpos : 0 < rest.length := List.length_pos_iff.mpr ‹_›
  · have := matched.isLt
    exact State.turn_lt _ ‹_› (by simp only [show preface.length = 24 from rfl]; omega)
  · have := buf.2
    exact State.turn_lt _ ‹_› (by omega)
  · cases remaining with
    | zero => simp [_hs, State.atHeader, State.idle]
    | succ r => exact State.turn_lt _ ‹_› (by omega)
  · have := buf.2
    exact State.turn_lt _ ‹_› (by omega)
  · have := buf.2
    exact State.turn_lt _ ‹_› (by omega)
  · exact State.turn_lt _ ‹_› (by omega)

/-- `Scanner::scan`. -/
def Scanner.scan (s : Scanner) (input : List UInt8) : Scanner :=
  if s.isPending then { s with hold := s.hold ++ input } else s.scanLoop input

end HyperFastPath.Listener
