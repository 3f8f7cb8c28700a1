import HyperFastPath.Lib.Runs
import HyperFastPath.Listener.Chunks

/-!
# The stream the codec reads from

`BeeperStream` of `listener.rs` over a socket whose reads are given, and the reader above it: it
polls for bytes and takes updates off the handle in any order.
-/

namespace HyperFastPath.Listener

def readChunk : Nat := 16 * 1024

/-- What one read of the socket comes to.  Data is never empty, as a read of nothing is the end of
the stream. -/
inductive SocketRead where
  | data (chunk : { l : List UInt8 // l ≠ [] ∧ l.length ≤ readChunk })
  | pending
  | failed
  deriving DecidableEq

/-- The bytes a socket has to give. -/
def streamOf (reads : List SocketRead) : List UInt8 :=
  reads.flatMap fun
    | .data chunk => chunk.1
    | _ => []

inductive Protocol where
  | http1
  | http2
  deriving DecidableEq, Repr

/-- `inner` lists the reads that are still to come, after which the socket is at its end. -/
structure BeeperStream where
  inner : List SocketRead
  scanner : Scanner
  deriving DecidableEq

def BeeperStream.new (reads : List SocketRead) : BeeperStream := ⟨reads, .new⟩

/-- The protocol a state of the scanner stands for, once there is one. -/
def State.protocol? : State → Option Protocol
  | .preface _ => none
  | .blind => some .http1
  | _ => some .http2

/-- The loop of `BeeperStream::protocol`.  A read that is pending is awaited. -/
def protocolLoop (scanner : Scanner) : List SocketRead → Option Protocol × BeeperStream
  | [] => (some (scanner.state.protocol?.getD .http1), ⟨[], scanner⟩)
  | read :: inner =>
    match scanner.state.protocol? with
    | some p => (some p, ⟨read :: inner, scanner⟩)
    | none =>
      match read with
      | .data chunk => protocolLoop (scanner.scan chunk) inner
      | .pending => protocolLoop scanner inner
      | .failed => (none, ⟨inner, scanner⟩)

/-- `BeeperStream::protocol`; nothing when a read fails. -/
def BeeperStream.protocol (s : BeeperStream) : Option Protocol × BeeperStream :=
  protocolLoop s.scanner s.inner

inductive Poll where
  | ready
  | pending
  | failed
  deriving DecidableEq, Repr

/-- A scan of what may be scanned comes with the filter's run over it. -/
theorem scan_scans {s : Scanner} (hp : s.isPending = false) (hh : s.hold = [])
    (input : List UInt8) : ∃ es, Scans s input (s.scan input) es := by
  rw [Scanner.scan, hp]
  exact scanLoop_scans s input hh

/-- How many turns `poll_read` may take without reading from the socket. -/
def Scanner.turns (s : Scanner) : Nat := if s.isPending then 0 else s.hold.length + 1

theorem scan_turns_le {s : Scanner} (hp : s.isPending = false) (hh : s.hold = [])
    (input : List UInt8) : (s.scan input).turns ≤ 1 := by
  obtain ⟨es, h⟩ := scan_scans hp hh input
  unfold Scanner.turns
  split
  · exact Nat.zero_le 1
  · rename_i hnp
    rw [h.hold_eq_nil (by simpa [Scanner.isPending] using hnp), List.length_nil]

/-- `BeeperStream::poll_read` into a buffer with room for `cap` bytes, along with the bytes it puts
there. -/
def BeeperStream.pollRead (s : BeeperStream) (cap : Nat) : Poll × List UInt8 × BeeperStream :=
  -- what was scanned ahead of an update is not held up by it
  if s.scanner.out ≠ [] then
    (.ready, s.scanner.out.take cap,
      { s with scanner := { s.scanner with out := s.scanner.out.drop cap } })
  else if s.scanner.isPending then (.pending, [], s)
  else if s.scanner.hold ≠ [] then
    pollRead { s with scanner := { s.scanner with hold := [] }.scan s.scanner.hold } cap
  else
    -- only now is the socket read: nothing may be scanned ahead of what is held back
    match _hi : s.inner with
    | [] => (.ready, [], s)
    | .pending :: inner => (.pending, [], { s with inner })
    | .failed :: inner => (.failed, [], { s with inner })
    -- a chunk that puts nothing out is not the end of the stream
    | .data chunk :: inner => pollRead { inner, scanner := s.scanner.scan chunk } cap
termination_by s.inner.length + s.scanner.turns
decreasing_by
  · rename_i _ hp hh
    have hle := scan_turns_le (s := { s.scanner with hold := [] }) (eq_false_of_ne_true hp) rfl
      s.scanner.hold
    have hpos := List.length_pos_iff.mpr hh
    have hturns : s.scanner.turns = s.scanner.hold.length + 1 := if_neg hp
    simp only at hle ⊢
    omega
  · rename_i hp hh
    have hle := scan_turns_le (eq_false_of_ne_true hp) (not_not.mp hh) chunk.1
    have hturns : s.scanner.turns = s.scanner.hold.length + 1 := if_neg hp
    simp only [_hi, List.length_cons] at hle ⊢
    omega

end HyperFastPath.Listener
