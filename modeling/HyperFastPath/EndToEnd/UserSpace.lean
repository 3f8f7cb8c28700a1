import HyperFastPath.EndToEnd.RoundTrip
import HyperFastPath.FastPath.Alignment
import HyperFastPath.Lib.HeaderBlocks

/-!
# The two ends of a connection

The client, which encodes every header block it sends against its own dynamic table, and the codec in
user space, which sees what is left of its stream.
-/

namespace HyperFastPath.EndToEnd

open Bytes Http2 FastPath Listener Segments

def ofField (f : Hpack.Field) : FastPath.HeaderField :=
  ⟨f.name.octets, f.name.huffman, f.value.octets, f.value.huffman⟩

@[simp] theorem toField_ofField (f : Hpack.Field) : toField (ofField f) = f := rfl

/-- HPACK as far as it is not spelled out by `Lib.Hpack`: the decoded length of a string, the static
table, and the capacity a connection starts out with. -/
structure Decoder where
  len : Hpack.Str → Nat
  static : Nat → Option Hpack.Field
  capacity : Nat

/-- A frame, what it was encoded or is decoded against, and whether it goes to user space. -/
structure Entry where
  forwarded : Bool
  frame : List UInt8
  context : Context
  deriving DecidableEq, Repr

def Entry.carriesBlock (e : Entry) : Bool := Http2.carriesBlock e.frame

/-- One end of the connection: what the next frame is encoded or decoded against, what there is of
that frame, and the frames so far. -/
structure Codec where
  context : Context
  rest : List UInt8
  entries : List Entry
  deriving DecidableEq, Repr

/-- The mirrored form of the entries of its table. -/
def Codec.table (c : Codec) : List FastPath.HeaderField := c.context.table.entries.map ofField

section

variable (dec : Decoder)

def Codec.new : Codec := ⟨.new dec.capacity, [], []⟩

def Codec.frame (forwarded : Bool) (c : Codec) (frame : List UInt8) : Codec where
  context := c.context.frame dec.len dec.static frame
  rest := []
  entries := c.entries ++ [⟨forwarded, frame, c.context⟩]

/-- What `prime_dynamic_table` does. -/
def Codec.prime (c : Codec) (block : List UInt8) : Codec :=
  { c with context := c.context.replay dec.len dec.static block }

def Codec.frames (forwarded : Bool) (c : Codec) (fs : List Frame) : Codec :=
  fs.foldl (fun c f ↦ c.frame dec forwarded f.encode) c

/-- A byte, which may be the last one of a frame. -/
def Codec.byte (forwarded : Bool) (c : Codec) (b : UInt8) : Codec :=
  if (frameLen (c.rest ++ [b])).isSome then c.frame dec forwarded (c.rest ++ [b])
  else { c with rest := c.rest ++ [b] }

/-- What comes out of the scanner. -/
def Codec.event (c : Codec) : Event → Codec
  | .byte b => c.byte dec true b
  | .sync block => c.prime dec block
  | .flow _ => c

/-- The codec in user space, after the bytes it was handed. -/
def userSpace (bytes : List UInt8) : Codec :=
  (walk .atHeader bytes).2.foldl (Codec.event dec) (.new dec)

/-- The client, after the frames that have been dealt with. -/
def client (log : List Disposal) : Codec :=
  log.foldl (fun c d ↦ d.bytes.foldl (Codec.byte dec d.forwarded) c) (.new dec)

end

variable {dec : Decoder} {fwd : Bool} {c : Codec}

/-! ## 1. Frame by frame -/

theorem byte_part {f : Frame} {part rest : List UInt8} (h : f.encode = part ++ rest)
    (hne : rest ≠ []) (hc : c.rest = []) :
    part.foldl (Codec.byte dec fwd) c = { c with rest := part } := by
  induction part using List.reverseRecOn generalizing rest with
  | nil =>
    cases c
    simpa using hc
  | append_singleton part b ih =>
    rw [List.foldl_append, ih (by rw [h, List.append_assoc]) (by simp)]
    simp only [List.foldl_cons, List.foldl_nil, Codec.byte]
    rw [frameLen_part h hne]
    simp

theorem byte_encode (f : Frame) (hc : c.rest = []) :
    f.encode.foldl (Codec.byte dec fwd) c = c.frame dec fwd f.encode := by
  obtain ⟨part, b, h⟩ : ∃ part b, f.encode = part ++ [b] :=
    ⟨_, _, (List.dropLast_append_getLast (encode_ne_nil f)).symm⟩
  have hwhole : frameLen (part ++ [b]) = some f.encode.length := by
    rw [← h]
    simpa using frameLen_encode f []
  rw [h, List.foldl_append, byte_part h (by simp) hc]
  simp only [List.foldl_cons, List.foldl_nil, Codec.byte, hwhole, Option.isSome_some, if_true]
  rfl

@[simp] theorem frames_nil (c : Codec) : c.frames dec fwd [] = c := rfl

@[simp] theorem frames_cons (c : Codec) (f : Frame) (fs : List Frame) :
    c.frames dec fwd (f :: fs) = (c.frame dec fwd f.encode).frames dec fwd fs := rfl

theorem frames_answered (fs : List Frame) (c : Codec) :
    (c.frames dec false fs).entries.filter (·.forwarded) = c.entries.filter (·.forwarded) := by
  induction fs generalizing c with
  | nil => rfl
  | cons f fs ih =>
    rw [frames_cons, ih]
    simp [Codec.frame]

theorem byte_encodeAll (fs : List Frame) (hc : c.rest = []) :
    (encodeAll fs).foldl (Codec.byte dec fwd) c = c.frames dec fwd fs := by
  induction fs generalizing c with
  | nil => rfl
  | cons f fs ih => rw [encodeAll_cons, List.foldl_append, byte_encode f hc, frames_cons, ih rfl]

theorem event_encodeAll (fs : List Frame) (hc : c.rest = []) :
    ((encodeAll fs).map .byte).foldl (Codec.event dec) c = c.frames dec true fs := by
  rw [List.foldl_map, ← byte_encodeAll fs hc]
  rfl

/-! ## 2. What is handed to user space -/

/-- The codec once a block was replayed, if there is one. -/
def Codec.primed (dec : Decoder) (c : Codec) (block : Option (List UInt8)) : Codec :=
  match block with
  | some block => c.prime dec block
  | none => c

theorem primed_entries (c : Codec) (block : Option (List UInt8)) :
    (c.primed dec block).entries = c.entries := by
  cases block <;> rfl

/-- The frame a table is handed over in, if it is. -/
def syncBytes (block : Option (List UInt8)) : List UInt8 := (block.map dtSyncFrame).getD []

variable (dec) in
/-- User space, after a message with what the fast path put in front of it. -/
theorem userSpace_append {bytes : List UInt8} (hs : (walk .atHeader bytes).1.settle = (.atHeader, []))
    (hc : (userSpace dec bytes).rest = []) {report : List UInt8}
    (hreport : report = [] ∨ ∃ sent, report = fcSyncFrame sent) {block : Option (List UInt8)}
    (hblock : ∀ b ∈ block, b.length ≤ maxSyncFrame) {fs : List Frame} (hne : fs ≠ [])
    (hfs : ∀ f ∈ fs, Foreign f) :
    (walk .atHeader (bytes ++ (report ++ syncBytes block ++ encodeAll fs))).1.settle =
        (.atHeader, []) ∧
      userSpace dec (bytes ++ (report ++ syncBytes block ++ encodeAll fs)) =
        ((userSpace dec bytes).primed dec block).frames dec true fs := by
  -- the report and the update are frames of their own, which the codec never sees
  obtain ⟨sent, rfl⟩ : ∃ sent : Option UInt32, report = sent.elim [] fcSyncFrame := by
    rcases hreport with rfl | ⟨sent, rfl⟩
    · exact ⟨none, rfl⟩
    · exact ⟨some sent, rfl⟩
  have hsync : syncBytes block = block.elim [] dtSyncFrame := by cases block <;> rfl
  obtain ⟨reports, hr, hracc, hrev⟩ := report_frames sent
  obtain ⟨updates, hu, huacc, huev⟩ := update_frames hblock
  have hcount (c : Codec) : (sent.toList.map .flow).foldl (Codec.event dec) c = c := by
    cases sent <;> rfl
  have hprime (c : Codec) :
      (block.toList.map .sync).foldl (Codec.event dec) c = c.primed dec block := by
    cases block <;> rfl
  have hfront : ∀ f ∈ reports ++ updates, Accepted f := by
    intro f hf
    rcases List.mem_append.mp hf with hf | hf
    · exact hracc f hf
    · exact huacc f hf
  obtain ⟨hset, hev⟩ := walk_front hs hfront hne hfs
  have hbytes : sent.elim [] fcSyncFrame ++ syncBytes block ++ encodeAll fs =
      encodeAll (reports ++ updates ++ fs) := by
    rw [hsync, hr, hu, encodeAll_append, encodeAll_append]
  rw [hbytes, walk_append]
  refine ⟨hset, ?_⟩
  have hprimed : ((userSpace dec bytes).primed dec block).rest = [] := by
    cases block <;> exact hc
  rw [userSpace, walk_append, hev, List.foldl_append, List.flatMap_append, List.foldl_append,
    List.foldl_append, ← userSpace, hrev, hcount, huev, hprime, event_encodeAll fs hprimed]

theorem client_append {log : List Disposal} (hc : (client dec log).rest = []) (fwd : Bool)
    (fs : List Frame) :
    client dec (log ++ [⟨fwd, encodeAll fs⟩]) = (client dec log).frames dec fwd fs := by
  rw [client, List.foldl_append, ← client, List.foldl_cons, List.foldl_nil, byte_encodeAll fs hc]

theorem frames_rest (fs : List Frame) (hc : c.rest = []) :
    (c.frames dec fwd fs).rest = [] := by
  induction fs generalizing c with
  | nil => exact hc
  | cons f fs ih => exact ih rfl

/-- The table of the client stays within its capacity. -/
theorem client_fits (dec : Decoder) (log : List Disposal) :
    (client dec log).context.table.Fits dec.len := by
  have hbytes (fwd : Bool) (bytes : List UInt8) {c : Codec} (hc : c.context.table.Fits dec.len) :
      (bytes.foldl (Codec.byte dec fwd) c).context.table.Fits dec.len := by
    induction bytes generalizing c with
    | nil => exact hc
    | cons b bytes ih =>
      apply ih
      unfold Codec.byte
      split
      · exact Context.frame_fits hc _
      · exact hc
  induction log using List.reverseRecOn with
  | nil => exact Nat.zero_le _
  | append_singleton log d ih =>
    rw [client, List.foldl_append, ← client]
    exact hbytes d.forwarded d.bytes ih

end HyperFastPath.EndToEnd
