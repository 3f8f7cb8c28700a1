import HyperFastPath.Lib.Hpack
import HyperFastPath.Lib.Http2

/-!
# Header blocks

How the frames of HTTP/2 carry the blocks of HPACK: a HEADERS frame, and CONTINUATION frames behind
it for what did not fit (RFC 7540, sections 4.3, 6.2 and 6.10).
-/

namespace Http2

open Hpack

def headersKind : UInt8 := 0x01

def continuationKind : UInt8 := 0x09

def endHeaders : UInt8 := 0x04

def padded : UInt8 := 0x08

def priority : UInt8 := 0x20

def kindOf (frame : List UInt8) : UInt8 := frame.getD 3 0

def flagsOf (frame : List UInt8) : UInt8 := frame.getD 4 0

def hasFlag (frame : List UInt8) (flag : UInt8) : Bool := flagsOf frame &&& flag ≠ 0

/-- The part of a block in a HEADERS frame, which padding and a priority may surround. -/
def headersFragment (frame : List UInt8) : List UInt8 :=
  let payload := frame.drop 9
  let front := (if hasFlag frame padded then 1 else 0) + if hasFlag frame priority then 5 else 0
  let padding := if hasFlag frame padded then (payload.headD 0).toNat else 0
  (payload.take (payload.length - padding)).drop front

/-- What a frame is encoded or decoded against: the dynamic table, and the block that has begun and
is not at its end. -/
structure Context where
  table : Table
  block : Option (List UInt8)
  deriving DecidableEq, Repr

def Context.new (capacity : Nat) : Context := ⟨⟨[], capacity⟩, none⟩

/-- The frame carries a block, or some of it. -/
def carriesBlock (frame : List UInt8) : Bool :=
  kindOf frame = headersKind ∨ kindOf frame = continuationKind

/-- The block as far as it is there after a frame, if the frame adds to it. -/
def Context.extended (ctx : Context) (frame : List UInt8) : Option (List UInt8) :=
  if kindOf frame = headersKind then some (headersFragment frame)
  else if kindOf frame = continuationKind then ctx.block.map (· ++ frame.drop 9)
  else none

section

variable (len : Str → Nat) (static : Nat → Option Field)

/-- A block is at its end.  One that cannot be decoded changes nothing. -/
def Context.decode (ctx : Context) (block : List UInt8) : Context where
  table := ((decodeBlock len static ctx.table block).map Prod.snd).getD ctx.table
  block := none

/-- The context after a frame. -/
def Context.frame (ctx : Context) (frame : List UInt8) : Context :=
  match ctx.extended frame with
  | none => ctx
  | some block =>
    if hasFlag frame endHeaders then ctx.decode len static block else { ctx with block := some block }

/-- The context once the table was emptied and a block was replayed, which leaves the capacity. -/
def Context.replay (ctx : Context) (block : List UInt8) : Context where
  table := ((decodeBlock len static { ctx.table with entries := [] } block).map Prod.snd).getD
    { ctx.table with entries := [] }
  block := ctx.block

variable {len static}

theorem Context.decode_fits {ctx : Context} (h : ctx.table.Fits len) (block : List UInt8) :
    (ctx.decode len static block).table.Fits len := by
  unfold Context.decode
  cases hd : decodeBlock len static ctx.table block with
  | none => exact h
  | some decoded => exact decodeBlock_fits h hd

/-- No frame makes the table outgrow its capacity. -/
theorem Context.frame_fits {ctx : Context} (h : ctx.table.Fits len) (frame : List UInt8) :
    (ctx.frame len static frame).table.Fits len := by
  unfold Context.frame
  split
  · exact h
  · split
    · exact Context.decode_fits h _
    · exact h

end

end Http2
