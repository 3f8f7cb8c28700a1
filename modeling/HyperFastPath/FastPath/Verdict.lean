import HyperFastPath.FastPath.ContentLength
import HyperFastPath.FastPath.Serve

/-!
# The verdict on a message

`msg_verdict` of `fast_path.bpf.c`, on the entries the maps hold for one connection.  What the
parsers answer in a run is given, as they are not part of the program.
-/

namespace HyperFastPath.FastPath

open Bytes

def h2Upgraded : Nat := 1

def h2Handshaked : Nat := 2

/-- `struct h2_frame`. -/
structure H2Frame where
  sid : UInt32
  type : UInt8
  flags : UInt8
  dtCountBefore : Nat
  deriving DecidableEq, Repr

/-- A client only acks SETTINGS once it has received the server's. -/
def H2Frame.Acks (frame : H2Frame) : Prop :=
  frame.type = h2SettingsFrame ∧ frame.flags &&& h2AckFlag ≠ 0

/-- Whether the parser is asked for what it captured of the frame. -/
def H2Frame.MayCarryRequest (frame : H2Frame) : Prop :=
  frame.type ≠ h2SettingsFrame ∧ frame.type ≠ h2WindowUpdateFrame

instance (frame : H2Frame) : Decidable frame.Acks := inferInstanceAs (Decidable (_ ∧ _))

instance (frame : H2Frame) : Decidable frame.MayCarryRequest := inferInstanceAs (Decidable (_ ∧ _))

/-- What the parsers answer in one run: the result of the one that is called, what it captured, and
for HTTP/2 the frame and the mirrored table after the call. -/
structure Answers where
  ret : Int
  preface : Bool
  contentLength : Option (List UInt8)
  path : Option (List UInt8)
  frame : H2Frame
  table : List HeaderField
  deriving DecidableEq, Repr

/-- The entries of a connection in `upgraded_conns`, `flow_ctl` and `dt_dirty`. -/
structure Conn where
  upgraded : Option Nat
  flow : Option H2Flow
  dirty : Option UInt8
  deriving DecidableEq, Repr

/-- A connection that has no entries yet. -/
def Conn.new : Conn := { upgraded := none, flow := none, dirty := none }

def Conn.isH2 (c : Conn) : Bool := c.upgraded.isSome

def Conn.isDirty (c : Conn) : Bool := c.dirty.any (· ≠ 0)

/-- `bpf_map_update_elem`. -/
def update {α : Type} (ok : Bool) (new : α) (old : Option α) : Option α := if ok then some new else old

/-- What `msg_verdict` has gathered once it has called the parser. -/
structure Parsed where
  msgLen : Int
  path : Option (List UInt8)
  sid : UInt32
  dtStale : Bool
  dtCount : Nat
  h2State : Nat
  conn : Conn
  deriving DecidableEq, Repr

/-- `msg_len` with the captured content length added to it. -/
def addContentLength (h : Helpers) (msgLen : Int) (contentLength : Option (List UInt8)) : Int :=
  match contentLength with
  | none => msgLen
  | some value =>
    let res := parseContentLength h value
    if res > 0 then s32 (msgLen + res) else msgLen

/-- How much of a body the captured content length announces. -/
def announcedLen (h : Helpers) (contentLength : Option (List UInt8)) : Int :=
  match contentLength with
  | none => 0
  | some value => max 0 (parseContentLength h value)

theorem addContentLength_eq {h : Helpers} {msgLen : Int} {contentLength : Option (List UInt8)}
    (hpos : 0 ≤ msgLen) (hlt : msgLen + announcedLen h contentLength < 2 ^ 31) :
    addContentLength h msgLen contentLength = msgLen + announcedLen h contentLength := by
  cases contentLength with
  | none => simp [addContentLength, announcedLen]
  | some value =>
    simp only [addContentLength, announcedLen] at hlt ⊢
    split
    · rw [Int.max_eq_right (by omega)] at hlt ⊢
      exact s32_eq (by omega) hlt
    · rw [Int.max_eq_left (by omega), Int.add_zero]

section

variable (lim : Limits) (cfg : Routes) (h : Helpers) (ans : Answers)

/-- The HTTP/2 half of the parsing. -/
def parseH2 (conn : Conn) (h2State : Nat) : Parsed :=
  if ans.ret < 0 then
    -- whether the table is stale is not looked at
    { msgLen := ans.ret, path := none, sid := 0, dtStale := false, dtCount := 0, h2State, conn }
  else
    let frame := ans.frame
    let acked := frame.Acks ∧ h2State < h2Handshaked
    { msgLen :=
        if frame.MayCarryRequest then addContentLength h ans.ret ans.contentLength else ans.ret
      path := if frame.MayCarryRequest then ans.path else none
      sid := frame.sid
      dtStale := conn.isDirty
      dtCount := frame.dtCountBefore
      h2State := if acked then h2Handshaked else h2State
      conn := if acked then
        { conn with upgraded := update (h.ok .setHandshaked) h2Handshaked conn.upgraded } else conn }

/-- The HTTP/1.1 half of it, for anything but the preface. -/
def parseH1 (conn : Conn) : Parsed :=
  let parsed := 0 < ans.ret
  { msgLen := if parsed then addContentLength h ans.ret ans.contentLength else ans.ret
    path := if parsed then ans.path else none
    sid := 0, dtStale := false, dtCount := 0, h2State := 0, conn }

def parse (conn : Conn) : Parsed :=
  match conn.upgraded with
  | some state => parseH2 h ans conn state
  | none => parseH1 h ans conn

/-- Whether the request may be answered here. -/
def Parsed.CanServe (p : Parsed) : Prop :=
  p.path.isSome ∧ (p.conn.isH2 → h2Handshaked ≤ p.h2State) ∧ p.dtCount ≤ maxSyncEntries

instance (p : Parsed) : Decidable p.CanServe := inferInstanceAs (Decidable (_ ∧ _))

inductive Verdict where
  | pass
  | drop
  deriving DecidableEq, Repr

structure Outcome where
  verdict : Verdict
  msg : SkMsg
  conn : Conn
  deriving DecidableEq, Repr

/-- `to_user_space`. -/
def toUserSpace (msg : SkMsg) (conn : Conn) (len : Nat) : Outcome :=
  match (msg.apply len).redirectTo (h.ok .redirectIngress) .ingress with
  | some msg => { verdict := .pass, msg, conn }
  | none => { verdict := .drop, msg := msg.apply len, conn }

/-- The entries of a connection whose preface has been seen. -/
def Conn.upgrade (conn : Conn) : Conn :=
  { conn with
    upgraded := update (h.ok .setUpgraded) h2Upgraded conn.upgraded
    flow := update (h.ok .setFlow) .initial conn.flow }

/-- Follows the flow control of a message that goes to user space. -/
def followFlow (p : Parsed) (msg : SkMsg) : SkMsg × Conn :=
  if p.conn.isH2 ∧ 0 ≤ p.msgLen then
    match p.conn.flow with
    | some fc => ((trackFlow h msg fc).1, { p.conn with flow := some (trackFlow h msg fc).2 })
    | none => (msg, p.conn)
  else (msg, p.conn)

/-- Hands the dynamic table over if it is stale, and `msg_len` and the connection after that.
Nothing when that fails. -/
def syncTable (p : Parsed) (msg : SkMsg) (conn : Conn) : Option (SkMsg × Int × Conn) :=
  if conn.isH2 ∧ 0 ≤ p.msgLen ∧ p.dtStale then
    match prependDtSync lim h ans.table msg p.dtCount with
    | (synced, msg) =>
      if synced < 0 then none
      else some (msg, s32 (p.msgLen + synced),
        { conn with dirty := update (h.ok .clearDirty) 0 conn.dirty })
  else some (msg, p.msgLen, conn)

/-- Reports what was spent of the window, if anything. -/
def reportFlow (msg : SkMsg) (msgLen : Int) (conn : Conn) : SkMsg × Int × Conn :=
  match conn.flow with
  | some fc =>
    if conn.isH2 ∧ 0 ≤ msgLen ∧ 0 < fc.unreported then
      match prependFcSync h msg fc.unreported with
      | (reported, msg) =>
        -- left for the next message, but the room made for the frame may be in this one
        if reported < 0 then (msg, msgLen, conn)
        else (msg, s32 (msgLen + reported), { conn with flow := some { fc with unreported := 0 } })
    else (msg, msgLen, conn)
  | none => (msg, msgLen, conn)

/-- What becomes of a message that is not answered. -/
def forward (p : Parsed) (msg : SkMsg) : Outcome :=
  let (msg, conn) := followFlow h p msg
  match syncTable lim h ans p msg conn with
  | none => { verdict := .drop, msg, conn }
  | some (msg, msgLen, conn) =>
    let (msg, msgLen, conn) := reportFlow h msg msgLen conn
    -- the rest of the connection, as there is no telling where the next message starts
    if msgLen ≤ 0 then toUserSpace h msg conn 0xFFFFFFFF
    -- all that is buffered, and what of a body has not arrived yet
    else toUserSpace h msg conn (if msg.size > msgLen.toNat then msg.size else msgLen.toNat)

/-- User space knows nothing of a request that was answered. -/
def Conn.markDirty (conn : Conn) : Conn :=
  if conn.isH2 then { conn with dirty := update (h.ok .setDirty) 1 conn.dirty } else conn

/-- The part of `msg_verdict` behind the parsing. -/
def serveOrForward (p : Parsed) (msg : SkMsg) : Outcome :=
  match p.path with
  | some path =>
    if p.CanServe ∧ 0 < p.msgLen then
      match tryServeRoute h cfg p.conn.flow msg path p.sid p.msgLen.toNat with
      | (served, msg, flow) =>
        let conn := { p.conn with flow }
        -- half rewritten
        if served < -1 then { verdict := .drop, msg, conn }
        else if served = 0 then { verdict := .pass, msg, conn := conn.markDirty h }
        -- declined
        else forward lim h ans { p with conn } msg
    else forward lim h ans p msg
  | none => forward lim h ans p msg

/-- `msg_verdict`. -/
def msgVerdict (conn : Conn) (bytes : List UInt8) : Outcome :=
  if conn.upgraded = none ∧ 0 < ans.ret ∧ ans.preface then
    toUserSpace h (.ofBytes bytes) (conn.upgrade h) 24
  else serveOrForward lim cfg h ans (parse h ans conn) (.ofBytes bytes)

end

end HyperFastPath.FastPath
