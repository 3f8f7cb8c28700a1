import HyperFastPath.FastPath.DtSync

/-!
# Following the client's flow control

`track_flow` and `prepend_fc_sync` of `fast_path.bpf.c`: what the client's SETTINGS and
WINDOW_UPDATE frames leave to spend, and the report of what has been spent of it.
-/

namespace HyperFastPath.FastPath

open Bytes

def h2SettingsFrame : UInt8 := 0x04

def h2WindowUpdateFrame : UInt8 := 0x08

def h2AckFlag : UInt8 := 0x01

def h2SettingsInitialWindowSize : Nat := 0x04

def fcSyncFrameType : UInt8 := 0xFA

/-- The connection level window an HTTP/2 connection opens with. -/
def h2InitialWindow : Nat := 65535

/-- The largest window either side may open. -/
def h2MaxWindow : Nat := 0x7FFFFFFF

def maxSettings : Nat := 16

def h2SettingLen : Nat := 6

def maxFlowFrames : Nat := 16

/-- `struct h2_flow`. -/
structure H2Flow where
  connWindow : Int
  streamWindow : Nat
  unreported : UInt32
  deriving DecidableEq, Repr

/-- The flow control of a connection that has just been upgraded. -/
def H2Flow.initial : H2Flow :=
  { connWindow := h2InitialWindow, streamWindow := h2InitialWindow, unreported := 0 }

/-- The big-endian number in the `n` bytes of the window from `i` on. -/
def SkMsg.getBe (m : SkMsg) (i n : Nat) : Nat := ofBe ((List.range n).map fun k ↦ m.get (i + k))

/-- `track_flow_frame`, on turn `turn` of `track_flow`. -/
def trackFlowFrame (h : Helpers) (turn : Nat) (msg : SkMsg) (fc : H2Flow) (off : Nat)
    (type flags : UInt8) (sid : Nat) : SkMsg × H2Flow :=
  let stop := off + (if type = h2WindowUpdateFrame then 13 else 9 + maxSettings * h2SettingLen)
  let stop := if stop > msg.size then msg.size else stop
  match msg.pull (h.ok (.pullFlowFrame turn)) off stop with
  | none => (msg, fc)
  | some msg =>
    if ¬ msg.Reaches 9 then (msg, fc)
    else
      let payloadLen := msg.getBe 0 3
      if type = h2WindowUpdateFrame then
        if sid ≠ 0 ∨ payloadLen ≠ 4 then (msg, fc)
        else if ¬ msg.Reaches 13 then (msg, fc)
        else
          -- the reserved bit is not part of the increment
          let window := fc.connWindow + (msg.getBe 9 4 &&& h2MaxWindow : Nat)
          (msg, { fc with connWindow := if window > h2MaxWindow then h2MaxWindow else window })
      -- an ack repeats no settings
      else if flags &&& h2AckFlag ≠ 0 then (msg, fc)
      else
        let n := min (payloadLen / h2SettingLen) maxSettings
        let settings := Loops.run n (fun i fc ↦
          let p := 9 + clamp i 0 (maxSettings - 1) * h2SettingLen
          if ¬ msg.Reaches (p + h2SettingLen) then .ret fc
          else if msg.getBe p 2 ≠ h2SettingsInitialWindowSize then .next fc
          else
            let val := msg.getBe (p + 2) 4
            if val > h2MaxWindow then .ret fc else .next { fc with streamWindow := val }) fc
        match settings with
        | .ok fc => (msg, fc)
        | .error fc => (msg, fc)

/-- `track_flow`. -/
def trackFlow (h : Helpers) (msg : SkMsg) (fc : H2Flow) : SkMsg × H2Flow :=
  let frames : Except Unit (SkMsg × H2Flow × Nat) := Loops.run maxFlowFrames (fun i (msg, fc, off) ↦
    if off + 9 > msg.size then .stop (msg, fc, off)
    else
      match msg.pull (h.ok (.pullFrameHeader i)) off (off + 9) with
      | none => .stop (msg, fc, off)
      | some msg =>
        if ¬ msg.Reaches 9 then .stop (msg, fc, off)
        else
          let payloadLen := msg.getBe 0 3
          let type := msg.get 3
          let flags := msg.get 4
          let sid := msg.getBe 5 4 &&& h2MaxWindow
          let (msg, fc) :=
            if type = h2SettingsFrame ∨ type = h2WindowUpdateFrame then
              trackFlowFrame h i msg fc off type flags sid
            else (msg, fc)
          .next (msg, fc, off + (9 + payloadLen))) (msg, fc, 0)
  match frames with
  | .ok (msg, fc, _) => (msg, fc)
  | .error _ => (msg, fc)

def fcSyncFrame (sent : UInt32) : List UInt8 :=
  [0, 0, 4, fcSyncFrameType, 0, 0, 0, 0, 0, UInt8.ofNat (sent.toNat >>> 24),
    UInt8.ofNat (sent.toNat >>> 16), UInt8.ofNat (sent.toNat >>> 8), UInt8.ofNat sent.toNat]

/-- `prepend_fc_sync`: what it returns, and the message after it. -/
def prependFcSync (h : Helpers) (msg : SkMsg) (sent : UInt32) : Int × SkMsg :=
  match msg.push (h.ok .pushFcSync) (h.inserted .pushFcSync) 0 13 with
  | none => (-1, msg)
  | some msg =>
    match msg.pull (h.ok .pullFcSync) 0 13 with
    | none => (-1, msg)
    | some msg =>
      if ¬ msg.Reaches 13 then (-1, msg) else (13, msg.put 0 (fcSyncFrame sent))

/-! ## 1. Reading frames leaves the message alone -/

/-- What following the flow control leaves alone: the message but for its window, and what is still
to be reported. -/
def KeepsFlow (msg : SkMsg) (fc : H2Flow) (t : SkMsg × H2Flow) : Prop :=
  msg.SameContent t.1 ∧ t.2.unreported = fc.unreported

theorem KeepsFlow.refl (msg : SkMsg) (fc : H2Flow) : KeepsFlow msg fc (msg, fc) :=
  ⟨.refl msg, rfl⟩

theorem trackFlowFrame_keeps (h : Helpers) (turn : Nat) (msg : SkMsg) (fc : H2Flow) (off : Nat)
    (type flags : UInt8) (sid : Nat) :
    KeepsFlow msg fc (trackFlowFrame h turn msg fc off type flags sid) := by
  unfold trackFlowFrame
  simp only
  generalize (if off + _ > msg.size then msg.size else off + _) = stop
  cases hpull : msg.pull (h.ok (.pullFlowFrame turn)) off stop with
  | none => exact .refl msg fc
  | some msg' =>
    have hsame : KeepsFlow msg fc (msg', fc) := ⟨pull_sameContent hpull, rfl⟩
    simp only
    -- a WINDOW_UPDATE and a SETTINGS frame change the windows alone
    split_ifs
    · exact hsame
    · exact ⟨hsame.1, rfl⟩
    · exact ⟨hsame.1, rfl⟩
    · exact hsame
    · exact hsame
    · generalize hrun : Loops.run _ _ fc = r
      have hsettings : Loops.Ends (fun fc' : H2Flow ↦ fc'.unreported = fc.unreported)
          (fun fc' : H2Flow ↦ fc'.unreported = fc.unreported) r := by
        rw [← hrun]
        refine Loops.run_rule (I := fun _ fc' ↦ fc'.unreported = fc.unreported) rfl ?_
          fun _ hfc ↦ hfc
        intro i fc' _ hfc
        split_ifs <;> exact hfc
      cases r with
      | ok fc' => exact ⟨hsame.1, hsettings⟩
      | error fc' => exact ⟨hsame.1, hsettings⟩
    · exact hsame

theorem trackFlow_keeps (h : Helpers) (msg : SkMsg) (fc : H2Flow) :
    KeepsFlow msg fc (trackFlow h msg fc) := by
  unfold trackFlow
  simp only
  generalize hrun : Loops.run maxFlowFrames _ (msg, fc, 0) = r
  have hkeeps : Loops.Ends (fun t ↦ KeepsFlow msg fc (t.1, t.2.1)) (fun _ ↦ False) r := by
    rw [← hrun]
    refine Loops.run_rule (I := fun _ t ↦ KeepsFlow msg fc (t.1, t.2.1)) (.refl msg fc) ?_
      fun _ ht ↦ ht
    rintro i ⟨msg', fc', off⟩ _ ht
    simp only
    split
    · exact ht
    · cases hpull : msg'.pull (h.ok (.pullFrameHeader i)) off (off + 9) with
      | none => exact ht
      | some m =>
        have hm : KeepsFlow msg fc (m, fc') := ⟨ht.1.trans (pull_sameContent hpull), ht.2⟩
        simp only
        split
        · exact hm
        · split
          · have hframe := trackFlowFrame_keeps h i m fc' off (m.get 3) (m.get 4)
              (m.getBe 5 4 &&& h2MaxWindow)
            exact ⟨hm.1.trans hframe.1, hframe.2.trans hm.2⟩
          · exact hm
  cases r with
  | ok t => exact hkeeps
  | error _ => exact hkeeps.elim

/-! ## 2. Reporting what was spent -/

/-- What a report puts ahead of a message.  Where only the second helper call fails, the room made
for it stays as it is. -/
def reportPrefix (h : Helpers) (sent : UInt32) : List UInt8 :=
  if h.ok .pushFcSync then
    if h.ok .pullFcSync then fcSyncFrame sent else (List.range 13).map (h.inserted .pushFcSync)
  else []

theorem prependFcSync_eq (h : Helpers) (msg : SkMsg) (sent : UInt32) :
    ∃ msg', prependFcSync h msg sent =
        (if h.ok .pushFcSync ∧ h.ok .pullFcSync then 13 else -1, msg') ∧
      msg.Prepended msg' (reportPrefix h sent) := by
  unfold reportPrefix
  by_cases hp : h.ok .pushFcSync = true
  swap
  · exact ⟨msg, by simp [prependFcSync, push_front, hp], by simp [SkMsg.Prepended, hp]⟩
  set base := (List.range 13).map (h.inserted .pushFcSync) ++ msg.bytes with hbase
  have hpull := pull_eq (m := msg.withBytes base) (h.ok .pullFcSync) (show 0 < 13 by decide)
    (by simp [hbase])
  by_cases hq : h.ok .pullFcSync = true
  swap
  · rw [if_neg hq] at hpull
    refine ⟨msg.withBytes base, ?_, ?_⟩
    · rw [if_neg fun hall ↦ hq hall.2]
      simp only [prependFcSync, push_front, hp, ← hbase, hpull, if_true]
    · rw [if_pos hp, if_neg hq]
      exact ⟨hbase, rfl, rfl⟩
  · rw [if_pos hq] at hpull
    set m := SkMsg.put { msg.withBytes base with data := 0, dataEnd := 13 } 0 (fcSyncFrame sent)
      with hm
    refine ⟨m, ?_, ?_⟩
    · rw [if_pos ⟨hp, hq⟩]
      simp only [prependFcSync, push_front, hp, ← hbase, hpull, if_true]
      rw [if_neg (by simp [SkMsg.Reaches])]
    · rw [if_pos hp, if_pos hq]
      refine ⟨?_, rfl, rfl⟩
      show overwrite base (0 + 0) (fcSyncFrame sent) = _
      rw [overwrite_zero, hbase, List.drop_left' (by simp [fcSyncFrame])]

end HyperFastPath.FastPath
