import HyperFastPath.FastPath.FlowControl
import Mathlib.Algebra.Order.BigOperators.Group.List

/-!
# Following the frames of a message

What `track_flow` makes of the frames a message consists of, one by one.
-/

namespace HyperFastPath.FastPath

open Bytes Http2

/-! ## 1. What a frame changes -/

/-- What a frame adds to the connection level window, without the reserved bit. -/
def windowIncrement (f : Frame) : Nat :=
  if f.kind = h2WindowUpdateFrame ∧ f.sid.toNat &&& h2MaxWindow = 0 ∧ f.payload.length = 4 then
    ofBe f.payload &&& h2MaxWindow
  else 0

/-- The identifier and the value of the `i`th parameter of a SETTINGS frame. -/
def setting (payload : List UInt8) (i : Nat) : Nat × Nat :=
  (ofBe ((payload.drop (i * h2SettingLen)).take 2),
    ofBe ((payload.drop (i * h2SettingLen + 2)).take 4))

def settingsOf (payload : List UInt8) : List (Nat × Nat) :=
  (List.range (payload.length / h2SettingLen)).map (setting payload)

/-- The stream window after a list of parameters, which ends early at an illegal one. -/
def followSettings : Nat → List (Nat × Nat) → Nat
  | window, [] => window
  | window, (ident, val) :: settings =>
    if ident ≠ h2SettingsInitialWindowSize then followSettings window settings
    else if val > h2MaxWindow then window
    else followSettings val settings

/-- The flow control after one frame. -/
def H2Flow.follow (fc : H2Flow) (f : Frame) : H2Flow :=
  if f.kind = h2WindowUpdateFrame then
    if f.sid.toNat &&& h2MaxWindow ≠ 0 ∨ f.payload.length ≠ 4 then fc
    else
      let window := fc.connWindow + (ofBe f.payload &&& h2MaxWindow : Nat)
      { fc with connWindow := if window > h2MaxWindow then h2MaxWindow else window }
  else if f.kind = h2SettingsFrame ∧ f.flags &&& h2AckFlag = 0 then
    { fc with
      streamWindow := followSettings fc.streamWindow ((settingsOf f.payload).take maxSettings) }
  else fc

/-! ## 2. Reading a frame through the window -/

variable {msg : SkMsg} {f : Frame} {rest : List UInt8}

theorem getBe_eq {i n : Nat} (h : msg.data + i + n ≤ msg.size) :
    msg.getBe i n = ofBe (((msg.bytes.drop msg.data).drop i).take n) := by
  rw [SkMsg.getBe]
  congr 1
  rw [SkMsg.size] at h
  apply List.ext_getElem
  · simp only [List.length_map, List.length_range, List.length_take, List.length_drop]
    omega
  · intro k hk hk'
    simp only [List.length_map, List.length_range] at hk
    simp only [List.getElem_map, List.getElem_range, List.getElem_take, List.getElem_drop, SkMsg.get,
      List.getD_eq_getElem?_getD]
    rw [List.getElem?_eq_getElem (by omega), Option.getD_some]

theorem get_eq (msg : SkMsg) (i : Nat) : msg.get i = (msg.bytes.drop msg.data).getD i 0 := by
  simp only [SkMsg.get, List.getD_eq_getElem?_getD, List.getElem?_drop]

/-- The window starts where the frame does. -/
def SkMsg.Shows (msg : SkMsg) (f : Frame) : Prop := f.encode <+: msg.bytes.drop msg.data

theorem SkMsg.Shows.size (h : msg.Shows f) : msg.data + (9 + f.payload.length) ≤ msg.size := by
  have hle := h.length_le
  rw [encode_length, List.length_drop] at hle
  rw [SkMsg.size]
  omega

theorem shows_getBe (h : msg.Shows f) {i n : Nat} (hle : i + n ≤ f.encode.length) :
    msg.getBe i n = ofBe ((f.encode.drop i).take n) := by
  have hsize := h.size
  obtain ⟨rest, hrest⟩ := h
  rw [encode_length] at hle
  rw [getBe_eq (by omega), ← hrest, List.drop_append_of_le_length (by simp; omega),
    List.take_append_of_le_length (by simp; omega)]

theorem shows_len (h : msg.Shows f) : msg.getBe 0 3 = f.payload.length := by
  rw [shows_getBe h (by simp; omega), List.drop_zero, Frame.encode,
    List.take_append_of_le_length (by simp), header_len]

theorem shows_sid (h : msg.Shows f) : msg.getBe 5 4 = f.sid.toNat := by
  rw [shows_getBe h (by simp)]
  exact ofBe_toBe (k := 4) f.sid.toNat_lt

theorem shows_payload (h : msg.Shows f) {i n : Nat} (hle : i + n ≤ f.payload.length) :
    msg.getBe (9 + i) n = ofBe ((f.payload.drop i).take n) := by
  rw [shows_getBe h (by simp; omega), Frame.encode, ← header_length f, List.drop_length_add_append]

theorem shows_kind (h : msg.Shows f) : msg.get 3 = f.kind := by
  obtain ⟨rest, hrest⟩ := h
  rw [get_eq, ← hrest]
  rfl

theorem shows_flags (h : msg.Shows f) : msg.get 4 = f.flags := by
  obtain ⟨rest, hrest⟩ := h
  rw [get_eq, ← hrest]
  rfl

/-! ## 3. One frame -/

/-- The turn of the loop over the parameters, for one of them. -/
def settingTurn (s : Nat × Nat) (fc : H2Flow) : Loops.Turn H2Flow H2Flow :=
  if s.1 ≠ h2SettingsInitialWindowSize then .next fc
  else if s.2 > h2MaxWindow then .ret fc
  else .next { fc with streamWindow := s.2 }

/-- What a loop leaves behind, whichever way it ended. -/
def outcomeOf {σ : Type} : Except σ σ → σ
  | .ok s => s
  | .error s => s

theorem settings_loop (body : Nat → H2Flow → Loops.Turn H2Flow H2Flow) (ss : Nat → Nat × Nat)
    {todo i : Nat} (hbody : ∀ j fc, j < i + todo → body j fc = settingTurn (ss j) fc) (fc : H2Flow) :
    outcomeOf (Loops.runFrom body todo i fc) =
      { fc with streamWindow := followSettings fc.streamWindow ((List.range' i todo).map ss) } := by
  induction todo generalizing i fc with
  | zero => rfl
  | succ todo ih =>
    have hrest (fc : H2Flow) := ih (i := i + 1) (fun j fc hj ↦ hbody j fc (by omega)) fc
    rw [List.range'_succ, List.map_cons, Loops.runFrom, hbody i fc (by omega), settingTurn,
      followSettings]
    by_cases hident : (ss i).1 = h2SettingsInitialWindowSize
    · simp only [hident, ne_eq, not_true_eq_false, if_false]
      by_cases hval : (ss i).2 > h2MaxWindow
      · simp only [if_pos hval, outcomeOf]
      · simp only [if_neg hval, hrest]
    · simp only [if_pos (show (ss i).1 ≠ _ from hident), hrest]

/-- A turn of the loop over the parameters of a frame that is shown. -/
theorem shows_setting (h : msg.Shows f) {j : Nat} (hj : (j + 1) * h2SettingLen ≤ f.payload.length)
    (hmax : j < maxSettings) (hreaches : msg.Reaches (9 + (j + 1) * h2SettingLen)) (fc : H2Flow) :
    (let p := 9 + clamp j 0 (maxSettings - 1) * h2SettingLen
      if ¬ msg.Reaches (p + h2SettingLen) then .ret fc
      else if msg.getBe p 2 ≠ h2SettingsInitialWindowSize then .next fc
      else
        let val := msg.getBe (p + 2) 4
        if val > h2MaxWindow then .ret fc else .next { fc with streamWindow := val }) =
      settingTurn (setting f.payload j) fc := by
  have hclamp : clamp j 0 (maxSettings - 1) = j := clamp_eq (by omega)
  have hp : 9 + j * h2SettingLen + h2SettingLen = 9 + (j + 1) * h2SettingLen := by
    rw [Nat.add_one_mul, Nat.add_assoc]
  simp only [hclamp, hp, if_neg (not_not.mpr hreaches)]
  simp only [h2SettingLen] at hj
  rw [shows_payload h (by simp only [h2SettingLen]; omega), Nat.add_assoc,
    shows_payload h (by simp only [h2SettingLen]; omega)]
  rfl

variable (h : Helpers) (turn : Nat) (msg) (fc : H2Flow) (off : Nat)

/-- A whole frame is followed unless it cannot be pulled in. -/
theorem trackFlowFrame_whole (hf : f.encode <+: msg.bytes.drop off)
    (hkind : f.kind = h2SettingsFrame ∨ f.kind = h2WindowUpdateFrame) :
    (trackFlowFrame h turn msg fc off f.kind f.flags (f.sid.toNat &&& h2MaxWindow)).2 =
      if h.ok (.pullFlowFrame turn) then fc.follow f else fc := by
  have hsize : off + (9 + f.payload.length) ≤ msg.size := by
    have hle := hf.length_le
    rw [encode_length, List.length_drop] at hle
    rw [SkMsg.size]
    omega
  unfold trackFlowFrame
  simp only
  have hcut (want : Nat) : (if want > msg.size then msg.size else want) = min msg.size want :=
    (min_def_lt _ _).symm
  simp only [hcut]
  generalize hmin : min msg.size (off + if f.kind = h2WindowUpdateFrame then 13
    else 9 + maxSettings * h2SettingLen) = stop
  have hroom : off + 9 ≤ stop := by
    rw [← hmin]
    split
    · omega
    · simp only [maxSettings, h2SettingLen]
      omega
  rw [pull_eq _ (by omega) (by omega)]
  cases h.ok (.pullFlowFrame turn) with
  | false => rfl
  | true =>
  simp only [if_true]
  set m : SkMsg := { msg with data := off, dataEnd := stop } with hm
  have hshows : m.Shows f := hf
  rw [if_neg (not_not.mpr (show m.Reaches 9 from hroom)), shows_len hshows]
  unfold H2Flow.follow
  by_cases hwindow : f.kind = h2WindowUpdateFrame
  · rw [if_pos hwindow, if_pos hwindow]
    split
    · rfl
    -- four bytes of payload, all of which are there
    · rename_i hvalid
      have hlen : f.payload.length = 4 := by tauto
      have hreaches : m.Reaches 13 := by
        rw [if_pos hwindow] at hmin
        show off + 13 ≤ stop
        omega
      have hinc : m.getBe 9 4 = ofBe f.payload := by
        rw [← Nat.add_zero 9, shows_payload hshows (by omega), List.drop_zero,
          List.take_of_length_le (by omega)]
      rw [if_neg (not_not.mpr hreaches), hinc]
  · have hsettings := hkind.resolve_right hwindow
    rw [if_neg hwindow, if_neg hwindow]
    by_cases hack : f.flags &&& h2AckFlag = 0
    swap
    · rw [if_pos hack, if_neg fun hall ↦ hack hall.2]
    rw [if_neg (not_not.mpr hack), if_pos ⟨hsettings, hack⟩]
    generalize hn : min (f.payload.length / h2SettingLen) maxSettings = n
    have htake : (settingsOf f.payload).take maxSettings =
        (List.range' 0 n).map (setting f.payload) := by
      rw [settingsOf, ← List.map_take, List.take_range, ← List.range_eq_range', Nat.min_comm, hn]
    rw [htake]
    generalize hrun : Loops.run n _ fc = r
    suffices hloop : outcomeOf r = { fc with
        streamWindow :=
          followSettings fc.streamWindow ((List.range' 0 n).map (setting f.payload)) } by
      cases r <;> exact hloop
    rw [← hrun]
    apply settings_loop
    intro j fc hj
    -- the parameter lies in the payload, and the payload in the window
    have hj6 : (j + 1) * 6 ≤ f.payload.length := by
      have hdiv := Nat.div_mul_le_self f.payload.length h2SettingLen
      have hle := Nat.mul_le_mul_right 6 (show j + 1 ≤ f.payload.length / h2SettingLen by omega)
      simp only [h2SettingLen] at hdiv hle
      omega
    have hmax : j < maxSettings := by omega
    refine shows_setting hshows hj6 hmax ?_ fc
    rw [if_neg hwindow] at hmin
    simp only [maxSettings] at hmax
    simp only [maxSettings, h2SettingLen] at hmin
    simp only [SkMsg.Reaches, hm, h2SettingLen]
    omega

/-- Of a frame that is cut off, no more than the parameters that are there are followed. -/
theorem trackFlowFrame_part (type flags : UInt8) (sid : Nat) (hsize : off + 9 ≤ msg.size)
    (hpart : msg.size < off + (9 + ofBe ((msg.bytes.drop off).take 3))) :
    (trackFlowFrame h turn msg fc off type flags sid).2.connWindow = fc.connWindow := by
  unfold trackFlowFrame
  simp only
  simp only [gt_iff_lt, ← min_def_lt]
  generalize hstop : min msg.size _ = stop
  have hle : stop ≤ msg.size := hstop ▸ Nat.min_le_left _ _
  cases hpull : msg.pull (h.ok (.pullFlowFrame turn)) off stop with
  | none => rfl
  | some m =>
  unfold SkMsg.pull at hpull
  split at hpull
  swap
  · cases hpull
  simp only [Option.some.injEq] at hpull
  simp only
  split
  · rfl
  rename_i hnine
  -- the length field is there
  have hlen : m.getBe 0 3 = ofBe ((msg.bytes.drop off).take 3) := by
    rw [getBe_eq (by rw [← hpull]; show off + 0 + 3 ≤ msg.size; omega), ← hpull, List.drop_zero]
  rw [hlen]
  split
  · split
    · rfl
    · split
      · rfl
      · rename_i hvalid hreaches
        have hreaches' : off + 13 ≤ stop := by
          rw [← hpull] at hreaches
          simpa [SkMsg.Reaches] using hreaches
        have hfour : ofBe ((msg.bytes.drop off).take 3) = 4 := by tauto
        omega
  · split
    · rfl
    generalize hrun : Loops.run _ _ fc = r
    have hkept : Loops.Ends (fun fc' : H2Flow ↦ fc'.connWindow = fc.connWindow)
        (fun fc' : H2Flow ↦ fc'.connWindow = fc.connWindow) r := by
      rw [← hrun]
      refine Loops.run_rule (I := fun _ fc' ↦ fc'.connWindow = fc.connWindow) rfl ?_
        fun _ hfc ↦ hfc
      intro i fc' _ hfc
      split_ifs <;> exact hfc
    cases r <;> exact hkept

/-! ## 4. The frames of a message -/

/-- A turn of the loop of `track_flow`. -/
def flowTurn (h : Helpers) (i : Nat) (t : SkMsg × H2Flow × Nat) :
    Loops.Turn (SkMsg × H2Flow × Nat) Unit :=
  match t with
  | (msg, fc, off) =>
    if off + 9 > msg.size then .stop (msg, fc, off)
    else
      match msg.pull (h.ok (.pullFrameHeader i)) off (off + 9) with
      | none => .stop (msg, fc, off)
      | some msg =>
        if ¬ msg.Reaches 9 then .stop (msg, fc, off)
        else
          let payloadLen := msg.getBe 0 3
          let type := msg.get 3
          let flags := msg.get 4
          let sid := msg.getBe 5 4 &&& h2MaxWindow
          let (msg, fc) :=
            if type = h2SettingsFrame ∨ type = h2WindowUpdateFrame then
              trackFlowFrame h i msg fc off type flags sid
            else (msg, fc)
          .next (msg, fc, off + (9 + payloadLen))

theorem trackFlow_eq :
    trackFlow h msg fc =
      match Loops.run maxFlowFrames (flowTurn h) (msg, fc, 0) with
      | .ok (msg, fc, _) => (msg, fc)
      | .error _ => (msg, fc) := rfl

variable {fc}

theorem follow_other (hsettings : f.kind ≠ h2SettingsFrame) (hwindow : f.kind ≠ h2WindowUpdateFrame) :
    fc.follow f = fc := by
  rw [H2Flow.follow, if_neg hwindow, if_neg fun hall ↦ hsettings hall.1]

/-- A turn at a whole frame. -/
theorem flowTurn_whole (fc : H2Flow) (hf : f.encode <+: msg.bytes.drop off) (i : Nat) :
    if h.ok (.pullFrameHeader i) then
      ∃ m, m.bytes = msg.bytes ∧ flowTurn h i (msg, fc, off) =
        .next (m, if h.ok (.pullFlowFrame i) then fc.follow f else fc, off + f.encode.length)
    else flowTurn h i (msg, fc, off) = .stop (msg, fc, off) := by
  have hsize : off + (9 + f.payload.length) ≤ msg.size := by
    have hle := hf.length_le
    rw [encode_length, List.length_drop] at hle
    rw [SkMsg.size]
    omega
  unfold flowTurn
  simp only
  rw [if_neg (show ¬ off + 9 > msg.size by omega), pull_eq _ (by omega) (by omega)]
  cases h.ok (.pullFrameHeader i) with
  | false => rfl
  | true =>
  simp only [if_true]
  set m : SkMsg := { msg with data := off, dataEnd := off + 9 } with hm
  have hshows : m.Shows f := hf
  rw [if_neg (not_not.mpr (show m.Reaches 9 from Nat.le_refl _)), shows_len hshows,
    shows_kind hshows, shows_flags hshows, shows_sid hshows, encode_length]
  by_cases hkind : f.kind = h2SettingsFrame ∨ f.kind = h2WindowUpdateFrame
  · have hframe := trackFlowFrame_whole m h i fc off hf hkind
    obtain ⟨hsame, -⟩ := trackFlowFrame_keeps h i m fc off f.kind f.flags
      (f.sid.toNat &&& h2MaxWindow)
    rw [if_pos hkind, ← hframe]
    exact ⟨_, hsame.1, rfl⟩
  · rw [if_neg hkind, follow_other (fun hs ↦ hkind (.inl hs)) fun hw ↦ hkind (.inr hw), ite_self]
    exact ⟨m, rfl, rfl⟩

/-- A turn where there is no whole frame: none, or the last one. -/
theorem flowTurn_part (fc : H2Flow) (hnone : firstFrame (msg.bytes.drop off) = none) (i : Nat) :
    (flowTurn h i (msg, fc, off)).Leads
      (fun t ↦ t.1.bytes = msg.bytes ∧ t.2.1.connWindow = fc.connWindow ∧ msg.size < t.2.2 ∧
        off + 9 ≤ msg.size)
      (fun t ↦ t.2.1 = fc ∧ (h.AllOk → msg.size < off + 9)) (fun _ ↦ False) := by
  unfold flowTurn
  simp only
  split
  · exact ⟨rfl, fun _ ↦ by omega⟩
  rename_i hnine
  rw [pull_eq _ (by omega) (by omega)]
  cases hok : h.ok (.pullFrameHeader i) with
  | false => exact ⟨rfl, fun hall ↦ absurd hall (not_allOk hok)⟩
  | true =>
  simp only [if_true]
  set m : SkMsg := { msg with data := off, dataEnd := off + 9 } with hm
  rw [if_neg (not_not.mpr (show m.Reaches 9 from Nat.le_refl _))]
  have hlen : m.getBe 0 3 = ofBe ((msg.bytes.drop off).take 3) := by
    rw [getBe_eq (show off + 0 + 3 ≤ msg.size by omega), List.drop_zero]
  -- the header is there, so it is the payload that is not
  have hpart : msg.size < off + (9 + ofBe ((msg.bytes.drop off).take 3)) := by
    by_contra hle
    unfold firstFrame at hnone
    rw [if_pos ⟨by rw [List.length_drop, ← SkMsg.size]; omega,
      by rw [List.length_drop, ← SkMsg.size]; omega⟩] at hnone
    cases hnone
  rw [hlen]
  refine ⟨?_, ?_, hpart, by omega⟩
  · split
    · exact (trackFlowFrame_keeps h i m fc off _ _ _).1.1
    · rfl
  · split
    · exact trackFlowFrame_part m h i fc off _ _ _ (Nat.le_of_not_lt hnine) hpart
    · rfl

/-- Nothing but whole frames of `bytes` opened the connection level window, each of them once. -/
def H2Flow.OpenedBy (bytes : List UInt8) (fc fc' : H2Flow) : Prop :=
  ∃ fs : List Frame, fs.Sublist (wholeFrames bytes) ∧
    fc'.connWindow = (fs.foldl H2Flow.follow fc).connWindow

/-- Whatever is in a message, its whole frames alone open the window. -/
theorem trackFlow_follows (msg : SkMsg) (fc : H2Flow) :
    H2Flow.OpenedBy msg.bytes fc (trackFlow h msg fc).2 := by
  rw [trackFlow_eq]
  generalize hrun : Loops.run maxFlowFrames _ (msg, fc, 0) = r
  have hfollows : Loops.Ends (fun t : SkMsg × H2Flow × Nat ↦ fc.OpenedBy msg.bytes t.2.1)
      (fun _ ↦ False) r := by
    rw [← hrun]
    -- `off` is behind the frames gone through, until it leaves the message
    refine Loops.run_rule (I := fun _ t ↦ t.1.bytes = msg.bytes ∧
      ((∃ done rest fs : List _, msg.bytes = encodeAll done ++ rest ∧
        t.2.2 = (encodeAll done).length ∧ fs.Sublist done ∧ t.2.1 = fs.foldl H2Flow.follow fc) ∨
      (msg.size < t.2.2 ∧ fc.OpenedBy msg.bytes t.2.1)))
      ⟨rfl, .inl ⟨[], msg.bytes, [], rfl, rfl, List.Sublist.slnil, rfl⟩⟩ ?_ ?_
    · rintro i ⟨m, fc', off⟩ - ⟨hbytes, ⟨done, rest, fs, hdone, hoff, hsub, hfc⟩ | ⟨hout, hend⟩⟩
      · simp only at hbytes hoff hfc
        have hwhole : wholeFrames msg.bytes = done ++ wholeFrames rest := by
          rw [hdone, wholeFrames_encodeAll]
        have hdrop : m.bytes.drop off = rest := by
          rw [hbytes, hdone, hoff, List.drop_left]
        cases hf : firstFrame (m.bytes.drop off) with
        | none =>
          have hsub' : fs.Sublist (wholeFrames msg.bytes) :=
            hsub.trans (hwhole ▸ List.sublist_append_left _ _)
          have hturn := flowTurn_part m h off fc' hf i
          cases ht : flowTurn h i (m, fc', off) with
          | next t =>
            rw [ht] at hturn
            obtain ⟨hsame, hwindow, hout, -⟩ := hturn
            rw [SkMsg.size, hbytes] at hout
            exact ⟨hsame.trans hbytes, .inr ⟨hout, fs, hsub', hfc ▸ hwindow⟩⟩
          | stop t =>
            rw [ht] at hturn
            exact ⟨fs, hsub', by rw [hturn.1, hfc]⟩
          | ret t =>
            rw [ht] at hturn
            exact hturn
        | some f =>
          have hrest := firstFrame_eq hf
          have hturn := flowTurn_whole m h off fc' ⟨_, hrest.symm⟩ i
          rw [hdrop] at hrest
          split at hturn
          · obtain ⟨m', hsame, hnext⟩ := hturn
            rw [hnext]
            refine ⟨hsame.trans hbytes, .inl ⟨done ++ [f], rest.drop f.encode.length,
              if h.ok (.pullFlowFrame i) then fs ++ [f] else fs, ?_, ?_, ?_, ?_⟩⟩
            · rw [hdone, encodeAll_append, encodeAll_cons, encodeAll_nil, List.append_nil,
                List.append_assoc, ← hrest]
            · rw [hoff, encodeAll_append, encodeAll_cons, encodeAll_nil, List.append_nil,
                List.length_append]
            · split
              · exact hsub.append (List.Sublist.refl _)
              · exact hsub.trans (List.sublist_append_left _ _)
            · split <;> simp [hfc]
          · rw [hturn]
            exact ⟨fs, hsub.trans (hwhole ▸ List.sublist_append_left _ _), by rw [hfc]⟩
      · simp only at hbytes hout hend
        have hturn : flowTurn h i (m, fc', off) = .stop (m, fc', off) := by
          unfold flowTurn
          simp only
          rw [if_pos]
          rw [SkMsg.size, hbytes, ← SkMsg.size]
          omega
        rw [hturn]
        exact hend
    · rintro t ⟨-, ⟨done, rest, fs, hdone, -, hsub, hfc⟩ | ⟨-, hend⟩⟩
      · refine ⟨fs, hsub.trans ?_, by rw [hfc]⟩
        rw [hdone, wholeFrames_encodeAll]
        exact List.sublist_append_left _ _
      · exact hend
  cases r with
  | ok t => exact hfollows
  | error _ => exact hfollows.elim

/-- The connection level increments in the frames of a message. -/
def credit (bytes : List UInt8) : Nat := ((wholeFrames bytes).map windowIncrement).sum

/-- A window that is open, and no further than a window may be. -/
def H2Flow.Open (fc : H2Flow) : Prop := 0 ≤ fc.connWindow ∧ fc.connWindow ≤ h2MaxWindow

theorem follow_window (hfc : fc.Open) (f : Frame) :
    (fc.follow f).connWindow = min (h2MaxWindow : Int) (fc.connWindow + windowIncrement f) := by
  obtain ⟨-, hmax⟩ := hfc
  have hkept : fc.connWindow = min (h2MaxWindow : Int) (fc.connWindow + (0 : Nat)) := by omega
  unfold H2Flow.follow windowIncrement
  by_cases hwindow : f.kind = h2WindowUpdateFrame
  · rw [if_pos hwindow]
    by_cases hvalid : f.sid.toNat &&& h2MaxWindow = 0 ∧ f.payload.length = 4
    · rw [if_neg (by tauto), if_pos ⟨hwindow, hvalid⟩]
      simp only
      split <;> omega
    · rw [if_pos (by tauto), if_neg fun hall ↦ hvalid hall.2]
      exact hkept
  · rw [if_neg hwindow, if_neg (c := _ ∧ _ ∧ _) fun hall ↦ hwindow hall.1]
    split
    · exact hkept
    · exact hkept

theorem foldl_follow_window (hfc : fc.Open) (fs : List Frame) :
    (fs.foldl H2Flow.follow fc).Open ∧ fc.connWindow ≤ (fs.foldl H2Flow.follow fc).connWindow ∧
      (fs.foldl H2Flow.follow fc).connWindow ≤ fc.connWindow + (fs.map windowIncrement).sum := by
  induction fs generalizing fc with
  | nil => exact ⟨hfc, Int.le_refl _, by simp⟩
  | cons f fs ih =>
    have hf := follow_window hfc f
    obtain ⟨h0, hmax⟩ := hfc
    obtain ⟨hopen, hle, hsum⟩ := @ih (fc.follow f) ⟨by omega, by omega⟩
    rw [List.foldl_cons, List.map_cons, List.sum_cons]
    exact ⟨hopen, by omega, by omega⟩

/-- What following a message does to the connection level window. -/
theorem trackFlow_window (msg : SkMsg) (hfc : fc.Open) :
    (trackFlow h msg fc).2.Open ∧ fc.connWindow ≤ (trackFlow h msg fc).2.connWindow ∧
      (trackFlow h msg fc).2.connWindow ≤ fc.connWindow + credit msg.bytes := by
  obtain ⟨fs, hsub, hwindow⟩ := trackFlow_follows (h := h) msg fc
  obtain ⟨hopen, hle, hsum⟩ := foldl_follow_window hfc fs
  have hcredit : (fs.map windowIncrement).sum ≤ credit msg.bytes :=
    (hsub.map windowIncrement).sum_le_sum fun _ _ ↦ Nat.zero_le _
  unfold H2Flow.Open at hopen ⊢
  rw [hwindow]
  exact ⟨hopen, hle, by omega⟩

/-- The frames of a message can be read. -/
def Helpers.PullsFrames (h : Helpers) : Prop :=
  ∀ i < maxFlowFrames, h.ok (.pullFrameHeader i) ∧ h.ok (.pullFlowFrame i)

instance (h : Helpers) : Decidable h.PullsFrames :=
  inferInstanceAs (Decidable (∀ i < maxFlowFrames, _))

/-- As far as they can be read, the first frames of a message are followed. -/
theorem trackFlow_whole (hpulls : h.PullsFrames) {fs : List Frame} (hfs : msg.bytes = encodeAll fs)
    (fc : H2Flow) :
    (trackFlow h msg fc).2 = (fs.take maxFlowFrames).foldl H2Flow.follow fc := by
  rw [trackFlow_eq]
  generalize hrun : Loops.run maxFlowFrames _ (msg, fc, 0) = r
  have hfollows : Loops.Ends (fun t : SkMsg × H2Flow × Nat ↦
      t.2.1 = (fs.take maxFlowFrames).foldl H2Flow.follow fc) (fun _ ↦ False) r := by
    rw [← hrun]
    refine Loops.run_rule (I := fun i t ↦ t.1.bytes = msg.bytes ∧ ∃ done rest, fs = done ++ rest ∧
      done.length = i ∧ t.2.2 = (encodeAll done).length ∧
      t.2.1 = done.foldl H2Flow.follow fc) ⟨rfl, [], fs, rfl, rfl, rfl, rfl⟩ ?_ ?_
    · rintro i ⟨m, fc', off⟩ hi ⟨hbytes, done, rest, hdone, hlen, hoff, hfc⟩
      simp only at hbytes hoff hfc
      have hdrop : m.bytes.drop off = encodeAll rest := by
        rw [hbytes, hfs, hdone, encodeAll_append, hoff, List.drop_left]
      cases rest with
      | nil =>
        -- all frames are gone through
        have hturn := flowTurn_part m h off fc' (by rw [hdrop]; rfl) i
        have hsize : m.size = off := by
          rw [SkMsg.size, hbytes, hfs, hdone, List.append_nil, hoff]
        rw [List.append_nil] at hdone
        cases ht : flowTurn h i (m, fc', off) with
        | next t =>
          rw [ht] at hturn
          have hnine := hturn.2.2.2
          omega
        | stop t =>
          rw [ht] at hturn
          show t.2.1 = _
          rw [hturn.1, hfc, hdone, List.take_of_length_le (by omega)]
        | ret t =>
          rw [ht] at hturn
          exact hturn
      | cons f rest =>
        have hturn := flowTurn_whole m h off fc'
          (show f.encode <+: m.bytes.drop off from ⟨_, by rw [hdrop, encodeAll_cons]⟩) i
        rw [if_pos (hpulls i hi).1] at hturn
        obtain ⟨m', hsame, hnext⟩ := hturn
        rw [hnext, if_pos (hpulls i hi).2]
        refine ⟨hsame.trans hbytes, done ++ [f], rest, ?_, ?_, ?_, ?_⟩
        · rw [hdone, List.append_assoc, List.singleton_append]
        · rw [List.length_append, hlen, List.length_singleton]
        · simp [hoff]
        · simp [hfc]
    · rintro t ⟨-, done, rest, hdone, hlen, -, hfc⟩
      rw [hfc, hdone, List.take_left' hlen]
  cases r with
  | ok t => exact hfollows
  | error _ => exact hfollows.elim

end HyperFastPath.FastPath
