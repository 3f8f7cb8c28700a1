import HyperFastPath.Listener.Chunks

/-!
# The filter over whole frames

What the scanner puts out for a stream of whole frames: the reports and updates are taken out,
everything else passes unchanged and in order.
-/

namespace HyperFastPath.Listener

open Bytes Http2

def frameEvents (f : Frame) : List Event :=
  if f.kind = fcSyncFrameType then [.flow (UInt32.ofNat (ofBe f.payload))]
  else if f.kind = dtSyncFrameType then [.sync f.payload]
  else f.encode.map .byte

/-- A frame that does not make the scanner give up on the framing. -/
def Accepted (f : Frame) : Prop :=
  (f.kind = fcSyncFrameType → f.payload.length = fcSyncBodyLen) ∧
    (f.kind = dtSyncFrameType → f.payload.length ≤ maxSyncFrame)

instance (f : Frame) : Decidable (Accepted f) := inferInstanceAs (Decidable (_ ∧ _))

/-- An update that is only complete once there is a byte behind it. -/
def isEmptySync (f : Frame) : Bool := f.kind == dtSyncFrameType && f.payload.isEmpty

/-! ## 1. One frame -/

theorem dt_ne_fc : dtSyncFrameType ≠ fcSyncFrameType := by decide

theorem ofHeader_header (f : Frame) :
    State.ofHeader f.header =
      if f.kind = fcSyncFrameType then
        if f.payload.length ≠ fcSyncBodyLen then (.blind, []) else (.flow ⟨[], by decide⟩, [])
      else if f.kind ≠ dtSyncFrameType then (.payload f.payload.length, f.header)
      else if f.payload.length > maxSyncFrame then (.blind, [])
      else (.sync [] f.payload.length, []) := by
  simp only [State.ofHeader, header_len, header_kind]

theorem walk_encode (f : Frame) :
    walk .atHeader f.encode =
      ((walk (State.ofHeader f.header).1 f.payload).1,
        (State.ofHeader f.header).2.map .byte ++ (walk (State.ofHeader f.header).1 f.payload).2) := by
  rw [Frame.encode, walk_append]
  have h := @walk_header_full ⟨[], by decide⟩ f.header (by simp [frameHeaderLen])
  rw [List.nil_append] at h
  rw [State.atHeader, h]

theorem walk_encode_flow {f : Frame} (hk : f.kind = fcSyncFrameType)
    (hlen : f.payload.length = fcSyncBodyLen) :
    walk .atHeader f.encode = (.atHeader, [.flow (UInt32.ofNat (ofBe f.payload))]) := by
  have h := @walk_flow_full ⟨[], by decide⟩ f.payload (by simpa using hlen)
  rw [walk_encode, ofHeader_header, if_pos hk, if_neg (not_not.mpr hlen)]
  simp only [h, List.map_nil, List.nil_append]

theorem walk_encode_sync {f : Frame} (hk : f.kind = dtSyncFrameType)
    (hlen : f.payload.length ≤ maxSyncFrame) :
    walk .atHeader f.encode =
      if f.payload = [] then (.sync [] 0, []) else (.atHeader, [.sync f.payload]) := by
  rw [walk_encode, ofHeader_header, if_neg (by rw [hk]; decide), if_neg (not_not.mpr hk),
    if_neg (by omega)]
  split
  · rename_i hp
    simp [hp]
  · rename_i hp
    simp [walk_sync_full hp]

theorem walk_encode_other {f : Frame} (hf : f.kind ≠ fcSyncFrameType)
    (hd : f.kind ≠ dtSyncFrameType) :
    walk .atHeader f.encode =
      (if f.payload = [] then .payload 0 else .atHeader, f.encode.map .byte) := by
  rw [walk_encode, ofHeader_header, if_neg hf, if_pos hd]
  split
  · rename_i hp
    simp [hp, Frame.encode]
  · rename_i hp
    simp [walk_payload hp le_rfl, Frame.encode]

/-- An accepted frame leads back to the start of a frame, and once that is settled it has been put
out for what it is. -/
theorem walk_frame {f : Frame} (h : Accepted f) :
    (walk .atHeader f.encode).1.settle =
        (.atHeader, if isEmptySync f then [.sync []] else []) ∧
      (walk .atHeader f.encode).2 ++ (walk .atHeader f.encode).1.settle.2 = frameEvents f := by
  have hat : State.settle .atHeader = (.atHeader, []) := rfl
  by_cases hf : f.kind = fcSyncFrameType
  · have hne : isEmptySync f = false := by
      simp [isEmptySync, hf, dt_ne_fc.symm]
    rw [walk_encode_flow hf (h.1 hf), frameEvents, if_pos hf, hat, hne]
    exact ⟨rfl, rfl⟩
  · by_cases hd : f.kind = dtSyncFrameType
    · rw [walk_encode_sync hd (h.2 hd), frameEvents, if_neg hf, if_pos hd]
      by_cases hp : f.payload = []
      · simp [hp, hd, isEmptySync, State.settle]
      · simp [hp, isEmptySync, hat]
    · have hne : isEmptySync f = false := by simp [isEmptySync, hd]
      rw [walk_encode_other hf hd, frameEvents, if_neg hf, if_neg hd, hne]
      -- without a payload the frame is settled only now
      by_cases hp : f.payload = []
      · simp [hp, State.settle]
      · simp [hp, hat]

/-! ## 2. Sequences of frames -/

theorem walk_frames {fs : List Frame} (h : ∀ f ∈ fs, Accepted f) :
    (walk .atHeader (encodeAll fs)).1.settle =
        (.atHeader, if fs.getLast?.any isEmptySync then [.sync []] else []) ∧
      (walk .atHeader (encodeAll fs)).2 ++ (walk .atHeader (encodeAll fs)).1.settle.2 =
        fs.flatMap frameEvents := by
  induction fs with
  | nil => exact ⟨rfl, rfl⟩
  | cons f fs ih =>
    obtain ⟨hset, hev⟩ := walk_frame (h f List.mem_cons_self)
    by_cases hfs : fs = []
    · subst hfs
      simpa using ⟨hset, hev⟩
    -- the next frame's first byte settles the one before it
    · obtain ⟨ihset, ihev⟩ := ih fun g hg ↦ h g (List.mem_cons_of_mem f hg)
      rw [encodeAll_cons, walk_append, walk_settle _ (encodeAll_ne_nil hfs), hset]
      rw [hset] at hev
      refine ⟨?_, ?_⟩
      · simp only [ihset, List.getLast?_cons_of_ne_nil hfs]
      · simp only [List.append_assoc, ihev, List.flatMap_cons, ← hev]

/-- Between two frames, frames that do not end in an update to be settled are put out for what they
are. -/
theorem walk_whole {s : State} (hs : s.settle = (.atHeader, [])) {fs : List Frame}
    (h : ∀ f ∈ fs, Accepted f) (hlast : fs.getLast?.any isEmptySync = false) :
    (walk s (encodeAll fs)).1.settle = (.atHeader, []) ∧
      (walk s (encodeAll fs)).2 = fs.flatMap frameEvents := by
  by_cases hfs : fs = []
  · subst hfs
    exact ⟨hs, rfl⟩
  · obtain ⟨hset, hev⟩ := walk_frames h
    rw [hlast, if_neg Bool.false_ne_true] at hset
    rw [hset, List.append_nil] at hev
    rw [walk_settle s (encodeAll_ne_nil hfs), hs, List.nil_append]
    exact ⟨hset, hev⟩

/-! ## 3. What the filter says of a whole stream -/

def clientStream (fs : List Frame) : List UInt8 := preface ++ encodeAll fs

def otherFrames (fs : List Frame) : List Frame :=
  fs.filter fun f ↦ f.kind ≠ fcSyncFrameType ∧ f.kind ≠ dtSyncFrameType

/-- The payloads of the update frames, but for an empty one at the very end. -/
def updateBlocks (fs : List Frame) : List (List UInt8) :=
  let blocks := (fs.filter (·.kind = dtSyncFrameType)).map Frame.payload
  if fs.getLast?.any isEmptySync then blocks.dropLast else blocks

def reportTotal (fs : List Frame) : Nat :=
  ((fs.filter (·.kind = fcSyncFrameType)).map fun f ↦ ofBe f.payload).sum

theorem walk_preface_full (rest : List UInt8) :
    walk Scanner.new.state (preface ++ rest) =
      ((walk .atHeader rest).1, preface.map .byte ++ (walk .atHeader rest).2) := by
  rw [walk_append, Scanner.new, walk_preface (by decide)]
  rfl

theorem passed_frameEvents (fs : List Frame) :
    passed (fs.flatMap frameEvents) = encodeAll (otherFrames fs) := by
  induction fs with
  | nil => rfl
  | cons f fs ih =>
    rw [List.flatMap_cons, passed_append, ih, frameEvents]
    simp only [otherFrames, List.filter_cons]
    by_cases hf : f.kind = fcSyncFrameType
    · simp [hf]
    · by_cases hd : f.kind = dtSyncFrameType
      · simp [hd, dt_ne_fc]
      · simp [hf, hd]

theorem updates_frameEvents (fs : List Frame) :
    updates (fs.flatMap frameEvents) =
      (fs.filter (·.kind = dtSyncFrameType)).map Frame.payload := by
  induction fs with
  | nil => rfl
  | cons f fs ih =>
    rw [List.flatMap_cons, updates_append, ih, List.filter_cons, frameEvents]
    by_cases hf : f.kind = fcSyncFrameType
    · simp [hf, dt_ne_fc.symm]
    · by_cases hd : f.kind = dtSyncFrameType
      · simp [hd, dt_ne_fc]
      · simp [hf, hd]

theorem reported_frameEvents (fs : List Frame) :
    (reported (fs.flatMap frameEvents)).toNat = reportTotal fs % 2 ^ 32 := by
  induction fs with
  | nil => rfl
  | cons f fs ih =>
    rw [List.flatMap_cons, reported_append, UInt32.toNat_add, ih, frameEvents]
    simp only [reportTotal, List.filter_cons]
    by_cases hf : f.kind = fcSyncFrameType
    · simp [hf]
    · by_cases hd : f.kind = dtSyncFrameType
      · simp [hd, dt_ne_fc]
      · simp [hf, hd]

/-- The update at the very end of a stream stays with the scanner. -/
theorem updates_walk_frames {fs : List Frame} (h : ∀ f ∈ fs, Accepted f) :
    updates (walk .atHeader (encodeAll fs)).2 = updateBlocks fs := by
  obtain ⟨hset, hev⟩ := walk_frames h
  have hup := congrArg updates hev
  rw [updates_append, updates_frameEvents, hset] at hup
  rw [updateBlocks, ← hup]
  split <;> simp

theorem passed_walk_frames {fs : List Frame} (h : ∀ f ∈ fs, Accepted f) :
    passed (walk .atHeader (encodeAll fs)).2 = encodeAll (otherFrames fs) := by
  obtain ⟨hset, hev⟩ := walk_frames h
  rw [← passed_frameEvents, ← hev, passed_append, hset]
  split <;> simp

theorem reported_walk_frames {fs : List Frame} (h : ∀ f ∈ fs, Accepted f) :
    (reported (walk .atHeader (encodeAll fs)).2).toNat = reportTotal fs % 2 ^ 32 := by
  obtain ⟨hset, hev⟩ := walk_frames h
  rw [← reported_frameEvents, ← hev, reported_append, hset]
  split <;> simp

/-- A stream that neither is a part of the preface nor starts with it. -/
def Diverges (stream : List UInt8) : Prop := ¬ stream <+: preface ∧ ¬ preface <+: stream

theorem walk_diverges {stream : List UInt8} (h : Diverges stream) :
    walk Scanner.new.state stream = (.blind, stream.map .byte) := by
  apply walk_preface_diverges
  intro he
  simp only [Fin.val_zero, Nat.sub_zero, List.drop_zero] at he
  by_cases hle : stream.length ≤ preface.length
  · rw [Nat.min_eq_right hle, List.take_length] at he
    exact h.1 (he ▸ List.take_prefix _ _)
  · rw [Nat.min_eq_left (by omega), List.take_length] at he
    exact h.2 (he ▸ List.take_prefix _ _)

/-- The scanner computes the same filter for every chunking: the result is that of the whole stream
in one chunk.  On a client's stream of accepted frames it passes on exactly the other frames and
takes out the updates and the reports; a stream that is not HTTP/2 passes as it is. -/
theorem chunks_filter (cs : List (List UInt8)) :
    Feed.new.chunks cs = Feed.new.chunks [cs.flatten] ∧
      (∀ fs : List Frame, (∀ f ∈ fs, Accepted f) → cs.flatten = clientStream fs →
        (Feed.new.chunks cs).scanner.out = clientStream (otherFrames fs) ∧
          (Feed.new.chunks cs).taken = updateBlocks fs ∧
          (Feed.new.chunks cs).scanner.sent.toNat = reportTotal fs % 2 ^ 32) ∧
      (Diverges cs.flatten →
        (Feed.new.chunks cs).scanner.out = cs.flatten ∧ (Feed.new.chunks cs).taken = [] ∧
          (Feed.new.chunks cs).scanner.sent = 0) := by
  have hnew : Feed.new = Feed.new.after (Scanner.new.state, []) := rfl
  -- however the stream is cut, this is the filter run over it
  have hrun (cs : List (List UInt8)) :
      Feed.new.chunks cs = Feed.new.after (walk Scanner.new.state cs.flatten) := by
    conv_lhs => rw [hnew, Feed.chunks_after]
  refine ⟨?_, ?_, ?_⟩
  · rw [hrun, hrun, List.flatten_singleton]
  · intro fs hfs hstream
    rw [hrun, hstream, clientStream, walk_preface_full]
    simp only [Feed.after, passed_append, passed_bytes, updates_append, updates_bytes,
      reported_append, reported_bytes]
    refine ⟨?_, ?_, ?_⟩
    · rw [passed_walk_frames hfs]
      rfl
    · rw [updates_walk_frames hfs]
      rfl
    · have hz : Feed.new.scanner.sent = 0 := rfl
      rw [hz, UInt32.zero_add, UInt32.zero_add, reported_walk_frames hfs]
  · intro hdiv
    rw [hrun, walk_diverges hdiv]
    simp only [Feed.after, passed_bytes, updates_bytes, reported_bytes]
    exact ⟨rfl, rfl, rfl⟩

/-- A report, an update and a request, cut in the middle of the update. -/
theorem chunks_filter_request :
    (Feed.new.chunks [preface ++ [0, 0, 4, 0xFA, 0, 0, 0, 0, 0, 0, 0, 1, 2, 0, 0, 2, 0xFB, 0],
        [0, 0, 0, 0, 0x40, 0x41, 0, 0, 1, 1, 5, 0, 0, 0, 1, 0x82]]).scanner.out =
      preface ++ [0, 0, 1, 1, 5, 0, 0, 0, 1, 0x82] := by
  have h := (chunks_filter
    [preface ++ [0, 0, 4, 0xFA, 0, 0, 0, 0, 0, 0, 0, 1, 2, 0, 0, 2, 0xFB, 0],
      [0, 0, 0, 0, 0x40, 0x41, 0, 0, 1, 1, 5, 0, 0, 0, 1, 0x82]]).2.1
    [⟨0xFA, 0, 0, [0, 0, 1, 2], by decide⟩, ⟨0xFB, 0, 0, [0x40, 0x41], by decide⟩,
      ⟨1, 5, 1, [0x82], by decide⟩] (by decide) (by decide)
  exact h.1.trans (by decide)

end HyperFastPath.Listener
