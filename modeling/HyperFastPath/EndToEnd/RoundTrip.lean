import HyperFastPath.FastPath.Pipe
import HyperFastPath.Listener.Frames

/-!
# From one side to the other

What the fast path puts in front of a message, as the scanner and the HPACK decoder in user space
take it apart again.
-/

namespace HyperFastPath.EndToEnd

open Bytes Http2 FastPath Listener

/-- An entry of the mirrored table as the decoder knows it. -/
def toField (hf : FastPath.HeaderField) : Hpack.Field :=
  ⟨⟨hf.keyHuff, hf.key⟩, ⟨hf.valHuff, hf.val⟩⟩

def reportFrame (sent : UInt32) : Frame :=
  ⟨Listener.fcSyncFrameType, 0, 0, toBe 4 sent.toNat, by rw [toBe_length]; decide⟩

def updateFrame (block : List UInt8) (h : block.length < 2 ^ 24) : Frame :=
  ⟨Listener.dtSyncFrameType, 0, 0, block, h⟩

/-! ## 1. The block -/

/-- The octet in front of a string, as the fast path and as RFC 7541 put it together. -/
theorem lenOctet_eq (huff : Bool) {n : Nat} (h : n ≤ maxSyncField) :
    (if huff then 0x80 else 0) ||| UInt8.ofNat n =
      UInt8.ofNat ((if huff then 128 else 0) + n) := by
  -- few enough lengths to try them all
  have hall : ∀ n < maxSyncField + 1, ∀ huff : Bool,
      (if huff then 0x80 else 0) ||| UInt8.ofNat n =
        UInt8.ofNat ((if huff then 128 else 0) + n) := by decide +kernel
  exact hall n (by omega) huff

theorem literal_eq_newLiteral {hf : FastPath.HeaderField} (h : hf.Fits) :
    hf.literal = Hpack.newLiteral (toField hf) := by
  obtain ⟨-, hkey, hval⟩ := h
  rw [HeaderField.literal, lenOctet_eq hf.keyHuff hkey, lenOctet_eq hf.valHuff hval]
  simp only [Hpack.newLiteral, Hpack.shortStr, List.cons_append, List.nil_append,
    List.append_assoc]
  rfl

theorem syncBlock_eq_newLiterals {table : List FastPath.HeaderField} (h : ∀ hf ∈ table, hf.Fits) :
    syncBlock table = (table.map toField).reverse.flatMap Hpack.newLiteral := by
  rw [syncBlock, ← List.map_reverse, List.flatMap_map]
  refine List.flatMap_congr fun hf hmem ↦ ?_
  exact literal_eq_newLiteral (h hf (List.mem_reverse.mp hmem))

/-- Replayed from an empty table, the block gives the mirrored one. -/
theorem decodeBlock_syncBlock {table : List FastPath.HeaderField} (h : ∀ hf ∈ table, hf.Fits)
    (len : Hpack.Str → Nat) (static : Nat → Option Hpack.Field) {capacity : Nat}
    (hcap : Hpack.totalSize len (table.map toField) ≤ capacity) :
    Hpack.decodeBlock len static ⟨[], capacity⟩ (syncBlock table) =
      some ((table.map toField).reverse, ⟨table.map toField, capacity⟩) := by
  -- the block lists the entries from the oldest on
  have hsize : Hpack.totalSize len (table.map toField).reverse =
      Hpack.totalSize len (table.map toField) := by
    simp only [Hpack.totalSize, List.map_reverse, List.sum_reverse]
  have hdecode := Hpack.decodeBlock_newLiterals len static (table.map toField).reverse
    ⟨[], capacity⟩ ?_ ?_
  · rw [syncBlock_eq_newLiterals h, hdecode]
    simp
  · intro f hf
    obtain ⟨hf', hmem, rfl⟩ := List.mem_map.mp (List.mem_reverse.mp hf)
    obtain ⟨-, hkey, hval⟩ := h hf' hmem
    simp only [maxSyncField] at hkey hval
    exact ⟨by simp only [toField]; omega, by simp only [toField]; omega⟩
  · simpa [hsize, Hpack.totalSize] using hcap

/-! ## 2. The frames -/

theorem reportFrame_encode (sent : UInt32) : (reportFrame sent).encode = fcSyncFrame sent := by
  have hlen : toBe 3 (toBe 4 sent.toNat).length = [0, 0, 4] := by rw [toBe_length]; decide
  have hsid : toBe 4 (0 : UInt32).toNat = [0, 0, 0, 0] := by decide
  simp only [reportFrame, Frame.encode, Frame.header, hlen, hsid]
  simp only [toBe, fcSyncFrame, List.cons_append, List.nil_append]
  rfl

theorem updateFrame_encode {block : List UInt8} (h : block.length < 2 ^ 24) :
    (updateFrame block h).encode = dtSyncFrame block := by
  simp [updateFrame, Frame.encode, Frame.header, dtSyncFrame, dtSyncHeader, toBe]
  decide

theorem reportFrame_events (sent : UInt32) : frameEvents (reportFrame sent) = [.flow sent] := by
  have hbe : ofBe (toBe 4 sent.toNat) = sent.toNat := ofBe_toBe sent.toNat_lt
  simp only [frameEvents, reportFrame, if_true, hbe, UInt32.ofNat_toNat]

theorem updateFrame_events {block : List UInt8} (h : block.length < 2 ^ 24) :
    frameEvents (updateFrame block h) = [.sync block] := by
  rw [frameEvents, updateFrame, if_neg dt_ne_fc, if_pos rfl]

/-- A frame of the client's own. -/
def Foreign (f : Frame) : Prop :=
  f.kind ≠ Listener.fcSyncFrameType ∧ f.kind ≠ Listener.dtSyncFrameType

instance (f : Frame) : Decidable (Foreign f) := inferInstanceAs (Decidable (_ ∧ _))

theorem foreign_accepted {f : Frame} (h : Foreign f) : Accepted f :=
  ⟨fun hk ↦ absurd hk h.1, fun hk ↦ absurd hk h.2⟩

theorem foreign_events {fs : List Frame} (h : ∀ f ∈ fs, Foreign f) :
    fs.flatMap frameEvents = (encodeAll fs).map .byte := by
  rw [encodeAll, List.map_flatMap]
  refine List.flatMap_congr fun f hf ↦ ?_
  rw [frameEvents, if_neg (h f hf).1, if_neg (h f hf).2]

theorem reportFrame_accepted (sent : UInt32) : Accepted (reportFrame sent) :=
  ⟨fun _ ↦ toBe_length 4 _, fun hk ↦ absurd hk.symm dt_ne_fc⟩

theorem updateFrame_accepted {block : List UInt8} (h : block.length < 2 ^ 24)
    (hle : block.length ≤ maxSyncFrame) : Accepted (updateFrame block h) :=
  ⟨fun hk ↦ absurd hk dt_ne_fc, fun _ ↦ hle⟩

/-- A report, where there is one, is a frame the filter takes for a count. -/
theorem report_frames (report : Option UInt32) :
    ∃ gs, report.elim [] fcSyncFrame = encodeAll gs ∧ (∀ g ∈ gs, Accepted g) ∧
      gs.flatMap frameEvents = report.toList.map .flow := by
  cases report with
  | none => exact ⟨[], rfl, by simp, rfl⟩
  | some sent =>
    exact ⟨[reportFrame sent], by simp [reportFrame_encode], by simp [reportFrame_accepted],
      by simp [reportFrame_events]⟩

theorem update_frames {block : Option (List UInt8)}
    (hblock : ∀ b ∈ block, b.length ≤ maxSyncFrame) :
    ∃ gs, block.elim [] dtSyncFrame = encodeAll gs ∧ (∀ g ∈ gs, Accepted g) ∧
      gs.flatMap frameEvents = block.toList.map .sync := by
  cases block with
  | none => exact ⟨[], rfl, by simp, rfl⟩
  | some b =>
    have hle := hblock b rfl
    have hlt : b.length < 2 ^ 24 := by
      simp only [maxSyncFrame] at hle
      omega
    exact ⟨[updateFrame b hlt], by simp [updateFrame_encode],
      by simp [updateFrame_accepted hlt hle], by simp [updateFrame_events]⟩

/-- What the filter makes of a message with frames in front of it. -/
theorem walk_front {s : State} (hs : s.settle = (.atHeader, [])) {front fs : List Frame}
    (hfront : ∀ f ∈ front, Accepted f) (hne : fs ≠ []) (hfs : ∀ f ∈ fs, Foreign f) :
    (walk s (encodeAll (front ++ fs))).1.settle = (.atHeader, []) ∧
      (walk s (encodeAll (front ++ fs))).2 =
        front.flatMap frameEvents ++ (encodeAll fs).map .byte := by
  have hall : ∀ f ∈ front ++ fs, Accepted f := by
    intro f hf
    rcases List.mem_append.mp hf with hf | hf
    · exact hfront f hf
    · exact foreign_accepted (hfs f hf)
  -- the last frame is one of the client's, so no update is left unsettled
  have hlast : (front ++ fs).getLast?.any isEmptySync = false := by
    rw [List.getLast?_append_of_ne_nil _ hne, List.getLast?_eq_getLast_of_ne_nil hne]
    simp [isEmptySync, (hfs _ (List.getLast_mem hne)).2]
  have hwalk := walk_whole hs hall hlast
  rwa [List.flatMap_append, foreign_events hfs] at hwalk

theorem walk_handOver {s : State} (hs : s.settle = (.atHeader, [])) {block : List UInt8}
    (hblock : block.length ≤ maxSyncFrame) (sent : UInt32) {fs : List Frame} (hne : fs ≠ [])
    (hfs : ∀ f ∈ fs, Foreign f) :
    (walk s (fcSyncFrame sent ++ (dtSyncFrame block ++ encodeAll fs))).2 =
      [.flow sent] ++ [.sync block] ++ (encodeAll fs).map .byte := by
  have hlt : block.length < 2 ^ 24 := by
    simp only [maxSyncFrame] at hblock
    omega
  have hfront : ∀ f ∈ [reportFrame sent, updateFrame block hlt], Accepted f := by
    simp only [List.mem_cons, List.not_mem_nil, or_false]
    rintro f (rfl | rfl)
    · exact reportFrame_accepted sent
    · exact updateFrame_accepted hlt hblock
  have hwalk := (walk_front hs hfront hne hfs).2
  simp only [List.cons_append, List.nil_append, encodeAll_cons, reportFrame_encode,
    updateFrame_encode, List.flatMap_cons, List.flatMap_nil, reportFrame_events,
    updateFrame_events] at hwalk
  exact hwalk

/-! ## 3. The scanner -/

/-- The scanner takes a message apart as it was put together: nothing of it passes before the block
is taken, and then all of what was behind the frames does. -/
structure Delivers (s : Scanner) (wire : List UInt8) (sent : UInt32) (block rest : List UInt8) :
    Prop where
  waits : ∀ cs : List (List UInt8), cs.flatten = wire →
    (cs.foldl Scanner.scan s).blocks = [block] ∧ (cs.foldl Scanner.scan s).out = s.out ∧
      (cs.foldl Scanner.scan s).sent = s.sent + sent
  passes : ∀ (f : Feed) (css : List (List (List UInt8))), f.scanner = s →
    css.flatten.flatten = wire →
    (css.foldl Feed.batch f).taken = f.taken ++ [block] ∧
      (css.foldl Feed.batch f).scanner.out = s.out ++ rest ∧
      (css.foldl Feed.batch f).scanner.sent = s.sent + sent

/-- A scan that comes to a stop stops at the first update there is. -/
theorem events_of_stop {es es' rest : List Event} {sent : UInt32} {block b : List UInt8}
    (h : es ++ [.sync b] ++ rest = [.flow sent] ++ [.sync block] ++ es') (hes : updates es = []) :
    es = [.flow sent] ∧ b = block := by
  cases es with
  | nil => simp at h
  | cons e es =>
    simp only [List.cons_append, List.nil_append, List.cons.injEq] at h
    obtain ⟨rfl, h⟩ := h
    cases es with
    | nil =>
      simp only [List.nil_append, List.cons_append, List.cons.injEq, Event.sync.injEq] at h
      exact ⟨rfl, h.1⟩
    | cons e es =>
      simp only [List.cons_append, List.cons.injEq] at h
      obtain ⟨rfl, -⟩ := h
      simp [updates, Event.sync?] at hes

theorem delivers_of_walk {s : Scanner} (hb : s.blocks = []) (hh : s.hold = []) {wire : List UInt8}
    {sent : UInt32} {block rest : List UInt8}
    (hwalk : (walk s.state wire).2 = [.flow sent] ++ [.sync block] ++ rest.map .byte) :
    Delivers s wire sent block rest where
  waits := by
    rintro cs rfl
    obtain ⟨es, hrun, hout, hblocks, hsent, hstop⟩ := scans_chunks s hb hh cs
    rw [hrun] at hwalk
    -- had the scan not stopped, it would have come past an update without one
    rcases hstop with ⟨hup, hhold⟩ | ⟨es', b, rfl, hup, -⟩
    · have hall := congrArg updates hwalk
      simp only [hhold, walk_nil, updates_append, hup, updates_nil, updates_flow, updates_sync,
        updates_bytes] at hall
      cases hall
    · obtain ⟨rfl, rfl⟩ := events_of_stop hwalk hup
      rw [hblocks, hout, hsent, hb]
      simp only [passed_append, updates_append, reported_append, passed_flow, updates_flow,
        reported_flow, passed_sync, updates_sync, reported_sync, List.append_nil, List.nil_append,
        UInt32.add_zero, and_self]
  passes := by
    rintro f css rfl hwire
    -- the reader has nothing to catch up on, so it is where it has just been started
    have hfeed : f.after (f.scanner.state, []) = f := by
      obtain ⟨taken, state, out, hold, blocks, total⟩ := f
      simp only at hb hh
      simp [Feed.after, hb, hh]
    have hrun := Feed.batches_after f f.scanner.state css
    rw [hfeed, hwire] at hrun
    rw [hrun]
    simp only [Feed.after, hwalk, passed_append, updates_append, reported_append, passed_flow,
      updates_flow, reported_flow, passed_sync, updates_sync, reported_sync, passed_bytes,
      updates_bytes, reported_bytes, List.append_nil, List.nil_append, UInt32.add_zero, and_self]

/-! ## 4. The round trip -/

variable {lim : Limits} {h : Helpers} {table : List FastPath.HeaderField}

def handOverBytes (lim : Limits) (h : Helpers) (table : List FastPath.HeaderField) (msg : SkMsg)
    (sent : UInt32) : List UInt8 :=
  (prependFcSync h (prependDtSync lim h table msg table.length).2 sent).2.bytes

theorem handOverBytes_eq (hok : h.AllOk) (hr : Replayable lim table table.length) (msg : SkMsg)
    (sent : UInt32) :
    0 ≤ (prependDtSync lim h table msg table.length).1 ∧
      0 ≤ (prependFcSync h (prependDtSync lim h table msg table.length).2 sent).1 ∧
      handOverBytes lim h table msg sent =
        fcSyncFrame sent ++ (dtSyncFrame (syncBlock table) ++ msg.bytes) := by
  obtain ⟨msg₁, hdt, hpre₁⟩ := prependDtSync_replayable hr h msg
  rw [if_pos ⟨hok _, hok _, hok _⟩] at hdt
  rw [replayPrefix_ok ⟨hok _, hok _, hok _⟩] at hpre₁
  have hbytes₁ := hpre₁.1
  obtain ⟨msg₂, hfc, hpre₂⟩ := prependFcSync_eq h msg₁ sent
  rw [if_pos ⟨hok _, hok _⟩] at hfc
  rw [reportPrefix, if_pos (hok _), if_pos (hok _)] at hpre₂
  have hbytes₂ := hpre₂.1
  rw [List.take_length] at hbytes₁
  simp only [handOverBytes, hdt, hfc, hbytes₂, hbytes₁, and_true]
  exact ⟨by omega, by omega⟩

/-- A table that can be spelled out arrives as it was: a scanner between two frames counts what was
sent, gets the one block and passes on the message, and the decoder makes the mirrored table of the
block. -/
theorem handOver_roundTrip (hok : h.AllOk) (hfits : ∀ hf ∈ table, hf.Fits)
    (hbody : wireLen table ≤ lim.maxSyncBody) (sent : UInt32) {msg : SkMsg} {fs : List Frame}
    (hne : fs ≠ []) (hfs : ∀ f ∈ fs, Foreign f) (hmsg : msg.bytes = encodeAll fs) {s : Scanner}
    (hstate : s.state.settle = (.atHeader, [])) (hblocks : s.blocks = []) (hhold : s.hold = []) :
    0 ≤ (prependDtSync lim h table msg table.length).1 ∧
      0 ≤ (prependFcSync h (prependDtSync lim h table msg table.length).2 sent).1 ∧
      Delivers s (handOverBytes lim h table msg sent) sent (syncBlock table) msg.bytes ∧
      ∀ (len : Hpack.Str → Nat) (static : Nat → Option Hpack.Field) (capacity : Nat),
        Hpack.totalSize len (table.map toField) ≤ capacity →
        Hpack.decodeBlock len static ⟨[], capacity⟩ (syncBlock table) =
          some ((table.map toField).reverse, ⟨table.map toField, capacity⟩) := by
  have hr : Replayable lim table table.length := by
    simpa [Replayable, Renderable] using ⟨hfits, hbody⟩
  obtain ⟨hdt, hfc, hbytes⟩ := handOverBytes_eq hok hr msg sent
  refine ⟨hdt, hfc, ?_, fun len static _ hcap ↦ decodeBlock_syncBlock hfits len static hcap⟩
  -- the scratch buffer is smaller than the largest update the scanner takes
  have hlen : (syncBlock table).length ≤ maxSyncFrame := by
    have hbuf := lim.maxSyncBody_le
    rw [syncBlock_length]
    simp only [maxSyncBuf, maxSyncFrame] at hbuf ⊢
    omega
  rw [hbytes, hmsg]
  exact delivers_of_walk hblocks hhold (walk_handOver hstate hlen sent hne hfs)

/-- A Huffman coded and a plain entry, seven bytes sent, a request, and a scanner behind a SETTINGS
frame without a payload. -/
theorem handOver_roundTrip_request :
    let table : List FastPath.HeaderField := [⟨[0x61], true, [], false⟩, ⟨[0x62], false, [0x63], true⟩]
    let msg : SkMsg := .ofBytes [0, 0, 1, 1, 5, 0, 0, 0, 3, 0x83]
    let s : Scanner := { Scanner.new with state := .payload 0 }
    Delivers s (handOverBytes exampleLimits allOk table msg 7) 7 (syncBlock table) msg.bytes ∧
      Hpack.decodeBlock (fun str ↦ str.octets.length) (fun _ ↦ none) ⟨[], 4096⟩ (syncBlock table) =
        some ((table.map toField).reverse, ⟨table.map toField, 4096⟩) := by
  intro table msg s
  have hall := @handOver_roundTrip exampleLimits allOk table (fun _ ↦ rfl) (by decide) (by decide) 7
    msg [⟨1, 5, 3, [0x83], by decide⟩] (by decide) (by decide) (by decide) s rfl rfl rfl
  exact ⟨hall.2.2.1, hall.2.2.2 _ _ _ (by decide)⟩

end HyperFastPath.EndToEnd
