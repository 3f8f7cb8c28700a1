import HyperFastPath.Listener.Handles
import HyperFastPath.Listener.Detection

/-!
# What a stream may hold

However a client sends and however slowly it is read, a `BeeperStream` keeps a bounded number of
bytes: it does not read on past an update that has not been taken or past bytes that have not been
handed out.
-/

namespace HyperFastPath.Listener

/-! ## 1. What the scanner holds -/

/-- Bytes of a header that may still be passed on. -/
def State.kept : State → Nat
  | .header buf => buf.1.length
  | _ => 0

/-- An update that is being collected will be no longer than what is accepted. -/
def State.Small : State → Prop
  | .sync block remaining => block.length + remaining ≤ maxSyncFrame
  | _ => True

/-- No update is longer than what is accepted. -/
def SmallUpdates (es : List Event) : Prop := ∀ block ∈ updates es, block.length ≤ maxSyncFrame

theorem kept_le (s : State) : s.kept ≤ 8 := by
  cases s with
  | header buf =>
    have hlt := buf.2
    simp only [frameHeaderLen] at hlt
    show buf.1.length ≤ 8
    omega
  | _ => exact Nat.zero_le 8

theorem ofHeader_small {hdr : List UInt8} (hlen : hdr.length ≤ frameHeaderLen) :
    (State.ofHeader hdr).1.Small ∧ (State.ofHeader hdr).1.kept = 0 ∧
      (State.ofHeader hdr).2.length ≤ frameHeaderLen := by
  unfold State.ofHeader
  simp only
  split
  · split <;> exact ⟨trivial, rfl, Nat.zero_le _⟩
  · split
    · exact ⟨trivial, rfl, hlen⟩
    · split
      · exact ⟨trivial, rfl, Nat.zero_le _⟩
      · rename_i hle
        refine ⟨?_, rfl, Nat.zero_le _⟩
        show 0 + Bytes.ofBe (hdr.take 3) ≤ maxSyncFrame
        omega

/-- What one state and some bytes lead to in another state: nothing grows but by the bytes. -/
structure Keeps (s : State) (n : Nat) (s' : State) (es : List Event) : Prop where
  small : s'.Small
  updates : SmallUpdates es
  passed : (passed es).length + s'.kept ≤ s.kept + n

theorem smallUpdates_nil : SmallUpdates [] := fun _ h ↦ absurd h List.not_mem_nil

/-- A byte passes. -/
theorem keeps_byte (s : State) {s' : State} (hsmall : s'.Small) (hkept : s'.kept = 0) (b : UInt8) :
    Keeps s 1 s' [.byte b] := by
  refine ⟨hsmall, smallUpdates_nil, ?_⟩
  show 1 + s'.kept ≤ s.kept + 1
  omega

/-- A byte does not pass. -/
theorem keeps_none (s : State) {s' : State} (hsmall : s'.Small) (hkept : s'.kept ≤ s.kept + 1)
    {es : List Event} (hes : passed es = []) (hup : SmallUpdates es) : Keeps s 1 s' es := by
  refine ⟨hsmall, hup, ?_⟩
  rw [hes, List.length_nil, Nat.zero_add]
  exact hkept

theorem consume_keeps {s : State} (hs : s.Small) (hsettled : s.settle = (s, [])) (b : UInt8) :
    Keeps s 1 (s.consume b).1 (s.consume b).2 := by
  cases s with
  | blind => apply keeps_byte <;> trivial
  | preface matched =>
    simp only [State.consume]
    split
    · split
      · apply keeps_byte <;> trivial
      · apply keeps_byte <;> trivial
    · apply keeps_byte <;> trivial
  | header buf =>
    have hbuf := buf.2
    simp only [State.consume]
    split
    · refine keeps_none _ ?_ ?_ rfl smallUpdates_nil
      · trivial
      show (buf.1 ++ [b]).length ≤ buf.1.length + 1
      simp
    · rename_i hfull
      -- the header is complete with this byte, and either passes as a whole or not at all
      have hlen : (buf.1 ++ [b]).length = frameHeaderLen := by
        rw [List.length_append, List.length_singleton] at hfull ⊢
        omega
      obtain ⟨hsmall, hkept, hpassed⟩ := ofHeader_small hlen.le
      refine ⟨hsmall, ?_, ?_⟩
      · rw [SmallUpdates, updates_bytes]
        exact smallUpdates_nil
      · rw [passed_bytes, hkept]
        show _ ≤ buf.1.length + 1
        rw [List.length_append, List.length_singleton] at hlen
        omega
  | payload remaining =>
    simp only [State.consume]
    split
    · apply keeps_byte <;> trivial
    · apply keeps_byte <;> trivial
  | flow buf =>
    simp only [State.consume]
    split
    · refine keeps_none _ ?_ (Nat.zero_le _) rfl smallUpdates_nil
      trivial
    · refine keeps_none _ ?_ (Nat.zero_le _) rfl smallUpdates_nil
      trivial
  | sync block remaining =>
    have hle : block.length + remaining ≤ maxSyncFrame := hs
    simp only [State.consume]
    split
    · refine keeps_none _ ?_ (Nat.zero_le _) rfl ?_
      · trivial
      intro block' hmem
      rw [updates_sync, List.mem_singleton] at hmem
      rw [hmem, List.length_append, List.length_singleton]
      -- an update that is complete has been settled
      have hpos : remaining ≠ 0 := by
        rintro rfl
        cases congrArg Prod.fst hsettled
      omega
    · refine keeps_none _ ?_ (Nat.zero_le _) rfl smallUpdates_nil
      show (block ++ [b]).length + (remaining - 1) ≤ maxSyncFrame
      rw [List.length_append, List.length_singleton]
      omega

theorem advance_keeps {s : State} (hs : s.Small) (b : UInt8) :
    Keeps s 1 (s.advance b).1 (s.advance b).2 := by
  unfold State.advance
  rcases settle_cases s with hsettled | rfl | ⟨block, rfl⟩
  · rw [hsettled]
    exact consume_keeps hs hsettled b
  · obtain ⟨hsmall, hup, hpassed⟩ := consume_keeps (s := .atHeader) trivial rfl b
    exact ⟨hsmall, hup, hpassed⟩
  · -- an update without a payload ends here
    obtain ⟨hsmall, hup, hpassed⟩ := consume_keeps (s := .atHeader) trivial rfl b
    refine ⟨hsmall, ?_, hpassed⟩
    intro block' hmem
    rcases List.mem_cons.mp hmem with rfl | hmem
    · exact hs
    · exact hup block' hmem

theorem walk_keeps {s : State} (hs : s.Small) (bs : List UInt8) :
    Keeps s bs.length (walk s bs).1 (walk s bs).2 := by
  induction bs generalizing s with
  | nil => exact ⟨hs, smallUpdates_nil, (Nat.zero_add _).le⟩
  | cons b bs ih =>
    obtain ⟨hsmall, hup, hpassed⟩ := advance_keeps hs b
    obtain ⟨hsmall', hup', hpassed'⟩ := ih hsmall
    rw [walk_cons]
    refine ⟨hsmall', ?_, ?_⟩
    · intro block hmem
      rw [updates_append] at hmem
      rcases List.mem_append.mp hmem with hmem | hmem
      · exact hup block hmem
      · exact hup' block hmem
    · simp only [passed_append, List.length_append, List.length_cons]
      omega

/-! ## 2. What a stream holds -/

/-- The bounds on what a scanner keeps. -/
structure Scanner.Bounded (s : Scanner) : Prop where
  state : s.state.Small
  out : s.out.length ≤ readChunk + 23
  hold : s.hold.length ≤ readChunk
  blocks : s.blocks.length ≤ 1
  small : ∀ block ∈ s.blocks, block.length ≤ maxSyncFrame

/-- What a scan of a chunk leaves, if what was scanned ahead of it has been handed out but for the
bytes of a preface. -/
theorem scan_bounded {s : Scanner} (hs : s.state.Small) (hb : s.blocks = []) (hh : s.hold = [])
    {input : List UInt8} (hout : s.out.length + s.state.kept ≤ 23)
    (hlen : input.length ≤ readChunk) : (s.scan input).Bounded := by
  have hp : s.isPending = false := by simp [Scanner.isPending, hb]
  obtain ⟨es, h⟩ := scan_scans hp hh input
  obtain ⟨hsmall, hup, hpassed⟩ := walk_keeps hs input
  rw [h.run] at hsmall hup hpassed
  -- what is held back is what follows an update, and so part of the chunk
  have hhold : (s.scan input).hold.length ≤ input.length := by
    by_cases hnone : (s.scan input).blocks = []
    · rw [h.hold_eq_nil hnone]
      exact Nat.zero_le _
    · have hscan : s.scan input = s.scanLoop input := by simp [Scanner.scan, hp]
      rw [hscan] at hnone ⊢
      have hlt := scanLoop_hold_lt s input hh hb hnone
      have hidle := s.state.idle_le_one
      omega
  refine ⟨?_, ?_, hhold.trans hlen, ?_, ?_⟩
  · rcases h.stop with ⟨-, hnil⟩ | ⟨-, -, -, -, hat⟩
    · rw [hnil] at hsmall
      exact hsmall
    · rw [hat]
      trivial
  · simp only [passed_append, List.length_append] at hpassed
    rw [h.out, List.length_append]
    omega
  · rw [h.blocks, hb, List.nil_append]
    rcases h.stop with ⟨hnil, -⟩ | ⟨es', block, rfl, hnil, -⟩
    · rw [hnil]
      exact Nat.zero_le 1
    · rw [updates_append, hnil]
      exact le_rfl
  · rw [h.blocks, hb, List.nil_append]
    intro block hmem
    apply hup
    rw [updates_append]
    exact List.mem_append_left _ hmem

theorem pollRead_bounded (s : BeeperStream) (hs : s.scanner.Bounded) (cap : Nat) :
    (s.pollRead cap).2.2.scanner.Bounded := by
  -- nothing is read before everything has been handed out
  have hnext {scanner : Scanner} (hout : ¬ scanner.out ≠ []) :
      scanner.out.length + scanner.state.kept ≤ 23 := by
    have hkept := kept_le scanner.state
    rw [not_not.mp hout, List.length_nil]
    omega
  fun_induction BeeperStream.pollRead s cap with
  | case1 s hout =>
    refine ⟨hs.state, ?_, hs.hold, hs.blocks, hs.small⟩
    have hle := hs.out
    simp only [List.length_drop]
    omega
  | case2 s hout hp => exact hs
  | case3 s hout hp hh ih =>
    have hb : s.scanner.blocks = [] := by simpa [Scanner.isPending] using hp
    exact ih (scan_bounded (s := { s.scanner with hold := [] }) hs.state hb rfl (hnext hout)
      hs.hold)
  | case4 s hout hp hh hi => exact hs
  | case5 s hout hp hh inner hi => exact hs
  | case6 s hout hp hh inner hi => exact hs
  | case7 s hout hp hh chunk inner hi ih =>
    have hb : s.scanner.blocks = [] := by simpa [Scanner.isPending] using hp
    exact ih (scan_bounded hs.state hb (not_not.mp hh) (hnext hout) chunk.2.2)

theorem passed_settled (t : State × List Event) : passed (settled t).2 = passed t.2 := by
  have hnone : passed t.1.settle.2 = [] := by
    rcases settle_cases t.1 with hs | hs | ⟨block, hs⟩ <;> rw [hs] <;> rfl
  rw [settled, passed_append, hnone, List.append_nil]

/-- As long as the protocol is not known, a part of the preface is all that has been scanned. -/
theorem undecided_out {s : Scanner} {fed : List UInt8} (h : s.Fed fed)
    (hs : s.state.protocol? = none) : s.out.length + s.state.kept ≤ 23 := by
  obtain ⟨-, hfew⟩ := h.undecided hs
  obtain ⟨hhalts, scanned, es, hpast⟩ := h
  have hkeeps := (walk_keeps (s := .preface 0) trivial scanned).passed
  have hfed := hpast.fed
  simp only [(hhalts.idle hs).2, List.append_nil] at hfed
  have hout : passed es = passed (walk (.preface 0) scanned).2 := by
    rw [← passed_settled (_, es), ← passed_settled (walk (.preface 0) scanned)]
    exact congrArg (fun t ↦ passed t.2) hpast.leads
  -- headers only come behind the preface
  have hkept : s.state.kept = 0 := by
    cases hstate : s.state with
    | header buf =>
      rw [hstate] at hs
      cases hs
    | _ => rfl
  have hsame : s.out = passed es := hpast.out
  rw [hsame, hout, hkept]
  rw [hfed] at hfew
  show (passed (walk (.preface 0) scanned).2).length + 0 ≤ 23
  have hzero : (State.preface 0).kept = 0 := rfl
  omega

/-- Asking for the protocol reads no more than it takes to know it. -/
theorem protocolLoop_bounded {scanner : Scanner} {inner : List SocketRead} {fed : List UInt8}
    (hfed : scanner.Fed fed) (hs : scanner.Bounded) :
    (protocolLoop scanner inner).2.scanner.Bounded := by
  fun_induction protocolLoop scanner inner generalizing fed with
  | case1 scanner => exact hs
  | case2 scanner read inner p hp => exact hs
  | case3 scanner inner hp chunk ih =>
    obtain ⟨hpending, hh⟩ := hfed.1.idle hp
    have hb : scanner.blocks = [] := by simpa [Scanner.isPending] using hpending
    have hscan : (scanner.scan chunk.1).Bounded :=
      scan_bounded hs.state hb hh (undecided_out hfed hp) chunk.2.2
    exact ih (hfed.scan hp chunk.1) hscan
  | case4 scanner inner hp ih => exact ih hfed hs
  | case5 scanner inner hp => exact hs

theorem takeSync_bounded {s : Scanner} (hs : s.Bounded) : s.takeSync.2.Bounded :=
  ⟨hs.state, hs.out, hs.hold, Nat.zero_le 1, fun _ h ↦ absurd h List.not_mem_nil⟩

theorem step_bounded (o : Holder) (op : HolderOp) (hs : o.stream.scanner.Bounded) :
    (o.step op).stream.scanner.Bounded := by
  cases op with
  | read op =>
    cases op with
    | pollRead cap => exact pollRead_bounded o.stream hs cap
    | takeSync => exact takeSync_bounded hs
  | takeFlow => exact ⟨hs.state, hs.out, hs.hold, hs.blocks, hs.small⟩

/-- What a stream holds is bounded whatever the client sends, in whatever pieces, and however its
reader polls and takes: what has been scanned and not been handed out, what is held back, the one
update that waits to be taken and the one that is being collected. -/
theorem stream_bounded (reads : List SocketRead) (ops : List HolderOp) :
    let s := (Runs.exec Holder.step (Holder.start reads) ops).stream.scanner
    s.out.length ≤ readChunk + 23 ∧ s.hold.length ≤ readChunk ∧ s.blocks.length ≤ 1 ∧
      (∀ block ∈ s.blocks, block.length ≤ maxSyncFrame) ∧
      ∀ block remaining, s.state = .sync block remaining →
        block.length + remaining ≤ maxSyncFrame := by
  intro s
  have hnew : Scanner.new.Bounded :=
    ⟨trivial, Nat.zero_le _, Nat.zero_le _, Nat.zero_le 1, fun _ h ↦ absurd h List.not_mem_nil⟩
  have hs : s.Bounded :=
    Runs.exec_preserves (I := fun o : Holder ↦ o.stream.scanner.Bounded) step_bounded
      (protocolLoop_bounded fed_new hnew) ops
  refine ⟨hs.out, hs.hold, hs.blocks, hs.small, fun block remaining hstate ↦ ?_⟩
  have hsmall := hs.state
  rw [hstate] at hsmall
  exact hsmall

end HyperFastPath.Listener
