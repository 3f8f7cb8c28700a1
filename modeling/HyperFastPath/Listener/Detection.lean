import HyperFastPath.Listener.Kept
import HyperFastPath.Listener.Progress

/-!
# Telling the protocol

`BeeperStream::protocol` reads the answer off the state the scanner is in after a whole chunk, which
may reach past the preface.
-/

namespace HyperFastPath.Listener

open Bytes Http2

/-! ## 1. What the state says of the stream -/

/-- The protocol a stream is to be taken for. -/
def protocolOf (stream : List UInt8) : Protocol := if preface <+: stream then .http2 else .http1

theorem GivesUp.preface {stream : List UInt8} (h : GivesUp stream) : preface <+: stream := by
  obtain ⟨fs, hdr, rest, -, -, -, rfl⟩ := h
  rw [clientStream, List.append_assoc]
  exact List.prefix_append _ _

theorem not_diverges {stream whole : List UInt8} (hs : stream <+: whole) (hp : preface <+: whole) :
    ¬ Diverges stream := fun hdiv ↦ by
  rcases Nat.le_total stream.length preface.length with hle | hle
  · exact hdiv.1 (List.prefix_of_prefix_length_le hs hp hle)
  · exact hdiv.2 (List.prefix_of_prefix_length_le hp hs hle)

theorem settled_inFrames {s s' : State} {es es' : List Event}
    (h : settled (s, es) = settled (s', es')) : s.InFrames ↔ (settled (s', es')).1.InFrames := by
  have hstate : (settled (s, es)).1 = (settled (s', es')).1 := by rw [h]
  rw [← settle_inFrames s]
  exact iff_of_eq (congrArg State.InFrames hstate)

theorem settled_preface {s : State} {es es' : List Event} {m : Fin 24}
    (h : settled (s, es) = (.preface m, es')) : s = .preface m := by
  rcases settle_cases s with hs | rfl | ⟨block, rfl⟩
  · have hstate := congrArg Prod.fst h
    simp only [settled, hs] at hstate
    exact hstate
  · cases congrArg Prod.fst h
  · cases congrArg Prod.fst h

theorem Leads.cases {stream : List UInt8} {s : State} {es : List Event}
    (h : Leads Scanner.new.state stream s es) :
    (∃ m : Fin 24, s = .preface m ∧ stream = preface.take m) ∨
      (s = .blind ∧ (Diverges stream ∨ GivesUp stream)) ∨
      (s.InFrames ∧ preface <+: stream ∧ ¬ GivesUp stream) := by
  rcases stream_cases stream with hpart | hdiv | hgives | ⟨fs, part, hfs, hunfinished, rfl⟩
  · have htake := List.prefix_iff_eq_take.mp hpart
    have hwalk := @walk_preface 0 stream htake
    rw [Leads, show Scanner.new.state = .preface 0 from rfl, hwalk] at h
    by_cases hlen : ((0 : Fin 24) : Nat) + stream.length < 24
    · rw [dif_pos hlen] at h
      have hsettled : settled (.preface ⟨_, hlen⟩, stream.map .byte) =
          (.preface ⟨_, hlen⟩, stream.map .byte) := by simp [settled, State.settle]
      refine .inl ⟨_, settled_preface (h.trans hsettled), ?_⟩
      simpa using htake
    · have hwhole : stream = preface := by
        rw [htake, List.take_of_length_le]
        simp only [show preface.length = 24 from rfl]
        simpa using hlen
      rw [dif_neg hlen] at h
      refine .inr (.inr ⟨(settled_inFrames h).mpr trivial, by rw [hwhole], ?_⟩)
      refine not_givesUp ?_
      rw [show Scanner.new.state = .preface 0 from rfl, hwalk, dif_neg hlen]
      exact fun hblind ↦ by cases hblind
  · rw [Leads, walk_diverges hdiv, settled_of_blind] at h
    exact .inr (.inl ⟨(settled_blind h).1, .inl hdiv⟩)
  · obtain ⟨es', hwalk, -⟩ := walk_givesUp hgives
    rw [Leads, hwalk, settled_of_blind] at h
    exact .inr (.inl ⟨(settled_blind h).1, .inr hgives⟩)
  · have hwalk := settled_walk_client hfs part
    have hframes := (unfinished_accounted hunfinished).2
    have hin : (settled (walk Scanner.new.state (clientStream fs ++ part))).1.InFrames := by
      rw [hwalk]
      exact hframes
    refine .inr (.inr ⟨(settled_inFrames h).mpr hin, ?_, not_givesUp fun hblind ↦ ?_⟩)
    · rw [clientStream, List.append_assoc]
      exact List.prefix_append _ _
    · rw [settled, hblind] at hin
      exact hin

theorem inFrames_iff {stream : List UInt8} (h : preface <+: stream) :
    (walk Scanner.new.state stream).1.InFrames ↔ ¬ GivesUp stream := by
  constructor
  · intro hin
    refine not_givesUp fun hblind ↦ ?_
    rw [hblind] at hin
    exact hin
  · intro hno
    have hleads : Leads Scanner.new.state stream (walk Scanner.new.state stream).1
        (walk Scanner.new.state stream).2 := .of_walk rfl
    rcases hleads.cases with ⟨m, -, htake⟩ | ⟨-, hdiv | hgives⟩ | ⟨hin, -⟩
    · have hlen := h.length_le
      rw [htake, List.length_take, show preface.length = 24 from rfl] at hlen
      have := m.isLt
      omega
    · exact absurd hdiv (not_diverges (List.prefix_refl stream) h)
    · exact absurd hgives hno
    · exact hin

/-! ## 2. The loop -/

/-- What has been read once `todo` bytes have. -/
def decidingBytes : (todo : Nat) → List SocketRead → List UInt8
  | todo, .data chunk :: reads =>
    if todo ≤ chunk.1.length then chunk.1
    else chunk.1 ++ decidingBytes (todo - chunk.1.length) reads
  | todo, .pending :: reads => decidingBytes todo reads
  | _, _ => []

/-- An update ends the scan that comes past it, and nothing is held back but for one. -/
def Scanner.Halts (s : Scanner) : Prop :=
  (s.blocks = [] ∧ s.hold = []) ∨ (s.blocks ≠ [] ∧ s.state = .atHeader)

theorem Scanner.Halts.idle {s : Scanner} (h : s.Halts) (hs : s.state.protocol? = none) :
    s.isPending = false ∧ s.hold = [] := by
  rcases h with ⟨hb, hh⟩ | ⟨-, hat⟩
  · exact ⟨by simp [Scanner.isPending, hb], hh⟩
  · rw [hat] at hs
    cases hs

theorem scan_halts {s : Scanner} (h : s.Halts) (hs : s.state.protocol? = none)
    (input : List UInt8) : (s.scan input).Halts := by
  obtain ⟨hp, hh⟩ := h.idle hs
  have hb : s.blocks = [] := by simpa [Scanner.isPending] using hp
  obtain ⟨es, hscans⟩ := scan_scans hp hh input
  have hblocks := hscans.blocks
  rcases hscans.stop with ⟨hup, hhold⟩ | ⟨es', block, rfl, -, hat⟩
  · exact .inl ⟨by rw [hblocks, hb, hup, List.append_nil], hhold⟩
  · exact .inr ⟨by rw [hblocks]; simp, hat⟩

/-- The scanner has been fed `fed`, and nothing was taken off its handles. -/
def Scanner.Fed (s : Scanner) (fed : List UInt8) : Prop :=
  s.Halts ∧ ∃ scanned es, Feeding.Past ⟨s, fed, [], 0⟩ scanned es

theorem Scanner.Fed.scan {s : Scanner} {fed : List UInt8} (h : s.Fed fed)
    (hs : s.state.protocol? = none) (input : List UInt8) : (s.scan input).Fed (fed ++ input) := by
  obtain ⟨hhalts, hpast⟩ := h
  refine ⟨scan_halts hhalts hs input, ?_⟩
  have hstep := step_past (.scan input) hpast
  simpa only [Feeding.step, if_pos (Or.inr (hhalts.idle hs).2)] using hstep

/-- As long as the protocol is not known, a part of the preface is all there is. -/
theorem Scanner.Fed.undecided {s : Scanner} {fed : List UInt8} (h : s.Fed fed)
    (hs : s.state.protocol? = none) : fed <+: preface ∧ fed.length < 24 := by
  obtain ⟨hhalts, scanned, es, hpast⟩ := h
  have hfed : fed = scanned := by
    have hfed := hpast.fed
    simp only [(hhalts.idle hs).2, List.append_nil] at hfed
    exact hfed
  rcases hpast.leads.cases with ⟨m, hm, hscanned⟩ | ⟨hblind, -⟩ | ⟨hin, -⟩
  · rw [hfed, hscanned, List.length_take]
    exact ⟨List.take_prefix _ _, (Nat.min_le_left _ _).trans_lt m.isLt⟩
  · rw [show s.state = .blind from hblind] at hs
    cases hs
  · cases hstate : s.state <;> simp_all [State.protocol?, State.InFrames]

/-- What the loop ends with: everything it has read was fed to the scanner, which is no more than it
takes to complete the preface. -/
structure Decides (scanner : Scanner) (inner : List SocketRead) (before : List UInt8)
    (t : Option Protocol × BeeperStream) (fed : List UInt8) : Prop where
  stream : before ++ streamOf inner = fed ++ streamOf t.2.inner
  past : t.2.scanner.Fed fed
  deciding : scanner.state.protocol? = none → preface <+: fed →
    fed = before ++ decidingBytes (24 - before.length) inner
  decided : scanner.state.protocol? ≠ none → fed = before
  answer : (t.1 = some (t.2.scanner.state.protocol?.getD .http1) ∧
      (t.2.scanner.state.protocol? = none → t.2.inner = [])) ∨ (t.1 = none ∧ .failed ∈ inner)

theorem protocolLoop_decides {scanner : Scanner} {inner : List SocketRead} {before : List UInt8}
    (h : scanner.Fed before) :
    ∃ fed, Decides scanner inner before (protocolLoop scanner inner) fed := by
  have hshort (hs : scanner.state.protocol? = none) (hpreface : preface <+: before) : False :=
    Nat.not_lt_of_le hpreface.length_le (h.undecided hs).2
  fun_induction protocolLoop scanner inner generalizing before with
  | case1 scanner =>
    exact ⟨before, rfl, h, fun hs hpreface ↦ (hshort hs hpreface).elim, fun _ ↦ rfl,
      .inl ⟨rfl, fun _ ↦ rfl⟩⟩
  | case2 scanner read inner p hs =>
    have hne : scanner.state.protocol? ≠ none := by rw [hs]; exact Option.some_ne_none p
    exact ⟨before, rfl, h, fun hnone ↦ absurd hnone hne, fun _ ↦ rfl,
      .inl ⟨by rw [hs]; rfl, fun hnone ↦ absurd hnone hne⟩⟩
  | case3 scanner inner hs chunk ih =>
    have hnext := h.scan hs chunk.1
    obtain ⟨fed, hstream, hfed, hdeciding, hdecided, hanswer⟩ := ih hnext
      fun hs' hpreface ↦ Nat.not_lt_of_le hpreface.length_le (hnext.undecided hs').2
    refine ⟨fed, ?_, hfed, fun _ hpreface ↦ ?_, fun hne ↦ absurd hs hne, ?_⟩
    · rw [← hstream, streamOf_data, List.append_assoc]
    · rw [decidingBytes]
      by_cases hs' : (scanner.scan chunk.1).state.protocol? = none
      · have hlen := (hnext.undecided hs').2
        rw [hdeciding hs' hpreface]
        rw [List.length_append] at hlen ⊢
        rw [if_neg (by omega), List.append_assoc, Nat.sub_add_eq]
      · rw [hdecided hs'] at hpreface ⊢
        have hlen := hpreface.length_le
        rw [List.length_append, show preface.length = 24 from rfl] at hlen
        rw [if_pos (by omega)]
    · exact hanswer.imp_right (And.imp_right (.tail _))
  | case4 scanner inner hs ih =>
    obtain ⟨fed, hstream, hfed, hdeciding, hdecided, hanswer⟩ := ih h hshort
    exact ⟨fed, hstream, hfed, hdeciding, hdecided,
      hanswer.imp_right (And.imp_right (.tail _))⟩
  | case5 scanner inner hs =>
    exact ⟨before, rfl, h, fun hs hpreface ↦ (hshort hs hpreface).elim, fun _ ↦ rfl,
      .inr ⟨rfl, .head _⟩⟩

theorem fed_new : Scanner.new.Fed [] :=
  ⟨.inl ⟨rfl, rfl⟩, [], [], rfl, .of_walk rfl, rfl, rfl, rfl⟩

/-- What the answer can be, and how far the scanner has come then. -/
theorem Decides.cases {reads : List SocketRead} {t : Option Protocol × BeeperStream}
    {fed scanned : List UInt8} {es : List Event} {p : Protocol} (h : Decides .new reads [] t fed)
    (hhalts : t.2.scanner.Halts) (hpast : Feeding.Past ⟨t.2.scanner, fed, [], 0⟩ scanned es)
    (hp : t.1 = some p) :
    (p = .http1 ∧ ¬ preface <+: streamOf reads ∧ ¬ GivesUp scanned) ∨
      (p = .http1 ∧ t.2.scanner.state = .blind ∧ GivesUp scanned) ∨
      (p = .http2 ∧ preface <+: scanned ∧ ¬ GivesUp scanned) := by
  obtain ⟨hstream, -, -, -, hanswer⟩ := h
  obtain ⟨hsome, hended⟩ := hanswer.resolve_right fun ⟨hnone, _⟩ ↦ by rw [hp] at hnone; cases hnone
  rw [hp, Option.some.injEq] at hsome
  have hfed : fed = scanned ++ t.2.scanner.hold := hpast.fed
  rw [List.nil_append] at hstream
  have hscanned : scanned <+: streamOf reads := by
    rw [hstream, hfed, List.append_assoc]
    exact List.prefix_append _ _
  rcases hpast.leads.cases with ⟨m, hm, htake⟩ | ⟨hblind, hdiv | hgives⟩ | ⟨hin, hstarts, hno⟩
  -- the stream has ended inside the preface
  · have hm : t.2.scanner.state = .preface m := hm
    have hnone : t.2.scanner.state.protocol? = none := by
      rw [hm]
      rfl
    rw [(hhalts.idle hnone).2, List.append_nil] at hfed
    rw [hended hnone, show streamOf [] = [] from rfl, List.append_nil, hfed, htake] at hstream
    have hshort : ¬ preface <+: streamOf reads := fun hall ↦ by
      have hlen := hall.length_le
      rw [hstream, List.length_take, show preface.length = 24 from rfl] at hlen
      have := m.isLt
      omega
    refine .inl ⟨?_, hshort, fun hgives ↦ hshort (hgives.preface.trans hscanned)⟩
    rw [hsome, hnone]
    rfl
  -- it has diverged from the preface
  · refine .inl ⟨?_, fun hall ↦ not_diverges hscanned hall hdiv, fun hgives ↦ hdiv.2 hgives.preface⟩
    rw [hsome, show t.2.scanner.state = .blind from hblind]
    rfl
  -- the scanner has given up behind the preface
  · refine .inr (.inl ⟨?_, hblind, hgives⟩)
    rw [hsome, show t.2.scanner.state = .blind from hblind]
    rfl
  -- it follows the framing
  · have hhttp2 : t.2.scanner.state.protocol? = some .http2 := by
      have hstate : t.2.scanner.state.InFrames := hin
      cases hs' : t.2.scanner.state <;> simp_all [State.InFrames, State.protocol?]
    refine .inr (.inr ⟨?_, hstarts, hno⟩)
    rw [hsome, hhttp2]
    rfl

/-! ## 3. The answer -/

/-- A connection is told right where there is no frame the scanner gives up on. -/
theorem protocol_known {reads : List SocketRead} {p : Protocol}
    (hp : (BeeperStream.new reads).protocol.1 = some p) (hno : ¬ GivesUp (streamOf reads)) :
    p = protocolOf (streamOf reads) := by
  obtain ⟨fed, hdecides⟩ := @protocolLoop_decides _ reads _ fed_new
  obtain ⟨hhalts, scanned, es, hpast⟩ := hdecides.past
  have hscanned : scanned <+: streamOf reads := by
    have hstream := hdecides.stream
    have hfed : fed = scanned ++ _ := hpast.fed
    rw [List.nil_append] at hstream
    rw [hstream, hfed, List.append_assoc]
    exact List.prefix_append _ _
  rcases hdecides.cases hhalts hpast hp with ⟨rfl, hother, -⟩ | ⟨-, -, hgives⟩ | ⟨rfl, hstarts, -⟩
  · rw [protocolOf, if_neg hother]
  · obtain ⟨rest, hrest⟩ := hscanned
    exact absurd (hrest ▸ hgives.append rest) hno
  · rw [protocolOf, if_pos (hstarts.trans hscanned)]

/-- No byte that was read while deciding is missing from what becomes of the stream afterwards,
whatever the order of polls and takes. -/
def KeepsRead (reads : List SocketRead) : Prop :=
  let front := readBy reads (BeeperStream.new reads).protocol.2.inner
  ∀ ops, let r := Runs.exec Reader.step (Reader.start reads) ops
    r.Keeps front (readBy reads r.stream.inner)

/-- A frame the scanner gives up on starts in the reads up to the one that completes the preface. -/
def GivesUpWithin (reads : List SocketRead) : Prop :=
  ∃ fs hdr rest, (∀ f ∈ fs, Accepted f) ∧ hdr.length = frameHeaderLen ∧ Rejected hdr ∧
    streamOf reads = clientStream fs ++ (hdr ++ rest) ∧
    (clientStream fs).length < (decidingBytes 24 reads).length

theorem GivesUpWithin.givesUp {reads : List SocketRead} (h : GivesUpWithin reads) :
    GivesUp (streamOf reads) := by
  obtain ⟨fs, hdr, rest, hfs, hlen, hrej, hstream, -⟩ := h
  exact ⟨fs, hdr, rest, hfs, hlen, hrej, hstream⟩

theorem reader_past (reads : List SocketRead) (ops : List ReaderOp) :
    ∃ scanned es, (Runs.exec Reader.step (Reader.start reads) ops).Past reads scanned es := by
  obtain ⟨fed, hdecides⟩ := @protocolLoop_decides _ reads _ fed_new
  obtain ⟨-, scanned, es, hpast⟩ := hdecides.past
  have hfed : fed = scanned ++ _ := hpast.fed
  have hread := hdecides.stream
  rw [List.nil_append, hfed] at hread
  have hstart : (Reader.start reads).Past reads scanned es :=
    ⟨hread, hpast.leads, hpast.out, hpast.taken, (UInt32.zero_add _).symm.trans hpast.reported⟩
  exact Runs.exec_preserves step_past_reader ⟨scanned, es, hstart⟩ ops

/-- Where the scanner only gives up behind what was read while deciding, that is kept. -/
theorem keepsRead_of {reads : List SocketRead}
    (h : ∀ fs hdr rest, (∀ f ∈ fs, Accepted f) → hdr.length = frameHeaderLen → Rejected hdr →
      streamOf reads = clientStream fs ++ (hdr ++ rest) →
      (readBy reads (BeeperStream.new reads).protocol.2.inner).length ≤ (clientStream fs).length) :
    KeepsRead reads := by
  intro ops
  obtain ⟨scanned, es, hpast⟩ := reader_past reads ops
  refine hpast.keeps fun fs hdr rest hfs hlen hrej hscanned ↦ ?_
  obtain ⟨more, hmore⟩ := hpast.leads_whole
  refine h fs hdr (rest ++ more) hfs hlen hrej ?_
  rw [← hmore, hscanned]
  simp only [List.append_assoc]

/-- Reading on to the end of the stream comes past every frame there is. -/
theorem not_keepsRead {reads : List SocketRead} {fs : List Frame} {hdr rest : List UInt8}
    (hfs : ∀ f ∈ fs, Accepted f) (hlen : hdr.length = frameHeaderLen) (hrej : Rejected hdr)
    (hstream : streamOf reads = clientStream fs ++ (hdr ++ rest))
    (hwithin : (clientStream fs).length <
      (readBy reads (BeeperStream.new reads).protocol.2.inner).length) :
    ¬ KeepsRead reads := by
  intro hkeeps
  obtain ⟨ops, hspent⟩ := reader_finishes (Reader.start reads)
  obtain ⟨scanned, es, hpast⟩ := reader_past reads ops
  have hscanned := hpast.read
  rw [hspent.hold, hspent.inner, List.append_nil, show streamOf [] = [] from rfl,
    List.append_nil] at hscanned
  rw [← hscanned, hstream] at hpast
  exact hpast.not_keeps hfs hlen hrej hwithin (hkeeps ops)

/-- A failed read aside, the protocol is told by whether the stream starts with the preface, and
nothing that was read is lost, exactly when no frame the scanner gives up on starts in the reads up
to the one that completes the preface. -/
theorem protocol_iff (reads : List SocketRead) :
    ((BeeperStream.new reads).protocol.1 = none → .failed ∈ reads) ∧
      ∀ p, (BeeperStream.new reads).protocol.1 = some p →
        ((p = protocolOf (streamOf reads) ∧ KeepsRead reads) ↔ ¬ GivesUpWithin reads) := by
  obtain ⟨fed, hdecides⟩ := @protocolLoop_decides _ reads _ fed_new
  obtain ⟨hhalts, scanned, es, hpast⟩ := hdecides.past
  have hproto : protocolLoop Scanner.new reads = (BeeperStream.new reads).protocol := rfl
  rw [hproto] at hdecides hhalts hpast
  have hstream := hdecides.stream
  have hdeciding := hdecides.deciding
  simp only [List.nil_append, List.length_nil, Nat.sub_zero] at hstream hdeciding
  have hread := readBy_eq hstream
  have hscanned : scanned <+: fed := by
    rw [show fed = scanned ++ _ from hpast.fed]
    exact List.prefix_append _ _
  have hfed : fed <+: streamOf reads := by
    rw [hstream]
    exact List.prefix_append _ _
  refine ⟨fun hnone ↦ ?_, fun p hp ↦ ?_⟩
  · rcases hdecides.answer with ⟨hsome, -⟩ | ⟨-, hfailed⟩
    · rw [hnone] at hsome
      cases hsome
    · exact hfailed
  rcases hdecides.cases hhalts hpast hp with ⟨rfl, hother, -⟩ | ⟨rfl, -, hgives⟩ | ⟨rfl, hstarts, -⟩
  -- the stream does not start with the preface
  · have hno : ¬ GivesUp (streamOf reads) := fun hgives ↦ hother hgives.preface
    refine iff_of_true ⟨?_, keepsRead_of ?_⟩ fun hwithin ↦ hno hwithin.givesUp
    · rw [protocolOf, if_neg hother]
    · exact fun fs hdr rest hfs hlen hrej hall ↦ absurd ⟨fs, hdr, rest, hfs, hlen, hrej, hall⟩ hno
  -- the scanner has given up behind the preface
  · refine iff_of_false (fun ⟨hright, _⟩ ↦ ?_) (not_not.mpr ?_)
    · rw [protocolOf, if_pos (hgives.preface.trans (hscanned.trans hfed))] at hright
      cases hright
    · have hwhole := hdeciding rfl (hgives.preface.trans hscanned)
      obtain ⟨fs, hdr, rest, hfs, hlen, hrej, rfl⟩ := hgives
      obtain ⟨more, hmore⟩ := hscanned.trans hfed
      refine ⟨fs, hdr, rest ++ more, hfs, hlen, hrej, ?_, ?_⟩
      · rw [← hmore]
        simp only [List.append_assoc]
      · have hle := hscanned.length_le
        rw [← hwhole]
        simp only [List.length_append, hlen, frameHeaderLen] at hle ⊢
        omega
  -- it follows the framing
  · have hwhole := hdeciding rfl (hstarts.trans hscanned)
    have hright : Protocol.http2 = protocolOf (streamOf reads) := by
      rw [protocolOf, if_pos (hstarts.trans (hscanned.trans hfed))]
    constructor
    · rintro ⟨-, hkeeps⟩ ⟨fs, hdr, rest, hfs, hlen, hrej, hall, hwithin⟩
      rw [← hwhole, ← hread] at hwithin
      exact not_keepsRead hfs hlen hrej hall hwithin hkeeps
    · refine fun hno ↦ ⟨hright, keepsRead_of fun fs hdr rest hfs hlen hrej hall ↦ ?_⟩
      rw [hread, hwhole]
      exact Nat.le_of_not_lt fun hwithin ↦
        hno ⟨fs, hdr, rest, hfs, hlen, hrej, hall, hwithin⟩

/-- The preface in two reads, the second of which brings an update along, and then a report of one
byte. -/
def updateReads : List SocketRead :=
  [.data ⟨preface.take 20, by decide⟩,
    .data ⟨preface.drop 20 ++ [0, 0, 2, 0xFB, 0, 0, 0, 0, 0, 0x40, 0x41], by decide⟩,
    .data ⟨[0, 0, 1, 0xFA, 0, 0, 0, 0, 0, 1], by decide⟩]

theorem protocol_iff_update :
    (BeeperStream.new updateReads).protocol.1 = some (protocolOf (streamOf updateReads)) ∧
      KeepsRead updateReads := by
  have hsome : (BeeperStream.new updateReads).protocol.1 = some .http2 := by decide +kernel
  -- the report comes behind what is read while deciding
  have hno : ¬ GivesUpWithin updateReads := by
    rintro ⟨fs, hdr, rest, hfs, hlen, hrej, hstream, hwithin⟩
    rw [clientStream, List.append_assoc] at hstream
    have hsame : encodeAll fs ++ (hdr ++ rest) =
        encodeAll [⟨0xFB, 0, 0, [0x40, 0x41], by decide⟩] ++
          ([0, 0, 1, 0xFA, 0, 0, 0, 0, 0] ++ [1]) :=
      List.append_cancel_left (hstream.symm.trans (by decide))
    have hupdate := rejected_unique hfs (by decide) hlen hrej rfl (by decide) hsame
    rw [hupdate] at hwithin
    exact absurd hwithin (by decide)
  obtain ⟨hright, hkeeps⟩ := ((protocol_iff updateReads).2 .http2 hsome).mpr hno
  exact ⟨by rw [hsome, ← hright], hkeeps⟩

/-- All in one read, the report is scanned once the update has been taken, and its header is lost. -/
example : ¬ KeepsRead [.data ⟨preface ++ [0, 0, 2, 0xFB, 0, 0, 0, 0, 0, 0x40, 0x41, 0, 0, 1, 0xFA,
    0, 0, 0, 0, 0, 1], by decide⟩] := by
  have hstream : preface ++ [0, 0, 2, 0xFB, 0, 0, 0, 0, 0, 0x40, 0x41, 0, 0, 1, 0xFA, 0, 0, 0, 0, 0,
      1] = clientStream [⟨0xFB, 0, 0, [0x40, 0x41], by decide⟩] ++
        ([0, 0, 1, 0xFA, 0, 0, 0, 0, 0] ++ [1]) := by decide
  have hupdate : ∀ f ∈ [(⟨0xFB, 0, 0, [0x40, 0x41], by decide⟩ : Frame)], Accepted f := by decide
  have hreport : Rejected [0, 0, 1, 0xFA, 0, 0, 0, 0, 0] := by decide
  exact not_keepsRead hupdate rfl hreport hstream (by decide +kernel)

/-- The preface and a report of one byte in one read: the connection is taken for HTTP/1.1. -/
theorem protocol_misread :
    let reads := [SocketRead.data ⟨preface ++ [0, 0, 1, 0xFA, 0, 0, 0, 0, 0, 1], by decide⟩]
    preface <+: streamOf reads ∧ (BeeperStream.new reads).protocol.1 = some .http1 := by
  decide +kernel

end HyperFastPath.Listener
