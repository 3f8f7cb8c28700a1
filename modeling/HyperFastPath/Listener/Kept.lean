import HyperFastPath.Listener.Pieces
import HyperFastPath.Listener.Reader

/-!
# What a reader has of the stream

A reader's scanner is fed like any other, so what has been read is accounted for in the same way: it
has been handed out or is about to be, was taken out, or is still with the scanner.
-/

namespace HyperFastPath.Listener

open Bytes Http2

/-- What has been read by the time the reads `inner` are still to come. -/
def readBy (reads inner : List SocketRead) : List UInt8 :=
  (streamOf reads).take ((streamOf reads).length - (streamOf inner).length)

theorem readBy_eq {reads inner : List SocketRead} {read : List UInt8}
    (h : streamOf reads = read ++ streamOf inner) : readBy reads inner = read := by
  rw [readBy, h, List.length_append, Nat.add_sub_cancel, List.take_left]

/-- What has been read is what the scanner was fed, and what the reader has been handed is the front
of what it has put out. -/
def Reader.feeding (r : Reader) (read : List UInt8) : Feeding where
  scanner := { r.stream.scanner with out := r.handed ++ r.stream.scanner.out }
  fed := read
  taken := r.taken.map Taken.block
  reported := 0

/-- All that has been read is accounted for, but for the header of a frame the scanner has given up
on behind `front`. -/
def Reader.Keeps (r : Reader) (front read : List UInt8) : Prop :=
  (r.feeding read).Conserved ∨
    ∃ fs hdr rest, (∀ f ∈ fs, Accepted f) ∧ hdr.length = frameHeaderLen ∧ Rejected hdr ∧
      read = clientStream fs ++ (hdr ++ rest) ∧ front.length ≤ (clientStream fs).length ∧
      (r.feeding (clientStream fs ++ rest)).Conserved

/-! ## 1. Where the scanner is -/

/-- The scanner has come past `scanned`, which amounts to `es`; of what passed on the way the bytes
`handed` have been handed out, of the updates the blocks `taken` have been taken. -/
structure BeeperStream.Past (s : BeeperStream) (stream handed : List UInt8)
    (taken : List (List UInt8)) (scanned : List UInt8) (es : List Event) : Prop where
  read : stream = scanned ++ s.scanner.hold ++ streamOf s.inner
  leads : Leads Scanner.new.state scanned s.scanner.state es
  handed : handed ++ s.scanner.out = passed es
  taken : taken ++ s.scanner.blocks = updates es
  sent : s.scanner.sent = reported es

variable {stream handed scanned : List UInt8} {taken : List (List UInt8)} {es : List Event}

theorem BeeperStream.Past.scan (scanner : Scanner) {inner : List SocketRead} {input : List UInt8}
    (hp : scanner.isPending = false) (hh : scanner.hold = [])
    (hread : stream = scanned ++ input ++ streamOf inner)
    (hleads : Leads Scanner.new.state scanned scanner.state es)
    (hhanded : handed ++ scanner.out = passed es) (htaken : taken = updates es)
    (hsent : scanner.sent = reported es) :
    ∃ scanned es, Past ⟨inner, scanner.scan input⟩ stream handed taken scanned es := by
  have hb : scanner.blocks = [] := by simpa [Scanner.isPending] using hp
  have hscan : scanner.scan input = scanner.scanLoop input := if_neg (ne_true_of_eq_false hp)
  obtain ⟨es', hstops⟩ := scanLoop_stops scanner input hh
  obtain ⟨used, hinput, hleads'⟩ := hstops.used
  rw [hscan]
  refine ⟨scanned ++ used, es ++ es', ?_, hleads.trans hleads', ?_, ?_, ?_⟩
  · rw [hread, List.append_assoc scanned used, ← hinput]
  · rw [passed_append, ← hhanded, List.append_assoc, ← hstops.out]
  · rw [updates_append, ← htaken, hstops.blocks, hb, List.nil_append]
  · rw [reported_append, ← hsent, hstops.sent]

theorem pollRead_past {s : BeeperStream} (h : s.Past stream handed taken scanned es) (cap : Nat) :
    ∃ scanned es,
      (s.pollRead cap).2.2.Past stream (handed ++ (s.pollRead cap).2.1) taken scanned es := by
  fun_induction BeeperStream.pollRead s cap generalizing scanned es with
  | case1 s hout =>
    refine ⟨scanned, es, h.read, h.leads, ?_, h.taken, h.sent⟩
    rw [← h.handed, List.append_assoc, List.take_append_drop]
  | case2 s hout hp => exact ⟨scanned, es, by simpa using h⟩
  | case3 s hout hp hh ih =>
    -- what was held back is scanned before anything is read
    have hp' : s.scanner.isPending = false := eq_false_of_ne_true hp
    have hb : s.scanner.blocks = [] := by simpa [Scanner.isPending] using hp'
    obtain ⟨hread, hleads, hhanded, htaken, hsent⟩ := h
    rw [hb, List.append_nil] at htaken
    obtain ⟨scanned₁, es₁, h₁⟩ := BeeperStream.Past.scan { s.scanner with hold := [] } hp' rfl hread
      hleads hhanded htaken hsent
    exact ih h₁
  | case4 s hout hp hh hi => exact ⟨scanned, es, by simpa using h⟩
  | case5 s hout hp hh inner hi =>
    obtain ⟨hread, hleads, hhanded, htaken, hsent⟩ := h
    rw [hi, streamOf_pending] at hread
    have hpending : BeeperStream.Past { s with inner } stream handed taken scanned es :=
      ⟨hread, hleads, hhanded, htaken, hsent⟩
    exact ⟨scanned, es, by simpa using hpending⟩
  | case6 s hout hp hh inner hi =>
    obtain ⟨hread, hleads, hhanded, htaken, hsent⟩ := h
    rw [hi, streamOf_failed] at hread
    have hfailed : BeeperStream.Past { s with inner } stream handed taken scanned es :=
      ⟨hread, hleads, hhanded, htaken, hsent⟩
    exact ⟨scanned, es, by simpa using hfailed⟩
  | case7 s hout hp hh chunk inner hi ih =>
    -- nothing is held back, so what is read goes straight on
    have hp' : s.scanner.isPending = false := eq_false_of_ne_true hp
    have hh' : s.scanner.hold = [] := not_not.mp hh
    have hb : s.scanner.blocks = [] := by simpa [Scanner.isPending] using hp'
    obtain ⟨hread, hleads, hhanded, htaken, hsent⟩ := h
    rw [hh', hi, streamOf_data, List.append_nil, ← List.append_assoc] at hread
    rw [hb, List.append_nil] at htaken
    obtain ⟨scanned₁, es₁, h₁⟩ := BeeperStream.Past.scan s.scanner hp' hh' hread hleads hhanded
      htaken hsent
    exact ih h₁

/-! ## 2. Runs of a reader -/

/-- The scanner of the reader has come past `scanned`. -/
def Reader.Past (reads : List SocketRead) (r : Reader) (scanned : List UInt8) (es : List Event) :
    Prop := r.stream.Past (streamOf reads) r.handed (r.taken.map Taken.block) scanned es

theorem step_past_reader {reads : List SocketRead} (r : Reader) (op : ReaderOp)
    (h : ∃ scanned es, r.Past reads scanned es) : ∃ scanned es, (r.step op).Past reads scanned es := by
  obtain ⟨scanned, es, h⟩ := h
  cases op with
  | pollRead cap => exact pollRead_past h cap
  | takeSync =>
    refine ⟨scanned, es, h.read, h.leads, h.handed, ?_, h.sent⟩
    have htaken := h.taken
    simpa [Reader.step, Scanner.takeSync, Function.comp_def] using htaken

variable {reads : List SocketRead} {r : Reader}

theorem Reader.Past.readBy_eq (h : r.Past reads scanned es) :
    readBy reads r.stream.inner = scanned ++ r.stream.scanner.hold := Listener.readBy_eq h.read

theorem Reader.Past.leads_whole (h : r.Past reads scanned es) : scanned <+: streamOf reads := by
  rw [h.read, List.append_assoc]
  exact List.prefix_append _ _

theorem Reader.Past.feeding (h : r.Past reads scanned es) :
    (r.feeding (readBy reads r.stream.inner)).Past scanned es :=
  ⟨h.readBy_eq, h.leads, h.handed, h.taken, (UInt32.zero_add _).trans h.sent⟩

/-! ## 3. Where the scanner gives up -/

/-- There is only one frame of a stream the scanner can give up on. -/
theorem rejected_unique {fs gs : List Frame} (hfs : ∀ f ∈ fs, Accepted f)
    (hgs : ∀ f ∈ gs, Accepted f) {hdr hdr' rest rest' : List UInt8}
    (hlen : hdr.length = frameHeaderLen) (hrej : Rejected hdr)
    (hlen' : hdr'.length = frameHeaderLen) (hrej' : Rejected hdr')
    (h : encodeAll fs ++ (hdr ++ rest) = encodeAll gs ++ (hdr' ++ rest')) : fs = gs := by
  -- an accepted frame does not start with a rejected header
  have hstarts {f : Frame} (hf : Accepted f) {more hdr rest : List UInt8}
      (hlen : hdr.length = frameHeaderLen) (hrej : Rejected hdr) :
      f.encode ++ more ≠ hdr ++ rest := fun heq ↦ by
    rw [Frame.encode, List.append_assoc] at heq
    have hheader := (List.append_inj heq ((header_length f).trans hlen.symm)).1
    exact (accepted_iff f).mp hf (hheader ▸ hrej)
  induction fs generalizing gs with
  | nil =>
    cases gs with
    | nil => rfl
    | cons g gs =>
      rw [encodeAll_cons, encodeAll_nil, List.nil_append, List.append_assoc] at h
      exact absurd h.symm (hstarts (hgs g (.head _)) hlen hrej)
  | cons f fs ih =>
    cases gs with
    | nil =>
      rw [encodeAll_cons, encodeAll_nil, List.nil_append, List.append_assoc] at h
      exact absurd h (hstarts (hfs f (.head _)) hlen' hrej')
    | cons g gs =>
      rw [encodeAll_cons, encodeAll_cons, List.append_assoc, List.append_assoc] at h
      obtain ⟨rfl, hrest⟩ := encode_append_inj h
      rw [ih (fun f hf ↦ hfs f (.tail _ hf)) (fun g hg ↦ hgs g (.tail _ hg)) hrest]

/-- A reader has lost nothing but the header of the frame its scanner has given up on. -/
theorem Reader.Past.keeps (h : r.Past reads scanned es) {front : List UInt8}
    (hfront : ∀ fs hdr rest, (∀ f ∈ fs, Accepted f) → hdr.length = frameHeaderLen → Rejected hdr →
      scanned = clientStream fs ++ (hdr ++ rest) → front.length ≤ (clientStream fs).length) :
    r.Keeps front (readBy reads r.stream.inner) := by
  by_cases hgives : GivesUp scanned
  swap
  · exact .inl (h.feeding.conserved hgives)
  obtain ⟨fs, hdr, rest, hfs, hlen, hrej, rfl⟩ := hgives
  refine .inr ⟨fs, hdr, rest ++ r.stream.scanner.hold, hfs, hlen, hrej, ?_,
    hfront fs hdr rest hfs hlen hrej rfl, ?_⟩
  · rw [h.readBy_eq]
    simp only [List.append_assoc]
  -- without the header, it all went the way of a stream that is passed through
  have hleads : settled (r.stream.scanner.state, es) =
      settled (walk Scanner.new.state (clientStream fs ++ (hdr ++ rest))) := h.leads
  rw [settled_walk_rejected hfs hlen hrej] at hleads
  obtain ⟨hblind, rfl⟩ := settled_blind hleads
  obtain ⟨ps, hps, hevents⟩ := frames_pieces hfs
  have hall : (preface.map Piece.byte ++ (ps ++ rest.map Piece.byte)).map Piece.event =
      preface.map .byte ++ (fs.flatMap frameEvents ++ rest.map .byte) := by
    rw [List.map_append, List.map_append, map_event_bytes, map_event_bytes, hevents]
  refine ⟨preface.map Piece.byte ++ (ps ++ rest.map Piece.byte), [], ?_, ?_, ?_, ?_, ?_⟩
  · show clientStream fs ++ (rest ++ r.stream.scanner.hold) = _ ++ [] ++ r.stream.scanner.hold
    rw [wireOf_append, wireOf_append, wireOf_bytes, wireOf_bytes, hps, clientStream]
    simp only [List.append_assoc, List.nil_append]
  · show State.Buffers r.stream.scanner.state []
    rw [hblind]
    rfl
  · rw [hall]
    exact h.feeding.out
  · rw [hall]
    exact h.feeding.taken
  · rw [hall]
    exact h.feeding.reported

/-- Once it has come past that frame, there is no way around it. -/
theorem Reader.Past.not_keeps {fs : List Frame} {hdr rest : List UInt8}
    (h : r.Past reads (clientStream fs ++ (hdr ++ rest)) es) (hfs : ∀ f ∈ fs, Accepted f)
    (hlen : hdr.length = frameHeaderLen) (hrej : Rejected hdr) {front : List UInt8}
    (hfront : (clientStream fs).length < front.length) :
    ¬ r.Keeps front (readBy reads r.stream.inner) := by
  rintro (hconserved | ⟨gs, hdr', rest', hgs, hlen', hrej', hread, hle, -⟩)
  · exact h.feeding.not_conserved ⟨fs, hdr, rest, hfs, hlen, hrej, rfl⟩ hconserved
  · rw [h.readBy_eq, clientStream, clientStream] at hread
    simp only [List.append_assoc] at hread
    have hsame := rejected_unique hfs hgs hlen hrej hlen' hrej' (List.append_cancel_left hread)
    rw [← hsame] at hle
    omega

end HyperFastPath.Listener
