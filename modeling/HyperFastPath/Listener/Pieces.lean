import HyperFastPath.Lib.Runs
import HyperFastPath.Listener.Frames

/-!
# Where the bytes of a stream go

A byte of the stream passes, is taken out with the frame it is part of, or is still with the
scanner, for as long as the scanner does not give up on the framing.
-/

namespace HyperFastPath.Listener

open Bytes Http2

/-! ## 1. Pieces of a stream -/

/-- A byte that passed, or a frame that was taken out. -/
inductive Piece where
  | byte (b : UInt8)
  | update (f : { f : Frame // f.kind = dtSyncFrameType })
  | report (f : { f : Frame // f.kind = fcSyncFrameType ∧ f.payload.length = fcSyncBodyLen })

def Piece.wire : Piece → List UInt8
  | .byte b => [b]
  | .update f => f.1.encode
  | .report f => f.1.encode

/-- What becomes of it. -/
def Piece.event : Piece → Event
  | .byte b => .byte b
  | .update f => .sync f.1.payload
  | .report f => .flow (UInt32.ofNat (ofBe f.1.payload))

def wireOf (ps : List Piece) : List UInt8 := ps.flatMap Piece.wire

@[simp] theorem wireOf_append (ps qs : List Piece) : wireOf (ps ++ qs) = wireOf ps ++ wireOf qs :=
  List.flatMap_append

@[simp] theorem wireOf_bytes (bs : List UInt8) : wireOf (bs.map .byte) = bs := by
  rw [wireOf, List.flatMap_map]
  exact List.flatMap_singleton' bs

@[simp] theorem map_event_bytes (bs : List UInt8) :
    (bs.map Piece.byte).map Piece.event = bs.map .byte := by
  rw [List.map_map]
  rfl

/-- A frame header. -/
structure IsHeader (hdr : List UInt8) (kind : UInt8) (len : Nat) : Prop where
  length : hdr.length = frameHeaderLen
  kind : hdr.getD 3 0 = kind
  len : ofBe (hdr.take 3) = len

theorem isHeader_header (f : Frame) : IsHeader f.header f.kind f.payload.length :=
  ⟨header_length f, header_kind f, header_len f⟩

/-- What a state has of a frame that has not passed.  The header of a frame that is being taken out
is dropped along with its payload. -/
def State.Buffers : State → List UInt8 → Prop
  | .header buf, bs => bs = buf.1
  | .sync block remaining, bs =>
    ∃ hdr, IsHeader hdr dtSyncFrameType (block.length + remaining) ∧ bs = hdr ++ block
  | .flow buf, bs => ∃ hdr, IsHeader hdr fcSyncFrameType fcSyncBodyLen ∧ bs = hdr ++ buf.1
  | _, bs => bs = []

/-- The stretch consists of pieces that amount to `es` and of what the state has. -/
def Accounted (stream : List UInt8) (s : State) (es : List Event) : Prop :=
  ∃ ps buf, stream = wireOf ps ++ buf ∧ s.Buffers buf ∧ es = ps.map Piece.event

theorem Accounted.behind {stream : List UInt8} {s : State} {es : List Event}
    (h : Accounted stream s es) (ps : List Piece) :
    Accounted (wireOf ps ++ stream) s (ps.map Piece.event ++ es) := by
  obtain ⟨qs, buf, rfl, hbuf, rfl⟩ := h
  exact ⟨ps ++ qs, buf, by rw [wireOf_append, List.append_assoc], hbuf, by rw [List.map_append]⟩

theorem accounted_bytes {s : State} (h : s.Buffers []) (bs : List UInt8) :
    Accounted bs s (bs.map .byte) :=
  ⟨bs.map .byte, [], by rw [wireOf_bytes, List.append_nil], h, (map_event_bytes bs).symm⟩

theorem accounted_buffer {s : State} {buf : List UInt8} (h : s.Buffers buf) :
    Accounted buf s [] := ⟨[], buf, rfl, h, rfl⟩

theorem settle_cases (s : State) :
    s.settle = (s, []) ∨ s = .payload 0 ∨ ∃ block, s = .sync block 0 := by
  cases s with
  | payload r =>
    cases r with
    | zero => exact .inr (.inl rfl)
    | succ r => exact .inl rfl
  | sync block r =>
    cases r with
    | zero => exact .inr (.inr ⟨block, rfl⟩)
    | succ r => exact .inl rfl
  | _ => exact .inl rfl

/-- A frame without a payload counts as taken out, or as held, whether it is settled or not. -/
theorem Accounted.of_settled {stream : List UInt8} {s : State} {es : List Event}
    (h : Accounted stream (settled (s, es)).1 (settled (s, es)).2) : Accounted stream s es := by
  obtain ⟨ps, buf, hstream, hbuf, hes⟩ := h
  unfold settled at hbuf hes
  rcases settle_cases s with hs | rfl | ⟨block, rfl⟩
  · simp only [hs, List.append_nil] at hbuf hes
    exact ⟨ps, buf, hstream, hbuf, hes⟩
  · exact ⟨ps, buf, hstream, hbuf, by rw [← hes]; exact (List.append_nil es).symm⟩
  · -- the last piece is the update itself
    have hnil : buf = [] := hbuf
    obtain ⟨front, last, rfl, hfront, hlast⟩ := List.append_eq_map_iff.mp hes
    obtain ⟨p, rfl, hp⟩ := List.map_eq_singleton_iff.mp hlast
    cases p with
    | byte b => cases hp
    | report f => cases hp
    | update f =>
      cases hp
      refine ⟨front, f.1.encode, ?_, ⟨f.1.header, ?_, rfl⟩, hfront.symm⟩
      · rw [hstream, hnil, List.append_nil, wireOf_append]
        simp [wireOf, Piece.wire]
      · have hheader := isHeader_header f.1
        rw [f.2] at hheader
        exact hheader

/-! ## 2. Whole frames -/

theorem frame_pieces {f : Frame} (h : Accepted f) :
    ∃ ps, wireOf ps = f.encode ∧ ps.map Piece.event = frameEvents f := by
  unfold frameEvents
  by_cases hf : f.kind = fcSyncFrameType
  · rw [if_pos hf]
    exact ⟨[.report ⟨f, hf, h.1 hf⟩], by simp [wireOf, Piece.wire], rfl⟩
  · rw [if_neg hf]
    by_cases hd : f.kind = dtSyncFrameType
    · rw [if_pos hd]
      exact ⟨[.update ⟨f, hd⟩], by simp [wireOf, Piece.wire], rfl⟩
    · rw [if_neg hd]
      exact ⟨f.encode.map .byte, wireOf_bytes _, map_event_bytes _⟩

theorem frames_pieces {fs : List Frame} (h : ∀ f ∈ fs, Accepted f) :
    ∃ ps, wireOf ps = encodeAll fs ∧ ps.map Piece.event = fs.flatMap frameEvents := by
  induction fs with
  | nil => exact ⟨[], rfl, rfl⟩
  | cons f fs ih =>
    obtain ⟨ps, hps, hevents⟩ := frame_pieces (h f (.head _))
    obtain ⟨qs, hqs, hevents'⟩ := ih fun g hg ↦ h g (.tail _ hg)
    exact ⟨ps ++ qs, by rw [wireOf_append, hps, hqs, encodeAll_cons],
      by rw [List.map_append, hevents, hevents', List.flatMap_cons]⟩

/-- The header of a frame the scanner gives up on: a report that is not of four bytes, or an update
that is implausibly large. -/
def Rejected (hdr : List UInt8) : Prop :=
  (hdr.getD 3 0 = fcSyncFrameType ∧ ofBe (hdr.take 3) ≠ fcSyncBodyLen) ∨
    (hdr.getD 3 0 = dtSyncFrameType ∧ maxSyncFrame < ofBe (hdr.take 3))

instance (hdr : List UInt8) : Decidable (Rejected hdr) := inferInstanceAs (Decidable (_ ∨ _))

theorem ofHeader_rejected {hdr : List UInt8} (h : Rejected hdr) :
    State.ofHeader hdr = (.blind, []) := by
  unfold State.ofHeader
  rcases h with ⟨hkind, hlen⟩ | ⟨hkind, hlen⟩
  · simp only [if_pos hkind, if_pos hlen]
  · simp only [hkind]
    rw [if_neg dt_ne_fc, if_neg (not_not.mpr rfl), if_pos hlen]

theorem accepted_iff (f : Frame) : Accepted f ↔ ¬ Rejected f.header := by
  simp only [Accepted, Rejected, header_kind, header_len, not_or, not_and, not_not, not_lt]

/-- The beginning of a frame the scanner does not give up on. -/
def Unfinished (part : List UInt8) : Prop :=
  part.length < frameHeaderLen ∨ ∃ hdr body, part = hdr ++ body ∧ hdr.length = frameHeaderLen ∧
    ¬ Rejected hdr ∧ body.length < ofBe (hdr.take 3)

/-- Behind the preface, and able to follow the framing. -/
def State.InFrames : State → Prop
  | .preface _ => False
  | .blind => False
  | _ => True

theorem settle_inFrames (s : State) : s.settle.1.InFrames ↔ s.InFrames := by
  rcases settle_cases s with hs | rfl | ⟨block, rfl⟩
  · rw [hs]
  · exact Iff.rfl
  · exact Iff.rfl

theorem unfinished_accounted {part : List UInt8} (h : Unfinished part) :
    Accounted part (settled (walk .atHeader part)).1 (settled (walk .atHeader part)).2 ∧
      (settled (walk .atHeader part)).1.InFrames := by
  rcases h with hlt | ⟨hdr, body, rfl, hlen, hacc, hlt⟩
  · have hwalk := @walk_header ⟨[], by decide⟩ part hlt
    rw [State.atHeader, hwalk]
    exact ⟨accounted_buffer rfl, trivial⟩
  have hfull := @walk_header_full ⟨[], by decide⟩ hdr hlen
  rw [List.nil_append] at hfull
  rw [State.atHeader, walk_append, hfull]
  have hheader (kind : UInt8) (hkind : hdr.getD 3 0 = kind) :
      IsHeader hdr kind (ofBe (hdr.take 3)) := ⟨hlen, hkind, rfl⟩
  rw [Rejected, not_or, not_and, not_and, not_not, not_lt] at hacc
  unfold State.ofHeader
  by_cases hf : hdr.getD 3 0 = fcSyncFrameType
  · have hfour := hacc.1 hf
    have hwalk := @walk_flow ⟨[], by decide⟩ body (hlt.trans_eq hfour)
    simp only [if_pos hf, if_neg (not_not.mpr hfour), hwalk]
    exact ⟨accounted_buffer ⟨hdr, hfour ▸ hheader _ hf, rfl⟩, trivial⟩
  by_cases hd : hdr.getD 3 0 = dtSyncFrameType
  · have hwalk := @walk_sync [] _ _ hlt
    simp only [if_neg hf, if_neg (not_not.mpr hd), if_neg (Nat.not_lt_of_le (hacc.2 hd)), hwalk]
    obtain ⟨k, hk⟩ : ∃ k, ofBe (hdr.take 3) - body.length = k + 1 :=
      ⟨ofBe (hdr.take 3) - body.length - 1, by omega⟩
    rw [hk]
    refine ⟨accounted_buffer ⟨hdr, ?_, rfl⟩, trivial⟩
    have hsum : body.length + (k + 1) = ofBe (hdr.take 3) := by omega
    rw [List.nil_append, hsum]
    exact hheader _ hd
  · -- the header has passed, and so does what there is of the payload
    simp only [if_neg hf, if_pos hd]
    obtain ⟨k, hk⟩ : ∃ k, ofBe (hdr.take 3) - body.length = k + 1 :=
      ⟨ofBe (hdr.take 3) - body.length - 1, by omega⟩
    have hwalk : walk (.payload (ofBe (hdr.take 3))) body =
        (.payload (k + 1), body.map .byte) := by
      by_cases hbody : body = []
      · rw [hbody, List.length_nil, Nat.sub_zero] at hk
        rw [hbody, hk]
        rfl
      · rw [walk_payload hbody hlt.le, hk]
        rfl
    rw [hwalk]
    have hbytes := accounted_bytes (s := .payload (k + 1)) rfl (hdr ++ body)
    refine ⟨?_, trivial⟩
    simpa [settled, State.settle] using hbytes

/-! ## 3. Whole streams -/

/-- Behind the preface and whole frames comes a header the scanner gives up on. -/
def GivesUp (stream : List UInt8) : Prop :=
  ∃ fs hdr rest, (∀ f ∈ fs, Accepted f) ∧ hdr.length = frameHeaderLen ∧ Rejected hdr ∧
    stream = clientStream fs ++ (hdr ++ rest)

theorem GivesUp.append {stream : List UInt8} (h : GivesUp stream) (more : List UInt8) :
    GivesUp (stream ++ more) := by
  obtain ⟨fs, hdr, rest, hfs, hlen, hrej, rfl⟩ := h
  exact ⟨fs, hdr, rest ++ more, hfs, hlen, hrej, by simp only [List.append_assoc]⟩

/-- What follows the preface: frames the scanner does not give up on, and then either a part of one
more or one it does give up on. -/
theorem frames_cases (tail : List UInt8) :
    ∃ fs part, (∀ f ∈ fs, Accepted f) ∧ tail = encodeAll fs ++ part ∧
      (Unfinished part ∨ ∃ hdr rest, hdr.length = frameHeaderLen ∧ Rejected hdr ∧
        part = hdr ++ rest) := by
  induction hn : tail.length using Nat.strongRecOn generalizing tail with
  | ind n ih =>
    by_cases hshort : tail.length < frameHeaderLen
    · exact ⟨[], tail, by simp, rfl, .inl (.inl hshort)⟩
    have hlen : (tail.take frameHeaderLen).length = frameHeaderLen := by
      rw [List.length_take]
      omega
    have hsplit := (List.take_append_drop frameHeaderLen tail).symm
    by_cases hrej : Rejected (tail.take frameHeaderLen)
    · exact ⟨[], tail, by simp, rfl, .inr ⟨_, _, hlen, hrej, hsplit⟩⟩
    have htake : (tail.take frameHeaderLen).take 3 = tail.take 3 := by
      rw [List.take_take]
      rfl
    cases hfirst : firstFrame tail with
    | none =>
      refine ⟨[], tail, by simp, rfl, .inl (.inr ⟨_, _, hsplit, hlen, hrej, ?_⟩)⟩
      rw [firstFrame] at hfirst
      rw [htake, List.length_drop]
      split at hfirst
      · cases hfirst
      · simp only [frameHeaderLen] at hshort ⊢
        omega
    | some f =>
      have htail := firstFrame_eq hfirst
      have hpos := encode_length f
      have hhdr : tail.take frameHeaderLen = f.header := by
        rw [htail, Frame.encode, List.append_assoc]
        exact List.take_left' (header_length f)
      obtain ⟨fs, part, hfs, hrest, hpart⟩ := ih (tail.drop f.encode.length).length
        (by rw [List.length_drop]; simp only [frameHeaderLen] at hshort; omega) _ rfl
      refine ⟨f :: fs, part, fun g hg ↦ ?_, ?_, hpart⟩
      · rcases List.mem_cons.mp hg with rfl | hg
        · exact (accepted_iff g).mpr (hhdr ▸ hrej)
        · exact hfs g hg
      · rw [encodeAll_cons, List.append_assoc, ← hrest]
        exact htail

theorem stream_cases (stream : List UInt8) :
    stream <+: preface ∨ Diverges stream ∨ GivesUp stream ∨
      ∃ fs part, (∀ f ∈ fs, Accepted f) ∧ Unfinished part ∧ stream = clientStream fs ++ part := by
  by_cases hpart : stream <+: preface
  · exact .inl hpart
  by_cases hpreface : preface <+: stream
  swap
  · exact .inr (.inl ⟨hpart, hpreface⟩)
  obtain ⟨tail, rfl⟩ := hpreface
  obtain ⟨fs, part, hfs, rfl, hunfinished | ⟨hdr, rest, hlen, hrej, rfl⟩⟩ := frames_cases tail
  · exact .inr (.inr (.inr ⟨fs, part, hfs, hunfinished, by rw [clientStream, List.append_assoc]⟩))
  · exact .inr (.inr (.inl ⟨fs, hdr, rest, hfs, hlen, hrej,
      by rw [clientStream, List.append_assoc]⟩))

theorem settled_walk_client {fs : List Frame} (h : ∀ f ∈ fs, Accepted f) (part : List UInt8) :
    settled (walk Scanner.new.state (clientStream fs ++ part)) =
      ((settled (walk .atHeader part)).1,
        preface.map .byte ++ (fs.flatMap frameEvents ++ (settled (walk .atHeader part)).2)) := by
  obtain ⟨hset, hev⟩ := walk_frames h
  have hfs : settled (walk .atHeader (encodeAll fs)) = (.atHeader, fs.flatMap frameEvents) := by
    rw [settled, hev, hset]
  have hall := settled_walk_append .atHeader (encodeAll fs) part
  rw [hfs] at hall
  rw [clientStream, List.append_assoc, walk_preface_full, settled]
  have hstate := congrArg Prod.fst hall
  have hevents := congrArg Prod.snd hall
  simp only [settled] at hstate hevents ⊢
  rw [hstate, List.append_assoc, hevents]

/-- As long as the scanner does not give up, all of the stream is accounted for. -/
theorem accounted_of_not_givesUp {stream : List UInt8} (h : ¬ GivesUp stream) :
    Accounted stream (settled (walk Scanner.new.state stream)).1
      (settled (walk Scanner.new.state stream)).2 := by
  rcases stream_cases stream with hpart | hdiv | hgives | ⟨fs, part, hfs, hunfinished, rfl⟩
  · have hwalk := @walk_preface 0 stream (List.prefix_iff_eq_take.mp hpart)
    rw [Scanner.new, hwalk, settled]
    split
    · simpa [State.settle] using accounted_bytes (s := .preface _) rfl stream
    · simpa [State.settle, State.atHeader] using accounted_bytes (s := .atHeader) rfl stream
  · rw [walk_diverges hdiv, settled]
    simpa [State.settle] using accounted_bytes (s := .blind) rfl stream
  · exact absurd hgives h
  · obtain ⟨ps, hps, hevents⟩ := frames_pieces hfs
    have hall := ((unfinished_accounted hunfinished).1.behind ps).behind (preface.map .byte)
    rw [wireOf_bytes, map_event_bytes, hps, hevents] at hall
    rw [settled_walk_client hfs, clientStream, List.append_assoc]
    exact hall

/-! ## 4. Feeding the scanner -/

/-- The scanner, what it has been fed so far, and what has been taken off its handles. -/
structure Feeding where
  scanner : Scanner
  fed : List UInt8
  taken : List (List UInt8)
  reported : UInt32
  deriving DecidableEq, Repr

inductive FeedOp where
  | scan (input : List UInt8)
  | resume
  | takeSync
  | takeFlow
  deriving DecidableEq, Repr

def Feeding.new : Feeding := ⟨.new, [], [], 0⟩

/-- Nothing is scanned ahead of what is held back, which is scanned once the update ahead of it has
been taken. -/
def Feeding.step (o : Feeding) : FeedOp → Feeding
  | .scan input =>
    if o.scanner.isPending ∨ o.scanner.hold = [] then
      { o with scanner := o.scanner.scan input, fed := o.fed ++ input }
    else o
  | .resume =>
    if o.scanner.isPending then o
    else { o with scanner := { o.scanner with hold := [] }.scan o.scanner.hold }
  | .takeSync =>
    { o with scanner := o.scanner.takeSync.2, taken := o.taken ++ o.scanner.takeSync.1 }
  | .takeFlow =>
    { o with scanner := o.scanner.takeFlow.2, reported := o.reported + o.scanner.takeFlow.1 }

/-- The scanner has come past `scanned`, which amounts to `es`. -/
structure Feeding.Past (o : Feeding) (scanned : List UInt8) (es : List Event) : Prop where
  fed : o.fed = scanned ++ o.scanner.hold
  leads : Leads Scanner.new.state scanned o.scanner.state es
  out : o.scanner.out = passed es
  taken : o.taken ++ o.scanner.blocks = updates es
  reported : o.reported + o.scanner.sent = Listener.reported es

/-- What has been fed is, in this order, what passed or was taken out, what the state has, and what
is held back. -/
def Feeding.Conserved (o : Feeding) : Prop :=
  ∃ ps buf, o.fed = wireOf ps ++ buf ++ o.scanner.hold ∧ o.scanner.state.Buffers buf ∧
    o.scanner.out = passed (ps.map Piece.event) ∧
    o.taken ++ o.scanner.blocks = updates (ps.map Piece.event) ∧
    o.reported + o.scanner.sent = Listener.reported (ps.map Piece.event)

variable {o : Feeding} {scanned : List UInt8} {es : List Event}

/-- A scan of what may be scanned takes the scanner further. -/
theorem Feeding.Past.scan (h : o.Past scanned es) (hp : o.scanner.isPending = false)
    {input fed : List UInt8} (hfed : fed = scanned ++ input) :
    ∃ scanned es, Feeding.Past
      { o with scanner := { o.scanner with hold := [] }.scan input, fed } scanned es := by
  have hb : o.scanner.blocks = [] := by simpa [Scanner.isPending] using hp
  have hscan : { o.scanner with hold := [] }.scan input =
      { o.scanner with hold := [] }.scanLoop input := if_neg (by simp [Scanner.isPending, hb])
  obtain ⟨es', hstops⟩ := scanLoop_stops { o.scanner with hold := [] } input rfl
  obtain ⟨used, hinput, hleads⟩ := hstops.used
  rw [hscan]
  refine ⟨scanned ++ used, es ++ es', ?_, h.leads.trans hleads, ?_, ?_, ?_⟩
  · rw [hfed, List.append_assoc, ← hinput]
  · rw [passed_append, ← h.out]
    exact hstops.out
  · rw [updates_append, ← h.taken, List.append_assoc, ← hstops.blocks]
  · rw [reported_append, ← h.reported, UInt32.add_assoc, ← hstops.sent]

theorem step_past (op : FeedOp) (h : ∃ scanned es, o.Past scanned es) :
    ∃ scanned es, (o.step op).Past scanned es := by
  obtain ⟨scanned, es, h⟩ := h
  cases op with
  | scan input =>
    simp only [Feeding.step]
    split
    swap
    · exact ⟨scanned, es, h⟩
    rename_i hdue
    cases hp : o.scanner.isPending with
    | true =>
      -- all of it is held back
      refine ⟨scanned, es, ?_⟩
      simp only [Scanner.scan, if_pos hp]
      exact ⟨by rw [h.fed, List.append_assoc], h.leads, h.out, h.taken, h.reported⟩
    | false =>
      have hhold : o.scanner.hold = [] := hdue.resolve_left (by rw [hp]; exact Bool.false_ne_true)
      have hsame : { o.scanner with hold := [] } = o.scanner := by rw [← hhold]
      have hnext := h.scan hp (show o.fed ++ input = scanned ++ input by
        rw [h.fed, hhold, List.append_nil])
      rwa [hsame] at hnext
  | resume =>
    simp only [Feeding.step]
    split
    · exact ⟨scanned, es, h⟩
    · rename_i hp
      exact h.scan (eq_false_of_ne_true hp) h.fed
  | takeSync =>
    refine ⟨scanned, es, h.fed, h.leads, h.out, ?_, h.reported⟩
    simpa [Feeding.step, Scanner.takeSync] using h.taken
  | takeFlow =>
    refine ⟨scanned, es, h.fed, h.leads, h.out, h.taken, ?_⟩
    simpa [Feeding.step, Scanner.takeFlow] using h.reported

theorem exec_past (ops : List FeedOp) :
    ∃ scanned es, (Runs.exec Feeding.step .new ops).Past scanned es := by
  have hstart : ∃ scanned es, Feeding.new.Past scanned es :=
    ⟨[], [], rfl, .of_walk rfl, rfl, rfl, rfl⟩
  exact Runs.exec_preserves (I := fun o : Feeding ↦ ∃ scanned es, o.Past scanned es)
    (fun _ op ho ↦ step_past op ho) hstart ops

/-! ## 5. What is lost -/

/-- How many bytes of the stream an event stands for. -/
def Event.weight : Event → Nat
  | .byte _ => 1
  | .sync block => frameHeaderLen + block.length
  | .flow _ => frameHeaderLen + fcSyncBodyLen

def weight (es : List Event) : Nat := (es.map Event.weight).sum

@[simp] theorem weight_append (es fs : List Event) : weight (es ++ fs) = weight es + weight fs := by
  simp [weight]

@[simp] theorem weight_bytes (bs : List UInt8) : weight (bs.map .byte) = bs.length := by
  induction bs with
  | nil => rfl
  | cons b bs ih =>
    rw [List.map_cons, List.length_cons, ← ih, weight, List.map_cons, List.sum_cons, Nat.add_comm]
    rfl

/-- Pieces that amount to the same take up the same of the stream, but for how many reports there
are. -/
theorem weight_mod {es fs : List Event} (hp : passed es = passed fs) (hu : updates es = updates fs) :
    weight es % 13 = weight fs % 13 := by
  have hsplit (es : List Event) : weight es % 13 =
      ((passed es).length + ((updates es).map fun b ↦ frameHeaderLen + b.length).sum) % 13 := by
    induction es with
    | nil => rfl
    | cons e es ih =>
      have hcons : weight (e :: es) = e.weight + weight es := rfl
      rw [hcons, Nat.add_mod, ih]
      cases e with
      | byte b =>
        show _ = ((passed es).length + 1 + _) % 13
        simp only [Event.weight, updates, List.filterMap_cons, Event.sync?]
        omega
      | sync b =>
        show _ = ((passed es).length + (List.map _ (b :: updates es)).sum) % 13
        simp only [Event.weight, List.map_cons, List.sum_cons]
        omega
      | flow n =>
        show _ = ((passed es).length + (List.map _ (updates es)).sum) % 13
        simp only [Event.weight, frameHeaderLen, fcSyncBodyLen]
        omega
  rw [hsplit es, hsplit fs, hp, hu]

theorem weight_pieces (ps : List Piece) : weight (ps.map Piece.event) = (wireOf ps).length := by
  induction ps with
  | nil => rfl
  | cons p ps ih =>
    have hcons : weight ((p :: ps).map Piece.event) = p.event.weight + weight (ps.map Piece.event) :=
      rfl
    have hwire : (wireOf (p :: ps)).length = p.wire.length + (wireOf ps).length := by
      rw [wireOf, List.flatMap_cons, List.length_append]
      rfl
    rw [hcons, ih, hwire, Nat.add_right_cancel_iff]
    cases p with
    | byte b => rfl
    | update f => exact (encode_length f.1).symm
    | report f =>
      show frameHeaderLen + fcSyncBodyLen = f.1.encode.length
      rw [encode_length, f.2.2]
      rfl

theorem settled_of_blind (es : List Event) : settled (.blind, es) = (.blind, es) := by
  simp [settled, State.settle]

theorem settled_blind {s : State} {es es' : List Event} (h : settled (s, es) = (.blind, es')) :
    s = .blind ∧ es = es' := by
  rcases settle_cases s with hs | rfl | ⟨block, rfl⟩
  · simpa only [settled, hs, List.append_nil, Prod.mk.injEq] using h
  · cases congrArg Prod.fst h
  · cases congrArg Prod.fst h

theorem settled_walk_rejected {fs : List Frame} (hfs : ∀ f ∈ fs, Accepted f) {hdr : List UInt8}
    (hlen : hdr.length = frameHeaderLen) (hrej : Rejected hdr) (rest : List UInt8) :
    settled (walk Scanner.new.state (clientStream fs ++ (hdr ++ rest))) =
      (.blind, preface.map .byte ++ (fs.flatMap frameEvents ++ rest.map .byte)) := by
  have hfull := @walk_header_full ⟨[], by decide⟩ hdr hlen
  rw [List.nil_append, ofHeader_rejected hrej] at hfull
  have hpart : walk .atHeader (hdr ++ rest) = (.blind, rest.map .byte) := by
    rw [State.atHeader, walk_append, hfull, walk_blind]
    rfl
  rw [settled_walk_client hfs, hpart, settled_of_blind]

/-- The header the scanner gives up on is in none of the places bytes can go to. -/
theorem walk_givesUp {stream : List UInt8} (h : GivesUp stream) :
    ∃ es, walk Scanner.new.state stream = (.blind, es) ∧
      weight es + frameHeaderLen = stream.length := by
  obtain ⟨fs, hdr, rest, hfs, hlen, hrej, rfl⟩ := h
  have hsettled := settled_walk_rejected hfs hlen hrej rest
  generalize walk Scanner.new.state (clientStream fs ++ (hdr ++ rest)) = t at hsettled
  obtain ⟨s, es⟩ := t
  obtain ⟨rfl, rfl⟩ := settled_blind hsettled
  refine ⟨_, rfl, ?_⟩
  obtain ⟨ps, hps, hpieces⟩ := frames_pieces hfs
  rw [weight_append, weight_append, weight_bytes, weight_bytes, ← hpieces, weight_pieces, hps,
    clientStream]
  simp only [List.length_append, hlen]
  omega

theorem not_givesUp {stream : List UInt8} (h : (walk Scanner.new.state stream).1 ≠ .blind) :
    ¬ GivesUp stream := fun hgives ↦ by
  obtain ⟨es, hwalk, -⟩ := walk_givesUp hgives
  rw [hwalk] at h
  exact h rfl

theorem Feeding.Past.not_conserved (h : o.Past scanned es) (hgives : GivesUp scanned) :
    ¬ o.Conserved := by
  rintro ⟨ps, buf, hfed, hbuf, hout, htaken, -⟩
  obtain ⟨es', hwalk, hweight⟩ := walk_givesUp hgives
  have hleads := h.leads
  rw [Leads, hwalk, settled_of_blind] at hleads
  obtain ⟨hstate, hes⟩ := settled_blind hleads
  rw [hstate] at hbuf
  have hnil : buf = [] := hbuf
  rw [h.fed, hnil, List.append_nil] at hfed
  have hwire := congrArg List.length (List.append_cancel_right hfed)
  have hmod := weight_mod (hout.symm.trans h.out) (htaken.symm.trans h.taken)
  rw [weight_pieces, ← hwire, ← hweight, hes] at hmod
  simp only [frameHeaderLen] at hmod
  omega

theorem Feeding.Past.conserved (h : o.Past scanned es) (hno : ¬ GivesUp scanned) :
    o.Conserved := by
  have hsettled := accounted_of_not_givesUp hno
  rw [← h.leads] at hsettled
  obtain ⟨ps, buf, rfl, hbuf, rfl⟩ := hsettled.of_settled
  exact ⟨ps, buf, h.fed, hbuf, h.out, h.taken, h.reported⟩

/-- Whatever the order of scans and takes, nothing is lost as long as there is no frame the scanner
gives up on, and once it has come past one, the header of it is. -/
theorem feeding_conserves (ops : List FeedOp) :
    let o := Runs.exec Feeding.step .new ops
    (¬ GivesUp o.fed → o.Conserved) ∧
      (o.scanner.hold = [] → (o.Conserved ↔ ¬ GivesUp o.fed)) := by
  intro o
  obtain ⟨scanned, es, h⟩ := exec_past ops
  have hkept (hno : ¬ GivesUp o.fed) : o.Conserved :=
    h.conserved fun hgives ↦ hno (h.fed ▸ hgives.append _)
  refine ⟨hkept, fun hhold ↦ ⟨fun hcons hgives ↦ ?_, hkept⟩⟩
  have hfed := h.fed
  rw [show (Runs.exec Feeding.step .new ops).scanner.hold = [] from hhold, List.append_nil] at hfed
  exact h.not_conserved (hfed ▸ hgives) hcons

/-- An update is taken, and the frame behind it is still to come. -/
theorem feeding_conserves_update :
    (Runs.exec Feeding.step .new
      [.scan (preface ++ [0, 0, 2, 0xFB, 0, 0, 0, 0, 0, 0x40, 0x41, 0, 0, 1]), .takeSync,
        .resume]).Conserved :=
  (feeding_conserves [.scan (preface ++ [0, 0, 2, 0xFB, 0, 0, 0, 0, 0, 0x40, 0x41, 0, 0, 1]),
    .takeSync, .resume]).1 (not_givesUp (by decide +kernel))

/-- A report of one byte, and a byte behind it: what passes is the preface and these two, without the
header. -/
theorem malformed_report_lost :
    let o := Runs.exec Feeding.step .new [.scan (preface ++ [0, 0, 1, 0xFA, 0, 0, 0, 0, 0, 1, 2])]
    o.scanner.out = preface ++ [1, 2] ∧ ¬ o.Conserved := by
  intro o
  refine ⟨by decide +kernel, ?_⟩
  obtain ⟨scanned, es, h⟩ :=
    exec_past [.scan (preface ++ [0, 0, 1, 0xFA, 0, 0, 0, 0, 0, 1, 2])]
  have hfed : preface ++ [0, 0, 1, 0xFA, 0, 0, 0, 0, 0, 1, 2] = scanned ++ [] := by
    refine Eq.trans ?_ (h.fed.trans (congrArg (scanned ++ ·) ?_)) <;> decide +kernel
  rw [List.append_nil] at hfed
  refine h.not_conserved ⟨[], [0, 0, 1, 0xFA, 0, 0, 0, 0, 0], [1, 2], by simp, rfl, ?_, hfed.symm⟩
  decide +kernel

end HyperFastPath.Listener
