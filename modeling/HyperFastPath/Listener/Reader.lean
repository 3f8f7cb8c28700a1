import HyperFastPath.Listener.Stream

/-!
# Readers of the stream

A reader polls for bytes and takes updates in any order.  `Tracks` places it in the stream: the
filter's events so far are what the reader has and what is waiting for it.
-/

namespace HyperFastPath.Listener

/-- An update the reader has taken, and how many bytes it had been handed by then. -/
structure Taken where
  block : List UInt8
  handed : Nat
  deriving DecidableEq, Repr

structure Reader where
  stream : BeeperStream
  handed : List UInt8
  taken : List Taken
  deriving DecidableEq

inductive ReaderOp where
  | pollRead (cap : Nat)
  | takeSync
  deriving DecidableEq, Repr

/-- The reader of a connection whose protocol has been asked for. -/
def Reader.start (reads : List SocketRead) : Reader :=
  ⟨(BeeperStream.new reads).protocol.2, [], []⟩

def Reader.step (r : Reader) : ReaderOp → Reader
  | .pollRead cap =>
    { r with
      stream := (r.stream.pollRead cap).2.2
      handed := r.handed ++ (r.stream.pollRead cap).2.1 }
  | .takeSync =>
    { r with
      stream := { r.stream with scanner := r.stream.scanner.takeSync.2 }
      taken := r.taken ++ r.stream.scanner.takeSync.1.map fun block ↦ ⟨block, r.handed.length⟩ }

/-! ## 1. Where a reader is in the stream -/

/-- How many bytes pass ahead of update number `k`. -/
def ahead : List Event → Nat → Nat
  | [], _ => 0
  | .byte _ :: es, k => ahead es k + 1
  | .flow _ :: es, k => ahead es k
  | .sync _ :: _, 0 => 0
  | .sync _ :: es, k + 1 => ahead es k

theorem ahead_append {es : List Event} {k : Nat} (h : (updates es).length ≤ k)
    (fs : List Event) :
    ahead (es ++ fs) k = (passed es).length + ahead fs (k - (updates es).length) := by
  induction es generalizing k with
  | nil => simp
  | cons e es ih =>
    cases e with
    | byte b =>
      show ahead (es ++ fs) k + 1 = (passed es).length + 1 + _
      rw [ih h]
      show _ = _ + ahead fs (k - (updates es).length)
      omega
    | flow n => exact ih h
    | sync b =>
      have hlen : (updates (.sync b :: es)).length = (updates es).length + 1 := rfl
      obtain ⟨k, rfl⟩ : ∃ j, k = j + 1 := ⟨k - 1, by omega⟩
      show ahead (es ++ fs) k = _
      rw [ih (Nat.le_of_succ_le_succ h)]
      show _ = (passed es).length + ahead fs (k + 1 - ((updates es).length + 1))
      rw [Nat.add_sub_add_right]

def eventsOf (stream : List UInt8) : List Event := (walk Scanner.new.state stream).2

/-- `s` has come past the events `es` of `stream`: of what passed on the way the bytes `handed` have
been handed out, of the updates the blocks `taken` have been taken. -/
structure BeeperStream.Tracks (s : BeeperStream) (stream handed : List UInt8)
    (taken : List (List UInt8)) (es : List Event) : Prop where
  run : walk Scanner.new.state stream =
    ((walk s.scanner.state (s.scanner.hold ++ streamOf s.inner)).1,
      es ++ (walk s.scanner.state (s.scanner.hold ++ streamOf s.inner)).2)
  handed : passed es = handed ++ s.scanner.out
  taken : updates es = taken ++ s.scanner.blocks
  waiting : s.scanner.blocks = [] ∨ ∃ es' block, es = es' ++ [.sync block] ∧
    s.scanner.blocks = [block]

variable {stream handed : List UInt8} {taken : List (List UInt8)} {es : List Event}

/-- A scan leads from one place in the stream to the next, and counts what it comes past. -/
theorem BeeperStream.Tracks.scan (scanner : Scanner) {inner : List SocketRead}
    {input : List UInt8} (hp : scanner.isPending = false) (hh : scanner.hold = [])
    (hrun : walk Scanner.new.state stream =
      ((walk scanner.state (input ++ streamOf inner)).1,
        es ++ (walk scanner.state (input ++ streamOf inner)).2))
    (hhanded : passed es = handed ++ scanner.out) (htaken : updates es = taken) :
    ∃ es', Tracks ⟨inner, scanner.scan input⟩ stream handed taken (es ++ es') ∧
      (scanner.scan input).sent = scanner.sent + reported es' := by
  have hb : scanner.blocks = [] := by simpa [Scanner.isPending] using hp
  obtain ⟨es₁, h⟩ := scan_scans hp hh input
  refine ⟨es₁, ⟨?_, ?_, ?_, ?_⟩, h.sent⟩
  · rw [hrun, walk_append, h.run, walk_append]
    simp only [List.append_assoc]
  · rw [passed_append, hhanded, h.out, List.append_assoc]
  · rw [updates_append, htaken, h.blocks, hb, List.nil_append]
  · rcases h.stop with ⟨hu, -⟩ | ⟨es', block, rfl, hu, -⟩
    · exact .inl (by rw [h.blocks, hb, hu, List.nil_append])
    · refine .inr ⟨es ++ es', block, by rw [List.append_assoc], ?_⟩
      rw [h.blocks, hb, updates_append, hu]
      rfl

theorem streamOf_data (chunk : { l : List UInt8 // l ≠ [] ∧ l.length ≤ readChunk })
    (inner : List SocketRead) : streamOf (.data chunk :: inner) = chunk.1 ++ streamOf inner := rfl

theorem streamOf_pending (inner : List SocketRead) :
    streamOf (.pending :: inner) = streamOf inner := rfl

theorem streamOf_failed (inner : List SocketRead) :
    streamOf (.failed :: inner) = streamOf inner := rfl

theorem scan_preface {s : Scanner} (hp : s.isPending = false) (hh : s.hold = [])
    {input : List UInt8} (hs : (s.scan input).state.protocol? = none) :
    (s.scan input).isPending = false ∧ (s.scan input).hold = [] := by
  have hb : s.blocks = [] := by simpa [Scanner.isPending] using hp
  obtain ⟨es, h⟩ := scan_scans hp hh input
  rcases h.stop with ⟨hu, hhold⟩ | ⟨_, _, _, _, hat⟩
  · exact ⟨by simp [Scanner.isPending, h.blocks, hb, hu], hhold⟩
  · rw [hat] at hs
    exact absurd hs (by decide)

/-- Nothing further is come past. -/
private theorem tracks_refl {s : BeeperStream} (h : s.Tracks stream handed taken es) :
    ∃ es', s.Tracks stream handed taken (es ++ es') ∧
      s.scanner.sent = s.scanner.sent + reported es' :=
  ⟨[], by simpa using h, by simp⟩

theorem protocolLoop_tracks {scanner : Scanner} {inner : List SocketRead}
    (h : BeeperStream.Tracks ⟨inner, scanner⟩ stream handed taken es)
    (hclear : scanner.state.protocol? = none → scanner.isPending = false ∧ scanner.hold = []) :
    ∃ es', (protocolLoop scanner inner).2.Tracks stream handed taken (es ++ es') ∧
      (protocolLoop scanner inner).2.scanner.sent = scanner.sent + reported es' := by
  fun_induction protocolLoop scanner inner generalizing es with
  | case1 scanner => exact tracks_refl h
  | case2 scanner read inner p hs => exact tracks_refl h
  | case3 scanner inner hs chunk ih =>
    obtain ⟨hp, hh⟩ := hclear hs
    have hb : scanner.blocks = [] := by simpa [Scanner.isPending] using hp
    obtain ⟨hrun, hhanded, htaken, -⟩ := h
    simp only [hh, hb, streamOf_data, List.nil_append, List.append_nil] at hrun hhanded htaken
    obtain ⟨es₁, h₁, hsent₁⟩ := BeeperStream.Tracks.scan scanner hp hh hrun hhanded htaken
    obtain ⟨es₂, h₂, hsent₂⟩ := ih h₁ fun hs' ↦ scan_preface hp hh hs'
    exact ⟨es₁ ++ es₂, by rwa [← List.append_assoc],
      by rw [hsent₂, hsent₁, reported_append, UInt32.add_assoc]⟩
  | case4 scanner inner hs ih => exact ih ⟨h.run, h.handed, h.taken, h.waiting⟩ hclear
  | case5 scanner inner hs =>
    have hfailed : BeeperStream.Tracks ⟨inner, scanner⟩ stream handed taken es :=
      ⟨h.run, h.handed, h.taken, h.waiting⟩
    exact tracks_refl hfailed

theorem pollRead_tracks {s : BeeperStream} (h : s.Tracks stream handed taken es) (cap : Nat) :
    ∃ es', (s.pollRead cap).2.2.Tracks stream (handed ++ (s.pollRead cap).2.1) taken (es ++ es') ∧
      (s.pollRead cap).2.2.scanner.sent = s.scanner.sent + reported es' := by
  fun_induction BeeperStream.pollRead s cap generalizing es with
  | case1 s hout =>
    have hdrained : BeeperStream.Tracks
        { s with scanner := { s.scanner with out := s.scanner.out.drop cap } } stream
        (handed ++ s.scanner.out.take cap) taken es := by
      refine ⟨h.run, ?_, h.taken, h.waiting⟩
      rw [h.handed, List.append_assoc, List.take_append_drop]
    exact tracks_refl hdrained
  | case2 s hout hp => exact tracks_refl (by simpa using h)
  | case3 s hout hp hh ih =>
    -- what was held back is scanned before anything is read
    have hp' : s.scanner.isPending = false := eq_false_of_ne_true hp
    have hb : s.scanner.blocks = [] := by simpa [Scanner.isPending] using hp'
    obtain ⟨hrun, hhanded, htaken, -⟩ := h
    have htaken' : updates es = taken := by rw [htaken, hb, List.append_nil]
    obtain ⟨es₁, h₁, hsent₁⟩ := BeeperStream.Tracks.scan { s.scanner with hold := [] } hp' rfl hrun
      hhanded htaken'
    obtain ⟨es₂, h₂, hsent₂⟩ := ih h₁
    exact ⟨es₁ ++ es₂, by rwa [← List.append_assoc],
      by rw [hsent₂, hsent₁, reported_append, UInt32.add_assoc]⟩
  | case4 s hout hp hh hi => exact tracks_refl (by simpa using h)
  | case5 s hout hp hh inner hi =>
    obtain ⟨hrun, hhanded, htaken, hw⟩ := h
    rw [hi, streamOf_pending] at hrun
    have hpending : BeeperStream.Tracks { s with inner } stream handed taken es :=
      ⟨hrun, hhanded, htaken, hw⟩
    exact tracks_refl (by simpa using hpending)
  | case6 s hout hp hh inner hi =>
    obtain ⟨hrun, hhanded, htaken, hw⟩ := h
    rw [hi, streamOf_failed] at hrun
    have hfailed : BeeperStream.Tracks { s with inner } stream handed taken es :=
      ⟨hrun, hhanded, htaken, hw⟩
    exact tracks_refl (by simpa using hfailed)
  | case7 s hout hp hh chunk inner hi ih =>
    -- nothing is held back, so what is read goes straight on
    have hp' : s.scanner.isPending = false := eq_false_of_ne_true hp
    have hh' : s.scanner.hold = [] := not_not.mp hh
    have hb : s.scanner.blocks = [] := by simpa [Scanner.isPending] using hp'
    obtain ⟨hrun, hhanded, htaken, -⟩ := h
    rw [hi, hh', streamOf_data, List.nil_append] at hrun
    obtain ⟨es₁, h₁, hsent₁⟩ := BeeperStream.Tracks.scan s.scanner hp' hh' hrun hhanded
      (by rw [htaken, hb, List.append_nil])
    obtain ⟨es₂, h₂, hsent₂⟩ := ih h₁
    exact ⟨es₁ ++ es₂, by rwa [← List.append_assoc],
      by rw [hsent₂, hsent₁, reported_append, UInt32.add_assoc]⟩

theorem takeSync_tracks {s : BeeperStream} (h : s.Tracks stream handed taken es) :
    BeeperStream.Tracks { s with scanner := s.scanner.takeSync.2 } stream handed
      (taken ++ s.scanner.takeSync.1) es :=
  ⟨h.run, h.handed, by simp [h.taken, Scanner.takeSync], .inl rfl⟩

/-! ## 2. Runs of a reader -/

/-- The reader is somewhere in the stream of the socket's reads. -/
def Reader.Follows (reads : List SocketRead) (r : Reader) : Prop :=
  ∃ es, r.stream.Tracks (streamOf reads) r.handed (r.taken.map Taken.block) es

theorem start_follows (reads : List SocketRead) : (Reader.start reads).Follows reads := by
  have h : BeeperStream.Tracks ⟨reads, .new⟩ (streamOf reads) [] [] [] :=
    ⟨by rw [List.nil_append]; rfl, rfl, rfl, .inl rfl⟩
  obtain ⟨es, h', -⟩ := protocolLoop_tracks h fun _ ↦ ⟨rfl, rfl⟩
  exact ⟨es, h'⟩

theorem step_follows {reads : List SocketRead} (r : Reader) (op : ReaderOp)
    (h : r.Follows reads) : (r.step op).Follows reads := by
  obtain ⟨es, h⟩ := h
  cases op with
  | pollRead cap =>
    obtain ⟨es', h', -⟩ := pollRead_tracks h cap
    exact ⟨es ++ es', h'⟩
  | takeSync =>
    refine ⟨es, ?_⟩
    have htaken := takeSync_tracks h
    simpa [Reader.step, Function.comp_def] using htaken

theorem exec_follows (reads : List SocketRead) (ops : List ReaderOp) :
    (Runs.exec Reader.step (Reader.start reads) ops).Follows reads :=
  Runs.exec_preserves step_follows (start_follows reads) ops

theorem Reader.Follows.eventsOf_eq {reads : List SocketRead} {r : Reader} {es : List Event}
    (h : r.stream.Tracks (streamOf reads) r.handed (r.taken.map Taken.block) es) :
    ∃ fs, eventsOf (streamOf reads) = es ++ fs :=
  ⟨_, by rw [eventsOf, h.run]⟩

/-- No more has been handed out than passes ahead of the first update that has not been taken. -/
theorem Reader.Follows.handed_le {reads : List SocketRead} {r : Reader} (h : r.Follows reads)
    {k : Nat} (hk : r.taken.length ≤ k) :
    r.handed.length ≤ ahead (eventsOf (streamOf reads)) k := by
  obtain ⟨es, h⟩ := h
  obtain ⟨fs, hfs⟩ := Reader.Follows.eventsOf_eq h
  have hlen := congrArg List.length h.handed
  have hup := congrArg List.length h.taken
  simp only [List.length_append, List.length_map] at hlen hup
  rw [hfs]
  -- if an update is waiting, it is the last event so far and has not been taken
  rcases h.waiting with hb | ⟨es', block, rfl, hb⟩
  · rw [hb, List.length_nil] at hup
    rw [ahead_append (by omega)]
    omega
  · simp only [passed_append, passed_sync, List.append_nil, updates_append, updates_sync,
      List.length_append, List.length_singleton, hb] at hlen hup
    rw [List.append_assoc, ahead_append (by omega)]
    omega

/-- The update that is waiting has ahead of it what has been handed out and what is left to hand
out. -/
theorem Reader.Follows.ahead_waiting {reads : List SocketRead} {r : Reader} (h : r.Follows reads)
    (hb : r.stream.scanner.blocks ≠ []) :
    ahead (eventsOf (streamOf reads)) r.taken.length =
        r.handed.length + r.stream.scanner.out.length ∧
      r.stream.scanner.blocks.length = 1 := by
  obtain ⟨es, h⟩ := h
  obtain ⟨fs, hfs⟩ := Reader.Follows.eventsOf_eq h
  obtain ⟨es', block, rfl, hb'⟩ := h.waiting.resolve_left hb
  have hlen := congrArg List.length h.handed
  have hup := congrArg List.length h.taken
  simp only [passed_append, passed_sync, List.append_nil, updates_append, updates_sync,
    List.length_append, List.length_singleton, List.length_map, hb'] at hlen hup
  refine ⟨?_, by rw [hb', List.length_singleton]⟩
  rw [hfs, List.append_assoc, ahead_append (by omega), hlen, Nat.add_right_cancel hup,
    Nat.sub_self]
  rfl

/-! ## 3. The barrier -/

theorem chunks_whole (stream : List UInt8) :
    (Feed.new.chunks [stream]).scanner.out = passed (eventsOf stream) ∧
      (Feed.new.chunks [stream]).taken = updates (eventsOf stream) := by
  have h : Feed.new.chunks [stream] = Feed.new.after (walk Scanner.new.state stream) := by
    have hnew : Feed.new = Feed.new.after (Scanner.new.state, []) := rfl
    conv_lhs => rw [hnew, Feed.chunks_after, List.flatten_singleton]
  rw [h]
  exact ⟨rfl, rfl⟩

/-- Leaving a buffer with room as it is means the end of the stream. -/
theorem pollRead_eof {s : BeeperStream} {cap : Nat} (hcap : 0 < cap)
    (hready : (s.pollRead cap).1 = .ready) (hnone : (s.pollRead cap).2.1 = []) :
    (s.pollRead cap).2.2.inner = [] ∧ (s.pollRead cap).2.2.scanner.out = [] ∧
      (s.pollRead cap).2.2.scanner.hold = [] ∧ (s.pollRead cap).2.2.scanner.blocks = [] := by
  fun_induction BeeperStream.pollRead s cap with
  | case1 s hout =>
    rcases List.take_eq_nil_iff.mp hnone with hc | ho
    · omega
    · exact absurd ho hout
  | case2 s hout hp => cases hready
  | case3 s hout hp hh ih => exact ih hready hnone
  | case4 s hout hp hh hi =>
    exact ⟨hi, not_not.mp hout, not_not.mp hh, by simpa [Scanner.isPending] using hp⟩
  | case5 s hout hp hh inner hi => cases hready
  | case6 s hout hp hh inner hi => cases hready
  | case7 s hout hp hh chunk inner hi ih => exact ih hready hnone

/-- Whatever the order of polls and takes, a reader is handed the filter's output from its start,
gets nothing that lies behind an update before it has taken that update, and is told of the end
only when everything has been handed out and taken. -/
theorem reader_barrier (reads : List SocketRead) (ops : List ReaderOp) :
    let r := Runs.exec Reader.step (Reader.start reads) ops
    let whole := Feed.new.chunks [streamOf reads]
    r.handed <+: whole.scanner.out ∧
      (r.taken.map Taken.block ++ r.stream.scanner.blocks <+: whole.taken ∧
        r.stream.scanner.blocks.length ≤ 1 ∧
        ∀ k, r.taken.length ≤ k →
          r.handed.length ≤ ahead (eventsOf (streamOf reads)) k) ∧
      ∀ cap, 0 < cap → (r.stream.pollRead cap).1 = .ready → (r.stream.pollRead cap).2.1 = [] →
        (r.stream.pollRead cap).2.2.inner = [] ∧ (r.stream.pollRead cap).2.2.scanner.out = [] ∧
          (r.stream.pollRead cap).2.2.scanner.hold = [] ∧
          (r.stream.pollRead cap).2.2.scanner.blocks = [] ∧
          r.handed = whole.scanner.out ∧ r.taken.map Taken.block = whole.taken := by
  intro r whole
  have hr : r.Follows reads := exec_follows reads ops
  obtain ⟨hout, htaken⟩ := chunks_whole (streamOf reads)
  obtain ⟨es, h⟩ := hr
  obtain ⟨fs, hfs⟩ := Reader.Follows.eventsOf_eq h
  refine ⟨?_, ⟨?_, ?_, fun k hk ↦ Reader.Follows.handed_le ⟨es, h⟩ hk⟩, ?_⟩
  · rw [hout, hfs, passed_append, h.handed, List.append_assoc]
    exact List.prefix_append _ _
  · rw [htaken, hfs, updates_append, h.taken]
    exact List.prefix_append _ _
  · rcases h.waiting with hb | ⟨_, _, _, hb⟩ <;> simp [hb]
  · intro cap hcap hready hnone
    obtain ⟨hi, ho, hh, hb⟩ := pollRead_eof hcap hready hnone
    obtain ⟨es₁, h', -⟩ := pollRead_tracks h cap
    -- nothing is left on the way, so the reader has come past all events
    have hall : eventsOf (streamOf reads) = es ++ es₁ := by
      rw [eventsOf, h'.run, hh, hi]
      simp [streamOf]
    refine ⟨hi, ho, hh, hb, ?_, ?_⟩
    · rw [hout, hall, h'.handed, ho, hnone, List.append_nil, List.append_nil]
    · rw [htaken, hall, h'.taken, hb, List.append_nil]

/-- A client's preface and settings, and then a request, an update and another request in one
read. -/
def bundledReads : List SocketRead :=
  [.data ⟨preface ++ [0, 0, 0, 4, 0, 0, 0, 0, 0], by decide⟩,
    .data ⟨[0, 0, 1, 1, 5, 0, 0, 0, 1, 0x82] ++ [0, 0, 2, 0xFB, 0, 0, 0, 0, 0, 0x40, 0x41] ++
      [0, 0, 1, 1, 5, 0, 0, 0, 5, 0xBE], by decide⟩]

theorem reader_barrier_bundled :
    let r := Runs.exec Reader.step (Reader.start bundledReads)
      [.pollRead 64, .pollRead 64, .pollRead 64, .takeSync, .pollRead 64]
    (r.stream.pollRead 1).2.2.inner = [] ∧
      r.handed = (Feed.new.chunks [streamOf bundledReads]).scanner.out ∧
      r.taken.map Taken.block = [[0x40, 0x41]] := by
  have h := (reader_barrier bundledReads
    [.pollRead 64, .pollRead 64, .pollRead 64, .takeSync, .pollRead 64]).2.2 1 (by decide)
    (by decide +kernel) (by decide +kernel)
  obtain ⟨hi, -, -, -, hout, htaken⟩ := h
  exact ⟨hi, hout, htaken.trans (by decide +kernel)⟩

/-! ## 4. Updates taken early -/

/-- Every update was taken with all that lies ahead of it handed out. -/
def Reader.InOrder (reads : List SocketRead) (r : Reader) : Prop :=
  ∀ k t, r.taken[k]? = some t → ahead (eventsOf (streamOf reads)) k ≤ t.handed

/-- The step does not take an update while there are scanned bytes left to hand out. -/
def Reader.DrainsFirst (r : Reader) (op : ReaderOp) : Prop :=
  op = .takeSync → r.stream.scanner.blocks ≠ [] → r.stream.scanner.out = []

theorem step_inOrder_iff {reads : List SocketRead} (r : Reader) (op : ReaderOp)
    (h : r.Follows reads) : (r.step op).InOrder reads ↔ r.InOrder reads ∧ r.DrainsFirst op := by
  cases op with
  | pollRead cap => simp [Reader.DrainsFirst, Reader.InOrder, Reader.step]
  | takeSync =>
    by_cases hb : r.stream.scanner.blocks = []
    · simp [Reader.DrainsFirst, Reader.InOrder, Reader.step, Scanner.takeSync, hb]
    -- there is one update to take, and `out` is what still lies ahead of it
    · obtain ⟨hahead, hone⟩ := h.ahead_waiting hb
      obtain ⟨block, hblock⟩ := List.length_eq_one_iff.mp hone
      have htaken : (r.step .takeSync).taken = r.taken ++ [⟨block, r.handed.length⟩] := by
        simp [Reader.step, Scanner.takeSync, hblock]
      have hdrains : r.DrainsFirst .takeSync ↔ r.stream.scanner.out = [] :=
        ⟨fun hd ↦ hd rfl hb, fun ho _ _ ↦ ho⟩
      rw [hdrains, Reader.InOrder, htaken]
      constructor
      -- the update that is taken comes behind the ones that were, with all of `out` ahead of it
      · intro hall
        refine ⟨fun k t hk ↦ hall k t ?_, ?_⟩
        · rw [List.getElem?_append_left (List.getElem?_eq_some_iff.mp hk).1, hk]
        · have hlast := hall r.taken.length ⟨block, r.handed.length⟩ (by simp)
          simp only at hlast
          exact List.eq_nil_of_length_eq_zero (by omega)
      · rintro ⟨hall, hout⟩ k t hk
        rcases Nat.lt_trichotomy k r.taken.length with hlt | rfl | hgt
        · rw [List.getElem?_append_left hlt] at hk
          exact hall k t hk
        · obtain rfl : ⟨block, r.handed.length⟩ = t := by simpa using hk
          simp only [hahead, hout, List.length_nil, Nat.add_zero, Nat.le_refl]
        · have hlt := (List.getElem?_eq_some_iff.mp hk).1
          rw [List.length_append, List.length_singleton] at hlt
          omega

/-- No update of a run was taken early exactly when each was taken with the scanner's output
drained. -/
theorem inOrder_iff_drainsFirst (reads : List SocketRead) (ops : List ReaderOp) :
    (Runs.exec Reader.step (Reader.start reads) ops).InOrder reads ↔
      Runs.Along Reader.step Reader.DrainsFirst (Reader.start reads) ops := by
  refine Runs.Along.iff_of_step step_follows step_inOrder_iff (start_follows reads) ?_ ops
  intro k t hk
  cases hk

/-- A poll that stops one byte short of the end of the first request leaves that byte behind the
update. -/
theorem take_early :
    ¬ (Runs.exec Reader.step (Reader.start bundledReads)
      [.takeSync, .pollRead 64, .takeSync, .pollRead 9, .takeSync]).InOrder bundledReads := by
  intro h
  exact absurd (h 0 ⟨[0x40, 0x41], 42⟩ (by decide +kernel)) (by decide +kernel)

end HyperFastPath.Listener
