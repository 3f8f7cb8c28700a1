import HyperFastPath.EndToEnd.Reports
import HyperFastPath.EndToEnd.Tables
import HyperFastPath.FastPath.FlowSafety
import HyperFastPath.Server.Progress

/-!
# The codec in step

The codec behind `serve_h2` decodes what it has read at its own pace, while a table it is primed
with takes the place of its own at once.
-/

namespace HyperFastPath.EndToEnd

open Bytes Http2 FastPath Listener Server Segments

/-- The connection that `serve_h2` drives, and the bytes its codec has read and not decoded yet. -/
structure H2Conn where
  loop : ServeH2
  codec : Codec
  unread : List UInt8

/-- What `h2` makes of one turn, with the number of bytes it decodes of those it has read. -/
structure CodecTurn extends Turn where
  decodes : Nat

/-- The handshake reads the preface and decodes nothing yet. -/
def H2Conn.start (dec : Decoder) (stream : List SocketRead) (reads : List Nat) : H2Conn where
  loop := .start stream reads
  codec := .new dec
  unread := (ServeH2.start stream reads).holder.handed.drop preface.length

def H2Conn.poll (dec : Decoder) (c : H2Conn) (t : CodecTurn) : H2Conn :=
  let loop := c.loop.poll t.toTurn
  if loop.ended then { c with loop }
  else
    -- the updates are taken before anything is read
    let primed := (loop.primed.drop c.loop.primed.length).foldl
      (fun codec block ↦ codec.event dec (.sync block)) c.codec
    let unread := c.unread ++ loop.holder.handed.drop c.loop.holder.handed.length
    { loop
      codec := (unread.take t.decodes).foldl (Codec.byte dec true) primed
      unread := unread.drop t.decodes }

/-- An update that waits at the start of a turn has nothing ahead of it that was not handed out and
decoded. -/
def H2Conn.DecodesFirst (c : H2Conn) (_ : CodecTurn) : Prop :=
  c.loop.holder.stream.scanner.blocks ≠ [] →
    c.loop.holder.stream.scanner.out = [] ∧ c.unread = []

instance (c : H2Conn) (t : CodecTurn) : Decidable (c.DecodesFirst t) :=
  inferInstanceAs (Decidable (_ → _))

variable {dec : Decoder} {stream : List SocketRead} {c : H2Conn} {es : List Event}
  {done ready : List Event}

/-! ## 1. The codec and the events -/

theorem foldl_passed (hnone : updates es = []) (codec : Codec) :
    es.foldl (Codec.event dec) codec = (passed es).foldl (Codec.byte dec true) codec := by
  induction es generalizing codec with
  | nil => rfl
  | cons e es ih =>
    cases e with
    | byte b => exact ih hnone _
    | flow n => exact ih hnone _
    | sync block => cases hnone

theorem split_passed {front back : List UInt8} (h : passed es = front ++ back) :
    ∃ es₁ es₂, es = es₁ ++ es₂ ∧ passed es₁ = front ∧ passed es₂ = back := by
  induction es generalizing front with
  | nil =>
    obtain ⟨rfl, rfl⟩ := List.append_eq_nil_iff.mp h.symm
    exact ⟨[], [], rfl, rfl, rfl⟩
  | cons e es ih =>
    cases e with
    | byte b =>
      cases front with
      | nil => exact ⟨[], .byte b :: es, rfl, rfl, h⟩
      | cons b' front =>
        obtain ⟨rfl, htail⟩ := List.cons.inj h
        obtain ⟨es₁, es₂, rfl, rfl, hback⟩ := ih htail
        exact ⟨.byte b :: es₁, es₂, rfl, rfl, hback⟩
    | flow n =>
      obtain ⟨es₁, es₂, rfl, hfront, hback⟩ := ih h
      exact ⟨.flow n :: es₁, es₂, rfl, hfront, hback⟩
    | sync block =>
      obtain ⟨es₁, es₂, rfl, hfront, hback⟩ := ih h
      exact ⟨.sync block :: es₁, es₂, rfl, hfront, hback⟩

/-- Of what the scanner has come past last, only the update that waits is an update. -/
theorem split_waiting {front : List Event} {blocks : List (List UInt8)} (hup : updates es = blocks)
    (hw : blocks = [] ∨ ∃ es' block, front ++ es = es' ++ [.sync block] ∧ blocks = [block]) :
    ∃ r, es = r ++ blocks.map .sync ∧ updates r = [] := by
  rcases hw with rfl | ⟨es', block, hlast, rfl⟩
  · exact ⟨es, (List.append_nil es).symm, hup⟩
  rcases List.eq_nil_or_concat es with rfl | ⟨r, e, rfl⟩
  · cases hup
  rw [List.concat_eq_append, ← List.append_assoc] at hlast
  rw [List.concat_eq_append] at hup ⊢
  obtain rfl : e = .sync block := (List.append_inj' hlast rfl).2 |> List.singleton_inj.mp
  rw [updates_append, updates_sync] at hup
  exact ⟨r, rfl, List.append_cancel_right (hup.trans (List.nil_append _).symm)⟩

/-- The frames that have been decoded stay so. -/
theorem entries_prefix (es : List Event) (codec : Codec) :
    codec.entries <+: (es.foldl (Codec.event dec) codec).entries := by
  induction es generalizing codec with
  | nil => exact List.prefix_refl _
  | cons e es ih =>
    apply List.IsPrefix.trans ?_ (ih _)
    cases e with
    | byte b =>
      show codec.entries <+: (codec.byte dec true b).entries
      unfold Codec.byte
      split
      · exact List.prefix_append _ _
      · exact List.prefix_refl _
    | flow n => exact List.prefix_refl _
    | sync block => exact List.prefix_refl _

/-! ## 2. Turns -/

theorem primeBlocks_applied {primes : List UInt8 → Bool} {blocks : List (List UInt8)}
    (h : (primeBlocks primes blocks).2 = true) : (primeBlocks primes blocks).1 = blocks := by
  induction blocks with
  | nil => rfl
  | cons block blocks ih =>
    rw [primeBlocks] at h ⊢
    split at h
    · rw [if_pos ‹_›, ih h]
    · cases h

/-- What a turn that does not end the connection has taken before it reads. -/
structure Took (c c' : ServeH2) : Prop where
  primed : c'.primed = c.primed ++ c.holder.stream.scanner.blocks
  handed : c'.holder.handed = c.holder.handed
  taken : c'.holder.taken.map Taken.block =
    c.holder.taken.map Taken.block ++ c.holder.stream.scanner.blocks
  stream : c'.holder.stream = { c.holder.stream with
    scanner := { c.holder.stream.scanner with sent := 0, blocks := [] } }

theorem poll_took {c : ServeH2} {t : Turn} (h : (c.poll t).ended = false) :
    c.ended = false ∧ ∃ c', Took c c' ∧ c.poll t = c'.readAll t.reads := by
  unfold ServeH2.poll at h ⊢
  split at h
  · rename_i hended
    rw [hended] at h
    cases h
  rename_i hruns
  simp only at h
  split at h
  · rename_i hended
    rw [hended] at h
    cases h
  rename_i hflow
  split at h
  · rename_i hended
    rw [hended] at h
    cases h
  rename_i hsync
  refine ⟨eq_false_of_ne_true hruns, (c.takeFlow t).takeSync t, ?_, ?_⟩
  · have hholder : (c.takeFlow t).holder = c.holder.step .takeFlow := consume_holder _ _ _
    have hprimed : (c.takeFlow t).primed = c.primed := by
      rw [ServeH2.takeFlow, ServeH2.consume]
      split <;> rfl
    have hblocks : (c.takeFlow t).holder.stream.scanner.takeSync.1 =
        c.holder.stream.scanner.blocks := by
      rw [hholder]
      rfl
    have happlied : (primeBlocks t.primes c.holder.stream.scanner.blocks).2 = true := by
      rw [← hblocks]
      simpa [ServeH2.takeSync] using hsync
    refine ⟨?_, ?_, ?_, ?_⟩
    · simp only [ServeH2.takeSync, hprimed, hblocks, primeBlocks_applied happlied]
    · simp only [ServeH2.takeSync, hholder]
      rfl
    · simp [ServeH2.takeSync, hholder, Holder.step, Reader.step, Scanner.takeSync,
        Scanner.takeFlow, Function.comp_def]
    · simp only [ServeH2.takeSync, hholder]
      rfl
  · rw [if_neg hruns, if_neg hflow, if_neg hsync]

/-- Reading comes past further events, and hands out more bytes. -/
theorem readAll_tracks {c : ServeH2} {taken : List (List UInt8)}
    (h : c.holder.stream.Tracks (streamOf stream) c.holder.handed taken es) (reads : List Nat) :
    ∃ es' bytes, (c.readAll reads).holder.handed = c.holder.handed ++ bytes ∧
      (c.readAll reads).holder.stream.Tracks (streamOf stream) (c.holder.handed ++ bytes) taken
        (es ++ es') := by
  unfold ServeH2.readAll
  simp only
  generalize c.holder = o at h
  induction reads generalizing o es with
  | nil => exact ⟨[], [], (List.append_nil _).symm, by simpa using h⟩
  | cons cap reads ih =>
    obtain ⟨es₁, h₁, -⟩ := pollRead_tracks h cap
    obtain ⟨es₂, bytes, hhanded, h₂⟩ := ih (o.step (.read (.pollRead cap))) h₁
    have hbytes : (o.step (.read (.pollRead cap))).handed ++ bytes =
        o.handed ++ ((o.stream.pollRead cap).2.1 ++ bytes) := List.append_assoc _ _ _
    rw [List.append_assoc, hbytes] at h₂
    exact ⟨es₁ ++ es₂, _, hhanded.trans hbytes, h₂⟩

/-- The codec has come past the events `done`, and `ready` are those that are there for it. -/
structure H2Conn.Tracks (dec : Decoder) (stream : List SocketRead) (c : H2Conn)
    (done ready : List Event) : Prop where
  run : c.loop.holder.stream.Tracks (streamOf stream) c.loop.holder.handed
    (c.loop.holder.taken.map Taken.block) (preface.map .byte ++ done ++
      (ready ++ c.loop.holder.stream.scanner.blocks.map .sync))
  codec : c.codec = done.foldl (Codec.event dec) (.new dec)
  passed : passed ready = c.unread ++ c.loop.holder.stream.scanner.out
  updates : updates ready = []

theorem passed_syncs (blocks : List (List UInt8)) : passed (blocks.map .sync) = [] := by
  induction blocks with
  | nil => rfl
  | cons block blocks ih => exact ih

/-- Behind the handshake there is nothing decoded yet. -/
theorem start_tracks (dec : Decoder) {bytes : List UInt8}
    (hpreface : streamOf stream = preface ++ bytes) {reads : List Nat}
    (hshake : preface.length ≤ (ServeH2.start stream reads).holder.handed.length) :
    ∃ ready, (H2Conn.start dec stream reads).Tracks dec stream [] ready := by
  obtain ⟨es₀, hstart⟩ := holder_start stream
  have hstart := hstart.run
  rw [List.nil_append] at hstart
  obtain ⟨es₁, handed, hhanded, hrun⟩ := readAll_tracks
    (c := { holder := .start stream, consumed := [], primed := [], ended := false }) hstart reads
  have htaken := (readAll_keeps
    { holder := .start stream, consumed := [], primed := [], ended := false } reads).2.2
  change (ServeH2.start stream reads).holder.handed = handed at hhanded
  change BeeperStream.Tracks (ServeH2.start stream reads).holder.stream (streamOf stream) handed []
    (es₀ ++ es₁) at hrun
  change (ServeH2.start stream reads).holder.taken = [] at htaken
  rw [hhanded] at hshake
  -- as the preface has been handed out, the scanner has come past all of it
  obtain ⟨es, hes⟩ : preface.map .byte <+: es₀ ++ es₁ := by
    have hwhole := congrArg Prod.snd hrun.run
    rw [hpreface, walk_preface_full] at hwhole
    simp only at hwhole
    apply List.prefix_of_prefix_length_le (List.prefix_append _ _)
      ⟨_, hwhole.symm⟩
    have hlen := congrArg List.length hrun.handed
    have hle := List.length_filterMap_le Event.byte? (es₀ ++ es₁)
    change (passed (es₀ ++ es₁)).length ≤ _ at hle
    rw [List.length_append] at hlen
    rw [List.length_map]
    omega
  rw [← hes] at hrun
  have hup := hrun.taken
  rw [updates_append, updates_bytes] at hup
  obtain ⟨ready, rfl, hnone⟩ := split_waiting hup hrun.waiting
  refine ⟨ready, ?_, rfl, ?_, hnone⟩
  · simp only [H2Conn.start, hhanded, htaken, List.map_nil, List.append_nil]
    exact hrun
  · have hpassed := hrun.handed
    rw [passed_append, passed_bytes, passed_append, passed_syncs, List.append_nil] at hpassed
    simp only [H2Conn.start, hhanded]
    rw [← List.drop_append_of_le_length hshake, ← hpassed, List.drop_left]

theorem poll_loop (dec : Decoder) (c : H2Conn) (t : CodecTurn) :
    (c.poll dec t).loop = c.loop.poll t.toTurn := by
  unfold H2Conn.poll
  simp only
  split <;> rfl

/-- The codec that has been primed is where the events say, with what is ahead of an update behind
it. -/
theorem prime_tracks (h : c.Tracks dec stream done ready) {t : CodecTurn}
    (hfirst : c.DecodesFirst t) :
    ∃ done' ready', done' ++ ready' =
        done ++ (ready ++ c.loop.holder.stream.scanner.blocks.map .sync) ∧
      c.loop.holder.stream.scanner.blocks.foldl
        (fun codec block ↦ codec.event dec (.sync block)) c.codec =
          done'.foldl (Codec.event dec) (.new dec) ∧
      passed ready' = c.unread ++ c.loop.holder.stream.scanner.out ∧ updates ready' = [] := by
  by_cases hb : c.loop.holder.stream.scanner.blocks = []
  · rw [hb]
    exact ⟨done, ready, by simp, h.codec, h.passed, h.updates⟩
  -- nothing is ahead of the update, so the codec has come past all that is ready
  obtain ⟨hout, hunread⟩ := hfirst hb
  have hpassed := h.passed
  rw [hout, hunread, List.append_nil] at hpassed
  refine ⟨done ++ (ready ++ c.loop.holder.stream.scanner.blocks.map .sync), [], List.append_nil _,
    ?_, by rw [hout, hunread]; rfl, rfl⟩
  rw [List.foldl_append, ← h.codec, List.foldl_append, foldl_passed h.updates, hpassed,
    List.foldl_map]
  rfl

theorem poll_tracks (h : c.Tracks dec stream done ready) {t : CodecTurn} (hfirst : c.DecodesFirst t)
    (hruns : (c.loop.poll t.toTurn).ended = false) :
    ∃ done' ready', (c.poll dec t).Tracks dec stream done' ready' := by
  obtain ⟨-, c', htook, hpoll⟩ := poll_took hruns
  obtain ⟨done', ready', hevents, hcodec, hpassed, hnone⟩ := prime_tracks h hfirst
  have hrun := h.run
  rw [List.append_assoc, ← hevents] at hrun
  -- the stream once the updates are taken
  have htaken : c'.holder.stream.Tracks (streamOf stream) c'.holder.handed
      (c'.holder.taken.map Taken.block) (preface.map .byte ++ (done' ++ ready')) := by
    rw [htook.stream, htook.handed, htook.taken]
    exact ⟨hrun.run, hrun.handed, by rw [hrun.taken, List.append_nil], .inl rfl⟩
  obtain ⟨es, bytes, hhanded, hread⟩ := readAll_tracks htaken t.reads
  have hkept := readAll_keeps c' t.reads
  rw [← hpoll] at hhanded hread hkept
  have hup := hread.taken
  rw [updates_append, htaken.taken, htook.stream, List.append_nil] at hup
  have hup := List.append_cancel_left hup
  obtain ⟨more, rfl, hmore⟩ := split_waiting hup hread.waiting
  have hbytes : c.loop.holder.stream.scanner.out ++ passed more =
      bytes ++ (c.loop.poll t.toTurn).holder.stream.scanner.out := by
    have hboth := hread.handed
    rw [passed_append, htaken.handed, passed_append, passed_syncs, List.append_nil, htook.stream,
      List.append_assoc, List.append_assoc] at hboth
    exact List.append_cancel_left hboth
  have hsplit : passed (ready' ++ more) = (c.unread ++ bytes).take t.decodes ++
      ((c.unread ++ bytes).drop t.decodes ++ (c.loop.poll t.toTurn).holder.stream.scanner.out) := by
    rw [passed_append, hpassed, List.append_assoc, hbytes, ← List.append_assoc,
      ← List.append_assoc, List.take_append_drop]
  -- the bytes that are decoded are those of the first events that are ready
  obtain ⟨es₁, es₂, hes, hfront, hback⟩ := split_passed hsplit
  have hnone₁₂ := congrArg updates hes
  rw [updates_append, hnone, hmore, updates_append] at hnone₁₂
  obtain ⟨hnone₁, hnone₂⟩ := List.append_eq_nil_iff.mp hnone₁₂.symm
  have hstep : c.poll dec t =
      { loop := c.loop.poll t.toTurn
        codec := ((c.unread ++ bytes).take t.decodes).foldl (Codec.byte dec true)
          (done'.foldl (Codec.event dec) (.new dec))
        unread := (c.unread ++ bytes).drop t.decodes } := by
    -- the codec is primed with what was taken in this turn only
    have hprimed : (c.loop.poll t.toTurn).primed.drop c.loop.primed.length =
        c.loop.holder.stream.scanner.blocks := by
      rw [hkept.2.1, htook.primed, List.drop_left]
    unfold H2Conn.poll
    simp only [hruns, Bool.false_eq_true, if_false, hprimed, hcodec, hhanded, htook.handed,
      List.drop_left]
  rw [hstep]
  refine ⟨done' ++ es₁, es₂, ?_, ?_, hback, hnone₂⟩
  · have hwhole : preface.map .byte ++ (done' ++ es₁) ++
        (es₂ ++ (c.loop.poll t.toTurn).holder.stream.scanner.blocks.map .sync) =
          preface.map .byte ++ (done' ++ ready') ++
            (more ++ (c.loop.poll t.toTurn).holder.stream.scanner.blocks.map .sync) := by
      simp only [List.append_assoc]
      rw [← List.append_assoc es₁, ← hes, List.append_assoc]
    simp only
    rw [hwhole, hhanded, hkept.2.2]
    exact hread
  · simp only
    rw [List.foldl_append, foldl_passed hnone₁, hfront]

/-! ## 3. Runs -/

/-- The codec has been through a first part of the events, and more are there for it unless the
connection has ended. -/
structure H2Conn.Sound (dec : Decoder) (stream : List SocketRead) (c : H2Conn) : Prop where
  decoded : ∃ done, preface.map .byte ++ done <+: eventsOf (streamOf stream) ∧
    c.codec = done.foldl (Codec.event dec) (.new dec)
  tracks : c.loop.ended = false → ∃ done ready, c.Tracks dec stream done ready

theorem H2Conn.Tracks.sound (h : c.Tracks dec stream done ready) : c.Sound dec stream where
  decoded := by
    refine ⟨done, ?_, h.codec⟩
    rw [eventsOf, h.run.run]
    exact ((List.prefix_append _ _).trans (List.prefix_append _ _))
  tracks := fun _ ↦ ⟨done, ready, h⟩

theorem sound_poll (h : c.Sound dec stream) {t : CodecTurn} (hfirst : c.DecodesFirst t) :
    (c.poll dec t).Sound dec stream := by
  cases hended : (c.loop.poll t.toTurn).ended with
  | true =>
    have hstep : c.poll dec t = { c with loop := c.loop.poll t.toTurn } := by
      rw [H2Conn.poll]
      exact if_pos hended
    rw [hstep]
    refine ⟨h.decoded, fun hruns ↦ ?_⟩
    rw [hended] at hruns
    cases hruns
  | false =>
    obtain ⟨done, ready, htracks⟩ := h.tracks (poll_took hended).1
    obtain ⟨done', ready', htracks'⟩ := poll_tracks htracks hfirst hended
    exact htracks'.sound

theorem exec_loop (dec : Decoder) (c : H2Conn) (turns : List CodecTurn) :
    (Runs.exec (H2Conn.poll dec) c turns).loop =
      Runs.exec ServeH2.poll c.loop (turns.map CodecTurn.toTurn) := by
  induction turns generalizing c with
  | nil => rfl
  | cons t turns ih => rw [List.map_cons, Runs.exec_cons, Runs.exec_cons, ih, poll_loop]

variable {bytes : List UInt8}

theorem eventsOf_preface (hpreface : streamOf stream = preface ++ bytes) :
    eventsOf (streamOf stream) = preface.map .byte ++ (walk .atHeader bytes).2 := by
  rw [eventsOf, hpreface, walk_preface_full]

/-- What the codec has decoded are the first frames of what it will have in the end. -/
theorem H2Conn.Sound.entries (h : c.Sound dec stream)
    (hpreface : streamOf stream = preface ++ bytes) :
    c.codec.entries <+: (userSpace dec bytes).entries := by
  obtain ⟨done, hpart, hcodec⟩ := h.decoded
  rw [eventsOf_preface hpreface] at hpart
  obtain ⟨rest, hrest⟩ := (List.prefix_append_right_inj _).mp hpart
  rw [hcodec, userSpace, ← hrest, List.foldl_append]
  exact entries_prefix rest _

/-- With everything read and decoded the codec is where the events lead. -/
theorem H2Conn.Sound.whole (h : c.Sound dec stream) (hpreface : streamOf stream = preface ++ bytes)
    (hruns : c.loop.ended = false) (hdone : c.loop.Done) (hunread : c.unread = []) :
    c.codec = userSpace dec bytes := by
  obtain ⟨done, ready, htracks⟩ := h.tracks hruns
  obtain ⟨⟨hinner, hout, hhold, hblocks⟩, -⟩ := hdone
  have hpassed := htracks.passed
  rw [hunread, hout, List.append_nil] at hpassed
  have hall := congrArg Prod.snd htracks.run.run
  rw [hinner, hhold, hblocks, ← eventsOf, eventsOf_preface hpreface] at hall
  have hevents : (walk .atHeader bytes).2 = done ++ ready := by
    simpa [streamOf] using hall
  rw [userSpace, hevents, List.foldl_append, foldl_passed htracks.updates, hpassed, htracks.codec]
  rfl

theorem run_sound {reads : List Nat}
    (hpreface : streamOf stream = preface ++ bytes)
    (hshake : preface.length ≤ (ServeH2.start stream reads).holder.handed.length)
    {turns : List CodecTurn}
    (hturns : Runs.Along (H2Conn.poll dec) H2Conn.DecodesFirst (.start dec stream reads) turns) :
    (Runs.exec (H2Conn.poll dec) (.start dec stream reads) turns).Sound dec stream := by
  obtain ⟨ready, hstart⟩ := start_tracks dec hpreface hshake
  exact hturns.preserves (I := H2Conn.Sound dec stream) (fun _ _ hc hfirst ↦ sound_poll hc hfirst)
    hstart.sound

/-! ## 4. From the client to the codec -/

variable {lim : Limits} {cfg : Routes} {fs : List Frame}

/-- A request is answered and the next one forwarded, with a report and an update ahead of it. -/
def syncedActs : List Act :=
  [.send ⟨encodeAll [addingHeaders 1 0x61], by decide⟩,
    .run allOk (parsedFrame 15 ⟨1, 1, 5, 0⟩ (some [0x2F, 0x61]) [addedField 0x61]),
    .send ⟨encodeAll [plainHeaders 3], by decide⟩,
    .run allOk (parsedFrame 10 ⟨3, 1, 5, 1⟩ none [addedField 0x61])]

def syncedReads : List SocketRead :=
  [.data ⟨preface, by decide⟩,
    .data ⟨fcSyncFrame 1 ++ dtSyncFrame [0x40, 1, 0x61, 1, 0x31] ++ (plainHeaders 3).encode,
      by decide⟩]

theorem kept_of_step {p : Pipe} {act : Act} (h : (p.step lim cfg act).dropped = false) :
    p.dropped = false := by
  cases act with
  | send m =>
    by_cases hacc : p.Accepts
    · exact hacc.1
    · rwa [step_send_idle hacc] at h
  | run hs ans =>
    by_cases hpend : p.Pending
    · exact hpend.1
    · rwa [step_run_idle hpend] at h

/-- A step that drops nothing puts the count it accounts for ahead of a message. -/
theorem step_reportsData {p : Pipe} (hreg : p.Regular) {act : Act}
    (hkept : (p.step lim cfg act).dropped = false) :
    ((reportsOf (p.disposes lim cfg act)).map UInt32.toNat).sum = p.reportsData lim cfg act := by
  cases act with
  | send m =>
    rw [Pipe.disposes]
    split <;> rfl
  | run h ans =>
    by_cases hpend : p.Pending
    swap
    · rw [Pipe.disposes, if_neg fun hc ↦ hpend hc.1, Pipe.reportsData, if_neg fun hc ↦ hpend hc.1]
      rfl
    rw [Pipe.disposes, if_pos ⟨hpend, hkept⟩]
    have hrun := run_settles lim cfg h ans hpend hreg.bounded
    generalize p.step lim cfg (.run h ans) = p' at hrun hkept
    cases hrun with
    | dropped => cases hkept
    | upgraded hnew =>
      rw [runStretch, if_pos hnew, Pipe.reportsData, if_neg fun hc ↦ hc.2.1 hnew]
      rfl
    | answered hnew hserves =>
      rw [runStretch, if_neg hnew, if_pos hserves, Pipe.reportsData,
        if_neg fun hc ↦ hc.2.2.1.not_serves hserves]
      rfl
    | forwarded _ _ hnew hdecl hsync =>
      rw [runStretch, if_neg hnew, if_neg hdecl.not_serves, Pipe.reportsData,
        if_pos ⟨hpend, hnew, hdecl, hsync⟩, reportsOf]
      -- a report is put ahead of the message exactly if there is something to report
      cases hreport : (frontOf h ans p.conn).report with
      | none => simp [hreport]
      | some sent => simp [hreport]

theorem run_reportsData {acts : List Act}
    (hkept : (Runs.exec (Pipe.step lim cfg) .new acts).dropped = false) :
    ((reportsOf (stretches lim cfg .new acts)).map UInt32.toNat).sum =
      Runs.total (Pipe.step lim cfg) (Pipe.reportsData lim cfg) .new acts := by
  induction acts using List.reverseRecOn with
  | nil => rfl
  | append_singleton acts act ih =>
    rw [Runs.exec_concat] at hkept
    have hreg : (Runs.exec (Pipe.step lim cfg) .new acts).Regular :=
      Runs.exec_preserves (fun _ _ hp ↦ step_regular lim cfg hp) .new acts
    rw [stretches, Runs.record_append, Runs.record_cons, Runs.record_nil, List.append_nil,
      ← stretches, reportsOf, List.filterMap_append, List.map_append, List.sum_append,
      Runs.total_concat, ← ih (kept_of_step hkept), ← step_reportsData hreg hkept]
    rfl

theorem ofNat_sum (counts : List UInt32) :
    UInt32.ofNat (counts.map UInt32.toNat).sum = counts.sum := by
  induction counts with
  | nil => rfl
  | cons n counts ih =>
    rw [List.map_cons, List.sum_cons, List.sum_cons, UInt32.ofNat_add, ih, UInt32.ofNat_toNat]

theorem exec_consumed (stream : List SocketRead) (reads : List Nat) (turns : List Turn) :
    ∃ es, es <+: eventsOf (streamOf stream) ∧
      (Runs.exec ServeH2.poll (.start stream reads) turns).consumed.sum = reported es := by
  obtain ⟨es₀, es₁, htracks, hconsumed, -⟩ := Runs.exec_preserves
    (I := ServeH2.Accounts stream) (fun _ t hc ↦ poll_accounts hc t)
    (start_accounts stream reads) turns
  refine ⟨es₀, ?_, hconsumed⟩
  rw [eventsOf, htracks.run.run, List.append_assoc]
  exact List.prefix_append _ _

/-- A request is answered with four bytes, and another one is forwarded behind it. -/
def reportedActs : List Act :=
  handshake ++ requestOn 1 [0x2F, 0x61] [⟨[0x61], false, [0x62], false⟩] ++
    [.send (laterRequest 3),
      .run allOk (parsedFrame 10 ⟨3, 1, 5, 1⟩ none [⟨[0x61], false, [0x62], false⟩])]

def reportedReads : List SocketRead :=
  [.data ⟨preface ++ ackFrame.encode, by decide⟩,
    .data ⟨fcSyncFrame 4 ++ dtSyncFrame [0x40, 1, 0x61, 1, 0x62] ++
      [0, 0, 1, 1, 5, 0, 0, 0, 3, 0x83], by decide⟩]

end HyperFastPath.EndToEnd
