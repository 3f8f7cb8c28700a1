import HyperFastPath.FastPath.Pipe

/-!
# Handing over after an answer

Once a request was answered, the next message for user space has to bring the dynamic table along.
-/

namespace HyperFastPath.FastPath

variable {lim : Limits} {cfg : Routes}

/-! ## 1. Stale hand-overs -/

/-- Wherever the table may be stale and the message is not answered, the frame at its front is
parsed, its length and what it announces stay below `2 ^ 31`, and unless the entries to replay do not
fit, they are the ones mirrored before, and the frames put ahead of the message stay below it as
well. -/
def SyncsWhole (lim : Limits) (cfg : Routes) (p : Pipe) : Act → Prop
  | .send _ => True
  | .run h ans => p.Pending → p.conn.isH2 → p.conn.isDirty → ¬ Serves cfg h ans p.conn p.buf →
      0 ≤ ans.ret ∧ ans.ret + h2Announced h ans < 2 ^ 31 ∧
      (Replayable lim ans.table ans.frame.dtCountBefore →
        ans.table.take ans.frame.dtCountBefore = p.mirror ∧
        ans.ret + h2Announced h ans + frontLen h ans p.conn < 2 ^ 31)

instance (p : Pipe) : (a : Act) → Decidable (SyncsWhole lim cfg p a)
  | .send _ => isTrue trivial
  | .run _ _ => inferInstanceAs (Decidable (_ → _))

/-- Nothing goes to user space on a stale connection without the whole mirrored table ahead of
it. -/
def NoStaleHandOver (lim : Limits) (cfg : Routes) (p : Pipe) : Act → Prop
  | .send _ => True
  | .run h ans => p.Pending → p.conn.isH2 → p.conn.isDirty →
      let o := msgVerdict lim cfg h ans p.conn p.buf
      o.verdict = .drop ∨ (o.verdict = .pass ∧ o.msg.redirect = some .egress) ∨
        (o.verdict = .pass ∧ o.msg.redirect = some .ingress ∧ o.msg.applyBytes ≠ 0xFFFFFFFF ∧
          ∃ report, IsReport h report ∧
            o.msg.bytes = report ++ dtSyncFrame (syncBlock p.mirror) ++ p.buf)

theorem noStaleHandOver_step {p : Pipe} {a : Act} (hlen : p.buf.length < 2 ^ 31)
    (hsync : SyncsWhole lim cfg p a) : NoStaleHandOver lim cfg p a := by
  cases a with
  | send m => trivial
  | run h ans =>
    intro hp hh2 hdirty
    have hexit := msgVerdict_exit lim cfg h ans p.conn p.buf
    simp only
    generalize msgVerdict lim cfg h ans p.conn p.buf = o at hexit
    cases hexit with
    | dropped hdrop => exact .inl hdrop
    | upgraded hnew =>
      rw [Conn.isH2, hnew.1] at hh2
      cases hh2
    | answered response _ _ _ _ _ _ _ hredirect => exact .inr (.inl ⟨rfl, hredirect⟩)
    | @forwarded msg flow report msgLen hnew hserves hreport hrep hbytes hlen' happly hredirect =>
      obtain ⟨hret, hlt, hfinds⟩ := hsync hp hh2 hdirty hserves
      have hann := h2Announced_nonneg h ans
      have hmsgLen := parse_h2_len h hh2 hret hlt
      obtain ⟨hstale, hcount⟩ := parse_h2_frame h hh2 hret
      obtain ⟨hh2', -, -⟩ := parse_conn h ans p.conn
      -- so the sync frame is due, and `htable` says what is in it
      have hcond : (parse h ans p.conn).conn.isH2 ∧ 0 ≤ (parse h ans p.conn).msgLen ∧
          (parse h ans p.conn).dtStale :=
        ⟨by rw [hh2', hh2], by omega, by rw [hstale, hdirty]⟩
      have hreplay := hrep (syncPrefix_ne_nil_iff.mpr hcond)
      rw [hcount] at hreplay
      obtain ⟨htable, hfits⟩ := hfinds hreplay
      have hsynced : syncPrefix (parse h ans p.conn) ans.table =
          dtSyncFrame (syncBlock p.mirror) := by
        rw [syncPrefix, if_pos hcond, hcount, htable]
      refine .inr (.inr ⟨rfl, hredirect, ?_, report, hreport, by rw [hbytes, hsynced]⟩)
      -- the lengths add up to less than the count that stands for the rest of the connection
      have hwire := hreplay.2
      rw [htable] at hwire
      have hfront : (syncPrefix (parse h ans p.conn) ans.table).length = 9 + wireLen p.mirror := by
        rw [hsynced, dtSyncFrame_length, syncBlock_length]
      have hgrown := reportedLen_eq hh2 hret hcond.2.1 (by rwa [hmsgLen]) hlen'
      have hreport' := report_length_le hreport
      have hbody := lim.maxSyncBody_le
      simp only [maxSyncBuf] at hbody
      rw [happly, if_neg (by omega), SkMsg.size, hbytes, List.length_append, List.length_append]
      omega

/-- In a run that finds the table as the sync frame needs it, nothing stale is handed over. -/
theorem noStaleHandOver {acts : List Act}
    (h : Runs.Along (Pipe.step lim cfg) (SyncsWhole lim cfg) .new acts) :
    Runs.Along (Pipe.step lim cfg) (NoStaleHandOver lim cfg) .new acts :=
  h.of_invariant (I := fun p ↦ p.buf.length < 2 ^ 31) (fun p a hp _ ↦ step_bounded lim cfg p a hp)
    (fun _ _ hp hs ↦ noStaleHandOver_step hp hs) (by decide)

/-- The request after an answered one carries the table the answered one has changed. -/
theorem noStaleHandOver_synced : Runs.Along (Pipe.step exampleLimits exampleRoutes)
    (NoStaleHandOver exampleLimits exampleRoutes) .new (handshake ++
      answeredRequest ⟨[0x61], false, [0x62], false⟩ ++
      [.send ⟨[0, 0, 1, 1, 5, 0, 0, 0, 3, 0x83], by decide⟩,
        .run allOk (parsedFrame 10 ⟨3, 1, 5, 1⟩ none [⟨[0x61], false, [0x62], false⟩])]) :=
  noStaleHandOver (by decide +kernel)

/-- After an answer the first four bytes of a frame arrive on their own: the connection is handed
over for good as it is. -/
theorem handsOver_stale : ¬ Runs.Along (Pipe.step exampleLimits exampleRoutes)
    (NoStaleHandOver exampleLimits exampleRoutes) .new ((handshake ++
      answeredRequest ⟨[0x61], false, [0x62], false⟩) ++
      [.send ⟨[0, 0, 1, 1], by decide⟩, .run allOk (parsedFrame (-1) ⟨0, 0, 0, 0⟩ none
        [⟨[0x61], false, [0x62], false⟩])]) := by
  intro hall
  have hlast := ((Runs.Along.append_iff _ _ _).mp hall).2.2.1
  rcases hlast (by decide +kernel) (by decide +kernel) (by decide +kernel) with
    hdrop | ⟨-, hegress⟩ | ⟨-, -, hn, -⟩
  · exact absurd hdrop (by decide +kernel)
  · exact absurd hegress (by decide +kernel)
  · exact hn (by decide +kernel)

/-! ## 2. Stranded connections -/

/-- Requests were answered since anything was last forwarded. -/
def Pipe.Answered (p : Pipe) : Prop :=
  (p.log.reverse.takeWhile fun d ↦ !d.forwarded).any fun d ↦ d.bytes ≠ []

instance (p : Pipe) : Decidable p.Answered := inferInstanceAs (Decidable (_ = true))

/-- Every helper call of the step succeeds. -/
def HelpersOk (_ : Pipe) : Act → Prop
  | .send _ => True
  | .run h _ => h.AllOk

/-- A message for user space that follows an answer is not dropped. -/
def NotStranded (lim : Limits) (cfg : Routes) (p : Pipe) : Act → Prop
  | .send _ => True
  | .run h ans => p.Pending → p.conn.isH2 → p.Answered → ¬ Serves cfg h ans p.conn p.buf →
      (msgVerdict lim cfg h ans p.conn p.buf).verdict = .pass

/-- The entries such a message finds can be replayed, unless it cannot be parsed. -/
def FindsReplayable (lim : Limits) (cfg : Routes) (p : Pipe) : Act → Prop
  | .send _ => True
  | .run h ans => p.Pending → p.conn.isH2 → p.Answered → ¬ Serves cfg h ans p.conn p.buf →
      0 ≤ (parse h ans p.conn).msgLen → Replayable lim ans.table ans.frame.dtCountBefore

/-- Whoever was answered is known to be dirty. -/
structure Pipe.Marked (p : Pipe) : Prop where
  bounded : p.buf.length < 2 ^ 31
  egress : p.dir = .egress → p.left = 0
  marked : p.dropped = false → p.conn.isH2 → p.Answered → p.conn.isDirty

theorem step_marked {p : Pipe} {a : Act} (hp : p.Marked) (hok : HelpersOk p a) :
    (p.step lim cfg a).Marked := by
  obtain ⟨hlen, hegress, hmarked⟩ := hp
  have hreg := step_regular lim cfg (a := a) ⟨hlen, hegress⟩
  refine ⟨hreg.bounded, hreg.egress, ?_⟩
  cases a with
  | send m =>
    by_cases hacc : p.Accepts
    swap
    · rwa [step_send_idle hacc]
    simp only [Pipe.step, if_pos hacc]
    cases hdir : p.dir with
    | ingress => simp [Pipe.Answered]
    -- an answer never covers bytes to come, so what arrives cannot be logged as answered
    | egress => simpa [Pipe.Answered, Pipe.deliver, hegress hdir] using hmarked
  | run h ans =>
    by_cases hpend : p.Pending
    swap
    · rwa [step_run_idle hpend]
    have hrun := run_ends lim cfg h ans hpend hlen
    generalize p.step lim cfg (.run h ans) = p' at hrun
    cases hrun with
    | dropped => exact fun hd ↦ by cases hd
    | upgraded => simp [Pipe.Answered]
    | answered response flow =>
      -- this is where the connection is marked
      intro _ hh2 _
      have hold : p.conn.isH2 = true := (parse_conn h ans p.conn).1 ▸ hh2
      simp [Conn.isDirty, update, hold, hok .setDirty]
    | forwarded => simp [Pipe.Answered]

theorem notStranded_step {p : Pipe} {a : Act} (hp : p.Marked) (hok : HelpersOk p a) :
    NotStranded lim cfg p a ↔ FindsReplayable lim cfg p a := by
  cases a with
  | send m => exact Iff.rfl
  | run h ans =>
    refine forall_congr' fun hpend ↦ forall_congr' fun hh2 ↦ forall_congr' fun hanswered ↦
      forall_congr' fun hserves ↦ ?_
    have hdirty := hp.marked hpend.1 hh2 hanswered
    -- a message that could be parsed gets the sync frame
    have hsync (hlen : 0 ≤ (parse h ans p.conn).msgLen) :
        syncPrefix (parse h ans p.conn) ans.table ≠ [] ∧
          (parse h ans p.conn).dtCount = ans.frame.dtCountBefore := by
      obtain ⟨hstale, hcount⟩ := parse_h2_frame h hh2 (parse_h2_ret hh2 hlen)
      refine ⟨syncPrefix_ne_nil_iff.mpr ⟨?_, hlen, by rw [hstale, hdirty]⟩, hcount⟩
      rw [(parse_conn h ans p.conn).1, hh2]
    have hexit := msgVerdict_exit lim cfg h ans p.conn p.buf
    generalize msgVerdict lim cfg h ans p.conn p.buf = o at hexit
    cases hexit with
    | dropped hdrop hcause =>
      obtain ⟨hne, hrep⟩ := hcause hok
      have hlen := (syncPrefix_ne_nil_iff.mp hne).2.1
      rw [(hsync hlen).2] at hrep
      refine ⟨fun hpass ↦ ?_, fun hr ↦ absurd (hr hlen) hrep⟩
      rw [hdrop] at hpass
      cases hpass
    | upgraded hnew =>
      rw [Conn.isH2, hnew.1] at hh2
      cases hh2
    | answered _ _ hs => exact absurd hs hserves
    | forwarded _ _ _ hrep =>
      exact ⟨fun _ hlen ↦ (hsync hlen).2 ▸ hrep (hsync hlen).1, fun _ ↦ rfl⟩

/-- Along a run whose helpers succeed, no connection that was answered is stranded exactly when the
entries to replay always fit. -/
theorem notStranded_iff {acts : List Act}
    (h : Runs.Along (Pipe.step lim cfg) HelpersOk .new acts) :
    Runs.Along (Pipe.step lim cfg) (NotStranded lim cfg) .new acts ↔
      Runs.Along (Pipe.step lim cfg) (FindsReplayable lim cfg) .new acts :=
  (h.of_invariant (fun _ _ hp hok ↦ step_marked hp hok) (fun _ _ hp hok ↦ notStranded_step hp hok)
    ⟨by decide, fun _ ↦ rfl, fun _ hh2 ↦ by cases hh2⟩).congr

/-- What the answered request adds to the table can be replayed ahead of the one behind it. -/
theorem notStranded_iff_synced :
    let acts := handshake ++ answeredRequest ⟨[0x61], false, [0x62], false⟩ ++
      [.send ⟨[0, 0, 1, 1, 5, 0, 0, 0, 3, 0x83], by decide⟩,
        .run allOk (parsedFrame 10 ⟨3, 1, 5, 1⟩ none [⟨[0x61], false, [0x62], false⟩])]
    Runs.Along (Pipe.step exampleLimits exampleRoutes) (NotStranded exampleLimits exampleRoutes)
      .new acts := by
  intro acts
  have hok : Runs.Along (Pipe.step exampleLimits exampleRoutes) HelpersOk .new acts :=
    ⟨trivial, fun _ ↦ rfl, trivial, fun _ ↦ rfl, trivial, fun _ ↦ rfl, trivial, fun _ ↦ rfl, trivial⟩
  have hempty : Replayable exampleLimits [] 0 := by decide +kernel
  have hreplayable : Replayable exampleLimits [⟨[0x61], false, [0x62], false⟩] 1 := by
    decide +kernel
  have hadded : Replayable exampleLimits [⟨[0x61], false, [0x62], false⟩] 0 := by decide +kernel
  exact (notStranded_iff hok).mpr ⟨trivial, fun _ _ _ _ _ ↦ hempty, trivial,
    fun _ _ _ _ _ ↦ hempty, trivial, fun _ _ _ _ _ ↦ hadded, trivial,
    fun _ _ _ _ _ ↦ hreplayable, trivial⟩

/-- The answered request adds an entry whose value is one byte too long to be spelled out, and the
request after it is dropped. -/
theorem stranded :
    let acts := (handshake ++ answeredRequest ⟨[0x61], false, List.replicate 127 0x62, false⟩) ++
      [.send ⟨[0, 0, 1, 1, 5, 0, 0, 0, 3, 0x83], by decide⟩,
        .run allOk (parsedFrame 10 ⟨3, 1, 5, 1⟩ none
          [⟨[0x61], false, List.replicate 127 0x62, false⟩])]
    Runs.Along (Pipe.step exampleLimits exampleRoutes) HelpersOk .new acts ∧
      ¬ Runs.Along (Pipe.step exampleLimits exampleRoutes) (NotStranded exampleLimits exampleRoutes)
        .new acts := by
  refine ⟨⟨trivial, fun _ ↦ rfl, trivial, fun _ ↦ rfl, trivial, fun _ ↦ rfl, trivial,
    fun _ ↦ rfl, trivial⟩, fun hall ↦ ?_⟩
  have hlast := ((Runs.Along.append_iff _ _ _).mp hall).2.2.1
  exact absurd (hlast (by decide +kernel) (by decide +kernel) (by decide +kernel)
    (by decide +kernel)) (by decide +kernel)

end HyperFastPath.FastPath
