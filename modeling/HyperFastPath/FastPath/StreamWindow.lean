import HyperFastPath.FastPath.FlowSafety

/-!
# Following the stream window

Which of the windows a client announces the fast path goes by.
-/

namespace HyperFastPath.FastPath

open Bytes Http2

/-! ## 1. The windows a frame announces -/

/-- The initial window sizes among the parameters of a SETTINGS frame. -/
def windowSizes (settings : List (Nat × Nat)) : List Nat :=
  (settings.filter (·.1 = h2SettingsInitialWindowSize)).map Prod.snd

/-- A SETTINGS frame that repeats no settings. -/
def Announces (f : Frame) : Prop := f.kind = h2SettingsFrame ∧ f.flags &&& h2AckFlag = 0

instance (f : Frame) : Decidable (Announces f) := inferInstanceAs (Decidable (_ ∧ _))

/-- What a frame announces. -/
def announcedWindows (f : Frame) : List Nat :=
  if Announces f then (windowSizes (settingsOf f.payload)).filter (· ≤ h2MaxWindow) else []

/-- What the fast path makes of it: an illegal size is where it stops. -/
def followedWindows (f : Frame) : List Nat :=
  if Announces f then
    (windowSizes ((settingsOf f.payload).take maxSettings)).takeWhile (· ≤ h2MaxWindow)
  else []

theorem getLastD_append (l l' : List Nat) (d : Nat) :
    (l ++ l').getLastD d = l'.getLastD (l.getLastD d) := by
  induction l generalizing d with
  | nil => rfl
  | cons n l ih => rw [List.cons_append, List.getLastD_cons, ih, List.getLastD_cons]

theorem followSettings_eq (settings : List (Nat × Nat)) (window : Nat) :
    followSettings window settings =
      ((windowSizes settings).takeWhile (· ≤ h2MaxWindow)).getLastD window := by
  induction settings generalizing window with
  | nil => rfl
  | cons s settings ih =>
    obtain ⟨ident, val⟩ := s
    unfold followSettings windowSizes
    by_cases hident : ident = h2SettingsInitialWindowSize
    · rw [List.filter_cons_of_pos (by simpa using hident), List.map_cons, if_neg (not_not.mpr hident)]
      by_cases hval : val ≤ h2MaxWindow
      · rw [List.takeWhile_cons_of_pos (by simpa using hval), List.getLastD_cons,
          if_neg (Nat.not_lt.mpr hval), ih]
        rfl
      · rw [List.takeWhile_cons_of_neg (by simpa using hval), if_pos (Nat.lt_of_not_le hval)]
        rfl
    · rw [List.filter_cons_of_neg (by simpa using hident), if_pos hident, ih]
      rfl

variable {fc : H2Flow}

theorem follow_streamWindow (fc : H2Flow) (f : Frame) :
    (fc.follow f).streamWindow = (followedWindows f).getLastD fc.streamWindow := by
  unfold H2Flow.follow followedWindows
  by_cases hwindow : f.kind = h2WindowUpdateFrame
  · have hno : ¬ Announces f := fun hann ↦ by
      rw [hann.1] at hwindow
      cases hwindow
    rw [if_pos hwindow, if_neg hno]
    split <;> rfl
  · rw [if_neg hwindow]
    by_cases hann : Announces f
    · rw [if_pos hann, if_pos (show _ ∧ _ from hann), ← followSettings_eq]
    · rw [if_neg hann, if_neg (show ¬ (_ ∧ _) from hann)]
      rfl

theorem foldl_follow_streamWindow (fs : List Frame) (fc : H2Flow) :
    (fs.foldl H2Flow.follow fc).streamWindow =
      (fs.flatMap followedWindows).getLastD fc.streamWindow := by
  induction fs generalizing fc with
  | nil => rfl
  | cons f fs ih =>
    rw [List.foldl_cons, ih, follow_streamWindow, List.flatMap_cons, getLastD_append]

/-- All that the frame announces is read: no window is among the parameters behind the first ones,
and none comes behind an illegal one. -/
def ReadWhole (f : Frame) : Prop :=
  Announces f → (∀ s ∈ (settingsOf f.payload).drop maxSettings, s.1 ≠ h2SettingsInitialWindowSize) ∧
    (windowSizes (settingsOf f.payload)).Pairwise fun n m ↦ m ≤ h2MaxWindow → n ≤ h2MaxWindow

instance (f : Frame) : Decidable (ReadWhole f) := inferInstanceAs (Decidable (_ → _))

theorem takeWhile_eq_filter {α : Type} {P : α → Bool} {l : List α}
    (h : l.Pairwise fun x y ↦ P y = true → P x = true) : l.takeWhile P = l.filter P := by
  induction l with
  | nil => rfl
  | cons x l ih =>
    obtain ⟨hx, hl⟩ := List.pairwise_cons.mp h
    cases hP : P x with
    | true => rw [List.takeWhile_cons_of_pos hP, List.filter_cons_of_pos hP, ih hl]
    | false =>
      have hnone : (x :: l).filter P = [] := by
        rw [List.filter_eq_nil_iff]
        intro y hy hPy
        rcases List.mem_cons.mp hy with rfl | hy
        · rw [hP] at hPy
          cases hPy
        · rw [hx y hy hPy] at hP
          cases hP
      rw [List.takeWhile_cons_of_neg (by simp [hP]), hnone]

theorem followedWindows_eq {f : Frame} (h : ReadWhole f) :
    followedWindows f = announcedWindows f := by
  unfold followedWindows announcedWindows
  by_cases hann : Announces f
  swap
  · rw [if_neg hann, if_neg hann]
  obtain ⟨hbehind, hlegal⟩ := h hann
  have hsizes : windowSizes (settingsOf f.payload) =
      windowSizes ((settingsOf f.payload).take maxSettings) := by
    have hnone : windowSizes ((settingsOf f.payload).drop maxSettings) = [] := by
      rw [windowSizes, List.filter_eq_nil_iff.mpr (by simpa using hbehind), List.map_nil]
    conv_lhs => rw [← List.take_append_drop maxSettings (settingsOf f.payload)]
    rw [windowSizes, List.filter_append, List.map_append, ← windowSizes, ← windowSizes, hnone,
      List.append_nil]
  rw [if_pos hann, if_pos hann, ← hsizes]
  exact takeWhile_eq_filter (by simpa using hlegal)

/-! ## 2. Over a run -/

variable {lim : Limits} {cfg : Routes} {p : Pipe} {h : Helpers} {ans : Answers}

/-- The last window announced in `stream`, by all of its frames and parameters. -/
def lastAnnounced (stream : List UInt8) : Nat :=
  ((wholeFrames stream).flatMap announcedWindows).getLastD h2InitialWindow

/-- Whole frames that announce nothing. -/
def Silent (bytes : List UInt8) : Prop :=
  IsWhole bytes ∧ (wholeFrames bytes).flatMap announcedWindows = []

instance (bytes : List UInt8) : Decidable (Silent bytes) := inferInstanceAs (Decidable (_ ∧ _))

theorem lastAnnounced_append {front : List UInt8} (h : IsWhole front) (back : List UInt8) :
    lastAnnounced (front ++ back) =
      ((wholeFrames back).flatMap announcedWindows).getLastD (lastAnnounced front) := by
  rw [lastAnnounced, h.wholeFrames_append, List.flatMap_append, getLastD_append]
  rfl

/-- Each message is a number of whole frames. -/
def SendsWhole (p : Pipe) : Act → Prop
  | .send m => p.Accepts → IsWhole m.1
  | .run _ _ => True

/-- What is not read announces nothing: what the last verdict still covers, and what is answered.
What is forwarded could be parsed and can be pulled in, its frames announce nothing behind the first
ones, and each of them is read whole. -/
def ReadsWindows (cfg : Routes) (p : Pipe) : Act → Prop
  | .send m => p.Accepts → Silent (m.1.take p.left)
  | .run h ans => p.Pending →
    if Serves cfg h ans p.conn p.buf then Silent (p.buf.take (parse h ans p.conn).msgLen.toNat)
    else 0 ≤ (parse h ans p.conn).msgLen ∧ h.PullsFrames ∧
      ((wholeFrames p.buf).drop maxFlowFrames).flatMap announcedWindows = [] ∧
      ∀ f ∈ wholeFrames p.buf, ReadWhole f

instance (p : Pipe) : (act : Act) → Decidable (SendsWhole p act)
  | .send _ => inferInstanceAs (Decidable (_ → _))
  | .run _ _ => isTrue trivial

instance (p : Pipe) : (act : Act) → Decidable (ReadsWindows cfg p act)
  | .send _ => inferInstanceAs (Decidable (_ → _))
  | .run _ _ => inferInstanceAs (Decidable (_ → _))

/-- The window that is gone by is the one last announced in what was dealt with. -/
structure Announced (p : Pipe) : Prop where
  bounded : p.buf.length < 2 ^ 31
  consumed : IsWhole p.consumed
  buf : IsWhole p.buf
  window : p.dropped = false → p.conn.isH2 ∧
    ∃ fc, p.conn.flow = some fc ∧ fc.streamWindow = lastAnnounced p.consumed

theorem Announced.silent (hp : Announced p) {bytes : List UInt8} (hs : Silent bytes) :
    IsWhole (p.consumed ++ bytes) ∧ lastAnnounced (p.consumed ++ bytes) = lastAnnounced p.consumed := by
  refine ⟨hp.consumed.append_iff.mpr hs.1, ?_⟩
  rw [lastAnnounced_append hp.consumed, hs.2]
  rfl

theorem trackFlow_streamWindow (hbuf : IsWhole p.buf) (hpulls : h.PullsFrames)
    (hbehind : ((wholeFrames p.buf).drop maxFlowFrames).flatMap announcedWindows = [])
    (hread : ∀ f ∈ wholeFrames p.buf, ReadWhole f) (fc : H2Flow) :
    (trackFlow h (.ofBytes p.buf) fc).2.streamWindow =
      ((wholeFrames p.buf).flatMap announcedWindows).getLastD fc.streamWindow := by
  have hfollowed : ((wholeFrames p.buf).take maxFlowFrames).flatMap followedWindows =
      ((wholeFrames p.buf).take maxFlowFrames).flatMap announcedWindows :=
    List.flatMap_congr fun f hf ↦ followedWindows_eq (hread f (List.mem_of_mem_take hf))
  have hall : (wholeFrames p.buf).flatMap announcedWindows =
      ((wholeFrames p.buf).take maxFlowFrames).flatMap announcedWindows := by
    conv_lhs => rw [← List.take_append_drop maxFlowFrames (wholeFrames p.buf)]
    rw [List.flatMap_append, hbehind, List.append_nil]
  have hfollows := trackFlow_whole (.ofBytes p.buf) h hpulls
    (show p.buf = encodeAll (wholeFrames p.buf) from hbuf.symm) fc
  rw [hfollows, foldl_follow_streamWindow, hfollowed, ← hall]

theorem spent_streamWindow (r : Route) (sid : UInt32) (flow : Option H2Flow) :
    (r.spent sid flow).map H2Flow.streamWindow = flow.map H2Flow.streamWindow := by
  unfold Route.spent
  split
  · rw [Option.map_map]
    rfl
  · rfl

theorem forwardedConn_streamWindow (h : Helpers) (ans : Answers) (conn : Conn)
    (bytes : List UInt8) :
    (forwardedConn h ans conn bytes).flow.map H2Flow.streamWindow =
      (trackedConn h ans conn bytes).flow.map H2Flow.streamWindow := by
  simp only [forwardedConn]
  split
  · rw [Option.map_map]
    rfl
  · rfl

theorem Announced.send (hp : Announced p) {m : Message} (hacc : p.Accepts) (hwhole : IsWhole m.1)
    (hsilent : Silent (m.1.take p.left)) : Announced (p.step lim cfg (.send m)) := by
  have hbounded := step_bounded lim cfg p (.send m) hp.bounded
  obtain ⟨hfront, hlast⟩ := hp.silent hsilent
  obtain ⟨hconn, -⟩ := @step_send_conn lim cfg p m hacc
  have hconsumed : (p.step lim cfg (.send m)).consumed = p.consumed ++ m.1.take p.left := by
    simp only [Pipe.step, if_pos hacc, ← List.take_eq_take_min]
    cases p.dir <;> simp [Pipe.consumed]
  have hbuf : (p.step lim cfg (.send m)).buf = m.1.drop p.left := by
    simp only [Pipe.step, if_pos hacc]
    rcases Nat.le_total p.left m.1.length with hle | hle
    · rw [Nat.min_eq_left hle]
    · rw [Nat.min_eq_right hle, List.drop_length, List.drop_of_length_le hle]
  refine ⟨hbounded, hconsumed ▸ hfront, hbuf ▸ hwhole.drop hsilent.1, fun _ ↦ ?_⟩
  rw [hconn, hconsumed, hlast]
  exact hp.window hacc.1

theorem Announced.run (hp : Announced p) (hpend : p.Pending)
    (hreads : ReadsWindows cfg p (.run h ans)) : Announced (p.step lim cfg (.run h ans)) := by
  have hbounded := step_bounded lim cfg p (.run h ans) hp.bounded
  have hreads := hreads hpend
  obtain ⟨hh2, fc, hflow, hwindow⟩ := hp.window hpend.1
  have hconsumed {q : Pipe} {d : Disposal} (hq : q.log = p.log ++ [d]) :
      q.consumed = p.consumed ++ d.bytes := by
    simp [Pipe.consumed, hq]
  have hrun := run_settles lim cfg h ans hpend hp.bounded
  generalize p.step lim cfg (.run h ans) = p' at hrun hbounded
  cases hrun with
  | dropped => exact ⟨hbounded, hp.consumed, hp.buf, fun hd ↦ by cases hd⟩
  | upgraded hnew =>
    rw [Conn.isH2, hnew.1] at hh2
    cases hh2
  | @answered i hnew hserves hroute =>
    rw [if_pos hserves] at hreads
    obtain ⟨hfront, hlast⟩ := hp.silent hreads
    refine ⟨hbounded, by rw [hconsumed rfl]; exact hfront, hp.buf.drop hreads.1, fun _ ↦
      ⟨(parse_conn h ans p.conn).1.trans hh2, ?_⟩⟩
    -- an answer spends what the window leaves, and leaves the window
    have hspent := spent_streamWindow (cfg.routes i) (parse h ans p.conn).sid p.conn.flow
    rw [hflow, Option.map_some, Option.map_eq_some_iff, ← hflow] at hspent
    obtain ⟨fc', hfc', hsame⟩ := hspent
    refine ⟨fc', hfc', ?_⟩
    rw [hconsumed rfl, hlast, hsame, hwindow]
  | forwarded size n hnew hdecl hsync =>
    rw [if_neg hdecl.not_serves] at hreads
    obtain ⟨hlen, hpulls, hbehind, hread⟩ := hreads
    refine ⟨hbounded, by rw [hconsumed rfl]; exact hp.consumed.append_iff.mpr hp.buf, rfl, fun _ ↦
      ⟨(trackedConn_keeps h ans p.conn p.buf).2.1.trans hh2, ?_⟩⟩
    have htracked := forwardedConn_streamWindow h ans p.conn p.buf
    rw [trackedConn_flow, if_pos ⟨hh2, hlen⟩, hflow, Option.map_some, Option.map_some,
      Option.map_eq_some_iff] at htracked
    obtain ⟨fc', hfc', hsame⟩ := htracked
    refine ⟨fc', hfc', ?_⟩
    rw [hconsumed rfl, lastAnnounced_append hp.consumed, hsame,
      trackFlow_streamWindow hp.buf hpulls hbehind hread, hwindow]

theorem Announced.step (hp : Announced p) {act : Act} (hsend : SendsWhole p act)
    (hreads : ReadsWindows cfg p act) : Announced (p.step lim cfg act) := by
  cases act with
  | send m =>
    by_cases hacc : p.Accepts
    · exact hp.send hacc (hsend hacc) (hreads hacc)
    · rwa [step_send_idle hacc]
  | run h ans =>
    by_cases hpend : p.Pending
    · exact hp.run hpend hreads
    · rwa [step_run_idle hpend]

/-! ## 3. The window that is gone by -/

variable {huffman : List UInt8 → List UInt8} {routes : List (List UInt8 × File)} {dummies : Nat}
  {a : Attached}

/-- As long as all that announces a window is read, the stream window is the one last announced in
what was dealt with of the client's stream, and no answer carries more DATA. -/
theorem streamWindow_followed (hattach : attach huffman routes dummies = .ok a) {conn : Conn}
    (hh2 : conn.isH2) (hflow : conn.flow = some .initial) {acts : List Act}
    (hsends : Runs.Along (Pipe.step lim a.cfg) SendsWhole (opened conn) acts)
    (hreads : Runs.Along (Pipe.step lim a.cfg) (ReadsWindows a.cfg) (opened conn) acts) :
    let p := Runs.exec (Pipe.step lim a.cfg) (opened conn) acts
    p.dropped = false →
      (∃ fc, p.conn.flow = some fc ∧ fc.streamWindow = lastAnnounced p.consumed) ∧
        ∀ act, p.answersData a.cfg act ≤ lastAnnounced p.consumed := by
  intro p hkept
  have hboth := (Runs.Along.and _ _).mpr ⟨hsends, hreads⟩
  have hp : Announced p := hboth.preserves (I := Announced)
    (fun _ _ hp ⟨hsend, hreads⟩ ↦ hp.step hsend hreads)
    ⟨Nat.two_pow_pos 31, rfl, rfl, fun _ ↦ ⟨hh2, _, hflow, rfl⟩⟩
  obtain ⟨-, fc, hfc, hwindow⟩ := hp.window hkept
  refine ⟨⟨fc, hfc, hwindow⟩, fun act ↦ (answersFit (attach_of hattach) p act).trans_eq ?_⟩
  rw [show p.conn.flow = some fc from hfc, Option.elim_some, hwindow]

def settingsPayload (settings : List (Nat × Nat)) : List UInt8 :=
  settings.flatMap fun s ↦ toBe 2 s.1 ++ toBe 4 s.2

/-- A SETTINGS frame with a few parameters. -/
def settingsFrame (settings : List (Nat × Nat)) (few : (settingsPayload settings).length < 256) :
    Frame where
  kind := h2SettingsFrame
  flags := 0
  sid := 0
  payload := settingsPayload settings
  fits := few.trans (by decide)

/-- A SETTINGS frame leaves a window of four bytes, and the request behind it is answered with as
many. -/
theorem streamWindow_followed_narrow :
    let p := Runs.exec (Pipe.step exampleLimits exampleAttached.cfg) (opened exampleConn)
      (.send ⟨encodeAll [settingsFrame [(3, 100), (4, 4)] (by decide)], by decide +kernel⟩ ::
        .run allOk (parsedFrame 21 ⟨0, 4, 0, 0⟩ none []) ::
          (requestOn 1 [0x2F, 0x61] []).take 1)
    lastAnnounced p.consumed = 4 ∧
      p.answersData exampleAttached.cfg
        (.run allOk (parsedFrame 10 ⟨1, 1, 5, 0⟩ (some [0x2F, 0x61]) [])) = 4 ∧
      (∃ fc, p.conn.flow = some fc ∧ fc.streamWindow = lastAnnounced p.consumed) ∧
      ∀ act, p.answersData exampleAttached.cfg act ≤ lastAnnounced p.consumed := by
  refine ⟨by decide +kernel, by decide +kernel, ?_⟩
  exact streamWindow_followed attach_exampleFiles (by decide) rfl (by decide +kernel)
    (by decide +kernel) (by decide +kernel)

/-- A message, and how the helpers and the parser answer on it. -/
structure Unfollowed where
  message : Message
  helpers : Helpers
  ret : Int

/-- The last frame of each message announces a window of `0`: behind sixteen other parameters, behind
an illegal one and behind sixteen frames, in a message that is not parsed, and in one that cannot be
pulled in. -/
def unfollowed : List Unfollowed :=
  [⟨⟨encodeAll [settingsFrame (List.replicate 16 (1, 4096) ++ [(4, 0)]) (by decide +kernel)], by decide +kernel⟩,
      allOk, 111⟩,
    ⟨⟨encodeAll [settingsFrame [(4, 0x80000000), (4, 0)] (by decide)], by decide +kernel⟩, allOk, 21⟩,
    ⟨⟨encodeAll (emptyFrames 16 ++ [settingsFrame [(4, 0)] (by decide)]),
      by decide +kernel⟩, allOk, 9⟩,
    ⟨⟨encodeAll [settingsFrame [(4, 0)] (by decide)], by decide +kernel⟩, allOk, -1⟩,
    ⟨⟨encodeAll [settingsFrame [(4, 0)] (by decide)], by decide +kernel⟩,
      { allOk with ok := (· ≠ .pullFrameHeader 0) }, 15⟩]

def Unfollowed.acts (e : Unfollowed) : List Act :=
  [.send e.message, .run e.helpers (parsedFrame e.ret ⟨0, 4, 0, 0⟩ none [])]

/-- Each of these messages is forwarded, and the window that is gone by is not the one announced: the
request behind the first one is answered with four bytes more. -/
theorem streamWindow_lags :
    (∀ e ∈ unfollowed,
      let p := Runs.exec (Pipe.step exampleLimits exampleAttached.cfg) (opened exampleConn) e.acts
      Runs.Along (Pipe.step exampleLimits exampleAttached.cfg) SendsWhole (opened exampleConn)
          e.acts ∧
        p.dropped = false ∧ p.buf = [] ∧
        p.conn.flow.map H2Flow.streamWindow ≠ some (lastAnnounced p.consumed)) ∧
      ∀ e ∈ unfollowed.take 1,
        let p := Runs.exec (Pipe.step exampleLimits exampleAttached.cfg) (opened exampleConn)
          (e.acts ++ (requestOn 1 [0x2F, 0x61] []).take 1)
        lastAnnounced p.consumed = 0 ∧
          p.answersData exampleAttached.cfg
            (.run allOk (parsedFrame 10 ⟨1, 1, 5, 0⟩ (some [0x2F, 0x61]) [])) = 4 := by
  refine ⟨?_, ?_⟩
  · decide +kernel
  · decide +kernel

end HyperFastPath.FastPath
