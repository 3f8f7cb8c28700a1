import HyperFastPath.FastPath.FlowSafety
import HyperFastPath.Lib.Writers

/-!
# The client's socket

Two writers share it: the fast path, whose answers are redirected to it, and the codec of user
space, whose writes `BeeperStream::poll_write` passes on and may cut anywhere.
-/

namespace HyperFastPath.EndToEnd

open Bytes Http2 FastPath Segments

/-- A connection's dummy, and what the two writers have put on the socket. -/
structure Socket where
  pipe : Pipe
  out : Writers.Shared UInt8
  deriving DecidableEq, Repr

/-- Something happens on the dummy, or `poll_write` accepts some of what the codec has left. -/
inductive SocketAct where
  | dummy (a : Act)
  | write (accepted : Nat)

def Socket.new : Socket := { pipe := .new, out := .new }

/-- A step, where `own` is all that the codec writes in the course of the connection. -/
def Socket.step (lim : Limits) (cfg : Routes) (own : List UInt8) (s : Socket) : SocketAct → Socket
  | .dummy a => { pipe := s.pipe.step lim cfg a, out := s.out.put (s.pipe.answers lim cfg a) }
  | .write accepted => { s with out := s.out.write own accepted }

/-- A request is answered on its stream, and while the codec is between two frames. -/
def AnswersBetween (cfg : Routes) (ws : List Frame) (s : Socket) : SocketAct → Prop
  | .dummy (.run h ans) => s.pipe.Pending → ¬ SeesPreface ans s.pipe.conn →
      Serves cfg h ans s.pipe.conn s.pipe.buf →
      (parse h ans s.pipe.conn).sid ≠ 0 ∧ Boundary (ws.map Frame.encode) s.out.written
  | _ => True

instance (cfg : Routes) (ws : List Frame) (s : Socket) :
    (a : SocketAct) → Decidable (AnswersBetween cfg ws s a)
  | .dummy (.run _ _) => inferInstanceAs (Decidable (_ → _ → _ → _))
  | .dummy (.send _) => isTrue trivial
  | .write _ => isTrue trivial

/-! ## 1. Frames on the wire -/

/-- A frame of a response. -/
def IsAnswer (cfg : Routes) (g : Frame) : Prop :=
  ∃ i sid gs, sid ≠ 0 ∧ (cfg.routes i).response cfg.arena sid = encodeAll gs ∧ g ∈ gs

/-- The wire is a sequence of the codec's frames and the answers', up to a frame the codec is at. -/
structure Framed (cfg : Routes) (ws : List Frame) (s : Socket) (gs : List (Bool × Frame))
    (rest : List Frame) (n : Nat) : Prop extends
    Writers.Orderly Frame.encode ws s.out gs rest n where
  regular : s.pipe.Regular
  answers : encodeAll (Writers.putOf gs) = s.pipe.toClient
  each : ∀ g ∈ Writers.putOf gs, IsAnswer cfg g

variable {lim : Limits} {huffman : List UInt8 → List UInt8} {routes : List (List UInt8 × File)}
  {dummies : Nat} {a : Attached} {ws rest : List Frame} {s : Socket} {gs : List (Bool × Frame)}
  {n : Nat}

theorem Framed.new (cfg : Routes) (ws : List Frame) : Framed cfg ws .new [] ws 0 where
  toOrderly := .new _ ws
  regular := .new
  answers := rfl
  each _ hg := by cases hg

theorem Framed.dummy (ha : a.Of huffman routes) (h : Framed a.cfg ws s gs rest n) {act : Act}
    (hbetween : AnswersBetween a.cfg ws s (.dummy act)) :
    ∃ gs' rest' n', Framed a.cfg ws (s.step lim a.cfg (encodeAll ws) (.dummy act)) gs' rest' n' := by
  obtain ⟨hresponds, htoClient⟩ := step_responds lim a.cfg act h.regular
  have hregular := @step_regular lim a.cfg s.pipe act h.regular
  unfold Socket.step
  simp only
  generalize s.pipe.answers lim a.cfg act = bytes at hresponds htoClient ⊢
  cases hresponds with
  | nothing =>
    refine ⟨gs, rest, n, ?_, hregular, ?_, h.each⟩
    · simpa [Writers.Shared.put] using h.toOrderly
    · rw [h.answers, htoClient, List.append_nil]
  | @response hlp ans i hp hnew hserves hroute =>
    obtain ⟨hsid, hboundary⟩ := hbetween hp hnew hserves
    obtain ⟨-, -, hsuits, -⟩ := answeringRoute_suits hroute
    have hlen := hsuits.1
    rw [if_pos hsid] at hlen
    obtain ⟨head, data, hresponse, -⟩ := response_frames ha hlen hsid
    obtain ⟨l, hl⟩ := h.toOrderly.boundary hboundary
    have hput := h.toOrderly.put_at hl (head :: data)
    rw [hresponse]
    refine ⟨_, _, _, hput, hregular, ?_, ?_⟩
    · simp only [Writers.putOf_append, Writers.putOf_own, Writers.putOf_put, List.append_nil]
      rw [encodeAll_append, h.answers, htoClient, hresponse]
    · intro g hg
      simp only [Writers.putOf_append, Writers.putOf_own, Writers.putOf_put, List.append_nil] at hg
      rcases List.mem_append.mp hg with hg | hg
      · exact h.each g hg
      · exact ⟨i, _, _, hsid, hresponse, hg⟩

theorem Framed.step (ha : a.Of huffman routes) (h : Framed a.cfg ws s gs rest n) {act : SocketAct}
    (hbetween : AnswersBetween a.cfg ws s act) :
    ∃ gs' rest' n', Framed a.cfg ws (s.step lim a.cfg (encodeAll ws) act) gs' rest' n' := by
  cases act with
  | dummy act => exact h.dummy ha hbetween
  | write accepted => exact ⟨gs, rest, _, h.toOrderly.write accepted, h.regular, h.answers, h.each⟩

/-- As long as requests are answered on a stream and between two frames of the codec, the socket
carries whole frames, up to the one the codec is at: the codec's in their order, and those of the
answers. -/
theorem socket_frames (hattach : attach huffman routes dummies = .ok a) (ws : List Frame)
    {acts : List SocketAct}
    (hacts : Runs.Along (Socket.step lim a.cfg (encodeAll ws)) (AnswersBetween a.cfg ws) .new acts) :
    let s := Runs.exec (Socket.step lim a.cfg (encodeAll ws)) .new acts
    ∃ gs : List (Bool × Frame), s.out.wire <+: encodeAll (gs.map Prod.snd) ∧
      Writers.ownOf gs = ws ∧ encodeAll (Writers.putOf gs) = s.pipe.toClient ∧
      ∀ g ∈ Writers.putOf gs, IsAnswer a.cfg g := by
  intro s
  obtain ⟨gs, rest, n, h⟩ : ∃ gs rest n, Framed a.cfg ws s gs rest n :=
    hacts.preserves (I := fun s ↦ ∃ gs rest n, Framed a.cfg ws s gs rest n)
      (fun s act ⟨_, _, _, h⟩ hact ↦ h.step (attach_of hattach) hact) ⟨[], ws, 0, .new _ ws⟩
  refine ⟨gs ++ rest.map fun g ↦ (true, g), h.toOrderly.whole, ?_, ?_, ?_⟩
  · rw [Writers.ownOf_append, Writers.ownOf_own, h.own]
  · rw [Writers.putOf_append, Writers.putOf_own, List.append_nil, h.answers]
  · rw [Writers.putOf_append, Writers.putOf_own, List.append_nil]
    exact h.each

/-! ## 2. Inside a frame -/

/-- The codec writes a frame whole, a request is answered, and the next frame has only been started
on. -/
theorem socket_frames_started :
    let ws : List Frame := [⟨h2SettingsFrame, 1, 0, [], by decide⟩, ⟨0x00, 1, 3, [0x41], by decide⟩]
    let acts : List SocketAct := handshake.map .dummy ++ [.write 9] ++
      (requestOn 1 [0x2F, 0x61] [⟨[0x61], false, [0x62], false⟩]).map .dummy ++ [.write 5]
    let s := Runs.exec (Socket.step exampleLimits exampleAttached.cfg (encodeAll ws)) .new acts
    ∃ gs : List (Bool × Frame), s.out.wire <+: encodeAll (gs.map Prod.snd) ∧
      Writers.ownOf gs = ws ∧ encodeAll (Writers.putOf gs) = s.pipe.toClient ∧
      ∀ g ∈ Writers.putOf gs, IsAnswer exampleAttached.cfg g :=
  socket_frames attach_exampleFiles _ (by decide +kernel)

theorem answer_payload_le {g : Frame} (hg : IsAnswer exampleAttached.cfg g) (hkind : g.kind = 0x00) :
    g.payload.length ≤ 4 := by
  obtain ⟨i, sid, gs, hsid, hresponse, hmem⟩ := hg
  by_cases hlen : (exampleAttached.cfg.routes i).h2BodyLen = 0
  · have hempty := response_length (exampleAttached.cfg.routes i) exampleAttached.cfg.arena sid
    rw [if_pos hsid, hlen, hresponse] at hempty
    have hnil := encodeAll_ne_nil (List.ne_nil_of_mem hmem)
    exact absurd (List.eq_nil_of_length_eq_zero hempty) hnil
  · obtain ⟨head, data, hframes, hhead, -, -, hsum⟩ :=
      response_frames (attach_of attach_exampleFiles) hlen hsid
    have hsame : gs = head :: data := by
      rw [← wholeFrames_whole gs, ← hresponse, hframes, wholeFrames_whole]
    have hdata : ∀ i, (exampleAttached.cfg.routes i).h2DataLen ≤ 4 := by decide +kernel
    rw [hsame] at hmem
    rcases List.mem_cons.mp hmem with rfl | hmem
    · rw [hhead] at hkind
      cases hkind
    · have hle := List.single_le_sum (fun _ _ ↦ Nat.zero_le _) _
        (List.mem_map_of_mem (f := (·.payload.length)) hmem)
      exact hle.trans (hsum.trans_le (hdata i))

/-- A frame that the codec was at when a request was answered is never seen again. -/
theorem answer_inside :
    let ws : List Frame := [⟨0x00, 1, 3, List.replicate 20 0, by decide⟩]
    let acts : List SocketAct := handshake.map .dummy ++ [.write 5] ++
      (requestOn 1 [0x2F, 0x61] [⟨[0x61], false, [0x62], false⟩]).map .dummy
    let s := Runs.exec (Socket.step exampleLimits exampleAttached.cfg (encodeAll ws)) .new acts
    ¬ ∃ gs : List (Bool × Frame), s.out.wire <+: encodeAll (gs.map Prod.snd) ∧
      ∀ g ∈ gs.map Prod.snd, g ∈ ws ∨ IsAnswer exampleAttached.cfg g := by
  rintro ws acts s ⟨gs, hwire, hgs⟩
  have hfront : s.out.wire.take 9 = [0, 0, 20, 0, 1, 0, 0, 32, 1] := by decide +kernel
  cases hmap : gs.map Prod.snd with
  | nil =>
    rw [hmap] at hwire
    rw [List.prefix_nil.mp hwire] at hfront
    cases hfront
  | cons g gs' =>
    rw [hmap] at hwire hgs
    -- the answer's bytes have become a part of the header
    have hheader : g.header = [0, 0, 20, 0, 1, 0, 0, 32, 1] := by
      obtain ⟨rest, hrest⟩ := hwire
      have hlong : 9 ≤ s.out.wire.length := by
        have hlen := congrArg List.length hfront
        rw [List.length_take] at hlen
        simp only [List.length_cons, List.length_nil] at hlen
        omega
      rw [encodeAll_cons, Frame.encode, List.append_assoc] at hrest
      rw [← hfront, ← List.take_append_of_le_length hlong, hrest, List.take_left' (header_length g)]
    have hlen := header_len g
    have hkind := header_kind g
    rw [hheader] at hlen hkind
    rcases hgs g List.mem_cons_self with hown | hanswer
    · rw [List.mem_singleton.mp hown] at hheader
      exact absurd hheader (by decide +kernel)
    · have hle := answer_payload_le hanswer hkind.symm
      rw [← hlen] at hle
      exact absurd hle (by decide)

end HyperFastPath.EndToEnd
