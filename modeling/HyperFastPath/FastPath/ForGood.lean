import HyperFastPath.FastPath.Pipe

/-!
# A connection that was handed over

The count that stands for the rest of a connection is a count like any other: the program is run
again on what follows that many bytes.
-/

namespace HyperFastPath.FastPath

variable {lim : Limits} {cfg : Routes}

/-- What an act adds to the client's stream. -/
def Act.bytes : Act → List UInt8
  | .send m => m.1
  | .run _ _ => []

/-- The run cannot tell where the message ends and hands over the rest of the connection. -/
def HandsOver (lim : Limits) (cfg : Routes) (p : Pipe) (h : Helpers) (ans : Answers) : Prop :=
  p.Pending ∧
    let o := msgVerdict lim cfg h ans p.conn p.buf
    o.verdict = .pass ∧ o.msg.redirect = some .ingress ∧ o.msg.applyBytes = 0xFFFFFFFF

instance (p : Pipe) (h : Helpers) (ans : Answers) : Decidable (HandsOver lim cfg p h ans) :=
  inferInstanceAs (Decidable (_ ∧ _))

/-- At no point is there a byte for the program to look at, and nothing is answered. -/
def StaysHandedOver (lim : Limits) (cfg : Routes) (p : Pipe) (later : List Act) : Prop :=
  ∀ acts, acts <+: later → ¬ (Runs.exec (Pipe.step lim cfg) p acts).Pending ∧
    (Runs.exec (Pipe.step lim cfg) p acts).toClient = p.toClient

/-! ## 1. What a verdict covers -/

/-- The last verdict on a message was that it is for user space, and `left` more bytes are. -/
structure Pipe.Covers (p : Pipe) (left : Nat) : Prop where
  accepts : p.Accepts
  ingress : p.dir = .ingress
  left : p.left = left

theorem Pipe.Covers.not_pending {p : Pipe} {left : Nat} (hp : p.Covers left) : ¬ p.Pending :=
  fun hpend ↦ hpend.2 hp.accepts.2

variable (lim cfg) in
/-- A message that is covered whole goes by. -/
theorem Pipe.Covers.send {p : Pipe} {left : Nat} (hp : p.Covers left) {m : Message}
    (hle : m.1.length ≤ left) :
    (p.step lim cfg (.send m)).Covers (left - m.1.length) ∧
      (p.step lim cfg (.send m)).conn = p.conn ∧
      (p.step lim cfg (.send m)).toClient = p.toClient := by
  obtain ⟨hacc, hdir, hleft⟩ := hp
  have hcovered : min p.left m.1.length = m.1.length := by
    rw [hleft]
    exact Nat.min_eq_right hle
  simp only [Pipe.step, if_pos hacc, hdir, hcovered, List.take_length, List.drop_length]
  exact ⟨⟨⟨hacc.1, rfl⟩, hdir, by rw [hleft]⟩, rfl, rfl⟩

variable (lim cfg) in
/-- One that is not covered whole leaves the program something to look at. -/
theorem Pipe.Covers.send_pending {p : Pipe} {left : Nat} (hp : p.Covers left) {m : Message}
    (hlt : left < m.1.length) : (p.step lim cfg (.send m)).Pending := by
  obtain ⟨hacc, hdir, hleft⟩ := hp
  have hcovered : min p.left m.1.length = left := by
    rw [hleft]
    exact Nat.min_eq_left hlt.le
  simp only [Pipe.step, if_pos hacc, hdir, hcovered]
  refine ⟨hacc.1, fun hnil ↦ ?_⟩
  have hlen := congrArg List.length hnil
  rw [List.length_drop, List.length_nil] at hlen
  omega

/-- A run of messages stays handed over exactly as long as the verdict covers them. -/
theorem Pipe.Covers.stays_iff {p : Pipe} {left : Nat} (hp : p.Covers left) (later : List Act) :
    StaysHandedOver lim cfg p later ↔ (later.flatMap Act.bytes).length ≤ left := by
  induction later generalizing p left with
  | nil =>
    refine ⟨fun _ ↦ Nat.zero_le _, fun _ acts hacts ↦ ?_⟩
    rw [List.prefix_nil.mp hacts]
    exact ⟨hp.not_pending, rfl⟩
  | cons a later ih =>
    -- what holds at every point holds here and at every point of what follows
    have hcons {p' : Pipe} (hp' : p.step lim cfg a = p') (hclient : p'.toClient = p.toClient) :
        StaysHandedOver lim cfg p (a :: later) ↔ StaysHandedOver lim cfg p' later := by
      constructor
      · intro hall acts hacts
        have := hall (a :: acts) (List.cons_prefix_cons.mpr ⟨rfl, hacts⟩)
        rw [Runs.exec_cons, hp'] at this
        exact ⟨this.1, this.2.trans hclient.symm⟩
      · intro hall acts hacts
        cases acts with
        | nil => exact ⟨hp.not_pending, rfl⟩
        | cons b acts =>
          obtain ⟨rfl, hrest⟩ := List.cons_prefix_cons.mp hacts
          rw [Runs.exec_cons, hp']
          exact ⟨(hall acts hrest).1, (hall acts hrest).2.trans hclient⟩
    cases a with
    | run h ans =>
      rw [hcons (step_run_idle hp.not_pending) rfl, ih hp]
      exact Iff.rfl
    | send m =>
      rw [List.flatMap_cons, List.length_append]
      by_cases hle : m.1.length ≤ left
      · obtain ⟨hcovers, -, hclient⟩ := hp.send lim cfg hle
        rw [hcons rfl hclient, ih hcovers]
        have hbytes : (Act.send m).bytes.length = m.1.length := rfl
        omega
      · have hpend := hp.send_pending lim cfg (Nat.lt_of_not_le hle)
        refine iff_of_false (fun hall ↦ ?_) fun hfits ↦ hle ((Nat.le_add_right _ _).trans hfits)
        exact (hall [.send m] (List.cons_prefix_cons.mpr ⟨rfl, List.nil_prefix⟩)).1 hpend

/-! ## 2. After the hand-over -/

/-- What the verdict that hands over leaves to be covered. -/
theorem HandsOver.covers {p : Pipe} {h : Helpers} {ans : Answers} (hp : p.Regular)
    (hover : HandsOver lim cfg p h ans) :
    (p.step lim cfg (.run h ans)).Covers
        (0xFFFFFFFF - ((runFront h ans p.conn).length + p.buf.length)) ∧
      (runFront h ans p.conn).length + p.buf.length ≤ 0xFFFFFFFF := by
  obtain ⟨hpend, hpass, hingress, happly⟩ := hover
  have hsettles := msgVerdict_settles lim cfg h ans p.conn p.buf
  have hlen := hp.bounded
  have hbody := lim.maxSyncBody_le
  simp only [maxSyncBuf] at hbody
  simp only [Pipe.step, if_pos hpend]
  generalize msgVerdict lim cfg h ans p.conn p.buf = o at hsettles hpass hingress happly
  cases hsettles with
  | upgraded hnew =>
    rcases toUserSpace_eq h (.ofBytes p.buf) (p.conn.upgrade h) 24 with ⟨hdrop, -⟩ | heq
    · rw [hdrop] at hpass
      cases hpass
    · rw [heq] at happly
      cases happly
  | spoilt => cases hpass
  | answered _ _ _ _ _ hegress =>
    rw [hegress] at hingress
    cases hingress
  | unsynced => cases hpass
  | @forwarded msg _ _ hsync hbytes =>
    rcases toUserSpace_eq h msg (forwardedConn h ans p.conn p.buf)
      (if forwardedLen h ans p.conn ≤ 0 then 0xFFFFFFFF
        else max msg.size (forwardedLen h ans p.conn).toNat) with ⟨hdrop, -⟩ | heq
    · rw [hdrop] at hpass
      cases hpass
    rw [heq] at happly ⊢
    simp only at happly
    have hfront := runFront_length_le hsync
    have hsize : msg.bytes.length = (runFront h ans p.conn).length + p.buf.length := by
      rw [hbytes, List.length_append]
    simp only [happly, Pipe.dispatch, Pipe.deliver]
    refine ⟨⟨⟨hpend.1, List.drop_of_length_le (by omega)⟩, rfl, by rw [← hsize]⟩, by omega⟩

/-- A connection that was handed over stays so exactly as long as all there is of it, from the
message that could not be parsed on, is no more than the verdict can count. -/
theorem staysHandedOver_iff {before : List Act} {h : Helpers} {ans : Answers}
    (hover : HandsOver lim cfg (Runs.exec (Pipe.step lim cfg) .new before) h ans)
    (later : List Act) :
    let p := Runs.exec (Pipe.step lim cfg) .new before
    StaysHandedOver lim cfg (p.step lim cfg (.run h ans)) later ↔
      (runFront h ans p.conn).length + p.buf.length + (later.flatMap Act.bytes).length ≤
        0xFFFFFFFF := by
  intro p
  have hreg : p.Regular :=
    Runs.exec_preserves (I := Pipe.Regular) (fun _ _ ↦ step_regular lim cfg) .new before
  obtain ⟨hcovers, hfits⟩ := HandsOver.covers hreg hover
  rw [hcovers.stays_iff later]
  omega

/-- The first byte of a message arrives on its own. -/
def unparseable : List Act := [.send ⟨[0x58], by decide⟩]

theorem unparseable_handsOver : HandsOver exampleLimits exampleRoutes
    (Runs.exec (Pipe.step exampleLimits exampleRoutes) .new unparseable) allOk
    (parsedFrame (-1) ⟨0, 0, 0, 0⟩ none []) := by
  decide +kernel

/-- `GET /a` over HTTP/1.1. -/
def plainMessage : Message :=
  ⟨[0x47, 0x45, 0x54, 0x20, 0x2F, 0x61, 0x20, 0x48, 0x54, 0x54, 0x50, 0x2F, 0x31, 0x2E, 0x31, 0x0D,
    0x0A, 0x0D, 0x0A], by decide⟩

def plainAnswers : Answers := parsedFrame 19 ⟨0, 0, 0, 0⟩ (some [0x2F, 0x61]) []

/-- A request for a route is left to user space then. -/
theorem staysHandedOver_request :
    let p := Runs.exec (Pipe.step exampleLimits exampleRoutes) .new unparseable
    StaysHandedOver exampleLimits exampleRoutes
      (p.step exampleLimits exampleRoutes (.run allOk (parsedFrame (-1) ⟨0, 0, 0, 0⟩ none [])))
      [.send plainMessage, .run allOk plainAnswers] :=
  (staysHandedOver_iff unparseable_handsOver [.send plainMessage, .run allOk plainAnswers]).mpr
    (by decide +kernel)

/-- A message of `n` bytes. -/
def longMessage (n : Nat) (hpos : 0 < n) (hlt : n < 2 ^ 31) : Message :=
  ⟨List.replicate n 0x58, List.ne_nil_of_length_pos (by rwa [List.length_replicate]),
    by rwa [List.length_replicate]⟩

/-- What a request is answered with once nothing is covered any more. -/
theorem Pipe.Covers.answers {p : Pipe} (hp : p.Covers 0) (hconn : p.conn = .new)
    (hclient : p.toClient = []) :
    (Runs.exec (Pipe.step exampleLimits exampleRoutes) p
      [.send plainMessage, .run allOk plainAnswers]).toClient = [0x48, 0x54, 0x54, 0x50, 0x2F] := by
  obtain ⟨hacc, hdir, hleft⟩ := hp
  have harrived : ((p.step exampleLimits exampleRoutes (.send plainMessage)).Pending ∧
      (p.step exampleLimits exampleRoutes (.send plainMessage)).conn = .new) ∧
      (p.step exampleLimits exampleRoutes (.send plainMessage)).buf = plainMessage.1 ∧
      (p.step exampleLimits exampleRoutes (.send plainMessage)).toClient = [] := by
    simp only [Pipe.step, if_pos hacc, hdir, hleft, Nat.zero_min, List.drop_zero]
    exact ⟨⟨⟨hacc.1, plainMessage.2.1⟩, hconn⟩, trivial, hclient⟩
  rw [Runs.exec_cons, Runs.exec_cons, Runs.exec_nil]
  generalize p.step exampleLimits exampleRoutes (.send plainMessage) = q at harrived
  obtain ⟨⟨hpend, hnew⟩, hbuf, hnone⟩ := harrived
  have hroute : (answeringRoute exampleRoutes allOk plainAnswers q.conn q.buf).isSome := by
    rw [hnew, hbuf]
    decide +kernel
  obtain ⟨i, hroute⟩ := Option.isSome_iff_exists.mp hroute
  have hsees : ¬ SeesPreface plainAnswers q.conn := by
    rw [hnew]
    decide
  rw [step_answered hpend (by rw [hbuf]; exact plainMessage.2.2) (fun _ ↦ rfl) hsees hroute]
  simp only [hnone, hnew, List.nil_append]
  -- there is one route only
  show exampleRoute.response exampleArena 0 = _
  decide +kernel

/-- Two messages that are as long as one can be, and then a request for a route. -/
def longConnection (n : Nat) (hpos : 0 < n) (hlt : n < 2 ^ 31) : List Act :=
  [.send (longMessage n hpos hlt), .send (longMessage n hpos hlt), .send plainMessage,
    .run allOk plainAnswers]

theorem longConnection_answered {p : Pipe} {n : Nat} (hp : p.Covers (n + n)) (hpos : 0 < n)
    (hlt : n < 2 ^ 31) (hconn : p.conn = .new) (hclient : p.toClient = []) :
    (Runs.exec (Pipe.step exampleLimits exampleRoutes) p (longConnection n hpos hlt)).toClient =
      [0x48, 0x54, 0x54, 0x50, 0x2F] := by
  have hlen : (longMessage n hpos hlt).1.length = n := List.length_replicate
  obtain ⟨hfirst, hconn₁, hclient₁⟩ :=
    hp.send exampleLimits exampleRoutes (m := longMessage n hpos hlt) (by omega)
  obtain ⟨hsecond, hconn₂, hclient₂⟩ :=
    hfirst.send exampleLimits exampleRoutes (m := longMessage n hpos hlt) (by omega)
  rw [hlen, Nat.add_sub_cancel, Nat.sub_self] at hsecond
  exact hsecond.answers (hconn₂.trans (hconn₁.trans hconn)) (hclient₂.trans (hclient₁.trans hclient))

/-- The connection has been handed over, and the request at its end is answered. -/
theorem longConnection_returns :
    let p := Runs.exec (Pipe.step exampleLimits exampleRoutes) .new unparseable
    let later := longConnection 2147483647 (by decide) (by decide)
    HandsOver exampleLimits exampleRoutes p allOk (parsedFrame (-1) ⟨0, 0, 0, 0⟩ none []) ∧
      ¬ StaysHandedOver exampleLimits exampleRoutes
        (p.step exampleLimits exampleRoutes (.run allOk (parsedFrame (-1) ⟨0, 0, 0, 0⟩ none [])))
        later := by
  intro p later
  refine ⟨unparseable_handsOver, fun hall ↦ ?_⟩
  have hends : (p.step exampleLimits exampleRoutes
      (.run allOk (parsedFrame (-1) ⟨0, 0, 0, 0⟩ none []))).Covers (2147483647 + 2147483647) :=
    ⟨by decide +kernel, by decide +kernel, by decide +kernel⟩
  have hanswered := longConnection_answered hends (by decide) (by decide) (by decide +kernel)
    (by decide +kernel)
  have hsame := (hall later (List.prefix_refl _)).2
  rw [hanswered] at hsame
  exact absurd hsame (by decide +kernel)

end HyperFastPath.FastPath
