import HyperFastPath.FastPath.Outcome
import HyperFastPath.Lib.Runs

/-!
# Messages on a dummy

A connection's dummy over time: the messages its client's bytes arrive in, and the runs of
`msg_verdict` on each.  `bpf_msg_apply_bytes` has a verdict apply to that many bytes, past the end
of the message if need be, and the program is run again on what follows them.
-/

namespace HyperFastPath.FastPath

/-- A message: never empty, and no longer than one call can send. -/
def Message : Type := { l : List UInt8 // l ≠ [] ∧ l.length < 2 ^ 31 }

/-- What has become of a stretch of the client's stream. -/
structure Disposal where
  forwarded : Bool
  bytes : List UInt8
  deriving DecidableEq, Repr

/-- `buf` is the rest of the message that is being worked off, `left` how many of the bytes to come
the last verdict still applies to, `log` what has become of the client's bytes so far. -/
structure Pipe where
  conn : Conn
  mirror : List HeaderField
  buf : List UInt8
  left : Nat
  dir : Direction
  toUser : List UInt8
  toClient : List UInt8
  log : List Disposal
  dropped : Bool
  forGood : Bool
  deriving DecidableEq, Repr

/-- The dummy of a connection nothing has been sent on. -/
def Pipe.new : Pipe :=
  { conn := .new, mirror := [], buf := [], left := 0, dir := .ingress, toUser := [], toClient := [],
    log := [], dropped := false, forGood := false }

/-- A message is sent, or the program is run on what there is of one. -/
inductive Act where
  | send (m : Message)
  | run (h : Helpers) (ans : Answers)

def Pipe.consumed (p : Pipe) : List UInt8 := p.log.flatMap Disposal.bytes

/-- What the client has sent so far. -/
def Pipe.sent (p : Pipe) : List UInt8 := p.consumed ++ p.buf

def Pipe.deliver (p : Pipe) (dir : Direction) (bytes : List UInt8) : Pipe :=
  match dir with
  | .ingress => { p with toUser := p.toUser ++ bytes }
  | .egress => { p with toClient := p.toClient ++ bytes }

/-- The mirrored table after a run: only the HTTP/2 parser changes it. -/
def Pipe.mirrorAfter (p : Pipe) (ans : Answers) : List HeaderField :=
  if p.conn.isH2 then ans.table else p.mirror

/-- The verdict `dir` on the first `n` bytes of `bytes`, which `p.buf` has become. -/
def Pipe.dispatch (p : Pipe) (dir : Direction) (bytes : List UInt8) (n : Nat) : Pipe :=
  -- what the verdict does not cover is the tail of the message as it was sent
  let done := p.buf.length - (bytes.length - n)
  { p.deliver dir (bytes.take n) with
    buf := bytes.drop n
    left := n - bytes.length
    dir
    log := p.log ++ [⟨dir = .ingress, p.buf.take done⟩]
    forGood := p.forGood || (dir = .ingress && n = 0xFFFFFFFF) }

/-- A message is taken on once the one before it is done with. -/
def Pipe.Accepts (p : Pipe) : Prop := p.dropped = false ∧ p.buf = []

def Pipe.Pending (p : Pipe) : Prop := p.dropped = false ∧ p.buf ≠ []

instance (p : Pipe) : Decidable p.Accepts := inferInstanceAs (Decidable (_ ∧ _))

instance (p : Pipe) : Decidable p.Pending := inferInstanceAs (Decidable (_ ∧ _))

def Pipe.step (lim : Limits) (cfg : Routes) (p : Pipe) : Act → Pipe
  | .send m =>
    if p.Accepts then
      -- the last verdict still covers the first `t` bytes
      let t := min p.left m.1.length
      { p.deliver p.dir (m.1.take t) with
        buf := m.1.drop t
        left := p.left - t
        log := p.log ++ [⟨p.dir = .ingress, m.1.take t⟩] }
    else p
  | .run h ans =>
    if p.Pending then
      let o := msgVerdict lim cfg h ans p.conn p.buf
      let p' := { p with conn := o.conn, mirror := p.mirrorAfter ans }
      match o.verdict, o.msg.redirect with
      | .pass, some dir => p'.dispatch dir o.msg.bytes o.msg.applyBytes
      -- a message is never passed without a redirect
      | _, _ => { p' with dropped := true }
    else p

section

variable (lim : Limits) (cfg : Routes) (p : Pipe) (h : Helpers) (ans : Answers)

/-- The ways a run can go, and the pipe after it to the byte. -/
inductive RunSettles : Pipe → Prop
  | dropped (hcause : h.AllOk → Declines cfg h ans p.conn p.buf ∧ ¬ Syncs lim h ans p.conn) :
      RunSettles { p with
        conn := (msgVerdict lim cfg h ans p.conn p.buf).conn
        mirror := p.mirrorAfter ans
        dropped := true }
  | upgraded (hnew : SeesPreface ans p.conn) :
      RunSettles { p with
        conn := p.conn.upgrade h
        buf := p.buf.drop 24
        left := 24 - p.buf.length
        dir := .ingress
        toUser := p.toUser ++ p.buf.take 24
        log := p.log ++ [⟨true, p.buf.take 24⟩] }
  | answered {i : Fin maxRoutes} (hnew : ¬ SeesPreface ans p.conn)
      (hserves : Serves cfg h ans p.conn p.buf)
      (hroute : answeringRoute cfg h ans p.conn p.buf = some i) :
      RunSettles { p with
        conn := answeredConn h ans p.conn (cfg.routes i)
        mirror := p.mirrorAfter ans
        buf := p.buf.drop (parse h ans p.conn).msgLen.toNat
        left := 0
        dir := .egress
        toClient := p.toClient ++ (cfg.routes i).response cfg.arena (parse h ans p.conn).sid
        log := p.log ++ [⟨false, p.buf.take (parse h ans p.conn).msgLen.toNat⟩] }
  | forwarded (size n : Nat) (hnew : ¬ SeesPreface ans p.conn)
      (hdecl : Declines cfg h ans p.conn p.buf) (hsync : Syncs lim h ans p.conn)
      (hsize : size = (runFront h ans p.conn).length + p.buf.length)
      (hn : n = if forwardedLen h ans p.conn ≤ 0 then 0xFFFFFFFF
        else max size (forwardedLen h ans p.conn).toNat) :
      RunSettles { p with
        conn := forwardedConn h ans p.conn p.buf
        mirror := p.mirrorAfter ans
        buf := []
        left := n - size
        dir := .ingress
        toUser := p.toUser ++ (runFront h ans p.conn ++ p.buf)
        log := p.log ++ [⟨true, p.buf⟩]
        forGood := p.forGood || decide (n = 0xFFFFFFFF) }

/-- The ways a run can go, and the pipe after it. -/
inductive RunEnds : Pipe → Prop
  | dropped (conn : Conn) (hcause : h.AllOk → syncPrefix (parse h ans p.conn) ans.table ≠ [] ∧
      ¬ Replayable lim ans.table (parse h ans p.conn).dtCount) :
      RunEnds { p with conn, mirror := p.mirrorAfter ans, dropped := true }
  | upgraded (hnew : SeesPreface ans p.conn) :
      RunEnds { p with
        conn := p.conn.upgrade h
        buf := p.buf.drop 24
        left := 24 - p.buf.length
        dir := .ingress
        toUser := p.toUser ++ p.buf.take 24
        log := p.log ++ [⟨true, p.buf.take 24⟩] }
  | answered (response : List UInt8) (flow : Option H2Flow) (hnew : ¬ SeesPreface ans p.conn)
      (hserves : Serves cfg h ans p.conn p.buf) (hpos : 0 < (parse h ans p.conn).msgLen)
      (hfit : (parse h ans p.conn).msgLen.toNat ≤ p.buf.length)
      (hflow : flow.isSome = p.conn.flow.isSome) :
      RunEnds { p with
        conn := { (parse h ans p.conn).conn with
          flow
          dirty := if p.conn.isH2 then update (h.ok .setDirty) 1 p.conn.dirty else p.conn.dirty }
        mirror := p.mirrorAfter ans
        buf := p.buf.drop (parse h ans p.conn).msgLen.toNat
        left := 0
        dir := .egress
        toClient := p.toClient ++ response
        log := p.log ++ [⟨false, p.buf.take (parse h ans p.conn).msgLen.toNat⟩] }
  | forwarded (report : List UInt8) (msgLen : Int) (size n : Nat) (flow : Option H2Flow)
      (hnew : ¬ SeesPreface ans p.conn) (hserves : ¬ Serves cfg h ans p.conn p.buf)
      (hreport : IsReport h report)
      (hsync : syncPrefix (parse h ans p.conn) ans.table ≠ [] →
        Replayable lim ans.table (parse h ans p.conn).dtCount)
      (hlen : ReportedLen h p.conn report (syncedLen (parse h ans p.conn) ans.table) msgLen)
      (hsize : size = report.length + (syncPrefix (parse h ans p.conn) ans.table).length +
        p.buf.length)
      (hn : n = if msgLen ≤ 0 then 0xFFFFFFFF else max size msgLen.toNat)
      (hflow : flow.isSome = p.conn.flow.isSome) :
      RunEnds { p with
        conn := { (parse h ans p.conn).conn with
          flow
          dirty := if syncPrefix (parse h ans p.conn) ans.table = [] then p.conn.dirty
            else update (h.ok .clearDirty) 0 p.conn.dirty }
        mirror := p.mirrorAfter ans
        buf := []
        left := n - size
        dir := .ingress
        toUser := p.toUser ++ (report ++ syncPrefix (parse h ans p.conn) ans.table ++ p.buf)
        log := p.log ++ [⟨true, p.buf⟩]
        forGood := p.forGood || decide (n = 0xFFFFFFFF) }

end

variable {lim : Limits} {cfg : Routes} {p : Pipe} {h : Helpers} {ans : Answers}

theorem report_length_le {report : List UInt8} (hr : IsReport h report) : report.length ≤ 13 := by
  rcases hr with rfl | ⟨sent, rfl⟩ | ⟨hlen, -⟩
  · exact Nat.zero_le _
  · exact Nat.le_refl _
  · exact hlen.le

theorem syncPrefix_length_le {q : Parsed} {table : List HeaderField}
    (hr : syncPrefix q table ≠ [] → Replayable lim table q.dtCount) :
    (syncPrefix q table).length ≤ 9 + lim.maxSyncBody := by
  by_cases hnil : syncPrefix q table = []
  · rw [hnil]
    exact Nat.zero_le _
  · have hlen := (hr hnil).2
    rw [syncPrefix] at hnil ⊢
    split
    · rw [dtSyncFrame_length, syncBlock_length]
      omega
    · exact Nat.zero_le _

theorem runFront_length_le (hsync : Syncs lim h ans p.conn) :
    (runFront h ans p.conn).length ≤ 13 + (9 + lim.maxSyncBody) := by
  rw [runFront, List.length_append]
  exact Nat.add_le_add (report_length_le (runFront_report h ans p.conn).1)
    (syncPrefix_length_le fun hne ↦ (hsync hne).1)

theorem step_drop (hp : p.Pending) (hdrop : (msgVerdict lim cfg h ans p.conn p.buf).verdict = .drop) :
    p.step lim cfg (.run h ans) = { p with
      conn := (msgVerdict lim cfg h ans p.conn p.buf).conn
      mirror := p.mirrorAfter ans
      dropped := true } := by
  simp only [Pipe.step, if_pos hp, hdrop]

variable (lim cfg h ans) in
/-- A run of the program on what there is of a message goes one of these ways. -/
theorem run_settles (hp : p.Pending) (hlen : p.buf.length < 2 ^ 31) :
    RunSettles lim cfg p h ans (p.step lim cfg (.run h ans)) := by
  have hsettles := msgVerdict_settles lim cfg h ans p.conn p.buf
  have hdropped (hdrop : (msgVerdict lim cfg h ans p.conn p.buf).verdict = .drop)
      (hcause : h.AllOk → Declines cfg h ans p.conn p.buf ∧ ¬ Syncs lim h ans p.conn) :
      RunSettles lim cfg p h ans (p.step lim cfg (.run h ans)) := by
    rw [step_drop hp hdrop]
    exact .dropped hcause
  have hstep : p.step lim cfg (.run h ans) =
      let o := msgVerdict lim cfg h ans p.conn p.buf
      let p' := { p with conn := o.conn, mirror := p.mirrorAfter ans }
      match o.verdict, o.msg.redirect with
      | .pass, some dir => p'.dispatch dir o.msg.bytes o.msg.applyBytes
      | _, _ => { p' with dropped := true } := if_pos hp
  generalize msgVerdict lim cfg h ans p.conn p.buf = o at hsettles hdropped hstep
  cases hsettles with
  | upgraded hnew =>
    rcases toUserSpace_eq h (.ofBytes p.buf) (p.conn.upgrade h) 24 with ⟨hdrop, hfail⟩ | hpass
    · exact hdropped hdrop fun hall ↦ absurd hall hfail
    have hmirror : p.mirrorAfter ans = p.mirror := by
      rw [Pipe.mirrorAfter, Conn.isH2, hnew.1]
      rfl
    -- a message shorter than the preface is covered whole
    have hdone : p.buf.length - (p.buf.length - 24) = min 24 p.buf.length := by omega
    have htake : p.buf.take (min 24 p.buf.length) = p.buf.take 24 := by
      rw [List.take_eq_take_iff]
      omega
    rw [hstep, hpass]
    simp only [Pipe.dispatch, Pipe.deliver, hmirror, SkMsg.ofBytes, hdone, htake]
    have hends : RunSettles lim cfg p h ans _ := .upgraded hnew
    simpa using hends
  | spoilt _ _ _ hfail => exact hdropped rfl fun hall ↦ absurd hall hfail
  | @answered msg i hnew hserves hroute hbytes happly hredirect =>
    have hfit := (answeringRoute_suits hroute).2.2.1.2.2.2.2
    generalize hr : (cfg.routes i).response cfg.arena (parse h ans p.conn).sid = response at *
    have hdone : p.buf.length - ((response ++ p.buf.drop (parse h ans p.conn).msgLen.toNat).length -
        response.length) = (parse h ans p.conn).msgLen.toNat := by
      rw [List.length_append, List.length_drop]
      omega
    have hleft : response.length -
        (response ++ p.buf.drop (parse h ans p.conn).msgLen.toNat).length = 0 := by
      rw [List.length_append]
      omega
    simp only [hstep, hredirect, hbytes, happly, Pipe.dispatch, Pipe.deliver, hdone, List.take_left,
      List.drop_left]
    have hends : RunSettles lim cfg p h ans _ := .answered hnew hserves hroute
    rw [hr] at hends
    simpa [hleft] using hends
  | unsynced _ hdecl hsync => exact hdropped rfl fun _ ↦ ⟨hdecl, hsync⟩
  | @forwarded msg hnew hdecl hsync hbytes =>
    rcases toUserSpace_eq h msg (forwardedConn h ans p.conn p.buf)
      (if forwardedLen h ans p.conn ≤ 0 then 0xFFFFFFFF
        else max msg.size (forwardedLen h ans p.conn).toNat) with ⟨hdrop, hfail⟩ | hpass
    · exact hdropped hdrop fun hall ↦ absurd hall hfail
    have hsize : msg.size = (runFront h ans p.conn).length + p.buf.length := by
      rw [SkMsg.size, hbytes, List.length_append]
    generalize hn : (if forwardedLen h ans p.conn ≤ 0 then 0xFFFFFFFF
      else max msg.size (forwardedLen h ans p.conn).toNat) = n at hpass hstep
    -- a forwarded message is covered whole, even if `apply_bytes` is the largest count there is
    have hle : msg.bytes.length ≤ n := by
      have := runFront_length_le hsync
      have hbody := lim.maxSyncBody_le
      rw [← hn, ← SkMsg.size]
      simp only [maxSyncBuf] at hbody
      split
      · omega
      · exact Nat.le_max_left _ _
    have hdone : p.buf.length - (msg.bytes.length - n) = p.buf.length := by omega
    rw [hstep, hpass]
    simp only [Pipe.dispatch, Pipe.deliver, hdone, List.take_of_length_le hle,
      List.drop_of_length_le hle, List.take_length]
    have hends : RunSettles lim cfg p h ans _ :=
      .forwarded msg.size n hnew hdecl hsync hsize hn.symm
    rw [← hbytes] at hends
    simpa [SkMsg.size] using hends

/-- A request that passes the checks is answered where no helper fails. -/
theorem step_answered (hp : p.Pending) (hlen : p.buf.length < 2 ^ 31) (hall : h.AllOk)
    (hnew : ¬ SeesPreface ans p.conn) {i : Fin maxRoutes}
    (hroute : answeringRoute cfg h ans p.conn p.buf = some i) :
    p.step lim cfg (.run h ans) = { p with
      conn := answeredConn h ans p.conn (cfg.routes i)
      mirror := p.mirrorAfter ans
      buf := p.buf.drop (parse h ans p.conn).msgLen.toNat
      left := 0
      dir := .egress
      toClient := p.toClient ++ (cfg.routes i).response cfg.arena (parse h ans p.conn).sid
      log := p.log ++ [⟨false, p.buf.take (parse h ans p.conn).msgLen.toNat⟩] } := by
  have hserves : Serves cfg h ans p.conn p.buf := (serves_iff hall).mpr (by rw [hroute]; rfl)
  have hrun := run_settles lim cfg h ans hp hlen
  generalize p.step lim cfg (.run h ans) = p' at hrun
  cases hrun with
  | dropped hcause => exact absurd hserves (hcause hall).1.not_serves
  | upgraded hsees => exact absurd hsees hnew
  | answered _ _ hroute' =>
    cases hroute.symm.trans hroute'
    rfl
  | forwarded _ _ _ hdecl => exact absurd hserves hdecl.not_serves

variable (lim cfg h ans) in
theorem run_ends (hp : p.Pending) (hlen : p.buf.length < 2 ^ 31) :
    RunEnds lim cfg p h ans (p.step lim cfg (.run h ans)) := by
  have hrun := run_settles lim cfg h ans hp hlen
  generalize p.step lim cfg (.run h ans) = p' at hrun
  cases hrun with
  | dropped hcause => exact .dropped _ fun hall ↦ not_syncs (hcause hall).2 hall
  | upgraded hnew => exact .upgraded hnew
  | answered hnew hserves hroute =>
    obtain ⟨-, hpos, hsuits, -⟩ := answeringRoute_suits hroute
    refine .answered _ _ hnew hserves hpos hsuits.2.2.2.2 ?_
    rw [Route.spent]
    split <;> simp
  | forwarded size n hnew hdecl hsync hsize hn =>
    obtain ⟨hreport, hlen'⟩ := runFront_report h ans p.conn
    rw [runFront, List.length_append] at hsize
    have hends : RunEnds lim cfg p h ans _ := .forwarded _ _ size n
      (forwardedConn h ans p.conn p.buf).flow hnew hdecl.not_serves hreport
      (fun hne ↦ (hsync hne).1) hlen' hsize hn
      (forwardedConn_flow_isSome h ans p.conn p.buf)
    rw [← forwardedConn_eq] at hends
    exact hends

/-! ## 1. What every step keeps -/

theorem RunEnds.sent_eq {p' : Pipe} (hr : RunEnds lim cfg p h ans p') : p'.sent = p.sent := by
  cases hr <;> simp [Pipe.sent, Pipe.consumed]

theorem RunEnds.buf_suffix {p' : Pipe} (hr : RunEnds lim cfg p h ans p') : p'.buf <:+ p.buf := by
  cases hr with
  | dropped => exact List.suffix_refl _
  | upgraded => exact List.drop_suffix _ _
  | answered => exact List.drop_suffix _ _
  | forwarded => exact List.nil_suffix

/-- A step that is not due changes nothing. -/
theorem step_run_idle (hp : ¬ p.Pending) : p.step lim cfg (.run h ans) = p := if_neg hp

theorem step_send_idle {m : Message} (hp : ¬ p.Accepts) : p.step lim cfg (.send m) = p := if_neg hp

variable (lim cfg) in
theorem step_send_conn {m : Message} (hacc : p.Accepts) :
    (p.step lim cfg (.send m)).conn = p.conn ∧
      (p.step lim cfg (.send m)).forGood = p.forGood := by
  simp only [Pipe.step, if_pos hacc]
  cases p.dir <;> exact ⟨rfl, rfl⟩

variable (lim cfg) in
theorem step_send_sent {m : Message} (hp : p.Accepts) :
    (p.step lim cfg (.send m)).sent = p.sent ++ m.1 := by
  simp only [Pipe.step, if_pos hp, Pipe.sent, Pipe.consumed, hp.2]
  cases p.dir <;> simp

theorem RunEnds.consumed_extends {p' : Pipe} (hr : RunEnds lim cfg p h ans p') :
    p.consumed <+: p'.consumed := by
  cases hr with
  | dropped => exact List.prefix_refl _
  | upgraded | answered | forwarded => simp [Pipe.consumed]

variable (lim cfg) in
theorem step_consumed (p : Pipe) (a : Act) (hlen : p.buf.length < 2 ^ 31) :
    p.consumed <+: (p.step lim cfg a).consumed := by
  cases a with
  | send m =>
    by_cases hp : p.Accepts
    · simp only [Pipe.step, if_pos hp]
      cases p.dir <;> simp [Pipe.consumed]
    · simp only [step_send_idle hp, List.prefix_refl]
  | run h ans =>
    by_cases hp : p.Pending
    · exact (run_ends lim cfg h ans hp hlen).consumed_extends
    · simp only [step_run_idle hp, List.prefix_refl]

variable (lim cfg) in
theorem step_bounded (p : Pipe) (a : Act) (hlen : p.buf.length < 2 ^ 31) :
    (p.step lim cfg a).buf.length < 2 ^ 31 := by
  cases a with
  | send m =>
    by_cases hp : p.Accepts
    · simp only [Pipe.step, if_pos hp, List.length_drop]
      have := m.2.2
      omega
    · rwa [step_send_idle hp]
  | run h ans =>
    by_cases hp : p.Pending
    · exact ((run_ends lim cfg h ans hp hlen).buf_suffix.length_le).trans_lt hlen
    · rwa [step_run_idle hp]

/-- A message is of a length the helpers can count, and an answer covers nothing that is to come. -/
structure Pipe.Regular (p : Pipe) : Prop where
  bounded : p.buf.length < 2 ^ 31
  egress : p.dir = .egress → p.left = 0

theorem Pipe.Regular.new : Pipe.new.Regular := ⟨by decide, fun _ ↦ rfl⟩

variable (lim cfg) in
theorem step_regular {a : Act} (hp : p.Regular) : (p.step lim cfg a).Regular := by
  refine ⟨step_bounded lim cfg p a hp.bounded, ?_⟩
  cases a with
  | send m =>
    by_cases hacc : p.Accepts
    · simp only [Pipe.step, if_pos hacc]
      cases hdir : p.dir with
      | ingress => simp [Pipe.deliver, hdir]
      | egress => simp [hp.egress hdir]
    · rw [step_send_idle hacc]
      exact hp.egress
  | run h ans =>
    by_cases hpend : p.Pending
    swap
    · rw [step_run_idle hpend]
      exact hp.egress
    have hrun := run_ends lim cfg h ans hpend hp.bounded
    generalize p.step lim cfg (.run h ans) = p' at hrun
    cases hrun with
    | dropped => exact hp.egress
    | upgraded => exact fun hdir ↦ by cases hdir
    | answered => exact fun _ ↦ rfl
    | forwarded => exact fun hdir ↦ by cases hdir

/-- The dummy of a connection whose preface has gone through. -/
def opened (conn : Conn) : Pipe := { Pipe.new with conn }

/-! ## 2. A small server -/

def exampleLimits : Limits := ⟨128, by decide⟩

/-- A HEADERS and a DATA frame, and five bytes for HTTP/1.1. -/
def exampleArena (i : Nat) : UInt8 :=
  [0, 0, 1, 1, 4, 0, 0, 0, 0, 0x88, 0, 0, 1, 0, 1, 0, 0, 0, 0, 0x21, 0x48, 0x54, 0x54, 0x50,
    0x2F].getD i 0

def exampleRoute : Route where
  bodyOff := 20
  bodyLen := 5
  h2BodyOff := 0
  h2BodyLen := 20
  h2SidOffs := [5, 15]
  h2SidCount := 2
  h2DataLen := 1
  sids_fit := by decide

/-- One route, under the path `/a`. -/
def exampleRoutes : Routes where
  routes _ := exampleRoute
  routeIdx key := if key = routeKey [0x2F, 0x61] then some 0 else none
  arena := exampleArena

def exampleConn : Conn := { upgraded := some h2Handshaked, flow := some .initial, dirty := none }

/-- What the HTTP/2 parser answers for a frame of `len` bytes that asks for `path`. -/
def parsedFrame (len : Int) (frame : H2Frame) (path : Option (List UInt8))
    (table : List HeaderField) : Answers :=
  { ret := len, preface := false, contentLength := none, path, frame, table }

/-- The preface, and the ack that ends the handshake. -/
def handshake : List Act :=
  [.send ⟨[0x50, 0x52, 0x49, 0x20, 0x2A, 0x20, 0x48, 0x54, 0x54, 0x50, 0x2F, 0x32, 0x2E, 0x30, 0x0D,
      0x0A, 0x0D, 0x0A, 0x53, 0x4D, 0x0D, 0x0A, 0x0D, 0x0A], by decide⟩,
    .run allOk { parsedFrame 18 ⟨0, 0, 0, 0⟩ none [] with preface := true },
    .send ⟨[0, 0, 0, 4, 1, 0, 0, 0, 0], by decide⟩,
    .run allOk (parsedFrame 9 ⟨0, 4, 1, 0⟩ none [])]

/-- A request on stream 1 that is answered, and adds `field` to the table. -/
def answeredRequest (field : HeaderField) : List Act :=
  [.send ⟨[0, 0, 1, 1, 5, 0, 0, 0, 1, 0x82], by decide⟩,
    .run allOk (parsedFrame 10 ⟨1, 1, 5, 0⟩ (some [0x2F, 0x61]) [field])]

example : (Runs.exec (Pipe.step exampleLimits exampleRoutes) .new
    (handshake ++ answeredRequest ⟨[0x61], false, [0x62], false⟩)).toClient =
      [0, 0, 1, 1, 4, 0, 0, 0, 1, 0x88, 0, 0, 1, 0, 1, 0, 0, 0, 1, 0x21] := by
  decide +kernel

end HyperFastPath.FastPath
