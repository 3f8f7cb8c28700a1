import HyperFastPath.FastPath.HandOver

/-!
# What becomes of the client's bytes

Every byte a client sends is either handed to user space or replaced by an answer, and the only
other bytes user space gets are the frames put ahead of a message.
-/

namespace HyperFastPath.FastPath

variable {lim : Limits} {cfg : Routes} {p : Pipe} {h : Helpers} {ans : Answers}

/-! ## 1. The frames ahead of a message -/

/-- What is put ahead of a message: a count to report and a block to replay. -/
structure Front where
  report : Option UInt32
  block : Option (List UInt8)
  deriving DecidableEq, Repr

def Front.none : Front := { report := .none, block := .none }

def Front.bytes (f : Front) : List UInt8 :=
  f.report.elim [] fcSyncFrame ++ f.block.elim [] dtSyncFrame

/-- The frames a run puts ahead of what it forwards. -/
def frontOf (h : Helpers) (ans : Answers) (conn : Conn) : Front where
  report := if h.Reports (runDue h ans conn) then runDue h ans conn else .none
  block :=
    let q := parse h ans conn
    if q.conn.isH2 ∧ 0 ≤ q.msgLen ∧ q.dtStale then some (syncBlock (ans.table.take q.dtCount))
    else .none

/-- Nothing but frames is put ahead, unless the room made for a report was not filled. -/
theorem runFront_eq (hroom : h.ok .pushFcSync → h.ok .pullFcSync) (conn : Conn) :
    runFront h ans conn = (frontOf h ans conn).bytes := by
  have hblock : syncPrefix (parse h ans conn) ans.table =
      (frontOf h ans conn).block.elim [] dtSyncFrame := by
    simp only [frontOf, syncPrefix]
    split <;> rfl
  rw [runFront, Front.bytes, hblock]
  congr 1
  simp only [frontOf, Helpers.Reports]
  cases runDue h ans conn with
  | none => rfl
  | some sent =>
    by_cases hpush : h.ok .pushFcSync = true
    · simp [reportPrefix, hpush, hroom hpush]
    · simp [reportPrefix, hpush]

/-- A report that is due is due on an HTTP/2 connection whose message was parsed. -/
theorem runDue_some {h : Helpers} {ans : Answers} {conn : Conn} {sent : UInt32}
    (hdue : runDue h ans conn = some sent) :
    conn.isH2 ∧ 0 ≤ (parse h ans conn).msgLen ∧ ∃ fc, conn.flow = some fc ∧ fc.unreported = sent ∧
      0 < sent := by
  obtain ⟨fc, hflow, hfc⟩ := Option.bind_eq_some_iff.mp hdue
  split at hfc
  swap
  · cases hfc
  rename_i hc
  obtain ⟨hh2, hlen, hpos⟩ := hc
  cases hfc
  refine ⟨hh2, ?_, fc, hflow, rfl, hpos⟩
  rw [syncedLen] at hlen
  split at hlen
  · rename_i hc
    exact hc.2.1
  · exact hlen

/-- Without HTTP/2 there is nothing to put ahead of a message. -/
theorem frontOf_plain {conn : Conn} (hplain : conn.isH2 = false) :
    frontOf h ans conn = .none := by
  have hreport : ¬ h.Reports (runDue h ans conn) := fun hr ↦ by
    obtain ⟨sent, hdue⟩ := Option.isSome_iff_exists.mp hr.1
    rw [(runDue_some hdue).1] at hplain
    cases hplain
  have hblock : ¬ ((parse h ans conn).conn.isH2 ∧ 0 ≤ (parse h ans conn).msgLen ∧
      (parse h ans conn).dtStale) := fun hc ↦ by
    rw [(parse_conn h ans conn).1, hplain] at hc
    cases hc.1
  rw [frontOf, if_neg hreport, if_neg hblock]
  rfl

/-! ## 2. Stretches of the client's stream -/

/-- A stretch of the client's stream: what went ahead of it, and the answer that replaced it. -/
structure Stretch where
  front : Front
  bytes : List UInt8
  answer : Option (List UInt8)
  deriving DecidableEq, Repr

/-- What user space gets of it. -/
def Stretch.toUser (s : Stretch) : List UInt8 :=
  if s.answer.isNone then s.front.bytes ++ s.bytes else []

/-- What the client gets of it. -/
def Stretch.toClient (s : Stretch) : List UInt8 := s.answer.getD []

/-- The response a run answers with. -/
def answerOf (cfg : Routes) (h : Helpers) (ans : Answers) (conn : Conn) (bytes : List UInt8) :
    List UInt8 :=
  (answeringRoute cfg h ans conn bytes).elim [] fun i ↦
    (cfg.routes i).response cfg.arena (parse h ans conn).sid

/-- What a run makes of the front of `bytes`, unless it drops the message. -/
def runStretch (cfg : Routes) (h : Helpers) (ans : Answers) (conn : Conn) (bytes : List UInt8) :
    Stretch :=
  if SeesPreface ans conn then { front := .none, bytes := bytes.take 24, answer := none }
  else if Serves cfg h ans conn bytes then
    { front := .none
      bytes := bytes.take (parse h ans conn).msgLen.toNat
      answer := some (answerOf cfg h ans conn bytes) }
  else { front := frontOf h ans conn, bytes, answer := none }

/-- The stretch a step disposes of. -/
def Pipe.disposes (lim : Limits) (cfg : Routes) (p : Pipe) : Act → List Stretch
  | .send m =>
    -- the last verdict may still cover the front of the message
    if p.Accepts ∧ 0 < p.left then
      [{ front := .none, bytes := m.1.take (min p.left m.1.length), answer := none }]
    else []
  | .run h ans =>
    if p.Pending ∧ (p.step lim cfg (.run h ans)).dropped = false then
      [runStretch cfg h ans p.conn p.buf]
    else []

/-- The stretches a run of the pipe disposes of, in their order. -/
def stretches (lim : Limits) (cfg : Routes) : Pipe → List Act → List Stretch :=
  Runs.record (Pipe.step lim cfg) (Pipe.disposes lim cfg)

/-- What the client sends in a step. -/
def Pipe.sends (p : Pipe) : Act → List UInt8
  | .send m => if p.Accepts then m.1 else []
  | .run _ _ => []

/-- The client's stream: what it sends along a run. -/
def clientStream (lim : Limits) (cfg : Routes) : Pipe → List Act → List UInt8 :=
  Runs.record (Pipe.step lim cfg) Pipe.sends

/-- What a step hands over is what its stretches say. -/
structure Accounts (p p' : Pipe) (ss : List Stretch) : Prop where
  toUser : p'.toUser = p.toUser ++ ss.flatMap Stretch.toUser
  toClient : p'.toClient = p.toClient ++ ss.flatMap Stretch.toClient
  consumed : p'.consumed = p.consumed ++ ss.flatMap Stretch.bytes

/-- The helper calls that fill the room made for a report do not fail on their own. -/
def FillsReports (_ : Pipe) : Act → Prop
  | .send _ => True
  | .run h _ => h.ok .pushFcSync → h.ok .pullFcSync

theorem step_accounts {a : Act} (hreg : p.Regular) (hfill : FillsReports p a) :
    Accounts p (p.step lim cfg a) (p.disposes lim cfg a) := by
  cases a with
  | send m =>
    by_cases hacc : p.Accepts
    swap
    · rw [step_send_idle hacc, Pipe.disposes, if_neg fun hc ↦ hacc hc.1]
      constructor <;> simp
    simp only [Pipe.step, Pipe.disposes, hacc, true_and, if_true]
    by_cases hleft : 0 < p.left
    · have hdir : p.dir = .ingress := by
        cases hdir : p.dir with
        | ingress => rfl
        | egress => rw [hreg.egress hdir] at hleft; cases hleft
      rw [if_pos hleft, hdir]
      constructor <;>
        simp [Pipe.deliver, Pipe.consumed, Stretch.toUser, Stretch.toClient, Front.bytes, Front.none]
    · rw [if_neg hleft, Nat.eq_zero_of_not_pos hleft]
      constructor <;> cases p.dir <;> simp [Pipe.deliver, Pipe.consumed]
  | run h ans =>
    by_cases hp : p.Pending
    swap
    · rw [step_run_idle hp, Pipe.disposes, if_neg fun hc ↦ hp hc.1]
      constructor <;> simp
    have hrun := run_settles lim cfg h ans hp hreg.bounded
    simp only [Pipe.disposes, hp, true_and]
    generalize p.step lim cfg (.run h ans) = p' at hrun
    cases hrun with
    | dropped =>
      rw [if_neg (by simp)]
      constructor <;> simp [Pipe.consumed]
    | upgraded hnew =>
      rw [if_pos hp.1, runStretch, if_pos hnew]
      constructor <;>
        simp [Pipe.consumed, Stretch.toUser, Stretch.toClient, Front.bytes, Front.none]
    | answered hnew hserves hroute =>
      rw [if_pos hp.1, runStretch, if_neg hnew, if_pos hserves, answerOf, hroute]
      constructor <;> simp [Pipe.consumed, Stretch.toUser, Stretch.toClient]
    | forwarded _ _ hnew hdecl =>
      rw [if_pos hp.1, runStretch, if_neg hnew, if_neg hdecl.not_serves]
      constructor <;> simp [Pipe.consumed, Stretch.toUser, Stretch.toClient, runFront_eq hfill]

variable (lim cfg) in
/-- Nothing goes back to the client before the program is run. -/
theorem send_toClient (hreg : p.Regular) (m : Message) :
    (p.step lim cfg (.send m)).toClient = p.toClient := by
  by_cases hacc : p.Accepts
  · simp only [Pipe.step, if_pos hacc]
    cases hdir : p.dir with
    | ingress => rfl
    | egress => simp [Pipe.deliver, hreg.egress hdir]
  · rw [step_send_idle hacc]

/-- What a step sends to the client. -/
def Pipe.answers (lim : Limits) (cfg : Routes) (p : Pipe) (a : Act) : List UInt8 :=
  (p.step lim cfg a).toClient.drop p.toClient.length

/-- A whole response, or nothing. -/
inductive Responds (cfg : Routes) (p : Pipe) : Act → List UInt8 → Prop
  | nothing {a : Act} : Responds cfg p a []
  | response {h : Helpers} {ans : Answers} {i : Fin maxRoutes} (hp : p.Pending)
      (hnew : ¬ SeesPreface ans p.conn) (hserves : Serves cfg h ans p.conn p.buf)
      (hroute : answeringRoute cfg h ans p.conn p.buf = some i) :
      Responds cfg p (.run h ans) ((cfg.routes i).response cfg.arena (parse h ans p.conn).sid)

variable (lim cfg) in
theorem step_responds (a : Act) (hreg : p.Regular) :
    Responds cfg p a (p.answers lim cfg a) ∧
      (p.step lim cfg a).toClient = p.toClient ++ p.answers lim cfg a := by
  unfold Pipe.answers
  cases a with
  | send m =>
    rw [send_toClient lim cfg hreg m, List.drop_length, List.append_nil]
    exact ⟨.nothing, rfl⟩
  | run h ans =>
    by_cases hp : p.Pending
    swap
    · rw [step_run_idle hp, List.drop_length, List.append_nil]
      exact ⟨.nothing, rfl⟩
    have hrun := run_settles lim cfg h ans hp hreg.bounded
    generalize p.step lim cfg (.run h ans) = p' at hrun
    cases hrun with
    | dropped | upgraded | forwarded =>
      simp only [List.drop_length, List.append_nil]
      exact ⟨.nothing, trivial⟩
    | answered hnew hserves hroute =>
      simp only [List.drop_left]
      exact ⟨.response hp hnew hserves hroute, trivial⟩

variable (lim cfg) in
theorem step_sent (p : Pipe) (a : Act) (hlen : p.buf.length < 2 ^ 31) :
    (p.step lim cfg a).sent = p.sent ++ p.sends a := by
  cases a with
  | send m =>
    by_cases hacc : p.Accepts
    · rw [step_send_sent lim cfg hacc, Pipe.sends, if_pos hacc]
    · rw [step_send_idle hacc, Pipe.sends, if_neg hacc, List.append_nil]
  | run h ans =>
    rw [Pipe.sends, List.append_nil]
    by_cases hp : p.Pending
    · exact (run_ends lim cfg h ans hp hlen).sent_eq
    · rw [step_run_idle hp]

/-! ## 3. Conservation -/

theorem run_accounts {acts : List Act} (hreg : p.Regular)
    (hfill : Runs.Along (Pipe.step lim cfg) FillsReports p acts) :
    Accounts p (Runs.exec (Pipe.step lim cfg) p acts) (stretches lim cfg p acts) :=
  have hstep (q : Pipe) (a : Act) (hq : q.Regular) (_ : FillsReports q a) :
      (q.step lim cfg a).Regular := step_regular lim cfg hq
  { toUser := hfill.accumulates Pipe.toUser Stretch.toUser hstep
      (fun _ _ hq hf ↦ (step_accounts hq hf).toUser) hreg
    toClient := hfill.accumulates Pipe.toClient Stretch.toClient hstep
      (fun _ _ hq hf ↦ (step_accounts hq hf).toClient) hreg
    consumed := hfill.accumulates Pipe.consumed Stretch.bytes hstep
      (fun _ _ hq hf ↦ (step_accounts hq hf).consumed) hreg }

variable (lim cfg) in
theorem run_sent (acts : List Act) (hlen : p.buf.length < 2 ^ 31) :
    (Runs.exec (Pipe.step lim cfg) p acts).sent = p.sent ++ clientStream lim cfg p acts := by
  have hall : Runs.Along (Pipe.step lim cfg) (fun _ _ ↦ True) p acts :=
    .of_forall (fun _ _ ↦ trivial) p acts
  have hsent : (Runs.exec (Pipe.step lim cfg) p acts).sent =
      p.sent ++ (clientStream lim cfg p acts).flatMap fun b ↦ [b] :=
    hall.accumulates Pipe.sent (fun b ↦ [b])
      (fun q a hq _ ↦ step_bounded lim cfg q a hq)
      (fun q a hq _ ↦ by rw [step_sent lim cfg q a hq]; simp) hlen
  simpa using hsent

/-- The program says where to what it passes on, so that only its verdict drops a message. -/
def DropsByVerdict (lim : Limits) (cfg : Routes) (p : Pipe) : Act → Prop
  | .send _ => True
  | .run h ans => p.Pending → (p.step lim cfg (.run h ans)).dropped →
    (msgVerdict lim cfg h ans p.conn p.buf).verdict = .drop

theorem dropsByVerdict (lim : Limits) (cfg : Routes) (p : Pipe) (a : Act) :
    DropsByVerdict lim cfg p a := by
  cases a with
  | send m => trivial
  | run h ans =>
    intro hp hdropped
    have hexit := msgVerdict_exit lim cfg h ans p.conn p.buf
    simp only [Pipe.step, if_pos hp] at hdropped
    generalize msgVerdict lim cfg h ans p.conn p.buf = o at hexit hdropped
    have hways : o.verdict = .drop ∨ ∃ dir, o.msg.redirect = some dir := by
      cases hexit with
      | dropped hdrop => exact .inl hdrop
      | upgraded _ _ _ hredirect => exact .inr ⟨_, hredirect⟩
      | answered _ _ _ _ _ _ _ _ hredirect => exact .inr ⟨_, hredirect⟩
      | forwarded _ _ _ _ _ _ _ hredirect => exact .inr ⟨_, hredirect⟩
    rcases hways with hdrop | ⟨dir, hredirect⟩
    · exact hdrop
    cases hverdict : o.verdict with
    | drop => rfl
    | pass =>
      have hkept : p.dropped = true := by
        simp only [hverdict, hredirect, Pipe.dispatch] at hdropped
        cases dir <;> exact hdropped
      rw [hp.1] at hkept
      cases hkept

/-- In a run whose helpers succeed the client's stream is cut into stretches and what is still
buffered.  What is handed to user space are the stretches that were not answered, each with its
frames ahead of it, what goes back are the answers to the others, and nothing is dropped but by the
verdict to drop it. -/
theorem bytes_conserved {acts : List Act}
    (hok : Runs.Along (Pipe.step lim cfg) HelpersOk .new acts) :
    let p := Runs.exec (Pipe.step lim cfg) .new acts
    let ss := stretches lim cfg .new acts
    clientStream lim cfg .new acts = ss.flatMap Stretch.bytes ++ p.buf ∧
      p.toUser = ss.flatMap Stretch.toUser ∧ p.toClient = ss.flatMap Stretch.toClient ∧
      Runs.Along (Pipe.step lim cfg) (DropsByVerdict lim cfg) .new acts := by
  intro p ss
  have hfill : Runs.Along (Pipe.step lim cfg) FillsReports .new acts :=
    hok.imp fun _ a ha ↦ by
      cases a with
      | send _ => trivial
      | run h _ => exact fun _ ↦ ha _
  have hacc := run_accounts .new hfill
  have hsent : p.sent = clientStream lim cfg .new acts :=
    run_sent lim cfg (p := .new) acts (by decide)
  have hcons : p.consumed = ss.flatMap Stretch.bytes := hacc.consumed
  refine ⟨?_, hacc.toUser, hacc.toClient, .of_forall (dropsByVerdict lim cfg) _ _⟩
  rw [← hsent, Pipe.sent, hcons]

/-- A request is answered, and the one after it arrives behind a report and the table. -/
theorem bytes_conserved_exchange :
    let acts := handshake ++ answeredRequest ⟨[0x61], false, [0x62], false⟩ ++
      [.send ⟨[0, 0, 1, 1, 5, 0, 0, 0, 3, 0x83], by decide⟩,
        .run allOk (parsedFrame 10 ⟨3, 1, 5, 1⟩ none [⟨[0x61], false, [0x62], false⟩])]
    let p := Runs.exec (Pipe.step exampleLimits exampleRoutes) .new acts
    p.toUser = Http2.connectionPreface ++ [0, 0, 0, 4, 1, 0, 0, 0, 0] ++ fcSyncFrame 1 ++
        dtSyncFrame [0x40, 0x01, 0x61, 0x01, 0x62] ++ [0, 0, 1, 1, 5, 0, 0, 0, 3, 0x83] ∧
      p.toClient = [0, 0, 1, 1, 4, 0, 0, 0, 1, 0x88, 0, 0, 1, 0, 1, 0, 0, 0, 1, 0x21] := by
  intro acts p
  have hok : Runs.Along (Pipe.step exampleLimits exampleRoutes) HelpersOk .new acts :=
    ⟨trivial, fun _ ↦ rfl, trivial, fun _ ↦ rfl, trivial, fun _ ↦ rfl, trivial, fun _ ↦ rfl, trivial⟩
  obtain ⟨-, huser, hclient, -⟩ := bytes_conserved hok
  have hstretches : stretches exampleLimits exampleRoutes .new acts =
      [⟨.none, Http2.connectionPreface, none⟩, ⟨.none, [0, 0, 0, 4, 1, 0, 0, 0, 0], none⟩,
        ⟨.none, [0, 0, 1, 1, 5, 0, 0, 0, 1, 0x82],
          some [0, 0, 1, 1, 4, 0, 0, 0, 1, 0x88, 0, 0, 1, 0, 1, 0, 0, 0, 1, 0x21]⟩,
        ⟨⟨some 1, some [0x40, 0x01, 0x61, 0x01, 0x62]⟩, [0, 0, 1, 1, 5, 0, 0, 0, 3, 0x83],
          none⟩] := by decide +kernel
  rw [hstretches] at huser hclient
  exact ⟨huser.trans (by decide), hclient.trans (by decide)⟩

end HyperFastPath.FastPath
