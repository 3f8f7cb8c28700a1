import HyperFastPath.FastPath.Pipe

/-!
# Runs without failures

Where no helper fails, nothing else about the helpers matters: neither what the room an insertion
makes holds, nor what an earlier run left in the scratch buffer.
-/

namespace HyperFastPath.FastPath

/-! ## 1. Helpers that do not fail -/

variable {lim : Limits} {cfg : Routes} {h h' : Helpers} {ans : Answers} {conn : Conn}
  {bytes : List UInt8}

theorem Helpers.AllOk.same (hall : h.AllOk) (hall' : h'.AllOk) : h.ok = h'.ok :=
  funext fun c ↦ (hall c).trans (hall' c).symm

/-- What of a run depends on its helpers, but for what they insert. -/
structure SameChecks (lim : Limits) (cfg : Routes) (h h' : Helpers) (ans : Answers) (conn : Conn)
    (bytes : List UInt8) : Prop where
  parse : parse h ans conn = parse h' ans conn
  route : answeringRoute cfg h ans conn bytes = answeringRoute cfg h' ans conn bytes
  syncs : Syncs lim h ans conn ↔ Syncs lim h' ans conn
  due : runDue h ans conn = runDue h' ans conn
  len : forwardedLen h ans conn = forwardedLen h' ans conn
  tracked : trackedConn h ans conn bytes = trackedConn h' ans conn bytes
  forwarded : forwardedConn h ans conn bytes = forwardedConn h' ans conn bytes
  answered : ∀ r, answeredConn h ans conn r = answeredConn h' ans conn r
  upgrade : conn.upgrade h = conn.upgrade h'

variable (lim cfg ans conn bytes) in
theorem sameChecks (hok : h.ok = h'.ok) : SameChecks lim cfg h h' ans conn bytes := by
  cases h
  cases h'
  cases hok
  exact ⟨rfl, rfl, Iff.rfl, rfl, rfl, rfl, rfl, fun _ ↦ rfl, rfl⟩

theorem SameChecks.front (hsame : SameChecks lim cfg h h' ans conn bytes) (hall : h.AllOk)
    (hall' : h'.AllOk) : runFront h ans conn = runFront h' ans conn := by
  have hreport (sent : UInt32) : reportPrefix h sent = reportPrefix h' sent := by
    simp [reportPrefix, hall .pushFcSync, hall .pullFcSync, hall' .pushFcSync, hall' .pullFcSync]
  rw [runFront, runFront, hsame.due, hsame.parse, funext hreport]

theorem toUserSpace_allOk (hall : h.AllOk) (msg : SkMsg) (conn : Conn) (len : Nat) :
    toUserSpace h msg conn len =
      ⟨.pass, { msg with applyBytes := len, redirect := some .ingress }, conn⟩ := by
  rcases toUserSpace_eq h msg conn len with ⟨-, hfail⟩ | hpass
  · exact absurd hall hfail
  · exact hpass

/-- Outcomes that are the same to the client and to user space. -/
structure Outcome.Alike (o o' : Outcome) : Prop where
  verdict : o.verdict = o'.verdict
  conn : o.conn = o'.conn
  msg : o.verdict = .pass → o'.msg.SameContent o.msg

variable (lim cfg ans conn bytes) in
theorem msgVerdict_alike (hall : h.AllOk) (hall' : h'.AllOk) :
    (msgVerdict lim cfg h ans conn bytes).Alike (msgVerdict lim cfg h' ans conn bytes) := by
  have hsame := sameChecks lim cfg ans conn bytes (hall.same hall')
  have hserves : Serves cfg h ans conn bytes ↔ Serves cfg h' ans conn bytes := by
    rw [serves_iff hall, serves_iff hall', hsame.route]
  have hsettles := msgVerdict_settles lim cfg h ans conn bytes
  have hsettles' := msgVerdict_settles lim cfg h' ans conn bytes
  generalize msgVerdict lim cfg h ans conn bytes = o at hsettles
  generalize msgVerdict lim cfg h' ans conn bytes = o' at hsettles'
  -- both go the same way
  cases hsettles with
  | spoilt _ _ _ hfail => exact absurd hall hfail
  | upgraded hnew =>
    cases hsettles' with
    | spoilt _ _ _ hfail => exact absurd hall' hfail
    | upgraded =>
      rw [toUserSpace_allOk hall, toUserSpace_allOk hall', hsame.upgrade]
      exact ⟨rfl, rfl, fun _ ↦ .refl _⟩
    | answered hnew' | unsynced hnew' | forwarded hnew' => exact absurd hnew hnew'
  | @answered msg i hnew hs hroute hbytes happly hredirect =>
    cases hsettles' with
    | spoilt _ _ _ hfail => exact absurd hall' hfail
    | upgraded hnew' => exact absurd hnew' hnew
    | @answered msg' i' _ _ hroute' hbytes' happly' hredirect' =>
      rw [hsame.route, hroute'] at hroute
      cases hroute
      rw [hsame.parse] at hbytes happly
      exact ⟨rfl, hsame.answered _, fun _ ↦ ⟨hbytes.trans hbytes'.symm, happly.trans happly'.symm,
        hredirect.trans hredirect'.symm⟩⟩
    | unsynced _ hdecl | forwarded _ hdecl => exact absurd (hserves.mp hs) hdecl.not_serves
  | unsynced hnew hdecl hsync =>
    cases hsettles' with
    | spoilt _ _ _ hfail => exact absurd hall' hfail
    | upgraded hnew' => exact absurd hnew' hnew
    | answered _ hs => exact absurd (hserves.mpr hs) hdecl.not_serves
    | unsynced => exact ⟨rfl, hsame.tracked, fun hpass ↦ by cases hpass⟩
    | forwarded _ _ hsync' => exact absurd (hsame.syncs.mpr hsync') hsync
  | @forwarded msg hnew hdecl hsync hbytes =>
    cases hsettles' with
    | spoilt _ _ _ hfail => exact absurd hall' hfail
    | upgraded hnew' => exact absurd hnew' hnew
    | answered _ hs => exact absurd (hserves.mpr hs) hdecl.not_serves
    | unsynced _ _ hsync' => exact absurd (hsame.syncs.mp hsync) hsync'
    | @forwarded msg' _ _ _ hbytes' =>
      rw [hsame.front hall hall'] at hbytes
      have hmsg : msg.bytes = msg'.bytes := hbytes.trans hbytes'.symm
      rw [toUserSpace_allOk hall, toUserSpace_allOk hall', hsame.len, hsame.forwarded]
      refine ⟨rfl, rfl, fun _ ↦ ⟨hmsg, ?_, rfl⟩⟩
      simp only [SkMsg.size, hmsg]

variable (lim cfg ans) in
/-- A step without failures only depends on the pipe and on what the parser answers. -/
theorem step_same (hall : h.AllOk) (hall' : h'.AllOk) (p : Pipe) :
    p.step lim cfg (.run h ans) = p.step lim cfg (.run h' ans) := by
  obtain ⟨hverdict, hconn, hmsg⟩ := msgVerdict_alike lim cfg ans p.conn p.buf hall hall'
  by_cases hp : p.Pending
  swap
  · rw [step_run_idle hp, step_run_idle hp]
  simp only [Pipe.step, if_pos hp]
  generalize msgVerdict lim cfg h ans p.conn p.buf = o at hverdict hconn hmsg
  generalize msgVerdict lim cfg h' ans p.conn p.buf = o' at hverdict hconn hmsg
  rw [← hverdict, ← hconn]
  cases hv : o.verdict with
  | drop => rfl
  | pass =>
    obtain ⟨hbytes, happly, hredirect⟩ := hmsg hv
    rw [hbytes, happly, hredirect]

/-! ## 2. A dummy of its own -/

/-- The parsers as functions of what they are run on: a message and, over HTTP/2, the table that is
kept for the dummy. -/
structure Parsers where
  h1 : List UInt8 → Answers
  h2 : List HeaderField → List UInt8 → Answers

def Parsers.answers (ps : Parsers) (p : Pipe) : Answers :=
  if p.conn.isH2 then ps.h2 p.mirror p.buf else ps.h1 p.buf

/-- A verdict, and the bytes that are passed on with it. -/
structure Ruling where
  verdict : Verdict
  toUser : List UInt8
  toClient : List UInt8
  deriving DecidableEq, Repr

def Pipe.ruling (p p' : Pipe) : Ruling where
  verdict := if p'.dropped then .drop else .pass
  toUser := p'.toUser.drop p.toUser.length
  toClient := p'.toClient.drop p.toClient.length

/-- What comes of a step: the verdict of a run, or the last one on the front of a message. -/
def Pipe.rulings (lim : Limits) (cfg : Routes) (p : Pipe) : Act → List Ruling
  | .send m => if p.Accepts ∧ 0 < p.left then [p.ruling (p.step lim cfg (.send m))] else []
  | .run h ans => if p.Pending then [p.ruling (p.step lim cfg (.run h ans))] else []

/-- A connection's dummy, and the messages that are still to be sent on it. -/
structure Solo where
  pipe : Pipe
  queue : List Message

/-- The next thing to happen, and the messages left after it. -/
def Solo.due (ps : Parsers) (s : Solo) : Option (Act × List Message) :=
  if s.pipe.Pending then some (.run allOk (ps.answers s.pipe), s.queue)
  else
    match s.queue with
    | [] => none
    | m :: queue => some (.send m, queue)

def Solo.next (lim : Limits) (cfg : Routes) (ps : Parsers) (s : Solo) : Solo :=
  match s.due ps with
  | none => s
  | some (a, queue) => { pipe := s.pipe.step lim cfg a, queue }

def Solo.rulings (lim : Limits) (cfg : Routes) (ps : Parsers) (s : Solo) : List Ruling :=
  match s.due ps with
  | none => []
  | some (a, _) => s.pipe.rulings lim cfg a

variable {p : Pipe} (lim cfg) (ps : Parsers) (queue : List Message)

/-- A run without failures is the next step. -/
theorem solo_run (hall : h.AllOk) (hp : p.Pending) :
    Solo.next lim cfg ps ⟨p, queue⟩ = ⟨p.step lim cfg (.run h (ps.answers p)), queue⟩ ∧
      Solo.rulings lim cfg ps ⟨p, queue⟩ = p.rulings lim cfg (.run h (ps.answers p)) := by
  have hsame := step_same lim cfg (ps.answers p) hall
    (show allOk.AllOk from fun _ ↦ rfl) p
  simp only [Solo.next, Solo.rulings, Solo.due, if_pos hp, Pipe.rulings, hsame, and_self]

theorem solo_send (hp : ¬ p.Pending) (m : Message) :
    Solo.next lim cfg ps ⟨p, m :: queue⟩ = ⟨p.step lim cfg (.send m), queue⟩ ∧
      Solo.rulings lim cfg ps ⟨p, m :: queue⟩ = p.rulings lim cfg (.send m) := by
  simp only [Solo.next, Solo.rulings, Solo.due, if_neg hp, and_self]

theorem solo_halted (hp : ¬ p.Pending) :
    Runs.Halted (Solo.next lim cfg ps) (Solo.rulings lim cfg ps) ⟨p, []⟩ := by
  simp only [Runs.Halted, Solo.next, Solo.rulings, Solo.due, if_neg hp, and_self]

end HyperFastPath.FastPath
