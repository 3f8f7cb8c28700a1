import HyperFastPath.EndToEnd.Handles
import HyperFastPath.Listener.Detection

/-!
# The protocol on both sides

`msg_verdict` takes a connection for HTTP/2 by a message it runs on, the listener by the first bytes
it gets.  The two see different parts of the client's stream.
-/

namespace HyperFastPath.EndToEnd

open Bytes Http2 FastPath Listener

variable {lim : Limits} {cfg : Routes} {p : Pipe} {h : Helpers} {ans : Answers}

/-! ## 1. Frames that leave no trace -/

theorem settle_append (as bs : List UInt8) :
    (placeOf (as ++ bs)).settle.1 = (walk (placeOf as).settle.1 bs).1.settle.1 := by
  rw [placeOf_append]
  by_cases hbs : bs = []
  · rw [hbs, walk_nil, walk_nil, settle_settle]
  · rw [walk_settle _ hbs]

theorem passed_eventsOf_append (as bs : List UInt8) :
    passed (eventsOf (as ++ bs)) =
      passed (eventsOf as) ++ passed (walk (placeOf as).settle.1 bs).2 := by
  rw [eventsOf_append, passed_append]
  by_cases hbs : bs = []
  · rw [hbs, walk_nil, walk_nil]
  · rw [walk_settle _ hbs, passed_append, passed_settle, List.nil_append]

/-- Behind `us` the scanner stands where it stands behind `cs`, and the same has passed. -/
structure Level (us cs : List UInt8) : Prop where
  place : (placeOf us).settle.1 = (placeOf cs).settle.1
  passed : passed (eventsOf us) = passed (eventsOf cs)

theorem Level.refl (bs : List UInt8) : Level bs bs := ⟨rfl, rfl⟩

variable {us cs : List UInt8}

theorem Level.append (hl : Level us cs) (bs : List UInt8) : Level (us ++ bs) (cs ++ bs) where
  place := by rw [settle_append, settle_append, hl.place]
  passed := by rw [passed_eventsOf_append, passed_eventsOf_append, hl.place, hl.passed]

/-- What the fast path puts where a header is due is all taken out again. -/
theorem Level.front (hl : Level us cs) (hat : (placeOf cs).settle.1 = .atHeader) {f : Front}
    (hblock : ∀ b ∈ f.block, b.length ≤ maxSyncFrame) : Level (us ++ f.bytes) cs := by
  obtain ⟨gs, hbytes, hacc, hevents⟩ := front_frames hblock
  obtain ⟨hset, hev⟩ := walk_frames hacc
  have hnone : Listener.passed (walk .atHeader (encodeAll gs)).2 = [] := by
    rw [hevents] at hev
    rw [← passed_front f, ← hev, passed_append, passed_settle, List.append_nil]
  constructor
  · rw [hbytes, settle_append, hl.place, hat, hset]
  · rw [hbytes, passed_eventsOf_append, hl.place, hat, hnone, List.append_nil, hl.passed]

/-! ## 2. Where the two part -/

/-- What of the client's stream was handed to user space. -/
def forwarded (p : Pipe) : List UInt8 := (p.log.filter (·.forwarded)).flatMap Disposal.bytes

theorem forwarded_concat {p' : Pipe} {d : Disposal} (hlog : p'.log = p.log ++ [d]) :
    forwarded p' = forwarded p ++ if d.forwarded then d.bytes else [] := by
  rw [forwarded, hlog, List.filter_append, List.flatMap_append, ← forwarded]
  cases hd : d.forwarded <;> simp [hd]

theorem forwarded_more {p' : Pipe} {bytes : List UInt8} (hlog : p'.log = p.log ++ [⟨true, bytes⟩]) :
    forwarded p' = forwarded p ++ bytes := forwarded_concat hlog

theorem forwarded_same {p' : Pipe} {bytes : List UInt8} (hlog : p'.log = p.log ++ [⟨false, bytes⟩]) :
    forwarded p' = forwarded p ++ [] := forwarded_concat hlog

/-- The preface and whole frames, none of which the scanner gives up on. -/
def WholeFrames (bytes : List UInt8) : Prop :=
  ∃ fs, (∀ f ∈ fs, Accepted f) ∧ bytes = Listener.clientStream fs

theorem WholeFrames.place {bytes : List UInt8} (hw : WholeFrames bytes) :
    (placeOf bytes).settle.1 = .atHeader := by
  obtain ⟨fs, hfs, rfl⟩ := hw
  exact placeOf_clientStream hfs

/-- `matched_h1` reports the preface exactly when the message starts with it. -/
def ReportsPreface (p : Pipe) : Act → Prop
  | .send _ => True
  | .run _ ans => p.Pending → p.conn.upgraded = none → 0 < ans.ret →
      (ans.preface ↔ preface <+: p.buf)

/-- A message is only taken for the preface if nothing has gone to user space ahead of it, or the
preface has. -/
def UpgradesFirst (p : Pipe) : Act → Prop
  | .send _ => True
  | .run _ ans => p.Pending → SeesPreface ans p.conn → p.toUser = [] ∨ preface <+: p.toUser

/-- Frames are only put ahead of a message where whole frames have gone to user space. -/
def PrependsBetween (cfg : Routes) (p : Pipe) : Act → Prop
  | .send _ => True
  | .run h ans => p.Pending → ¬ Serves cfg h ans p.conn p.buf → frontOf h ans p.conn ≠ .none →
      WholeFrames (forwarded p)

instance (p : Pipe) : (a : Act) → Decidable (ReportsPreface p a)
  | .send _ => isTrue trivial
  | .run _ _ => inferInstanceAs (Decidable (_ → _))

instance (p : Pipe) : (a : Act) → Decidable (UpgradesFirst p a)
  | .send _ => isTrue trivial
  | .run _ _ => inferInstanceAs (Decidable (_ → _))

/-- The scanner stands where the client's own bytes would have taken it, and a connection that is
taken for HTTP/2 has started with the preface on both sides. -/
structure Agreed (p : Pipe) : Prop where
  regular : p.Regular
  level : Level p.toUser (forwarded p)
  plain : p.conn.isH2 = false → p.toUser = forwarded p
  upgraded : p.conn.isH2 →
    (preface <+: p.toUser ∧ preface <+: forwarded p) ∨ (p.toUser = [] ∧ p.dropped)

theorem Agreed.new : Agreed .new where
  regular := .new
  level := .refl []
  plain _ := rfl
  upgraded hh2 := by cases hh2

/-! ## 3. Steps -/

section

variable {p' : Pipe}

/-- More of the client's stream goes to user space, with `front` ahead of it. -/
theorem Agreed.extend (hp : Agreed p) (hlive : p.dropped = false) (hregular : p'.Regular)
    (hh2 : p'.conn.isH2 = p.conn.isH2) {front bs : List UInt8}
    (hfront : Level (p.toUser ++ front) (forwarded p))
    (hplain : p.conn.isH2 = false → front = [])
    (htoUser : p'.toUser = p.toUser ++ (front ++ bs))
    (hforwarded : forwarded p' = forwarded p ++ bs) : Agreed p' where
  regular := hregular
  level := by
    rw [htoUser, hforwarded, ← List.append_assoc]
    exact hfront.append bs
  plain hno := by
    rw [hh2] at hno
    rw [htoUser, hforwarded, hplain hno, hp.plain hno, List.nil_append]
  upgraded hyes := by
    rw [hh2] at hyes
    rcases hp.upgraded hyes with ⟨huser, hclient⟩ | ⟨-, hdropped⟩
    · left
      rw [htoUser, hforwarded]
      exact ⟨huser.trans (List.prefix_append _ _), hclient.trans (List.prefix_append _ _)⟩
    · rw [hlive] at hdropped
      cases hdropped

/-- The preface goes to user space as the first there is, or behind another one. -/
theorem Agreed.upgrade (hp : Agreed p) (hplain : p.conn.isH2 = false) (hregular : p'.Regular)
    (hfirst : p.toUser = [] ∨ preface <+: p.toUser) (htoUser : p'.toUser = p.toUser ++ preface)
    (hforwarded : forwarded p' = forwarded p ++ preface) : Agreed p' := by
  have hsame : p'.toUser = forwarded p' := by rw [htoUser, hforwarded, hp.plain hplain]
  have hstarts : preface <+: p'.toUser := by
    rw [htoUser]
    rcases hfirst with hnone | hthere
    · rw [hnone, List.nil_append]
    · exact hthere.trans (List.prefix_append _ _)
  exact ⟨hregular, by rw [hsame]; exact .refl _, fun _ ↦ hsame,
    fun _ ↦ .inl ⟨hstarts, hsame ▸ hstarts⟩⟩

end

theorem Agreed.send (hp : Agreed p) (m : Message) : Agreed (p.step lim cfg (.send m)) := by
  by_cases hacc : p.Accepts
  swap
  · rwa [step_send_idle hacc]
  have hregular := @step_regular lim cfg p (.send m) hp.regular
  have hconn := (@step_send_conn lim cfg p m hacc).1
  have hlog : (p.step lim cfg (.send m)).log =
      p.log ++ [⟨p.dir = .ingress, m.1.take (min p.left m.1.length)⟩] := by
    simp only [Pipe.step, if_pos hacc]
  -- the last verdict may still cover some of the message, and goes on forwarding it if it did
  obtain ⟨bs, htoUser, hforwarded⟩ : ∃ bs, (p.step lim cfg (.send m)).toUser = p.toUser ++ bs ∧
      forwarded (p.step lim cfg (.send m)) = forwarded p ++ bs := by
    rw [forwarded_concat hlog]
    simp only [Pipe.step, if_pos hacc]
    cases hdir : p.dir with
    | ingress => exact ⟨_, rfl, rfl⟩
    | egress => exact ⟨[], (List.append_nil _).symm, rfl⟩
  have hlevel : Level (p.toUser ++ []) (forwarded p) := by
    rw [List.append_nil]
    exact hp.level
  exact hp.extend hacc.1 hregular (by rw [hconn]) hlevel (fun _ ↦ rfl) htoUser hforwarded

theorem Agreed.run (hp : Agreed p) (hreports : ReportsPreface p (.run h ans))
    (hfirst : UpgradesFirst p (.run h ans)) (hbetween : PrependsBetween cfg p (.run h ans))
    (hfill : FillsReports p (.run h ans)) : Agreed (p.step lim cfg (.run h ans)) := by
  by_cases hpend : p.Pending
  swap
  · rwa [step_run_idle hpend]
  have hregular := @step_regular lim cfg p (.run h ans) hp.regular
  have hrun := run_settles lim cfg h ans hpend hp.regular.bounded
  have hlevel : Level (p.toUser ++ []) (forwarded p) := by
    rw [List.append_nil]
    exact hp.level
  have hsame : p.toUser = p.toUser ++ ([] ++ []) := by rw [List.append_nil, List.append_nil]
  have hkept : forwarded p = forwarded p ++ [] := (List.append_nil _).symm
  generalize p.step lim cfg (.run h ans) = p' at hrun hregular
  cases hrun with
  | dropped =>
    by_cases hnew : SeesPreface ans p.conn
    · -- nothing of the message has come through, and nothing will
      have hplain : p.conn.isH2 = false := by rw [Conn.isH2, hnew.1]; rfl
      refine ⟨hregular, hp.level, fun _ ↦ hp.plain hplain, fun _ ↦ ?_⟩
      rcases hfirst hpend hnew with hnone | hthere
      · exact .inr ⟨hnone, rfl⟩
      · exact .inl ⟨hthere, hp.plain hplain ▸ hthere⟩
    · exact hp.extend hpend.1 hregular (msgVerdict_isH2 hnew) hlevel (fun _ ↦ rfl) hsame hkept
  | upgraded hnew =>
    have hstarts : preface <+: p.buf := (hreports hpend hnew.1 hnew.2.1).mp hnew.2.2
    have htake : p.buf.take 24 = preface := (List.prefix_iff_eq_take.mp hstarts).symm
    refine hp.upgrade (by rw [Conn.isH2, hnew.1]; rfl) hregular (hfirst hpend hnew) ?_ ?_
    · rw [htake]
    · rw [← htake]
      exact forwarded_more rfl
  | answered hnew hserves =>
    exact hp.extend hpend.1 hregular (parse_conn h ans p.conn).1 hlevel (fun _ ↦ rfl) hsame
      (forwarded_same rfl)
  | forwarded _ _ hnew hdecl hsync =>
    have hfront : Level (p.toUser ++ (frontOf h ans p.conn).bytes) (forwarded p) := by
      by_cases hnone : frontOf h ans p.conn = .none
      · rw [hnone]
        exact hlevel
      · exact hp.level.front (hbetween hpend hdecl.not_serves hnone).place (frontOf_block_le hsync)
    refine hp.extend hpend.1 hregular (trackedConn_keeps h ans p.conn p.buf).2.1 hfront
      (fun hplain ↦ ?_) ?_ (forwarded_more rfl)
    · rw [frontOf_plain hplain]
      rfl
    · show p.toUser ++ (runFront h ans p.conn ++ p.buf) = _
      rw [runFront_eq hfill]

theorem run_agreed {acts : List Act}
    (hreports : Runs.Along (Pipe.step lim cfg) ReportsPreface .new acts)
    (hacts : Runs.Along (Pipe.step lim cfg)
      (fun p a ↦ UpgradesFirst p a ∧ PrependsBetween cfg p a ∧ FillsReports p a) .new acts) :
    Agreed (Runs.exec (Pipe.step lim cfg) .new acts) := by
  have hboth := (Runs.Along.and _ _).mpr ⟨hreports, hacts⟩
  refine hboth.preserves (fun p a hp ⟨hreports, hfirst, hbetween, hfill⟩ ↦ ?_) .new
  cases a with
  | send m => exact hp.send m
  | run h ans => exact hp.run hreports hfirst hbetween hfill

/-! ## 4. What the listener makes of it -/

/-- A scanner that has given up has done so in what it was given. -/
theorem givesUp_of_blind {reads : List SocketRead} {r : Reader} (hr : r.Follows reads)
    {whole : List UInt8} (hwhole : streamOf reads <+: whole)
    (hstarts : whole = [] ∨ preface <+: whole) (hblind : r.stream.scanner.state = .blind) :
    GivesUp whole := by
  obtain ⟨es, htracks⟩ := hr
  have hleads : Leads Scanner.new.state (streamOf reads) .blind
      (eventsOf (streamOf reads)) := by
    refine .of_walk (Prod.ext ?_ rfl)
    rw [htracks.run, hblind, walk_blind]
  rcases hleads.cases with ⟨m, hm, -⟩ | ⟨-, hdiv | hgives⟩ | ⟨hin, -⟩
  · cases hm
  · rcases hstarts with rfl | hstarts
    · exact absurd (hwhole.trans List.nil_prefix) hdiv.1
    · exact absurd hdiv (not_diverges hwhole hstarts)
  · obtain ⟨rest, hrest⟩ := hwhole
    exact hrest ▸ hgives.append rest
  · exact hin.elim

/-- The fast path and the listener are of one mind about a connection. -/
structure OneProtocol (p : Pipe) : Prop where
  started : p.conn.isH2 → preface <+: p.toUser ∨ (p.toUser = [] ∧ p.dropped)
  followed : p.conn.isH2 → p.toUser ≠ [] →
    ((placeOf p.toUser).InFrames ↔ ¬ GivesUp (forwarded p))
  told : p.conn.isH2 → ¬ GivesUp (forwarded p) → ∀ reads, streamOf reads <+: p.toUser →
    (preface <+: streamOf reads → ∀ q, (BeeperStream.new reads).protocol.1 = some q → q = .http2) ∧
      ∀ ops, (Runs.exec Reader.step (Reader.start reads) ops).stream.scanner.state ≠ .blind
  filtered : passed (eventsOf p.toUser) = passed (eventsOf (forwarded p))
  handed : ∀ reads, streamOf reads <+: p.toUser → ∀ ops,
    (Runs.exec Reader.step (Reader.start reads) ops).handed <+: passed (eventsOf (forwarded p))

theorem Agreed.inFrames_iff (hp : Agreed p) (hh2 : p.conn.isH2) (hne : p.toUser ≠ []) :
    (placeOf p.toUser).InFrames ↔ ¬ GivesUp (forwarded p) := by
  obtain ⟨-, hclient⟩ := (hp.upgraded hh2).resolve_right fun hnone ↦ hne hnone.1
  rw [← Listener.inFrames_iff hclient, ← settle_inFrames, hp.level.place, settle_inFrames]
  rfl

theorem Agreed.not_givesUp (hp : Agreed p) (hh2 : p.conn.isH2) (hno : ¬ GivesUp (forwarded p)) :
    ¬ GivesUp p.toUser := by
  intro hgives
  have hne : p.toUser ≠ [] := fun hnil ↦ by
    have hlen := hgives.preface.length_le
    rw [hnil] at hlen
    cases hlen
  have hin := (hp.inFrames_iff hh2 hne).mpr hno
  exact (Listener.inFrames_iff hgives.preface).mp hin hgives

theorem Agreed.oneProtocol (hp : Agreed p) : OneProtocol p where
  started hh2 := (hp.upgraded hh2).imp_left And.left
  followed := hp.inFrames_iff
  told hh2 hno reads hreads := by
    have hno' := hp.not_givesUp hh2 hno
    refine ⟨fun hstarts q hq ↦ ?_, fun ops hblind ↦ ?_⟩
    · have hshort : ¬ GivesUp (streamOf reads) := fun hgives ↦ by
        obtain ⟨rest, hrest⟩ := hreads
        exact hno' (hrest ▸ hgives.append rest)
      rw [protocol_known hq hshort, protocolOf, if_pos hstarts]
    · refine hno' (givesUp_of_blind (exec_follows reads ops) hreads ?_ hblind)
      exact (hp.upgraded hh2).symm.imp And.left And.left
  filtered := hp.level.passed
  handed reads hreads ops := by
    obtain ⟨es, htracks⟩ := exec_follows reads ops
    obtain ⟨rest, hrest⟩ := Reader.Follows.eventsOf_eq htracks
    obtain ⟨more, hmore⟩ := isPrefix_events hreads
    rw [← hp.level.passed, ← hmore, hrest, List.append_assoc, passed_append, htracks.handed,
      List.append_assoc]
    exact List.prefix_append _ _

/-- Where a message is only taken for the preface if that is the first to reach user space, and
frames are only put ahead of a message between two that have gone there, the listener tells the
protocol the fast path has told, and hands on none of its frames. -/
theorem protocol_agreed {acts : List Act}
    (hreports : Runs.Along (Pipe.step lim cfg) ReportsPreface .new acts)
    (hacts : Runs.Along (Pipe.step lim cfg)
      (fun p a ↦ UpgradesFirst p a ∧ PrependsBetween cfg p a ∧ FillsReports p a) .new acts) :
    OneProtocol (Runs.exec (Pipe.step lim cfg) .new acts) :=
  (run_agreed hreports hacts).oneProtocol

/-- A request is answered, and the frames ahead of the next one come behind the client's ack. -/
theorem protocol_agreed_exchange :
    OneProtocol (Runs.exec (Pipe.step exampleLimits exampleRoutes) .new exchange) := by
  refine protocol_agreed (by decide +kernel) ?_
  refine (Runs.Along.and _ _).mpr ⟨by decide +kernel, (Runs.Along.and _ _).mpr ⟨?_, ?_⟩⟩
  · refine ⟨trivial, fun _ _ hfront ↦ absurd ?_ hfront, trivial, fun _ _ hfront ↦ absurd ?_ hfront,
      trivial, fun _ hdecl ↦ absurd ?_ hdecl, trivial, fun _ _ _ ↦ ⟨[ackFrame], ?_, ?_⟩, trivial⟩
    all_goals decide +kernel
  · decide +kernel

open Http1 in
/-- A request for a page that is not among the routes. -/
def otherRequest : List Act :=
  [.send ⟨ascii "GET /b HTTP/1.1\r\n\r\n", by decide +kernel⟩,
    .run allOk (parsedHead 19 none (some (ascii "/b")))]

open Http1 in
/-- What user space gets of it, and of an HTTP/2 connection behind it. -/
def otherReads : List SocketRead :=
  [.data ⟨ascii "GET /b HTTP/1.1\r\n\r\n", by decide +kernel⟩,
    .data ⟨preface ++ [0, 0, 0, 4, 1, 0, 0, 0, 0] ++
      (Front.bytes ⟨some 1, some [0x40, 1, 0x61, 1, 0x62]⟩ ++ [0, 0, 1, 1, 5, 0, 0, 0, 3, 0x83]),
      by decide +kernel⟩]

/-- Behind a request that was forwarded the preface still upgrades the connection, and what is put
ahead of the messages that follow is handed on. -/
theorem upgraded_behind :
    let p := Runs.exec (Pipe.step exampleLimits exampleRoutes) .new (otherRequest ++ exchange)
    Runs.Along (Pipe.step exampleLimits exampleRoutes) ReportsPreface .new
        (otherRequest ++ exchange) ∧
      p.conn.isH2 ∧ p.dropped = false ∧ p.toUser ≠ [] ∧ ¬ preface <+: p.toUser ∧
      streamOf otherReads = p.toUser ∧
      (BeeperStream.new otherReads).protocol.1 = some .http1 ∧
      (Runs.exec Reader.step (Reader.start otherReads) [.pollRead 128, .pollRead 128]).handed =
        p.toUser := by
  decide +kernel

end HyperFastPath.EndToEnd
