import HyperFastPath.EndToEnd.Handles
import HyperFastPath.Server.ServeH2

/-!
# Reports take effect first

A report is no barrier of its own: what lies behind one waits for it only because an update follows
it.
-/

namespace HyperFastPath.EndToEnd

open Bytes Http2 FastPath Listener Server

variable {lim : Limits} {cfg : Routes} {fs : List Frame} {p : Pipe} {a : Act}

/-! ## 1. Reports and updates -/

/-- A message that is preceded by a report finds the connection's table stale. -/
def ReportsStale (cfg : Routes) (p : Pipe) : Act → Prop
  | .send _ => True
  | .run h ans => p.Pending → ¬ Serves cfg h ans p.conn p.buf →
      h.Reports (runDue h ans p.conn) → p.conn.isDirty

instance (cfg : Routes) (p : Pipe) : (a : Act) → Decidable (ReportsStale cfg p a)
  | .send _ => isTrue trivial
  | .run _ _ => inferInstanceAs (Decidable (_ → _ → _ → _))

/-- On a connection whose table is stale a report is followed by an update. -/
theorem frontOf_stale {h : Helpers} {ans : Answers} {conn : Conn}
    (hstale : h.Reports (runDue h ans conn) → conn.isDirty)
    (hreport : (frontOf h ans conn).report ≠ none) : (frontOf h ans conn).block ≠ none := by
  simp only [frontOf] at hreport ⊢
  have hr : h.Reports (runDue h ans conn) := by
    by_contra hno
    exact hreport (if_neg hno)
  obtain ⟨sent, hdue⟩ := Option.isSome_iff_exists.mp hr.1
  obtain ⟨hh2, hlen, -⟩ := runDue_some hdue
  have hstale : (parse h ans conn).dtStale := by
    rw [(parse_h2_frame h hh2 (parse_h2_ret hh2 hlen)).1]
    exact hstale hr
  rw [if_pos ⟨(parse_conn h ans conn).1.trans hh2, hlen, hstale⟩]
  exact Option.some_ne_none _

/-- Every report is followed by an update. -/
def Followed (ss : List Stretch) : Prop :=
  ∀ s ∈ ss, s.front.report ≠ none → s.front.block ≠ none

theorem disposes_followed (hstale : ReportsStale cfg p a) : Followed (p.disposes lim cfg a) := by
  intro s hs hreport
  cases a with
  | send m =>
    rw [Pipe.disposes] at hs
    split at hs
    · cases List.mem_singleton.mp hs
      exact absurd rfl hreport
    · cases hs
  | run h ans =>
    rw [Pipe.disposes] at hs
    split at hs
    swap
    · cases hs
    rename_i hp
    cases List.mem_singleton.mp hs
    unfold runStretch at hreport ⊢
    split
    · rw [if_pos ‹_›] at hreport
      exact absurd rfl hreport
    rename_i hnew
    rw [if_neg hnew] at hreport
    split
    · rw [if_pos ‹_›] at hreport
      exact absurd rfl hreport
    rename_i hserves
    rw [if_neg hserves] at hreport
    exact frontOf_stale (hstale hp.1 hserves) hreport

theorem run_followed {acts : List Act}
    (hstale : Runs.Along (Pipe.step lim cfg) (ReportsStale cfg) .new acts) :
    Followed (stretches lim cfg .new acts) := by
  refine hstale.preserves_record (J := fun _ ss ↦ Followed ss) (fun p a ss hss ha s hs ↦ ?_)
    fun _ hs ↦ by cases hs
  rcases List.mem_append.mp hs with hs | hs
  · exact hss s hs
  · exact disposes_followed ha s hs

/-! ## 2. When the table is stale -/

/-- What is still to be reported makes the table stale. -/
def Owes (p : Pipe) : Prop := ∀ fc ∈ p.conn.flow, 0 < fc.unreported → p.conn.isDirty

/-- An answer is recorded, and the table is not handed over without the report that is due. -/
def KeepsTogether (cfg : Routes) (p : Pipe) : Act → Prop
  | .send _ => True
  | .run h ans => p.Pending →
      (Serves cfg h ans p.conn p.buf → h.ok .setDirty) ∧
      (¬ Serves cfg h ans p.conn p.buf → (frontOf h ans p.conn).block ≠ none →
        (∃ fc ∈ p.conn.flow, 0 < fc.unreported) → (frontOf h ans p.conn).report ≠ none)

theorem forwarded_owes {h : Helpers} {ans : Answers} {conn : Conn} {bytes : List UInt8}
    (howes : ∀ fc ∈ conn.flow, 0 < fc.unreported → conn.isDirty)
    (htogether : (frontOf h ans conn).block ≠ none → (∃ fc ∈ conn.flow, 0 < fc.unreported) →
      (frontOf h ans conn).report ≠ none) :
    ∀ fc ∈ (forwardedConn h ans conn bytes).flow, 0 < fc.unreported →
      (forwardedConn h ans conn bytes).isDirty := by
  intro fc hfc hpos
  obtain ⟨-, -, hdirty, -, hunreported⟩ := trackedConn_keeps h ans conn bytes
  simp only [forwardedConn] at hfc
  split at hfc
  · -- what was reported is not owed any more
    obtain ⟨fc₀, -, rfl⟩ := Option.mem_map.mp hfc
    exact absurd hpos (by simp)
  rename_i hreports
  obtain ⟨fc₀, hfc₀, hsame⟩ : ∃ fc₀ ∈ conn.flow, fc₀.unreported = fc.unreported := by
    have hmap := congrArg (fc.unreported ∈ ·) hunreported
    simp only [Option.mem_map] at hmap
    exact hmap.mp ⟨fc, hfc, rfl⟩
  rw [← hsame] at hpos
  have hkept : syncPrefix (parse h ans conn) ans.table = [] := by
    by_contra hne
    have hc := syncPrefix_ne_nil_iff.mp hne
    have hblock : (frontOf h ans conn).block ≠ none := by
      simp only [frontOf, if_pos hc]
      exact Option.some_ne_none _
    have hreport := htogether hblock ⟨fc₀, hfc₀, hpos⟩
    simp only [frontOf, if_neg hreports] at hreport
    exact hreport rfl
  have hsame : (forwardedConn h ans conn bytes).dirty = conn.dirty := by
    simp only [forwardedConn, if_pos hkept, hdirty]
  rw [Conn.isDirty, hsame]
  exact howes fc₀ hfc₀ hpos

theorem step_owes (hreg : p.Regular) (howes : p.dropped = false → Owes p)
    (htogether : KeepsTogether cfg p a) :
    (p.step lim cfg a).dropped = false → Owes (p.step lim cfg a) := by
  cases a with
  | send m =>
    by_cases hacc : p.Accepts
    · rw [Owes, (step_send_conn lim cfg hacc).1]
      exact fun _ ↦ howes hacc.1
    · rw [step_send_idle hacc]
      exact howes
  | run h ans =>
    by_cases hp : p.Pending
    swap
    · rw [step_run_idle hp]
      exact howes
    have howes := howes hp.1
    obtain ⟨hset, hkeep⟩ := htogether hp
    have hrun := run_settles lim cfg h ans hp hreg.bounded
    generalize p.step lim cfg (.run h ans) = p' at hrun
    cases hrun with
    | dropped => exact fun hd ↦ by cases hd
    | upgraded =>
      intro _ fc hfc hpos
      simp only [Conn.upgrade, update] at hfc
      split at hfc
      · cases hfc
        exact absurd hpos (by decide)
      · exact howes fc hfc hpos
    | @answered i hnew hserves =>
      intro _ fc hfc hpos
      simp only [answeredConn] at hfc
      have hdirty : (answeredConn h ans p.conn (cfg.routes i)).dirty =
          if p.conn.isH2 then some 1 else p.conn.dirty := by
        simp only [answeredConn, update, hset hserves, if_true]
      show (answeredConn h ans p.conn (cfg.routes i)).isDirty
      rw [Conn.isDirty, hdirty]
      split
      · rfl
      · rename_i hplain
        rw [parse_h1_sid h ans (eq_false_of_ne_true hplain), Route.spent, if_neg (by simp)] at hfc
        exact howes fc hfc hpos
    | forwarded _ _ _ hdecl =>
      exact fun _ ↦ forwarded_owes howes (hkeep hdecl.not_serves)

/-- As long as answers are recorded and the report that is due goes along with every table that is
handed over, no report ever goes alone. -/
theorem reportsStale_of_together {acts : List Act}
    (htogether : Runs.Along (Pipe.step lim cfg) (KeepsTogether cfg) .new acts) :
    Runs.Along (Pipe.step lim cfg) (ReportsStale cfg) .new acts := by
  refine htogether.of_invariant (I := fun p ↦ p.Regular ∧ (p.dropped = false → Owes p))
    (fun p a ⟨hreg, howes⟩ ha ↦ ⟨step_regular lim cfg hreg, step_owes hreg howes ha⟩) ?_
    ⟨.new, fun _ _ hfc ↦ by cases hfc⟩
  rintro p a ⟨-, howes⟩ -
  cases a with
  | send m => trivial
  | run h ans =>
    intro hp _ hreports
    obtain ⟨sent, hdue⟩ := Option.isSome_iff_exists.mp hreports.1
    obtain ⟨-, -, fc, hflow, rfl, hpos⟩ := runDue_some hdue
    exact howes hp.1 fc hflow hpos

/-! ## 3. What lies behind a report -/

/-- What the scanner makes of the frames ahead of a message: the report, and the update right behind
it. -/
theorem events_report {xs ys : List Stretch} {s : Stretch} {sent : UInt32} {block : List UInt8}
    (hanswer : s.answer = none) (hs : Fits fs xs s) (hreport : s.front.report = some sent)
    (hblock : s.front.block = some block) :
    ∃ es rest, eventsOf (xs.flatMap Stretch.toUser ++ fcSyncFrame sent) = es ++ [.flow sent] ∧
      passed es = passed (eventsOf (xs.flatMap Stretch.toUser)) ∧
      eventsOf ((xs ++ s :: ys).flatMap Stretch.toUser) =
        es ++ [.flow sent] ++ .sync block :: rest := by
  have hfront : s.front ≠ .none := fun hnone ↦ by
    rw [hnone] at hreport
    cases hreport
  have hat := hs.front hfront
  have hwalk := walk_stretch hanswer hs.ne hs.block hs.front
  have hframe : walk .atHeader (fcSyncFrame sent) = (.atHeader, [.flow sent]) := by
    have hbe : ofBe (toBe 4 sent.toNat) = sent.toNat := ofBe_toBe sent.toNat_lt
    rw [← reportFrame_encode, walk_encode_flow rfl (toBe_length 4 _)]
    simp only [reportFrame, hbe, UInt32.ofNat_toNat]
  have hevents : frontEvents s.front = [.flow sent, .sync block] := by
    rw [frontEvents, hreport, hblock]
    rfl
  have hne : fcSyncFrame sent ≠ [] := List.cons_ne_nil _ _
  have hlist : (xs ++ s :: ys).flatMap Stretch.toUser =
      xs.flatMap Stretch.toUser ++ (s.toUser ++ ys.flatMap Stretch.toUser) := by
    rw [List.flatMap_append, List.flatMap_cons]
  rw [hlist]
  generalize xs.flatMap Stretch.toUser = pre at hat hwalk ⊢
  generalize walk (placeOf pre).settle.1 s.bytes = own at hwalk
  rw [eventsOf_append, walk_settle _ hne, hat, hframe, eventsOf_append, walk_append, hwalk, hevents]
  refine ⟨eventsOf pre ++ (placeOf pre).settle.2,
    own.2 ++ (walk own.1 (ys.flatMap Stretch.toUser)).2, ?_, ?_, ?_⟩
  · rw [List.append_assoc]
  · rw [passed_append, passed_settle, List.append_nil]
  · simp only [List.append_assoc, List.cons_append, List.nil_append]

/-- As long as no report goes ahead of a message without the table, the codec is only handed what
lies behind one with its count consumed. -/
theorem reports_first (hfs : ∀ f ∈ fs, Accepted f) {acts : List Act}
    (hclient : Runs.Along (Pipe.step lim cfg) (SendsFrom (Listener.clientStream fs)) .new acts)
    (hacts : Runs.Along (Pipe.step lim cfg)
      (fun p a ↦ ActsBetween fs cfg p a ∧ FillsReports p a ∧ ReportsStale cfg p a) .new acts)
    {stream : List SocketRead}
    (hstream : streamOf stream <+: (Runs.exec (Pipe.step lim cfg) .new acts).toUser)
    (reads : List Nat) (turns : List Turn) {xs ys : List Stretch} {s : Stretch} {sent : UInt32}
    (hss : stretches lim cfg .new acts = xs ++ s :: ys) (hreport : s.front.report = some sent) :
    let c := Runs.exec ServeH2.poll (.start stream reads) turns
    (passed (eventsOf (xs.flatMap Stretch.toUser))).length < c.holder.handed.length →
    ∃ es rest, eventsOf (streamOf stream) = es ++ rest ∧ c.consumed.sum = reported es ∧
      ∃ es', eventsOf (xs.flatMap Stretch.toUser ++ fcSyncFrame sent) = es' ++ [.flow sent] ∧
        es' ++ [.flow sent] <+: es := by
  intro c hbehind
  have hdealt := run_dealt hfs hclient (hacts.imp fun _ _ ⟨hact, hfill, _⟩ ↦ ⟨hact, hfill⟩)
  have hfits := hdealt.fits xs s ys hss
  have hfollowed := run_followed (hacts.imp fun _ _ ⟨_, _, hstale⟩ ↦ hstale) s (by simp [hss])
    (by simp [hreport])
  obtain ⟨block, hblock⟩ := Option.ne_none_iff_exists'.mp hfollowed
  have hanswer : s.answer = none := by
    by_contra hne
    rw [if_neg hne] at hfits
    rw [hfits] at hreport
    cases hreport
  rw [if_pos hanswer] at hfits
  obtain ⟨es, rest, hframe, hpassed, hevents⟩ :=
    @events_report fs xs ys s sent block hanswer hfits hreport hblock
  rw [← hss, ← hdealt.toUser] at hevents
  have hread := isPrefix_events hstream
  have hfront : es ++ [.flow sent] ++ [.sync block] <+:
      eventsOf (Runs.exec (Pipe.step lim cfg) .new acts).toUser :=
    ⟨rest, by rw [hevents, List.append_assoc]; rfl⟩
  -- what has been read so far reaches past the update, or there would be nothing behind it yet
  have hpast : es ++ [.flow sent] ++ [.sync block] <+: eventsOf (streamOf stream) := by
    rcases Nat.le_total (es ++ [Event.flow sent] ++ [Event.sync block]).length
      (eventsOf (streamOf stream)).length with hle | hle
    · exact List.prefix_of_prefix_length_le hfront hread hle
    · have hshort := (List.prefix_of_prefix_length_le hread hfront hle).filterMap Event.byte?
      have hlen := hshort.length_le
      have hhanded := (serveH2_handed stream reads turns).length_le
      change (passed _).length ≤ (passed (es ++ [Event.flow sent] ++ [Event.sync block])).length
        at hlen
      rw [passed_append, passed_append, passed_flow, passed_sync, List.append_nil, List.append_nil,
        hpassed] at hlen
      exact absurd (hhanded.trans hlen) (Nat.not_le.mpr hbehind)
  obtain ⟨rest', hpast⟩ := hpast
  have hread' : eventsOf (streamOf stream) = es ++ [.flow sent] ++ .sync block :: rest' := by
    rw [← hpast, List.append_assoc]
    rfl
  obtain ⟨es', hes', ⟨rest'', hrest⟩, hconsumed⟩ := serveH2_consumes stream reads turns hread'
    (by rwa [passed_append, passed_flow, List.append_nil, hpassed])
  exact ⟨es', rest'', hrest.symm, hconsumed, es, hframe, (List.prefix_append _ _).trans hes'⟩

/-- The two reads of an exchange, as the loop serves it. -/
theorem reports_first_exchange :
    let c := Runs.exec ServeH2.poll (.start exchangeReads [24])
      [⟨true, fun _ ↦ true, [64, 64]⟩, ⟨true, fun _ ↦ true, [64]⟩]
    ∃ es rest, eventsOf (streamOf exchangeReads) = es ++ rest ∧ c.consumed.sum = reported es ∧
      ∃ es', eventsOf ((preface ++ ackFrame.encode) ++ fcSyncFrame 1) = es' ++ [.flow 1] ∧
        es' ++ [.flow 1] <+: es :=
  @reports_first exampleLimits exampleRoutes exchangeFrames (by decide) exchange (by decide +kernel)
    (by decide +kernel) exchangeReads (by decide +kernel) [24]
    [⟨true, fun _ ↦ true, [64, 64]⟩, ⟨true, fun _ ↦ true, [64]⟩]
    [⟨.none, preface, none⟩, ⟨.none, ackFrame.encode, none⟩,
      ⟨.none, [0, 0, 1, 1, 5, 0, 0, 0, 1, 0x82],
        some [0, 0, 1, 1, 4, 0, 0, 0, 1, 0x88, 0, 0, 1, 0, 1, 0, 0, 0, 1, 0x21]⟩] []
    ⟨⟨some 1, some [0x40, 1, 0x61, 1, 0x62]⟩, [0, 0, 1, 1, 5, 0, 0, 0, 3, 0x83], none⟩ 1
    (by decide +kernel) rfl (by decide +kernel)

/-- The table goes ahead of a message and the report that is due fails, so it goes ahead of the next
one alone. -/
def reportBehind : List Act :=
  handshake ++ answeredRequest ⟨[0x61], false, [0x62], false⟩ ++
    [.send (laterRequest 3),
      .run { allOk with ok := fun c ↦ c ≠ .pushFcSync }
        (parsedFrame 10 ⟨3, 1, 5, 1⟩ none [⟨[0x61], false, [0x62], false⟩]),
      .send (laterRequest 5),
      .run allOk (parsedFrame 10 ⟨5, 1, 5, 1⟩ none [⟨[0x61], false, [0x62], false⟩])]

def reportBehindReads : List SocketRead :=
  [.data ⟨preface ++ ackFrame.encode ++ [0, 0, 5, 0xFB, 0, 0, 0, 0, 0, 0x40, 1, 0x61, 1, 0x62] ++
      [0, 0, 1, 1, 5, 0, 0, 0, 3, 0x83], by decide⟩,
    .data ⟨fcSyncFrame 1 ++ [0, 0, 1, 1, 5, 0, 0, 0, 5, 0x83], by decide⟩]

/-- The codec is handed the whole request behind the report before its count is taken. -/
theorem report_late :
    let fs := exchangeFrames ++ [⟨headersKind, 5, 5, [0x83], by decide⟩]
    let p := Runs.exec (Pipe.step exampleLimits exampleRoutes) .new reportBehind
    let ss := stretches exampleLimits exampleRoutes .new reportBehind
    let c := Runs.exec ServeH2.poll (.start reportBehindReads [24])
      [⟨true, fun _ ↦ true, [64, 64]⟩, ⟨true, fun _ ↦ true, [64]⟩]
    Runs.Along (Pipe.step exampleLimits exampleRoutes)
        (fun p a ↦ SendsFrom (Listener.clientStream fs) p a ∧
          ActsBetween fs exampleRoutes p a ∧ FillsReports p a) .new reportBehind ∧
      streamOf reportBehindReads = p.toUser ∧
      (ss.getLast?.bind (·.front.report)) = some 1 ∧
      c.holder.handed = passed (eventsOf p.toUser) ∧ c.consumed = [] := by
  decide +kernel

end HyperFastPath.EndToEnd
