import HyperFastPath.FastPath.Attach
import HyperFastPath.FastPath.Conserved
import HyperFastPath.FastPath.FlowTracking

/-!
# Answering within the client's windows

What is answered over a whole run, against what the client's windows allow and what is reported to
user space.
-/

namespace HyperFastPath.FastPath

open Bytes Http2

/-! ## 1. How much an answer carries -/

/-- How many bytes of the frames in `bytes` count against the flow control. -/
def dataBytes (bytes : List UInt8) : Nat :=
  (((wholeFrames bytes).filter (·.kind = 0x00)).map (·.payload.length)).sum

variable {huffman : List UInt8 → List UInt8} {routes : List (List UInt8 × File)} {dummies : Nat}
  {a : Attached} {file : File} {bytes : List UInt8}

/-- What starts like an HTTP/1.1 response is not a frame unless it is much longer than one. -/
theorem plain_dataBytes (h : renderResponse file = .ok bytes) (hlen : bytes.length ≤ maxRouteBody) :
    dataBytes bytes = 0 := by
  unfold renderResponse at h
  cases hread : file.read with
  | error e =>
    rw [hread] at h
    cases h
  | ok body =>
  simp only [hread, Except.map, Except.ok.injEq] at h
  rw [← h, asBytes_append, asBytes_append, asBytes_append, asBytes_append, List.append_assoc,
    List.append_assoc, List.append_assoc, List.append_assoc]
  rw [← h, asBytes_append, asBytes_append, asBytes_append, asBytes_append, List.append_assoc,
    List.append_assoc, List.append_assoc, List.append_assoc] at hlen
  generalize asBytes (toString body.length) ++ _ = rest at hlen ⊢
  have hhttp : (asBytes "HTTP/1.1 200 OK\r\nContent-Length: ").take 3 = [0x48, 0x54, 0x54] := by
    decide +kernel
  have hlong : 3 ≤ (asBytes "HTTP/1.1 200 OK\r\nContent-Length: ").length := by
    decide +kernel
  generalize asBytes "HTTP/1.1 200 OK\r\nContent-Length: " = status at hlen hhttp hlong ⊢
  have hnone : firstFrame (status ++ rest) = none := by
    refine if_neg fun hwhole ↦ ?_
    have hbig : ofBe [0x48, 0x54, 0x54] = 4740180 := by decide
    rw [List.take_append_of_le_length hlong, hhttp] at hwhole
    simp only [maxRouteBody, maxChunks, chunk] at hlen
    omega
  rw [dataBytes, wholeFrames_none hnone]
  rfl

theorem response_dataBytes (ha : a.Of huffman routes) {i : Fin maxRoutes} {sid : UInt32}
    (hlen : (if sid ≠ 0 then (a.cfg.routes i).h2BodyLen else (a.cfg.routes i).bodyLen) ≠ 0) :
    dataBytes ((a.cfg.routes i).response a.cfg.arena sid) =
      if sid ≠ 0 then (a.cfg.routes i).h2DataLen else 0 := by
  by_cases hsid : sid ≠ 0
  · rw [if_pos hsid] at hlen ⊢
    obtain ⟨head, data, hresponse, hhead, hdata, -, hsum⟩ := response_frames ha hlen hsid
    have hfilter : (head :: data).filter (·.kind = 0x00) = data := by
      rw [List.filter_cons_of_neg (by rw [hhead]; decide), List.filter_eq_self]
      exact fun f hf ↦ decide_eq_true (hdata f hf)
    rw [dataBytes, hresponse, wholeFrames_whole, hfilter, hsum]
  · rw [if_neg hsid] at hlen ⊢
    rcases routes_cases a i with hempty | ⟨r, hr, hroute⟩
    · rw [hempty] at hlen
      exact absurd rfl hlen
    obtain ⟨⟨path, file⟩, -, hfrom⟩ := ha.prepared r hr
    have hrenders := response_renders ha hr hfrom sid fun hne ↦ absurd hne hsid
    rw [RendersAs, if_pos (not_not.mp hsid), hfrom.body] at hrenders
    rw [hroute, ← Except.ok.inj hrenders]
    exact plain_dataBytes hfrom.body hfrom.body_fits

/-! ## 2. What is answered and what opens the window -/

variable {lim : Limits} {cfg : Routes} {p : Pipe} {h : Helpers} {ans : Answers}

/-- How much DATA a step answers with. -/
def Pipe.answersData (cfg : Routes) (p : Pipe) : Act → Nat
  | .send _ => 0
  | .run h ans =>
    if p.Pending then (runStretch cfg h ans p.conn p.buf).answer.elim 0 dataBytes else 0

/-- How far the frames of a message that is not answered open the connection level window. -/
def Pipe.credits (cfg : Routes) (p : Pipe) : Act → Nat
  | .send _ => 0
  | .run h ans =>
    if p.Pending ∧ p.conn.isH2 ∧ ¬ Serves cfg h ans p.conn p.buf then credit p.buf else 0

theorem step_conn (hp : p.Pending) :
    (p.step lim cfg (.run h ans)).conn = (msgVerdict lim cfg h ans p.conn p.buf).conn := by
  simp only [Pipe.step, if_pos hp]
  split
  · simp only [Pipe.dispatch, Pipe.deliver]
    split <;> rfl
  · rfl

/-- What the client is answered is paid for: by the window it opened the connection with, and by
what it has opened it further by. -/
structure Books (conn : Conn) (answered credited : Nat) : Prop where
  opened : ∀ fc ∈ conn.flow, fc.Open
  plain : conn.isH2 = false → answered = 0 ∧ ∀ fc ∈ conn.flow, fc = .initial
  untracked : conn.flow = none → answered = 0
  covered : ∀ fc ∈ conn.flow, answered + fc.connWindow ≤ (h2InitialWindow : Int) + credited

variable {answered credited : Nat}

theorem Books.initial {conn : Conn} (hflow : ∀ fc ∈ conn.flow, fc = .initial) :
    Books conn 0 credited where
  opened fc hfc := by
    rw [hflow fc hfc]
    exact ⟨by decide, by decide⟩
  plain _ := ⟨rfl, hflow⟩
  untracked _ := rfl
  covered fc hfc := by
    rw [hflow fc hfc]
    simp only [H2Flow.initial]
    omega

theorem Books.mono {conn conn' : Conn} {credited' : Nat} (hb : Books conn answered credited)
    (hh2 : conn'.isH2 = conn.isH2) (hflow : conn'.flow = conn.flow) (hle : credited ≤ credited') :
    Books conn' answered credited' := by
  obtain ⟨hopened, hplain, huntracked, hcovered⟩ := hb
  refine ⟨?_, ?_, ?_, ?_⟩ <;> rw [hflow]
  · exact hopened
  · rw [hh2]
    exact hplain
  · exact huntracked
  · intro fc hfc
    have hle := hcovered fc hfc
    omega

/-- Following the flow control opens the window by what is credited for it. -/
theorem Books.tracked (h : Helpers) (ans : Answers) (hb : Books p.conn answered credited) :
    Books (trackedConn h ans p.conn p.buf) answered
      (credited + if p.conn.isH2 then credit p.buf else 0) := by
  obtain ⟨-, hh2, -, hsome, -⟩ := trackedConn_keeps h ans p.conn p.buf
  have hflow := trackedConn_flow h ans p.conn p.buf
  have hfollowed (fc : H2Flow) (hfc : fc ∈ (trackedConn h ans p.conn p.buf).flow) :
      ∃ fc₀ ∈ p.conn.flow, fc.Open ∧
        fc.connWindow ≤ fc₀.connWindow + (if p.conn.isH2 then credit p.buf else 0 : Nat) := by
    rw [hflow] at hfc
    split at hfc
    · rename_i hc
      obtain ⟨fc₀, hfc₀, rfl⟩ := Option.mem_map.mp hfc
      obtain ⟨hopen, -, hle⟩ := trackFlow_window (h := h) (.ofBytes p.buf) (hb.opened fc₀ hfc₀)
      rw [if_pos hc.1]
      exact ⟨fc₀, hfc₀, hopen, hle⟩
    · exact ⟨fc, hfc, hb.opened fc hfc, by omega⟩
  constructor
  · intro fc hfc
    obtain ⟨-, -, hopen, -⟩ := hfollowed fc hfc
    exact hopen
  · intro hplain
    rw [hh2] at hplain
    rw [hflow, if_neg (by simp [hplain])]
    exact hb.plain hplain
  · intro hnone
    rw [hnone, eq_comm, Option.isSome_none, Option.isSome_eq_false_iff, Option.isNone_iff_eq_none]
      at hsome
    exact hb.untracked hsome
  · intro fc hfc
    obtain ⟨fc₀, hfc₀, -, hle⟩ := hfollowed fc hfc
    have hcovered := hb.covered fc₀ hfc₀
    rw [Nat.cast_add]
    omega

/-- What is reported was spent before. -/
theorem Books.reported (hb : Books (trackedConn h ans p.conn p.buf) answered credited) :
    Books (forwardedConn h ans p.conn p.buf) answered credited := by
  obtain ⟨-, hh2, -⟩ := trackedConn_keeps h ans p.conn p.buf
  have hreported (fc : H2Flow) (hfc : fc ∈ (forwardedConn h ans p.conn p.buf).flow) :
      ∃ fc₀ ∈ (trackedConn h ans p.conn p.buf).flow, fc.connWindow = fc₀.connWindow ∧
        (p.conn.isH2 = false → fc = fc₀) := by
    simp only [forwardedConn] at hfc
    split at hfc
    · rename_i hreports
      obtain ⟨fc₀, hfc₀, rfl⟩ := Option.mem_map.mp hfc
      refine ⟨fc₀, hfc₀, rfl, fun hplain ↦ ?_⟩
      have hnone : runDue h ans p.conn = none := by
        rw [runDue, Conn.dueReport, Option.bind_eq_none_iff]
        exact fun fc _ ↦ if_neg (by simp [hplain])
      rw [Helpers.Reports, hnone] at hreports
      cases hreports.1
    · exact ⟨fc, hfc, rfl, fun _ ↦ rfl⟩
  constructor
  · intro fc hfc
    obtain ⟨fc₀, hfc₀, hwindow, -⟩ := hreported fc hfc
    rw [H2Flow.Open, hwindow]
    exact hb.opened fc₀ hfc₀
  · intro hplain
    have hplain : (trackedConn h ans p.conn p.buf).isH2 = false := hplain
    obtain ⟨hzero, hinitial⟩ := hb.plain hplain
    refine ⟨hzero, fun fc hfc ↦ ?_⟩
    obtain ⟨fc₀, hfc₀, -, hsame⟩ := hreported fc hfc
    rw [hsame (hh2 ▸ hplain)]
    exact hinitial fc₀ hfc₀
  · intro hnone
    apply hb.untracked
    simp only [forwardedConn] at hnone
    split at hnone
    · exact Option.map_eq_none_iff.mp hnone
    · exact hnone
  · intro fc hfc
    obtain ⟨fc₀, hfc₀, hwindow, -⟩ := hreported fc hfc
    rw [hwindow]
    exact hb.covered fc₀ hfc₀

/-- An answer is spent from the windows, which have room for it. -/
theorem Books.spent (ha : a.Of huffman routes) (hb : Books p.conn answered credited)
    {i : Fin maxRoutes} (hroute : answeringRoute a.cfg h ans p.conn p.buf = some i) :
    Books (answeredConn h ans p.conn (a.cfg.routes i))
      (answered + dataBytes (answerOf a.cfg h ans p.conn p.buf)) credited := by
  obtain ⟨hh2, -, -⟩ := parse_conn h ans p.conn
  obtain ⟨-, -, hsuits, -⟩ := answeringRoute_suits hroute
  rw [answerOf, hroute, Option.elim_some, response_dataBytes ha hsuits.1]
  generalize a.cfg.routes i = r at hsuits ⊢
  have hconn : (answeredConn h ans p.conn r).isH2 = p.conn.isH2 := hh2
  by_cases hs : (parse h ans p.conn).sid ≠ 0
  swap
  -- nothing but DATA frames counts
  · have hflow : (answeredConn h ans p.conn r).flow = p.conn.flow := by
      simp only [answeredConn, Route.spent, if_neg hs]
    rw [if_neg hs, Nat.add_zero]
    exact hb.mono hconn hflow (Nat.le_refl _)
  · have hflow : (answeredConn h ans p.conn r).flow = p.conn.flow.map (·.spend r.h2DataLen) := by
      simp only [answeredConn, Route.spent, if_pos hs]
    rw [if_pos hs]
    obtain ⟨fc₀, hfc₀, hroom⟩ := (Option.any_eq_true _ _).mp (hsuits.2.2.1 hs)
    have hroom : fc₀.HasRoom r.h2DataLen := of_decide_eq_true hroom
    have hcovered := hb.covered fc₀ hfc₀
    obtain ⟨-, hmax⟩ := hb.opened fc₀ hfc₀
    rw [hfc₀, Option.map_some] at hflow
    unfold H2Flow.HasRoom at hroom
    refine ⟨?_, ?_, ?_, ?_⟩ <;> rw [hflow]
    · intro fc hfc
      cases hfc
      simp only [H2Flow.Open, H2Flow.spend]
      omega
    · intro hplain
      exact absurd (parse_h1_sid h ans (hconn ▸ hplain)) hs
    · intro hnone
      cases hnone
    · intro fc hfc
      cases hfc
      simp only [H2Flow.spend]
      omega

theorem step_books (ha : a.Of huffman routes) (act : Act) (hb : Books p.conn answered credited) :
    Books (p.step lim a.cfg act).conn (answered + p.answersData a.cfg act)
      (credited + p.credits a.cfg act) := by
  cases act with
  | send m =>
    have hconn : (p.step lim a.cfg (.send m)).conn = p.conn := by
      by_cases hacc : p.Accepts
      · exact (step_send_conn lim a.cfg hacc).1
      · rw [step_send_idle hacc]
    rw [hconn]
    exact hb
  | run h ans =>
    by_cases hp : p.Pending
    swap
    · rw [step_run_idle hp, Pipe.answersData, Pipe.credits, if_neg hp, if_neg fun hc ↦ hp hc.1]
      exact hb
    have hsettles := msgVerdict_settles lim a.cfg h ans p.conn p.buf
    rw [step_conn hp, Pipe.answersData, Pipe.credits, if_pos hp, runStretch]
    simp only [hp, true_and]
    generalize msgVerdict lim a.cfg h ans p.conn p.buf = o at hsettles
    cases hsettles with
    | upgraded hnew =>
      have hplain : p.conn.isH2 = false := by simp [Conn.isH2, hnew.1]
      obtain ⟨hzero, hflow⟩ := hb.plain hplain
      rw [toUserSpace_conn, if_pos hnew, hzero]
      -- also where the entry is not updated it is as good as new
      refine .initial fun fc hfc ↦ ?_
      simp only [Conn.upgrade, update] at hfc
      split at hfc
      · exact (Option.mem_some.mp hfc).symm
      · exact hflow fc hfc
    | spoilt hnew hserves =>
      rw [if_neg hnew, if_neg hserves]
      obtain ⟨hh2, hflow, -⟩ := parse_conn h ans p.conn
      exact hb.mono hh2 hflow (Nat.le_add_right _ _)
    | answered hnew hserves hroute =>
      rw [if_neg hnew, if_pos hserves, if_neg fun hc ↦ hc.2 hserves]
      exact hb.spent ha hroute
    | unsynced hnew hdecl =>
      simp only [if_neg hnew, hdecl.not_serves, not_false_iff, and_true]
      exact hb.tracked h ans
    | forwarded hnew hdecl =>
      simp only [toUserSpace_conn, if_neg hnew, hdecl.not_serves, not_false_iff, and_true]
      exact (hb.tracked h ans).reported

/-! ## 3. What is reported -/

/-- The count a step puts ahead of a message. -/
def Pipe.reportsData (lim : Limits) (cfg : Routes) (p : Pipe) : Act → Nat
  | .send _ => 0
  | .run h ans =>
    if p.Pending ∧ ¬ SeesPreface ans p.conn ∧ Declines cfg h ans p.conn p.buf ∧
        Syncs lim h ans p.conn then
      (frontOf h ans p.conn).report.elim 0 UInt32.toNat
    else 0

/-- Neither of the two frames that are due fails to be put ahead. -/
def PrependsOk (lim : Limits) (cfg : Routes) (p : Pipe) : Act → Prop
  | .send _ => True
  | .run h ans => p.Pending → ¬ SeesPreface ans p.conn → Declines cfg h ans p.conn p.buf →
      Syncs lim h ans p.conn ∧
        ((runDue h ans p.conn).isSome → h.ok .pushFcSync ∧ h.ok .pullFcSync)

/-- The sync frame does not take `msg_len` out of range. -/
def SyncLenFits (cfg : Routes) (p : Pipe) : Act → Prop
  | .send _ => True
  | .run h ans => p.Pending → Declines cfg h ans p.conn p.buf →
      syncPrefix (parse h ans p.conn) ans.table ≠ [] →
        (parse h ans p.conn).msgLen + (syncPrefix (parse h ans p.conn) ans.table).length < 2 ^ 31

instance (p : Pipe) : (act : Act) → Decidable (SyncLenFits cfg p act)
  | .send _ => isTrue trivial
  | .run _ _ => inferInstanceAs (Decidable (_ → _))

/-- What was answered has been reported or is still to be, and there is room to count it. -/
structure Reported (conn : Conn) (answered reported : Nat) : Prop where
  plain : conn.isH2 = false → answered = 0 ∧ reported = 0
  untracked : conn.flow = none → answered = 0 ∧ reported = 0
  owed : ∀ fc ∈ conn.flow, answered = reported + fc.unreported.toNat ∧
    (fc.unreported.toNat : Int) + fc.connWindow ≤ h2MaxWindow

variable {reported : Nat}

theorem Reported.of_eq {conn conn' : Conn} (hr : Reported conn answered reported)
    (hh2 : conn'.isH2 = conn.isH2) (hflow : conn'.flow = conn.flow) :
    Reported conn' answered reported := by
  obtain ⟨hplain, huntracked, howed⟩ := hr
  refine ⟨?_, ?_, ?_⟩
  · rwa [hh2]
  · rwa [hflow]
  · rwa [hflow]

theorem Reported.spent (ha : a.Of huffman routes) (hr : Reported p.conn answered reported)
    (hb : Books p.conn answered credited) {i : Fin maxRoutes}
    (hroute : answeringRoute a.cfg h ans p.conn p.buf = some i) :
    Reported (answeredConn h ans p.conn (a.cfg.routes i))
      (answered + dataBytes (answerOf a.cfg h ans p.conn p.buf)) reported := by
  obtain ⟨hh2, -, -⟩ := parse_conn h ans p.conn
  obtain ⟨-, -, hsuits, -⟩ := answeringRoute_suits hroute
  have hspent := hb.spent ha hroute
  rw [answerOf, hroute, Option.elim_some, response_dataBytes ha hsuits.1] at hspent ⊢
  generalize a.cfg.routes i = r at hsuits hspent ⊢
  have hconn : (answeredConn h ans p.conn r).isH2 = p.conn.isH2 := hh2
  refine ⟨fun hplain ↦ ⟨(hspent.plain hplain).1, (hr.plain (hconn ▸ hplain)).2⟩, ?_, ?_⟩
  · intro hnone
    refine ⟨hspent.untracked hnone, (hr.untracked ?_).2⟩
    simp only [answeredConn, Route.spent] at hnone
    split at hnone
    · exact Option.map_eq_none_iff.mp hnone
    · exact hnone
  · intro fc hfc
    simp only [answeredConn, Route.spent] at hfc
    split at hfc
    · rename_i hsid
      obtain ⟨fc₀, hfc₀, rfl⟩ := Option.mem_map.mp hfc
      obtain ⟨fc₁, hfc₁, hroom⟩ := (Option.any_eq_true _ _).mp (hsuits.2.2.1 hsid)
      cases Option.mem_unique hfc₀ hfc₁
      have hroom : fc₀.HasRoom r.h2DataLen := of_decide_eq_true hroom
      obtain ⟨heq, hle⟩ := hr.owed fc₀ hfc₀
      unfold H2Flow.HasRoom at hroom
      simp only [h2MaxWindow] at hle
      -- what is in the window is small enough to be counted
      have hcount : (fc₀.unreported + UInt32.ofNat r.h2DataLen).toNat =
          fc₀.unreported.toNat + r.h2DataLen := by
        rw [UInt32.toNat_add, UInt32.toNat_ofNat']
        omega
      simp only [H2Flow.spend, hcount, h2MaxWindow, if_pos hsid]
      omega
    · rename_i hsid
      rw [if_neg hsid, Nat.add_zero]
      exact hr.owed fc hfc

/-- What was not yet reported is, unless there is nothing. -/
theorem Reported.forwarded (hr : Reported p.conn answered reported)
    (hb : Books p.conn answered credited)
    (hpre : (runDue h ans p.conn).isSome → h.ok .pushFcSync ∧ h.ok .pullFcSync)
    (hfits : syncPrefix (parse h ans p.conn) ans.table ≠ [] →
      (parse h ans p.conn).msgLen + (syncPrefix (parse h ans p.conn) ans.table).length < 2 ^ 31) :
    Reported (forwardedConn h ans p.conn p.buf) answered
      (reported + (frontOf h ans p.conn).report.elim 0 UInt32.toNat) := by
  obtain ⟨-, hh2, -⟩ := trackedConn_keeps h ans p.conn p.buf
  have htracked := (hb.tracked h ans).opened
  have hflow := trackedConn_flow h ans p.conn p.buf
  have hconn : (forwardedConn h ans p.conn p.buf).isH2 = p.conn.isH2 := hh2
  have huntracked : (forwardedConn h ans p.conn p.buf).flow = none →
      answered = 0 ∧ reported = 0 := by
    intro hnone
    apply hr.untracked
    rw [← Option.isNone_iff_eq_none, ← Option.not_isSome,
      ← forwardedConn_flow_isSome h ans p.conn p.buf, hnone]
    rfl
  cases hdue : runDue h ans p.conn with
  | none =>
    have hreport : (frontOf h ans p.conn).report = none := by
      simp only [frontOf, hdue, ite_self]
    have hkept : (forwardedConn h ans p.conn p.buf).flow =
        (trackedConn h ans p.conn p.buf).flow := by
      simp only [forwardedConn, hdue]
      exact if_neg fun hreports ↦ by cases hreports.1
    rw [hreport]
    refine ⟨fun hplain ↦ hr.plain (hconn ▸ hplain), huntracked, fun fc hfc ↦ ?_⟩
    rw [hkept] at hfc
    have hmax := (htracked fc hfc).2
    rw [hflow] at hfc
    split at hfc
    · rename_i hc
      obtain ⟨fc₀, hfc₀, rfl⟩ := Option.mem_map.mp hfc
      obtain ⟨heq, -⟩ := hr.owed fc₀ hfc₀
      have hzero : fc₀.unreported = 0 := by
        by_contra hne
        rw [runDue, Conn.dueReport, hfc₀, Option.bind_some, if_pos] at hdue
        · cases hdue
        · exact ⟨hc.1, syncedLen_nonneg hc.2 hfits, UInt32.pos_iff_ne_zero.mpr hne⟩
      have hkeeps := (trackFlow_keeps h (.ofBytes p.buf) fc₀).2
      rw [hzero] at heq hkeeps
      rw [hkeeps]
      exact ⟨heq, by simpa using hmax⟩
    · exact hr.owed fc hfc
  | some sent =>
    obtain ⟨hup, -, fc₀, hfc₀, rfl, -⟩ := runDue_some hdue
    have hreports : h.Reports (runDue h ans p.conn) := by
      rw [hdue]
      exact ⟨rfl, hpre (by rw [hdue]; rfl)⟩
    have hreport : (frontOf h ans p.conn).report = some fc₀.unreported :=
      (if_pos hreports).trans hdue
    obtain ⟨heq, -⟩ := hr.owed fc₀ hfc₀
    rw [hreport, Option.elim_some]
    refine ⟨fun hplain ↦ ?_, fun hnone ↦ ?_, fun fc hfc ↦ ?_⟩
    · rw [hconn, hup] at hplain
      cases hplain
    · have hsome := forwardedConn_flow_isSome h ans p.conn p.buf
      rw [hnone, hfc₀] at hsome
      cases hsome
    · simp only [forwardedConn, if_pos hreports] at hfc
      obtain ⟨fc₁, hfc₁, rfl⟩ := Option.mem_map.mp hfc
      exact ⟨heq, by simpa using (htracked fc₁ hfc₁).2⟩

theorem step_reported (ha : a.Of huffman routes) {act : Act}
    (hr : Reported p.conn answered reported) (hb : Books p.conn answered credited)
    (hpre : PrependsOk lim a.cfg p act) (hfits : SyncLenFits a.cfg p act) :
    Reported (p.step lim a.cfg act).conn (answered + p.answersData a.cfg act)
      (reported + p.reportsData lim a.cfg act) := by
  cases act with
  | send m =>
    have hconn : (p.step lim a.cfg (.send m)).conn = p.conn := by
      by_cases hacc : p.Accepts
      · exact (step_send_conn lim a.cfg hacc).1
      · rw [step_send_idle hacc]
    rw [hconn]
    exact hr
  | run h ans =>
    by_cases hp : p.Pending
    swap
    · rw [step_run_idle hp, Pipe.answersData, Pipe.reportsData, if_neg hp, if_neg fun hc ↦ hp hc.1]
      exact hr
    have hsettles := msgVerdict_settles lim a.cfg h ans p.conn p.buf
    rw [step_conn hp, Pipe.answersData, Pipe.reportsData, if_pos hp, runStretch]
    simp only [hp, true_and]
    generalize msgVerdict lim a.cfg h ans p.conn p.buf = o at hsettles
    cases hsettles with
    | upgraded hnew =>
      have hplain : p.conn.isH2 = false := by simp [Conn.isH2, hnew.1]
      rw [toUserSpace_conn, if_pos hnew, if_neg fun hc ↦ hc.1 hnew]
      obtain ⟨rfl, hflow⟩ := hb.plain hplain
      obtain ⟨-, rfl⟩ := hr.plain hplain
      refine ⟨fun _ ↦ ⟨rfl, rfl⟩, fun _ ↦ ⟨rfl, rfl⟩, fun fc hfc ↦ ?_⟩
      have hinitial : fc = .initial := by
        simp only [Conn.upgrade, update] at hfc
        split at hfc
        · exact (Option.mem_some.mp hfc).symm
        · exact hflow fc hfc
      rw [hinitial]
      exact ⟨rfl, by decide⟩
    | spoilt hnew hserves hdecl =>
      rw [if_neg hnew, if_neg hserves, if_neg fun hc ↦ hdecl hc.2.1]
      obtain ⟨hh2, hflow, -⟩ := parse_conn h ans p.conn
      exact hr.of_eq hh2 hflow
    | answered hnew hserves hroute =>
      rw [if_neg hnew, if_pos hserves, if_neg fun hc ↦ hc.2.1.not_serves hserves]
      exact hr.spent ha hb hroute
    | unsynced hnew hdecl hsync => exact absurd (hpre hp hnew hdecl).1 hsync
    | forwarded hnew hdecl hsync =>
      rw [toUserSpace_conn, if_neg hnew, if_neg hdecl.not_serves, if_pos ⟨hnew, hdecl, hsync⟩]
      exact hr.forwarded hb (hpre hp hnew hdecl).2 (hfits hp hdecl)

/-! ## 4. Flow control safety -/

/-- Wherever a request is answered, the stream's window has room for the answer. -/
def AnswersFit (cfg : Routes) (p : Pipe) (act : Act) : Prop :=
  p.answersData cfg act ≤ p.conn.flow.elim 0 H2Flow.streamWindow

theorem answersFit (ha : a.Of huffman routes) (p : Pipe) (act : Act) : AnswersFit a.cfg p act := by
  unfold AnswersFit
  cases act with
  | send m => exact Nat.zero_le _
  | run h ans =>
    simp only [Pipe.answersData, runStretch]
    by_cases hserves : p.Pending ∧ ¬ SeesPreface ans p.conn ∧ Serves a.cfg h ans p.conn p.buf
    swap
    · have hnone : dataBytes [] = 0 := rfl
      split_ifs <;> simp_all
    obtain ⟨hp, hnew, hserves⟩ := hserves
    obtain ⟨i, hroute⟩ := hserves.route
    obtain ⟨-, -, hsuits, -⟩ := answeringRoute_suits hroute
    rw [if_pos hp, if_neg hnew, if_pos hserves, Option.elim_some, answerOf, hroute,
      Option.elim_some, response_dataBytes ha hsuits.1]
    by_cases hsid : (parse h ans p.conn).sid ≠ 0
    · obtain ⟨fc, hfc, hroom⟩ := (Option.any_eq_true _ _).mp (hsuits.2.2.1 hsid)
      have hroom : fc.HasRoom (a.cfg.routes i).h2DataLen := of_decide_eq_true hroom
      unfold H2Flow.HasRoom at hroom
      rw [if_pos hsid, hfc, Option.elim_some]
      omega
    · rw [if_neg hsid]
      exact Nat.zero_le _

variable (lim) in
theorem run_books (ha : a.Of huffman routes) (acts : List Act) :
    Books (Runs.exec (Pipe.step lim a.cfg) .new acts).conn
      (Runs.total (Pipe.step lim a.cfg) (Pipe.answersData a.cfg) .new acts)
      (Runs.total (Pipe.step lim a.cfg) (Pipe.credits a.cfg) .new acts) := by
  have hall : Runs.Along (Pipe.step lim a.cfg) (fun _ _ ↦ True) Pipe.new acts :=
    .of_forall (fun _ _ ↦ trivial) Pipe.new acts
  exact hall.preserves_totals (J := fun p answered credited ↦ Books p.conn answered credited)
    (fun p act _ _ hb _ ↦ step_books ha act hb) (.initial fun fc hfc ↦ by cases hfc)

theorem run_reported (ha : a.Of huffman routes) {acts : List Act}
    (hpre : Runs.Along (Pipe.step lim a.cfg) (PrependsOk lim a.cfg) .new acts)
    (hfits : Runs.Along (Pipe.step lim a.cfg) (SyncLenFits a.cfg) .new acts) :
    Reported (Runs.exec (Pipe.step lim a.cfg) .new acts).conn
      (Runs.total (Pipe.step lim a.cfg) (Pipe.answersData a.cfg) .new acts)
      (Runs.total (Pipe.step lim a.cfg) (Pipe.reportsData lim a.cfg) .new acts) := by
  have hboth := (Runs.Along.and _ _).mpr ⟨hpre, hfits⟩
  -- the books say what a step may answer with
  refine (hboth.preserves_totals (J := fun p answered reported ↦
    Reported p.conn answered reported ∧ ∃ credited, Books p.conn answered credited)
    (fun p act _ _ ⟨hr, _, hb⟩ ⟨hpre, hfits⟩ ↦
      ⟨step_reported ha hr hb hpre hfits, _, step_books ha act hb⟩) ⟨?_, 0, ?_⟩).1
  · exact ⟨fun _ ↦ ⟨rfl, rfl⟩, fun _ ↦ ⟨rfl, rfl⟩, fun fc hfc ↦ by cases hfc⟩
  · exact .initial fun fc hfc ↦ by cases hfc

/-- What is answered over a run stays within what the client's windows allow, and whatever was
answered and not yet reported can be counted. -/
structure FlowSafe (lim : Limits) (cfg : Routes) (acts : List Act) : Prop where
  opened : ∀ fc ∈ (Runs.exec (Pipe.step lim cfg) .new acts).conn.flow,
    0 ≤ fc.connWindow ∧ fc.connWindow ≤ h2MaxWindow
  covered : Runs.total (Pipe.step lim cfg) (Pipe.answersData cfg) .new acts ≤
    h2InitialWindow + Runs.total (Pipe.step lim cfg) (Pipe.credits cfg) .new acts
  fit : Runs.Along (Pipe.step lim cfg) (AnswersFit cfg) .new acts
  counted : Runs.Along (Pipe.step lim cfg) (PrependsOk lim cfg) .new acts →
    let unreported := (Runs.exec (Pipe.step lim cfg) .new acts).conn.flow.elim 0
      (·.unreported.toNat)
    Runs.total (Pipe.step lim cfg) (Pipe.answersData cfg) .new acts =
        Runs.total (Pipe.step lim cfg) (Pipe.reportsData lim cfg) .new acts + unreported ∧
      unreported ≤ h2MaxWindow

/-- Along a run in which no sync frame takes `msg_len` out of range, the flow control is kept to. -/
theorem flow_safe (hattach : attach huffman routes dummies = .ok a) {acts : List Act}
    (hfits : Runs.Along (Pipe.step lim a.cfg) (SyncLenFits a.cfg) .new acts) :
    FlowSafe lim a.cfg acts := by
  have ha := attach_of hattach
  have hb := run_books lim ha acts
  refine ⟨hb.opened, ?_, Runs.Along.of_forall (answersFit ha) _ _, fun hpre ↦ ?_⟩
  · cases hflow : (Runs.exec (Pipe.step lim a.cfg) .new acts).conn.flow with
    | none =>
      rw [hb.untracked hflow]
      exact Nat.zero_le _
    | some fc =>
      obtain ⟨hpos, -⟩ := hb.opened fc hflow
      have hcovered := hb.covered fc hflow
      omega
  · have hr := run_reported ha hpre hfits
    cases hflow : (Runs.exec (Pipe.step lim a.cfg) .new acts).conn.flow with
    | none =>
      obtain ⟨hzero, hnone⟩ := hr.untracked hflow
      exact ⟨by rw [hzero, hnone]; rfl, Nat.zero_le _⟩
    | some fc =>
      obtain ⟨hpos, -⟩ := hb.opened fc hflow
      obtain ⟨heq, hle⟩ := hr.owed fc hflow
      rw [Option.elim_some]
      exact ⟨heq, by omega⟩

/-! ## 5. Where a count gets too large -/

/-- The client's stream has been worked off to the end of a frame. -/
def Pipe.AtFrame (p : Pipe) : Prop :=
  p.consumed = connectionPreface ++ encodeAll (wholeFrames (p.consumed.drop 24))

/-- Every run on an upgraded connection starts between two frames. -/
def StartsAtFrame (p : Pipe) : Act → Prop
  | .send _ => True
  | .run _ _ => p.Pending → p.conn.isH2 → p.AtFrame

instance (p : Pipe) : (act : Act) → Decidable (StartsAtFrame p act)
  | .send _ => isTrue trivial
  | .run _ _ => inferInstanceAs (Decidable (_ → _ → _ = _))

instance (p : Pipe) : (act : Act) → Decidable (PrependsOk lim cfg p act)
  | .send _ => isTrue trivial
  | .run _ _ => inferInstanceAs (Decidable (_ → _))

/-- The frame of a request on the stream `sid`. -/
def requestFrame (sid : UInt32) : Frame :=
  { kind := 1, flags := 5, sid, payload := [0x82], fits := by decide }

def requestOn (sid : UInt32) (path : List UInt8) (table : List HeaderField) : List Act :=
  [.send ⟨(requestFrame sid).encode, encode_ne_nil _, show 10 < 2 ^ 31 by decide⟩,
    .run allOk (parsedFrame 10 ⟨sid, 1, 5, 0⟩ (some path) table)]

/-- A request is answered, and what it took is reported ahead of the next message. -/
theorem flow_safe_reported : FlowSafe exampleLimits exampleAttached.cfg
    (handshake ++ requestOn 1 [0x2F, 0x61] [⟨[0x61], false, [0x62], false⟩] ++
      [.send ⟨[0, 0, 1, 1, 5, 0, 0, 0, 3, 0x83], by decide⟩,
        .run allOk (parsedFrame 10 ⟨3, 1, 5, 1⟩ none [⟨[0x61], false, [0x62], false⟩])]) :=
  flow_safe attach_exampleFiles (by decide +kernel)

/-- Two requests that are answered, and a message that announces more than fits behind the table:
the window it opens all the way is followed, but what is owed is not reported. -/
def wrappedLength : List Act :=
  handshake ++ requestOn 1 [0x2F, 0x61] [⟨[0x61], false, [0x62], false⟩] ++
    requestOn 3 [0x2F, 0x61] [⟨[0x61], false, [0x62], false⟩] ++
    [.send ⟨[0, 0, 3, 1, 4, 0, 0, 0, 5, 0x83, 0x83, 0x83] ++
      [0, 0, 4, 8, 0, 0, 0, 0, 0, 0x7F, 0xFF, 0xFF, 0xFF], by decide⟩,
    .run allOk { parsedFrame 12 ⟨5, 1, 4, 1⟩ none [⟨[0x61], false, [0x62], false⟩] with
      contentLength := some (asBytes "2147483630") }]

/-- What the steps of the example are to meet. -/
def Regulated (p : Pipe) (act : Act) : Prop :=
  HelpersOk p act ∧ StartsAtFrame p act ∧ PrependsOk exampleLimits exampleAttached.cfg p act

/-- Between two messages of a connection whose handshake is done. -/
structure Pipe.Idle (p : Pipe) (fc : H2Flow) (left : Nat) : Prop where
  upgraded : p.conn.upgraded = some h2Handshaked
  flow : p.conn.flow = some fc
  dropped : p.dropped = false
  buf : p.buf = []
  left : p.left = left
  aligned : ∃ fs, p.consumed = connectionPreface ++ encodeAll fs

theorem atFrame_of {p : Pipe} {fs : List Frame}
    (hfs : p.consumed = connectionPreface ++ encodeAll fs) : p.AtFrame := by
  rw [Pipe.AtFrame, hfs, List.drop_left' (show connectionPreface.length = 24 from rfl),
    wholeFrames_whole]

theorem wrappedLength_ends :
    (Runs.exec (Pipe.step exampleLimits exampleAttached.cfg) .new wrappedLength).Idle
      ⟨2147483647, 65535, 8⟩ 4294967256 := by
  generalize hp : Runs.exec (Pipe.step exampleLimits exampleAttached.cfg) .new wrappedLength = p
  have hends : p.conn = ⟨some 2, some ⟨2147483647, 65535, 8⟩, some 0⟩ ∧ p.dropped = false ∧
      p.buf = [] ∧ p.left = 4294967256 ∧ p.consumed = connectionPreface ++
        encodeAll (wholeFrames (p.consumed.drop 24)) := by
    rw [← hp]
    decide +kernel
  obtain ⟨hconn, hdropped, hbuf, hleft, haligned⟩ := hends
  exact ⟨by rw [hconn]; rfl, by rw [hconn], hdropped, hbuf, hleft, _, haligned⟩

theorem wrappedLength_regulated :
    Runs.Along (Pipe.step exampleLimits exampleAttached.cfg) Regulated .new wrappedLength := by
  refine (Runs.Along.and _ _).mpr ⟨?_, ?_⟩
  · exact ⟨trivial, fun _ ↦ rfl, trivial, fun _ ↦ rfl, trivial, fun _ ↦ rfl, trivial, fun _ ↦ rfl,
      trivial, fun _ ↦ rfl, trivial⟩
  · refine (Runs.Along.and _ _).mpr ⟨?_, ?_⟩
    · decide +kernel
    · decide +kernel

/-- Frames without a payload, `n` of them. -/
def emptyFrames (n : Nat) : List Frame := List.replicate n ⟨0, 0, 0, [], by decide⟩

theorem emptyFrames_length (n : Nat) : (encodeAll (emptyFrames n)).length = 9 * n := by
  induction n with
  | zero => rfl
  | succ n ih =>
    rw [emptyFrames, List.replicate_succ, encodeAll_cons, List.length_append, encode_length]
    rw [emptyFrames] at ih
    rw [ih, List.length_nil]
    omega

/-- A message of such frames. -/
def emptyMessage (n : Nat) (hpos : 0 < n) (hlt : 9 * n < 2 ^ 31) : Message :=
  ⟨encodeAll (emptyFrames n),
    List.ne_nil_of_length_pos (by rw [emptyFrames_length]; omega),
    by rw [emptyFrames_length]; exact hlt⟩

theorem Pipe.Idle.covers {p : Pipe} {fc : H2Flow} {left n : Nat} (hp : p.Idle fc left)
    (hpos : 0 < n) (hlt : 9 * n < 2 ^ 31) (hle : 9 * n ≤ left) :
    (p.step exampleLimits exampleAttached.cfg (.send (emptyMessage n hpos hlt))).Idle fc
      (left - 9 * n) := by
  obtain ⟨hup, hflow, hdropped, hbuf, hleft, fs, hfs⟩ := hp
  have hacc : p.Accepts := ⟨hdropped, hbuf⟩
  have hcovered : min p.left (emptyMessage n hpos hlt).1.length = 9 * n := by
    rw [hleft, emptyMessage, emptyFrames_length]
    exact Nat.min_eq_right hle
  have hlen : (emptyMessage n hpos hlt).1.length = 9 * n := emptyFrames_length n
  simp only [Pipe.step, if_pos hacc, hcovered]
  rw [List.take_of_length_le hlen.le, List.drop_of_length_le hlen.le, hleft]
  -- the message goes where the verdict before it says
  refine ⟨?_, ?_, ?_, rfl, rfl, fs ++ emptyFrames n, ?_⟩
  · cases p.dir <;> exact hup
  · cases p.dir <;> exact hflow
  · cases p.dir <;> exact hdropped
  · rw [encodeAll_append, ← List.append_assoc, ← hfs]
    simp [Pipe.consumed, emptyMessage]

/-- The route of the example, and what answering with it takes. -/
theorem exampleAttached_suits {fc : H2Flow} {sid : UInt32} (hsid : sid ≠ 0)
    (hroom : fc.HasRoom 4) :
    exampleAttached.cfg.suited (some fc) [0x2F, 0x61] sid 10 10 = some (routeAt 0) ∧
      (exampleAttached.cfg.routes (routeAt 0)).h2DataLen = 4 := by
  have hfind : exampleAttached.cfg.find [0x2F, 0x61] = some (routeAt 0) ∧
      (exampleAttached.cfg.routes (routeAt 0)).h2BodyLen ≠ 0 ∧
      (exampleAttached.cfg.routes (routeAt 0)).h2BodyLen ≤ maxRouteBody ∧
      (exampleAttached.cfg.routes (routeAt 0)).h2DataLen = 4 := by
    decide +kernel
  obtain ⟨hfind, hne, hle, hdata⟩ := hfind
  refine ⟨?_, hdata⟩
  rw [Routes.suited, hfind, Option.filter_some, if_pos]
  rw [decide_eq_true_eq, Route.Suits, if_pos hsid]
  refine ⟨hne, hle, fun _ ↦ ?_, by decide, by decide⟩
  rw [Option.any_some, decide_eq_true_eq, hdata]
  exact hroom

theorem Pipe.Idle.answers {p : Pipe} {fc : H2Flow} (hp : p.Idle fc 0) {sid : UInt32}
    (hsid : sid ≠ 0) (hroom : fc.HasRoom 4) :
    Runs.Along (Pipe.step exampleLimits exampleAttached.cfg) Regulated p
        (requestOn sid [0x2F, 0x61] []) ∧
      (Runs.exec (Pipe.step exampleLimits exampleAttached.cfg) p
        (requestOn sid [0x2F, 0x61] [])).Idle (fc.spend 4) 0 := by
  obtain ⟨hup, hflow, hdropped, hbuf, hleft, fs, hfs⟩ := hp
  obtain ⟨hsuits, hdata⟩ := exampleAttached_suits hsid hroom
  have hacc : p.Accepts := ⟨hdropped, hbuf⟩
  -- the request has arrived
  set ans := parsedFrame 10 ⟨sid, 1, 5, 0⟩ (some [0x2F, 0x61]) []
  set q := p.step exampleLimits exampleAttached.cfg
    (.send ⟨(requestFrame sid).encode, encode_ne_nil _, show 10 < 2 ^ 31 by decide⟩) with hq
  have harrived : q.conn = p.conn ∧ q.dropped = false ∧ q.buf = (requestFrame sid).encode ∧
      q.consumed = p.consumed := by
    simp only [hq, Pipe.step, if_pos hacc, hleft, Nat.zero_min, List.take_zero, List.drop_zero]
    cases p.dir <;> simp [Pipe.deliver, Pipe.consumed, hdropped]
  obtain ⟨hconn, hqdropped, hqbuf, hconsumed⟩ := harrived
  have hpend : q.Pending := ⟨hqdropped, hqbuf ▸ encode_ne_nil _⟩
  have hnew : ¬ SeesPreface ans q.conn := fun hsees ↦ by
    rw [hconn] at hsees
    rw [hsees.1] at hup
    cases hup
  have hparse : parse allOk ans q.conn =
      { msgLen := 10, path := some [0x2F, 0x61], sid, dtStale := q.conn.isDirty, dtCount := 0,
        h2State := h2Handshaked, conn := q.conn } := by
    rw [parse, hconn, hup]
    rfl
  have hroute : answeringRoute exampleAttached.cfg allOk ans q.conn q.buf =
      some (routeAt 0) := by
    rw [answeringRoute, hparse]
    simp only [Option.bind_some]
    rw [if_pos ⟨⟨rfl, fun _ ↦ Nat.le_refl _, Nat.zero_le _⟩, by decide⟩, hconn, hflow, hqbuf]
    exact hsuits
  have hstep := @step_answered exampleLimits _ q _ _ hpend (by rw [hqbuf]; exact show 10 < 2 ^ 31 by decide)
    (fun _ ↦ rfl) hnew _ hroute
  have hserves : Serves exampleAttached.cfg allOk ans q.conn q.buf :=
    (serves_iff fun _ ↦ rfl).mpr (by rw [hroute]; rfl)
  have hlast : Runs.exec (Pipe.step exampleLimits exampleAttached.cfg) p
      (requestOn sid [0x2F, 0x61] []) =
        q.step exampleLimits exampleAttached.cfg (.run allOk ans) := rfl
  refine ⟨⟨⟨trivial, trivial, trivial⟩, ⟨fun _ ↦ rfl, fun _ _ ↦ ?_, fun _ _ hdecl ↦ ?_⟩, trivial⟩, ?_⟩
  · exact atFrame_of (hconsumed.trans hfs)
  · exact absurd hserves hdecl.not_serves
  · rw [hlast, hstep]
    simp only [answeredConn, hparse, hqbuf]
    refine ⟨?_, ?_, hqdropped, rfl, rfl, fs ++ [requestFrame sid], ?_⟩
    · exact (congrArg Conn.upgraded hconn).trans hup
    · rw [Route.spent, if_pos hsid, hconn, hflow, hdata]
      rfl
    · have hwhole : (requestFrame sid).encode.take 10 = (requestFrame sid).encode :=
        List.take_of_length_le (Nat.le_refl 10)
      rw [encodeAll_append, ← List.append_assoc, ← hfs, ← hconsumed]
      simp [Pipe.consumed, hwhole]

/-- `n` requests, each on a stream of its own. -/
def requests (n : Nat) : List Act :=
  (List.range n).flatMap fun k ↦ requestOn (UInt32.ofNat (2 * k + 7)) [0x2F, 0x61] []

theorem Pipe.Idle.answers_all {p : Pipe} {fc : H2Flow} (hp : p.Idle fc 0) {n : Nat}
    (hroom : (4 * n : Int) ≤ fc.connWindow) (hstream : 4 ≤ fc.streamWindow)
    (hcount : fc.unreported.toNat + 4 * n < 2 ^ 32) (hsids : 2 * n + 7 ≤ 2 ^ 32) :
    Runs.Along (Pipe.step exampleLimits exampleAttached.cfg) Regulated p (requests n) ∧
      ∃ fc' : H2Flow, (Runs.exec (Pipe.step exampleLimits exampleAttached.cfg) p
          (requests n)).Idle fc' 0 ∧
        fc'.connWindow = fc.connWindow - 4 * n ∧ fc'.streamWindow = fc.streamWindow ∧
        fc'.unreported.toNat = fc.unreported.toNat + 4 * n := by
  induction n with
  | zero => exact ⟨trivial, fc, hp, by simp, rfl, rfl⟩
  | succ n ih =>
    obtain ⟨halong, fc', hidle, hwindow, hstream', hunreported⟩ :=
      ih (by omega) (by omega) (by omega)
    have hsid : UInt32.ofNat (2 * n + 7) ≠ 0 := fun hzero ↦ by
      have hnat := congrArg UInt32.toNat hzero
      rw [UInt32.toNat_ofNat', Nat.mod_eq_of_lt (by omega)] at hnat
      cases hnat
    obtain ⟨hlast, hends⟩ := hidle.answers hsid (by unfold H2Flow.HasRoom; omega)
    have hall : requests (n + 1) =
        requests n ++ requestOn (UInt32.ofNat (2 * n + 7)) [0x2F, 0x61] [] := by
      rw [requests, List.range_succ, List.flatMap_append, List.flatMap_singleton]
      rfl
    rw [hall, Runs.exec_append]
    refine ⟨(Runs.Along.append_iff _ _ _).mpr ⟨halong, hlast⟩, _, hends, ?_, hstream', ?_⟩
    · simp only [H2Flow.spend]
      omega
    · show (fc'.unreported + 4).toNat = _
      rw [UInt32.toNat_add, hunreported]
      show (fc.unreported.toNat + 4 * n + 4) % 2 ^ 32 = _
      omega

/-- The rest of what the verdict on the long message covers, in two messages of `n` frames, and `m`
requests behind it. -/
def overdraft (n m : Nat) (hpos : 0 < n) (hlt : 9 * n < 2 ^ 31) : List Act :=
  [.send (emptyMessage n hpos hlt), .send (emptyMessage n hpos hlt)] ++ requests m

theorem Pipe.Idle.overdraws {p : Pipe} {fc : H2Flow} {left : Nat} (hp : p.Idle fc left)
    (window : Nat) (hfc : fc = ⟨window, 65535, 8⟩) {n m : Nat} (hpos : 0 < n)
    (hlt : 9 * n < 2 ^ 31) (hleft : left = 18 * n) (hroom : 4 * m ≤ window)
    (hfew : 4 * m + 8 < 2 ^ 32) :
    Runs.Along (Pipe.step exampleLimits exampleAttached.cfg) Regulated p (overdraft n m hpos hlt) ∧
      (Runs.exec (Pipe.step exampleLimits exampleAttached.cfg) p
        (overdraft n m hpos hlt)).conn.flow.elim 0 (·.unreported.toNat) = 8 + 4 * m := by
  have hsecond := (hp.covers hpos hlt (by omega)).covers hpos hlt (by omega)
  rw [hleft, show 18 * n - 9 * n - 9 * n = 0 by omega] at hsecond
  have howed : fc.unreported.toNat = 8 := by rw [hfc]; rfl
  have hopen : fc.connWindow = window := by rw [hfc]
  have hstream : fc.streamWindow = 65535 := by rw [hfc]
  obtain ⟨halong, fc', hidle, -, -, hcount⟩ := hsecond.answers_all (n := m) (by omega) (by omega)
    (by omega) (by omega)
  rw [overdraft, Runs.exec_append, Runs.Along.append_iff]
  refine ⟨⟨⟨⟨trivial, trivial, trivial⟩, ⟨trivial, trivial, trivial⟩, trivial⟩, halong⟩, ?_⟩
  have hflow := hidle.flow
  rw [Runs.exec_cons, Runs.exec_cons, Runs.exec_nil, hflow, Option.elim_some, hcount, howed]

/-- No helper fails, every run starts between two frames, and more is to be reported than a window
can hold. -/
theorem unreported_exceeds :
    let acts := wrappedLength ++ overdraft 238609292 536870911 (by decide) (by decide)
    Runs.Along (Pipe.step exampleLimits exampleAttached.cfg) Regulated .new acts ∧
      h2MaxWindow < (Runs.exec (Pipe.step exampleLimits exampleAttached.cfg) .new
        acts).conn.flow.elim 0 (·.unreported.toNat) := by
  obtain ⟨halong, hcount⟩ := wrappedLength_ends.overdraws 2147483647 rfl
    (n := 238609292) (m := 536870911) (by decide) (by decide) rfl (by decide) (by decide)
  intro acts
  rw [Runs.exec_append, hcount]
  exact ⟨(Runs.Along.append_iff _ _ _).mpr ⟨wrappedLength_regulated, halong⟩, by decide⟩

end HyperFastPath.FastPath
