import HyperFastPath.FastPath.Verdict

/-!
# How a run can end

What `msg_verdict` comes to: the ways it can go, and what has become of the message and of the
connection's entries on each of them.
-/

namespace HyperFastPath.FastPath

open Bytes

/-! ## 1. How a run can end -/

variable {lim : Limits} {cfg : Routes} {h : Helpers} {ans : Answers}

/-- What the sync frame adds to a message, unless the connection is dropped. -/
def syncPrefix (p : Parsed) (table : List HeaderField) : List UInt8 :=
  if p.conn.isH2 ∧ 0 ≤ p.msgLen ∧ p.dtStale then dtSyncFrame (syncBlock (table.take p.dtCount))
  else []

/-- `msg_len` after that. -/
def syncedLen (p : Parsed) (table : List HeaderField) : Int :=
  if p.conn.isH2 ∧ 0 ≤ p.msgLen ∧ p.dtStale then s32 (p.msgLen + (syncPrefix p table).length)
  else p.msgLen

/-- The count a message has to be preceded by, if its length allows for that. -/
def Conn.dueReport (conn : Conn) (msgLen : Int) : Option UInt32 :=
  conn.flow.bind fun fc ↦
    if conn.isH2 ∧ 0 ≤ msgLen ∧ 0 < fc.unreported then some fc.unreported else none

/-- Whether what is due gets reported. -/
def Helpers.Reports (h : Helpers) (due : Option UInt32) : Prop :=
  due.isSome ∧ h.ok .pushFcSync ∧ h.ok .pullFcSync

instance (h : Helpers) (due : Option UInt32) : Decidable (h.Reports due) :=
  inferInstanceAs (Decidable (_ ∧ _))

/-- The rest of a connection's entries after its flow control was followed. -/
def trackedConn (h : Helpers) (ans : Answers) (conn : Conn) (bytes : List UInt8) : Conn :=
  (followFlow h (parse h ans conn) (.ofBytes bytes)).2

/-- What a run has to report ahead of what it forwards. -/
def runDue (h : Helpers) (ans : Answers) (conn : Conn) : Option UInt32 :=
  conn.dueReport (syncedLen (parse h ans conn) ans.table)

/-- What a run puts ahead of what it forwards. -/
def runFront (h : Helpers) (ans : Answers) (conn : Conn) : List UInt8 :=
  (runDue h ans conn).elim [] (reportPrefix h) ++ syncPrefix (parse h ans conn) ans.table

/-- `msg_len` when a message is forwarded. -/
def forwardedLen (h : Helpers) (ans : Answers) (conn : Conn) : Int :=
  let synced := syncedLen (parse h ans conn) ans.table
  if h.Reports (runDue h ans conn) then s32 (synced + 13) else synced

/-- A connection's entries after a message was forwarded. -/
def forwardedConn (h : Helpers) (ans : Answers) (conn : Conn) (bytes : List UInt8) : Conn :=
  let tracked := trackedConn h ans conn bytes
  { tracked with
    dirty := if syncPrefix (parse h ans conn) ans.table = [] then tracked.dirty
      else update (h.ok .clearDirty) 0 tracked.dirty
    flow := if h.Reports (runDue h ans conn) then tracked.flow.map ({ · with unreported := 0 })
      else tracked.flow }

/-- What the report adds to a message: nothing, a frame, or the room made for one where the second
helper call fails. -/
def IsReport (h : Helpers) (report : List UInt8) : Prop :=
  report = [] ∨ (∃ sent, report = fcSyncFrame sent) ∨
    (report.length = 13 ∧ h.ok .pushFcSync ∧ h.ok .pullFcSync = false)

/-- What the report makes of `msg_len`, given what it added to the message. -/
def ReportedLen (h : Helpers) (conn : Conn) (report : List UInt8) (before after : Int) : Prop :=
  (report = [] ∧ after = before) ∨
    (report.length = 13 ∧ h.Reports (conn.dueReport before) ∧ after = s32 (before + 13)) ∨
    (conn.isH2 ∧ h.ok .pullFcSync = false ∧ after = before)

/-- The lengths of the frames a message is preceded by when it is forwarded. -/
def frontLen (h : Helpers) (ans : Answers) (conn : Conn) : Nat :=
  (if conn.isDirty then
    (dtSyncFrame (syncBlock (ans.table.take ans.frame.dtCountBefore))).length else 0) +
    if h.Reports (conn.dueReport 0) then 13 else 0

/-- The preface of HTTP/2 on a connection that has not seen it yet. -/
def SeesPreface (ans : Answers) (conn : Conn) : Prop :=
  conn.upgraded = none ∧ 0 < ans.ret ∧ ans.preface

instance (ans : Answers) (conn : Conn) : Decidable (SeesPreface ans conn) :=
  inferInstanceAs (Decidable (_ ∧ _))

/-- The run takes the branch that answers. -/
def Serves (cfg : Routes) (h : Helpers) (ans : Answers) (conn : Conn) (bytes : List UInt8) : Prop :=
  ∃ path, (parse h ans conn).path = some path ∧ (parse h ans conn).CanServe ∧
    0 < (parse h ans conn).msgLen ∧
    (tryServeRoute h cfg (parse h ans conn).conn.flow (.ofBytes bytes) path (parse h ans conn).sid
      (parse h ans conn).msgLen.toNat).1 = 0

instance (cfg : Routes) (h : Helpers) (ans : Answers) (conn : Conn) (bytes : List UInt8) :
    Decidable (Serves cfg h ans conn bytes) :=
  decidable_of_iff ((parse h ans conn).path.any fun path ↦
      decide ((parse h ans conn).CanServe ∧ 0 < (parse h ans conn).msgLen ∧
        (tryServeRoute h cfg (parse h ans conn).conn.flow (.ofBytes bytes) path
          (parse h ans conn).sid (parse h ans conn).msgLen.toNat).1 = 0))
    (by simp only [Serves, Option.any_eq_true, decide_eq_true_eq])

/-- The run does not take that branch, or turns back from it before the message was touched. -/
def Declines (cfg : Routes) (h : Helpers) (ans : Answers) (conn : Conn) (bytes : List UInt8) :
    Prop :=
  ∀ path ∈ (parse h ans conn).path, (parse h ans conn).CanServe → 0 < (parse h ans conn).msgLen →
    (tryServeRoute h cfg (parse h ans conn).conn.flow (.ofBytes bytes) path (parse h ans conn).sid
      (parse h ans conn).msgLen.toNat).1 = -1

instance (cfg : Routes) (h : Helpers) (ans : Answers) (conn : Conn) (bytes : List UInt8) :
    Decidable (Declines cfg h ans conn bytes) :=
  inferInstanceAs (Decidable (∀ path ∈ (parse h ans conn).path, _))

theorem Declines.not_serves {conn : Conn} {bytes : List UInt8}
    (hdecl : Declines cfg h ans conn bytes) : ¬ Serves cfg h ans conn bytes := by
  rintro ⟨path, hpath, hcan, hpos, hserved⟩
  rw [hdecl path hpath hcan hpos] at hserved
  cases hserved

/-- The table need not be handed over, or can be. -/
def Syncs (lim : Limits) (h : Helpers) (ans : Answers) (conn : Conn) : Prop :=
  syncPrefix (parse h ans conn) ans.table ≠ [] →
    Replayable lim ans.table (parse h ans conn).dtCount ∧
      h.ok .lookupScratch ∧ h.ok .pushDtSync ∧ h.ok .pullDtSync

instance (lim : Limits) (h : Helpers) (ans : Answers) (conn : Conn) :
    Decidable (Syncs lim h ans conn) :=
  inferInstanceAs (Decidable (_ → _))

theorem not_syncs {conn : Conn} (hsync : ¬ Syncs lim h ans conn) (hall : h.AllOk) :
    syncPrefix (parse h ans conn) ans.table ≠ [] ∧
      ¬ Replayable lim ans.table (parse h ans conn).dtCount := by
  obtain ⟨hne, hno⟩ := Classical.not_imp.mp hsync
  exact ⟨hne, fun hr ↦ hno ⟨hr, hall _, hall _, hall _⟩⟩

/-- What the checks of a run come to that answers: the route its answer is made of. -/
def answeringRoute (cfg : Routes) (h : Helpers) (ans : Answers) (conn : Conn)
    (bytes : List UInt8) : Option (Fin maxRoutes) :=
  let p := parse h ans conn
  if p.CanServe ∧ 0 < p.msgLen then
    p.path.bind fun path ↦ cfg.suited p.conn.flow path p.sid p.msgLen.toNat bytes.length
  else none

/-- A connection's entries after a request was answered with the route `r`. -/
def answeredConn (h : Helpers) (ans : Answers) (conn : Conn) (r : Route) : Conn :=
  let p := parse h ans conn
  { p.conn with
    flow := r.spent p.sid conn.flow
    dirty := if conn.isH2 then update (h.ok .setDirty) 1 conn.dirty else conn.dirty }

/-- What a run comes to, given which way it goes. -/
inductive Settles (lim : Limits) (cfg : Routes) (h : Helpers) (ans : Answers) (conn : Conn)
    (bytes : List UInt8) : Outcome → Prop
  | upgraded (hnew : SeesPreface ans conn) : Settles lim cfg h ans conn bytes
      (toUserSpace h (.ofBytes bytes) (conn.upgrade h) 24)
  | spoilt {msg : SkMsg} (hnew : ¬ SeesPreface ans conn) (hserves : ¬ Serves cfg h ans conn bytes)
      (hdecl : ¬ Declines cfg h ans conn bytes) (hfail : ¬ h.AllOk) :
      Settles lim cfg h ans conn bytes ⟨.drop, msg, (parse h ans conn).conn⟩
  | answered {msg : SkMsg} {i : Fin maxRoutes} (hnew : ¬ SeesPreface ans conn)
      (hserves : Serves cfg h ans conn bytes) (hroute : answeringRoute cfg h ans conn bytes = some i)
      (hbytes : msg.bytes = (cfg.routes i).response cfg.arena (parse h ans conn).sid ++
        bytes.drop (parse h ans conn).msgLen.toNat)
      (happly : msg.applyBytes =
        ((cfg.routes i).response cfg.arena (parse h ans conn).sid).length)
      (hredirect : msg.redirect = some .egress) :
      Settles lim cfg h ans conn bytes ⟨.pass, msg, answeredConn h ans conn (cfg.routes i)⟩
  | unsynced {msg : SkMsg} (hnew : ¬ SeesPreface ans conn)
      (hdecl : Declines cfg h ans conn bytes) (hsync : ¬ Syncs lim h ans conn) :
      Settles lim cfg h ans conn bytes ⟨.drop, msg, trackedConn h ans conn bytes⟩
  | forwarded {msg : SkMsg} (hnew : ¬ SeesPreface ans conn)
      (hdecl : Declines cfg h ans conn bytes) (hsync : Syncs lim h ans conn)
      (hbytes : msg.bytes = runFront h ans conn ++ bytes) : Settles lim cfg h ans conn bytes
      (toUserSpace h msg (forwardedConn h ans conn bytes)
        (if forwardedLen h ans conn ≤ 0 then 0xFFFFFFFF
          else max msg.size (forwardedLen h ans conn).toNat))

/-- The ways a run can end, and what has become of the message then. -/
inductive Exit (lim : Limits) (cfg : Routes) (h : Helpers) (ans : Answers) (conn : Conn)
    (bytes : List UInt8) : Outcome → Prop
  | dropped {o : Outcome} (verdict : o.verdict = .drop)
      (hcause : h.AllOk → syncPrefix (parse h ans conn) ans.table ≠ [] ∧
        ¬ Replayable lim ans.table (parse h ans conn).dtCount) : Exit lim cfg h ans conn bytes o
  | upgraded {msg : SkMsg} (hnew : SeesPreface ans conn) (hbytes : msg.bytes = bytes)
      (happly : msg.applyBytes = 24) (hredirect : msg.redirect = some .ingress) :
      Exit lim cfg h ans conn bytes ⟨.pass, msg, conn.upgrade h⟩
  | answered {msg : SkMsg} {flow : Option H2Flow} (response : List UInt8)
      (hnew : ¬ SeesPreface ans conn) (hserves : Serves cfg h ans conn bytes)
      (hpos : 0 < (parse h ans conn).msgLen)
      (hfit : (parse h ans conn).msgLen.toNat ≤ bytes.length) (hne : response ≠ [])
      (hbytes : msg.bytes = response ++ bytes.drop (parse h ans conn).msgLen.toNat)
      (happly : msg.applyBytes = response.length) (hredirect : msg.redirect = some .egress)
      (hflow : flow.isSome = conn.flow.isSome) :
      Exit lim cfg h ans conn bytes ⟨.pass, msg, { (parse h ans conn).conn with
        flow
        dirty := if conn.isH2 then update (h.ok .setDirty) 1 conn.dirty else conn.dirty }⟩
  | forwarded {msg : SkMsg} {flow : Option H2Flow} {report : List UInt8} {msgLen : Int}
      (hnew : ¬ SeesPreface ans conn) (hserves : ¬ Serves cfg h ans conn bytes)
      (hreport : IsReport h report)
      (hsync : syncPrefix (parse h ans conn) ans.table ≠ [] →
        Replayable lim ans.table (parse h ans conn).dtCount)
      (hbytes : msg.bytes = report ++ syncPrefix (parse h ans conn) ans.table ++ bytes)
      (hlen : ReportedLen h conn report (syncedLen (parse h ans conn) ans.table) msgLen)
      (happly : msg.applyBytes =
        if msgLen ≤ 0 then 0xFFFFFFFF else max msg.size msgLen.toNat)
      (hredirect : msg.redirect = some .ingress)
      (hflow : flow.isSome = conn.flow.isSome) :
      Exit lim cfg h ans conn bytes ⟨.pass, msg, { (parse h ans conn).conn with
        flow
        dirty := if syncPrefix (parse h ans conn) ans.table = [] then conn.dirty
          else update (h.ok .clearDirty) 0 conn.dirty }⟩

theorem toUserSpace_eq (h : Helpers) (msg : SkMsg) (conn : Conn) (len : Nat) :
    ((toUserSpace h msg conn len).verdict = .drop ∧ ¬ h.AllOk) ∨
      toUserSpace h msg conn len =
        ⟨.pass, { msg with applyBytes := len, redirect := some .ingress }, conn⟩ := by
  unfold toUserSpace SkMsg.redirectTo
  cases hok : h.ok .redirectIngress with
  | false => exact .inl ⟨rfl, not_allOk hok⟩
  | true => exact .inr rfl

/-- What the HTTP/2 parser's result comes to once the content length is added to it. -/
def h2Announced (h : Helpers) (ans : Answers) : Int :=
  if ans.frame.MayCarryRequest then announcedLen h ans.contentLength else 0

theorem h2Announced_nonneg (h : Helpers) (ans : Answers) : 0 ≤ h2Announced h ans := by
  unfold h2Announced announcedLen
  split
  · split
    · exact Int.le_refl 0
    · exact Int.le_max_left _ _
  · exact Int.le_refl 0

variable (h) in
theorem parse_h2_len {conn : Conn} (hh2 : conn.isH2 = true) (hret : 0 ≤ ans.ret)
    (hlt : ans.ret + h2Announced h ans < 2 ^ 31) :
    (parse h ans conn).msgLen = ans.ret + h2Announced h ans := by
  obtain ⟨state, hup⟩ := Option.isSome_iff_exists.mp hh2
  simp only [parse, hup, parseH2, if_neg (show ¬ ans.ret < 0 by omega)]
  unfold h2Announced at hlt ⊢
  split at hlt
  · rw [if_pos ‹_›, if_pos ‹_›]
    exact addContentLength_eq hret hlt
  · rw [if_neg ‹_›, if_neg ‹_›, Int.add_zero]

variable (h) in
theorem parse_h2_frame {conn : Conn} (hh2 : conn.isH2 = true) (hret : 0 ≤ ans.ret) :
    (parse h ans conn).dtStale = conn.isDirty ∧
      (parse h ans conn).dtCount = ans.frame.dtCountBefore := by
  obtain ⟨state, hup⟩ := Option.isSome_iff_exists.mp hh2
  simp only [parse, hup, parseH2, if_neg (show ¬ ans.ret < 0 by omega), and_self]

theorem parse_h2_neg {conn : Conn} (hh2 : conn.isH2 = true) (hret : ans.ret < 0) :
    (parse h ans conn).msgLen = ans.ret ∧ (parse h ans conn).path = none ∧
      (parse h ans conn).dtStale = false ∧ (parse h ans conn).conn = conn := by
  obtain ⟨state, hup⟩ := Option.isSome_iff_exists.mp hh2
  simp only [parse, hup, parseH2, if_pos hret, and_self]

theorem parse_h2_ret {conn : Conn} (hh2 : conn.isH2 = true)
    (hlen : 0 ≤ (parse h ans conn).msgLen) : 0 ≤ ans.ret := by
  by_contra hneg
  rw [(parse_h2_neg hh2 (by omega)).1] at hlen
  exact hneg hlen

theorem parse_conn (h : Helpers) (ans : Answers) (conn : Conn) :
    (parse h ans conn).conn.isH2 = conn.isH2 ∧ (parse h ans conn).conn.flow = conn.flow ∧
      (parse h ans conn).conn.dirty = conn.dirty := by
  unfold parse
  cases hup : conn.upgraded with
  | none => exact ⟨rfl, rfl, rfl⟩
  | some state =>
    by_cases hret : ans.ret < 0
    · simp only [parseH2, if_pos hret, and_self]
    · by_cases hacks : ans.frame.Acks ∧ state < h2Handshaked
      · simp only [parseH2, if_neg hret, if_pos hacks, and_true]
        simp only [Conn.isH2, update, hup]
        split <;> rfl
      · simp only [parseH2, if_neg hret, if_neg hacks, and_self]

/-- There are no streams without HTTP/2. -/
theorem parse_h1_sid (h : Helpers) (ans : Answers) {conn : Conn} (hplain : conn.isH2 = false) :
    (parse h ans conn).sid = 0 := by
  rw [Conn.isH2, Option.isSome_eq_false_iff, Option.isNone_iff_eq_none] at hplain
  rw [parse, hplain]
  rfl

theorem syncPrefix_ne_nil_iff {p : Parsed} {table : List HeaderField} :
    syncPrefix p table ≠ [] ↔ p.conn.isH2 ∧ 0 ≤ p.msgLen ∧ p.dtStale := by
  rw [syncPrefix]
  split
  · rename_i hc
    exact ⟨fun _ ↦ hc, fun _ ↦ List.ne_nil_of_length_pos (by rw [dtSyncFrame_length]; omega)⟩
  · rename_i hc
    exact ⟨fun hne ↦ absurd rfl hne, fun h ↦ absurd h hc⟩

/-- Where there is room for the table, `msg_len` grows along with it. -/
theorem syncedLen_eq {p : Parsed} {table : List HeaderField} (hlo : 0 ≤ p.msgLen)
    (hhi : p.msgLen + (syncPrefix p table).length < 2 ^ 31) :
    syncedLen p table = p.msgLen + (syncPrefix p table).length := by
  rw [syncedLen]
  split
  · exact s32_eq (by omega) hhi
  · rename_i hc
    rw [syncPrefix, if_neg hc, List.length_nil, Nat.cast_zero, Int.add_zero]

theorem dueReport_isSome {conn : Conn} {msgLen : Int} (hdue : (conn.dueReport msgLen).isSome) :
    conn.isH2 ∧ 0 ≤ msgLen ∧ conn.dueReport 0 = conn.dueReport msgLen := by
  obtain ⟨sent, hsent⟩ := Option.isSome_iff_exists.mp hdue
  obtain ⟨fc, hflow, hfc⟩ := Option.bind_eq_some_iff.mp hsent
  split at hfc
  · rename_i hcond
    obtain ⟨hh2, hlen, hpos⟩ := hcond
    refine ⟨hh2, hlen, ?_⟩
    simp only [Conn.dueReport, hflow, Option.bind_some, hh2, hlen, hpos, le_refl]
  · cases hfc

/-- Where there is room for what is put ahead of a message, `msg_len` grows along with it. -/
theorem reportedLen_eq {conn : Conn} {report : List UInt8} {msgLen : Int} (hh2 : conn.isH2)
    (hret : 0 ≤ ans.ret) (hlo : 0 ≤ (parse h ans conn).msgLen)
    (hhi : (parse h ans conn).msgLen + frontLen h ans conn < 2 ^ 31)
    (hr : ReportedLen h conn report (syncedLen (parse h ans conn) ans.table) msgLen) :
    msgLen = (parse h ans conn).msgLen + (syncPrefix (parse h ans conn) ans.table).length +
      report.length ∨ h.ok .pullFcSync = false ∧
      msgLen = (parse h ans conn).msgLen + (syncPrefix (parse h ans conn) ans.table).length := by
  obtain ⟨hstale, hcount⟩ := parse_h2_frame h hh2 hret
  have hfront : (syncPrefix (parse h ans conn) ans.table).length =
      if conn.isDirty then
        (dtSyncFrame (syncBlock (ans.table.take ans.frame.dtCountBefore))).length else 0 := by
    rw [syncPrefix, hstale, hcount, (parse_conn h ans conn).1]
    simp only [hh2, hlo, true_and]
    split <;> rfl
  rw [frontLen, ← hfront] at hhi
  have hsynced : syncedLen (parse h ans conn) ans.table =
      (parse h ans conn).msgLen + (syncPrefix (parse h ans conn) ans.table).length :=
    syncedLen_eq hlo (by omega)
  rcases hr with ⟨rfl, rfl⟩ | ⟨hlen, hreports, rfl⟩ | ⟨-, hfail, rfl⟩
  · exact .inl (by simpa using hsynced)
  · obtain ⟨-, -, hdue⟩ := dueReport_isSome hreports.1
    rw [hdue, if_pos hreports] at hhi
    rw [s32_eq (by omega) (by omega), hsynced, hlen]
    exact .inl rfl
  · exact .inr ⟨hfail, hsynced⟩

theorem syncedLen_nonneg {p : Parsed} {table : List HeaderField} (hlo : 0 ≤ p.msgLen)
    (hfits : syncPrefix p table ≠ [] → p.msgLen + (syncPrefix p table).length < 2 ^ 31) :
    0 ≤ syncedLen p table := by
  by_cases hne : syncPrefix p table ≠ []
  · rw [syncedLen_eq hlo (hfits hne)]
    omega
  · rw [syncedLen, if_neg (mt syncPrefix_ne_nil_iff.mpr hne)]
    exact hlo

theorem followFlow_keeps (h : Helpers) (p : Parsed) (msg : SkMsg) :
    msg.SameContent (followFlow h p msg).1 ∧
      (followFlow h p msg).2.upgraded = p.conn.upgraded ∧
      (followFlow h p msg).2.dirty = p.conn.dirty ∧
      (followFlow h p msg).2.flow.isSome = p.conn.flow.isSome := by
  unfold followFlow
  split
  · cases hflow : p.conn.flow with
    | none => exact ⟨.refl msg, rfl, rfl, by rw [hflow]⟩
    | some fc => exact ⟨(trackFlow_keeps h msg fc).1, rfl, rfl, rfl⟩
  · exact ⟨.refl msg, rfl, rfl, rfl⟩

variable (lim h ans) in
theorem syncTable_cases {conn₀ : Conn} (msg : SkMsg) {conn : Conn}
    (hh2 : conn.isH2 = (parse h ans conn₀).conn.isH2) :
    (syncTable lim h ans (parse h ans conn₀) msg conn = none ∧ ¬ Syncs lim h ans conn₀) ∨ ∃ msg',
      syncTable lim h ans (parse h ans conn₀) msg conn =
        some (msg', syncedLen (parse h ans conn₀) ans.table,
          { conn with
            dirty := if syncPrefix (parse h ans conn₀) ans.table = [] then conn.dirty
              else update (h.ok .clearDirty) 0 conn.dirty }) ∧
      msg.Prepended msg' (syncPrefix (parse h ans conn₀) ans.table) ∧ Syncs lim h ans conn₀ := by
  unfold syncTable syncedLen Syncs
  rw [hh2]
  generalize parse h ans conn₀ = p
  by_cases hc : p.conn.isH2 ∧ 0 ≤ p.msgLen ∧ p.dtStale
  · rw [if_pos hc, if_pos hc]
    have hne := (@syncPrefix_ne_nil_iff p ans.table).mpr hc
    by_cases hr : Replayable lim ans.table p.dtCount
    · obtain ⟨msg', heq, hpre⟩ := prependDtSync_replayable hr h msg
      rw [heq]
      -- the table fits, which leaves the helpers to fail
      by_cases hok : h.ok .lookupScratch ∧ h.ok .pushDtSync ∧ h.ok .pullDtSync
      · right
        have hlen : (9 + (wireLen (ans.table.take p.dtCount) : Int)) =
            (syncPrefix p ans.table).length := by
          rw [syncPrefix, if_pos hc, dtSyncFrame_length, syncBlock_length]
          push_cast
          rfl
        refine ⟨msg', ?_, ?_, fun _ ↦ ⟨hr, hok⟩⟩
        · rw [if_pos hok, if_neg hne, hlen]
          exact if_neg (by omega)
        · rw [syncPrefix, if_pos hc, ← replayPrefix_ok hok]
          exact hpre
      · rw [if_neg hok]
        exact .inl ⟨rfl, fun hs ↦ hok (hs hne).2⟩
    · rw [prependDtSync_not_replayable hr]
      exact .inl ⟨rfl, fun hs ↦ hr (hs hne).1⟩
  · have hnil : syncPrefix p ans.table = [] := if_neg hc
    rw [if_neg hc, if_neg hc, hnil, if_pos rfl]
    exact .inr ⟨msg, rfl, ⟨rfl, rfl, rfl⟩, fun hne ↦ absurd rfl hne⟩

theorem reportFlow_eq (h : Helpers) (msg : SkMsg) (msgLen : Int) (conn : Conn) :
    ∃ msg', reportFlow h msg msgLen conn =
        (msg', if h.Reports (conn.dueReport msgLen) then s32 (msgLen + 13) else msgLen,
          { conn with flow := if h.Reports (conn.dueReport msgLen) then
              conn.flow.map ({ · with unreported := 0 }) else conn.flow }) ∧
      msg.Prepended msg' ((conn.dueReport msgLen).elim [] (reportPrefix h)) := by
  obtain ⟨upgraded, flow, dirty⟩ := conn
  unfold reportFlow Conn.dueReport Helpers.Reports
  cases flow with
  | none => exact ⟨msg, rfl, rfl, rfl, rfl⟩
  | some fc =>
    simp only [Option.bind_some, Option.map_some]
    split
    · obtain ⟨msg', heq, hpre⟩ := prependFcSync_eq h msg fc.unreported
      refine ⟨msg', ?_, hpre⟩
      simp only [heq, Option.isSome_some, true_and]
      split
      · exact if_neg (by decide)
      · exact if_pos (by decide)
    · exact ⟨msg, rfl, rfl, rfl, rfl⟩

theorem trackedConn_keeps (h : Helpers) (ans : Answers) (conn : Conn) (bytes : List UInt8) :
    (trackedConn h ans conn bytes).upgraded = (parse h ans conn).conn.upgraded ∧
      (trackedConn h ans conn bytes).isH2 = conn.isH2 ∧
      (trackedConn h ans conn bytes).dirty = conn.dirty ∧
      (trackedConn h ans conn bytes).flow.isSome = conn.flow.isSome ∧
      (trackedConn h ans conn bytes).flow.map H2Flow.unreported =
        conn.flow.map H2Flow.unreported := by
  obtain ⟨hh2, hflow, hdirty⟩ := parse_conn h ans conn
  unfold trackedConn followFlow
  rw [← hh2, ← hdirty, ← hflow]
  split
  · cases hfc : (parse h ans conn).conn.flow with
    | none => simp [hfc]
    | some fc => simp [Conn.isH2, (trackFlow_keeps h (.ofBytes bytes) fc).2]
  · exact ⟨rfl, rfl, rfl, rfl, rfl⟩

theorem trackedConn_flow (h : Helpers) (ans : Answers) (conn : Conn) (bytes : List UInt8) :
    (trackedConn h ans conn bytes).flow = if conn.isH2 ∧ 0 ≤ (parse h ans conn).msgLen then
      conn.flow.map fun fc ↦ (trackFlow h (.ofBytes bytes) fc).2 else conn.flow := by
  obtain ⟨hh2, hflow, -⟩ := parse_conn h ans conn
  unfold trackedConn followFlow
  rw [← hh2, ← hflow]
  split
  · cases hfc : (parse h ans conn).conn.flow with
    | none => exact hfc
    | some fc => rfl
  · rfl

theorem dueReport_tracked (h : Helpers) (ans : Answers) (conn : Conn) (bytes : List UInt8)
    (msgLen : Int) :
    (trackedConn h ans conn bytes).dueReport msgLen = conn.dueReport msgLen := by
  obtain ⟨-, hh2, -, -, hunreported⟩ := trackedConn_keeps h ans conn bytes
  unfold Conn.dueReport
  rw [hh2]
  generalize (trackedConn h ans conn bytes).flow = flow at hunreported
  -- only what is still to be reported matters
  cases flow <;> cases hc : conn.flow <;> simp_all

/-- Every way a message that is not answered can go. -/
theorem forward_settles {conn : Conn} {bytes : List UInt8} (hnew : ¬ SeesPreface ans conn)
    (hdecl : Declines cfg h ans conn bytes) :
    Settles lim cfg h ans conn bytes (forward lim h ans (parse h ans conn) (.ofBytes bytes)) := by
  obtain ⟨hsame, -⟩ := followFlow_keeps h (parse h ans conn) (.ofBytes bytes)
  obtain ⟨-, hh2, -⟩ := trackedConn_keeps h ans conn bytes
  have hdue := dueReport_tracked h ans conn bytes (syncedLen (parse h ans conn) ans.table)
  unfold forward
  have htracked : (followFlow h (parse h ans conn) (.ofBytes bytes)).2 =
    trackedConn h ans conn bytes := rfl
  generalize followFlow h (parse h ans conn) (.ofBytes bytes) = tracked at hsame htracked
  obtain ⟨msg₁, conn₁⟩ := tracked
  simp only at hsame htracked ⊢
  subst htracked
  rcases syncTable_cases lim h ans msg₁ (hh2.trans (parse_conn h ans conn).1.symm) with
    ⟨hnone, hsync⟩ | ⟨msg₂, hsome, hpre₂, hsync⟩
  · rw [hnone]
    exact .unsynced hnew hdecl hsync
  · rw [hsome]
    obtain ⟨msg₃, heq, hpre₃⟩ := reportFlow_eq h msg₂ (syncedLen (parse h ans conn) ans.table)
      { trackedConn h ans conn bytes with
        dirty := if syncPrefix (parse h ans conn) ans.table = [] then
            (trackedConn h ans conn bytes).dirty
          else update (h.ok .clearDirty) 0 (trackedConn h ans conn bytes).dirty }
    have hdue' : Conn.dueReport { trackedConn h ans conn bytes with
        dirty := if syncPrefix (parse h ans conn) ans.table = [] then
            (trackedConn h ans conn bytes).dirty
          else update (h.ok .clearDirty) 0 (trackedConn h ans conn bytes).dirty }
        (syncedLen (parse h ans conn) ans.table) = runDue h ans conn := hdue
    rw [hdue'] at heq hpre₃
    have hbytes : msg₃.bytes = runFront h ans conn ++ bytes := by
      rw [hpre₃.1, hpre₂.1, hsame.1, runFront, List.append_assoc]
      rfl
    have hexit : Settles lim cfg h ans conn bytes _ := .forwarded hnew hdecl hsync hbytes
    simp only [heq]
    have hmax : (if msg₃.size > (forwardedLen h ans conn).toNat then msg₃.size
        else (forwardedLen h ans conn).toNat) = max msg₃.size (forwardedLen h ans conn).toNat := by
      split <;> omega
    rw [← hmax] at hexit
    show Settles lim cfg h ans conn bytes (if forwardedLen h ans conn ≤ 0 then _ else _)
    split
    · rw [if_pos ‹_›] at hexit
      exact hexit
    · rw [if_neg ‹_›] at hexit
      exact hexit

variable (lim cfg h ans) in
/-- `msg_verdict` goes one of these ways. -/
theorem msgVerdict_settles (conn : Conn) (bytes : List UInt8) :
    Settles lim cfg h ans conn bytes (msgVerdict lim cfg h ans conn bytes) := by
  unfold msgVerdict
  split
  · exact .upgraded ‹_›
  rename_i hnew
  obtain ⟨hh2, hflow, hdirty⟩ := parse_conn h ans conn
  unfold serveOrForward
  cases hpath : (parse h ans conn).path with
  | none => exact forward_settles hnew fun _ hp ↦ by rw [hpath] at hp; cases hp
  | some path =>
  by_cases hserve : (parse h ans conn).CanServe ∧ 0 < (parse h ans conn).msgLen
  swap
  · simp only [if_neg hserve]
    exact forward_settles hnew fun _ _ hcan hpos ↦ absurd ⟨hcan, hpos⟩ hserve
  simp only [if_pos hserve]
  have hcases := tryServeRoute_cases h cfg (parse h ans conn).conn.flow (.ofBytes bytes) path
    (parse h ans conn).sid (parse h ans conn).msgLen.toNat
  have hserves : Serves cfg h ans conn bytes ↔ (tryServeRoute h cfg (parse h ans conn).conn.flow
      (.ofBytes bytes) path (parse h ans conn).sid (parse h ans conn).msgLen.toNat).1 = 0 := by
    simp only [Serves, hpath, Option.some.injEq, exists_eq_left', hserve, true_and]
  have hdecl : Declines cfg h ans conn bytes ↔ (tryServeRoute h cfg (parse h ans conn).conn.flow
      (.ofBytes bytes) path (parse h ans conn).sid (parse h ans conn).msgLen.toNat).1 = -1 := by
    simp only [Declines, hpath, Option.mem_some_iff, forall_eq', hserve, true_imp_iff]
  generalize tryServeRoute h cfg _ _ path _ _ = t at hcases hserves hdecl ⊢
  obtain ⟨served, msg', flow'⟩ := t
  -- the message is past saving, or declined, or answered
  rcases hcases with ⟨hneg, hkept, hfail⟩ | ⟨hsame, -⟩ |
    ⟨i, msg, hroute, heq, hbytes, happly, hredirect⟩
  · simp only at hneg hkept
    subst hneg hkept
    exact .spoilt hnew (fun hs ↦ absurd (hserves.mp hs) (by simp))
      (fun hd ↦ absurd (hdecl.mp hd) (by simp)) hfail
  · cases hsame
    rw [← hpath]
    exact forward_settles hnew (hdecl.mpr rfl)
  · cases heq
    have hanswers : answeringRoute cfg h ans conn bytes = some i := by
      simp only [answeringRoute, if_pos hserve, hpath, Option.bind_some]
      exact hroute
    have hexit : Settles lim cfg h ans conn bytes _ :=
      .answered hnew (hserves.mpr rfl) hanswers hbytes happly hredirect
    have hmarked : Conn.markDirty h { (parse h ans conn).conn with
        flow := (cfg.routes i).spent (parse h ans conn).sid (parse h ans conn).conn.flow } =
        answeredConn h ans conn (cfg.routes i) := by
      unfold Conn.markDirty answeredConn
      rw [← hh2, ← hdirty, ← hflow]
      -- the flow control does not tell whether a connection is HTTP/2
      show (if (parse h ans conn).conn.isH2 = true then _ else _) = _
      split <;> rfl
    rw [← hmarked] at hexit
    exact hexit

/-- What is answered has passed the checks. -/
theorem Serves.route {conn : Conn} {bytes : List UInt8} (hserves : Serves cfg h ans conn bytes) :
    ∃ i, answeringRoute cfg h ans conn bytes = some i := by
  obtain ⟨path, hpath, hcan, hpos, hzero⟩ := hserves
  rcases tryServeRoute_cases h cfg (parse h ans conn).conn.flow (.ofBytes bytes) path
    (parse h ans conn).sid (parse h ans conn).msgLen.toNat with
    ⟨hneg, -⟩ | ⟨hsame, -⟩ | ⟨i, -, hroute, -⟩
  · rw [hzero] at hneg
    cases hneg
  · rw [hsame] at hzero
    cases hzero
  · refine ⟨i, ?_⟩
    simp only [answeringRoute, if_pos (show _ ∧ _ from ⟨hcan, hpos⟩), hpath, Option.bind_some]
    exact hroute

/-- Where no helper fails, the checks alone decide. -/
theorem serves_iff (hall : h.AllOk) {conn : Conn} {bytes : List UInt8} :
    Serves cfg h ans conn bytes ↔ (answeringRoute cfg h ans conn bytes).isSome := by
  unfold answeringRoute Serves
  simp only
  by_cases hserve : (parse h ans conn).CanServe ∧ 0 < (parse h ans conn).msgLen
  swap
  · rw [if_neg hserve]
    exact ⟨fun ⟨_, _, hcan, hpos, _⟩ ↦ absurd ⟨hcan, hpos⟩ hserve, fun hn ↦ by cases hn⟩
  rw [if_pos hserve]
  cases hpath : (parse h ans conn).path with
  | none => simp
  | some path =>
    simp only [Option.some.injEq, exists_eq_left', hserve, true_and, Option.bind_some]
    rcases tryServeRoute_cases h cfg (parse h ans conn).conn.flow (.ofBytes bytes) path
      (parse h ans conn).sid (parse h ans conn).msgLen.toNat with
      ⟨-, -, hfail⟩ | ⟨hsame, hno⟩ | ⟨i, msg', hroute, heq, -⟩
    · exact absurd hall hfail
    · rw [hsame]
      simp [show cfg.suited (parse h ans conn).conn.flow path (parse h ans conn).sid
        (parse h ans conn).msgLen.toNat bytes.length = none from hno hall]
    · rw [heq]
      simp [show cfg.suited (parse h ans conn).conn.flow path (parse h ans conn).sid
        (parse h ans conn).msgLen.toNat bytes.length = some i from hroute]

/-- What the checks of the answering branch say of the route it takes. -/
theorem answeringRoute_suits {conn : Conn} {bytes : List UInt8} {i : Fin maxRoutes}
    (hroute : answeringRoute cfg h ans conn bytes = some i) :
    (parse h ans conn).CanServe ∧ 0 < (parse h ans conn).msgLen ∧
      (cfg.routes i).Suits conn.flow (parse h ans conn).sid (parse h ans conn).msgLen.toNat
        bytes.length ∧
      ∃ path, (parse h ans conn).path = some path ∧ cfg.find path = some i := by
  unfold answeringRoute at hroute
  simp only at hroute
  split at hroute
  · rename_i hserve
    obtain ⟨path, hpath, hsuited⟩ := Option.bind_eq_some_iff.mp hroute
    rw [Routes.suited, (parse_conn h ans conn).2.1] at hsuited
    have hfilter := Option.filter_eq_some_iff.mp hsuited
    exact ⟨hserve.1, hserve.2, of_decide_eq_true hfilter.2, path, hpath, hfilter.1⟩
  · cases hroute

theorem runFront_report (h : Helpers) (ans : Answers) (conn : Conn) :
    IsReport h ((runDue h ans conn).elim [] (reportPrefix h)) ∧
      ReportedLen h conn ((runDue h ans conn).elim [] (reportPrefix h))
        (syncedLen (parse h ans conn) ans.table) (forwardedLen h ans conn) := by
  unfold forwardedLen ReportedLen
  rw [show conn.dueReport (syncedLen (parse h ans conn) ans.table) = runDue h ans conn from rfl]
  unfold Helpers.Reports
  simp only
  cases hd : runDue h ans conn with
  | none => exact ⟨.inl rfl, .inl ⟨rfl, by simp⟩⟩
  | some sent =>
    have hsome : (conn.dueReport (syncedLen (parse h ans conn) ans.table)).isSome :=
      Option.isSome_of_eq_some hd
    obtain ⟨hh2, -, -⟩ := dueReport_isSome hsome
    simp only [Option.elim_some, Option.isSome_some, true_and]
    unfold reportPrefix
    -- a failed store leaves the room that was made, a failed push leaves nothing
    by_cases hpush : h.ok .pushFcSync = true
    · by_cases hpull : h.ok .pullFcSync = true
      · rw [if_pos hpush, if_pos hpull, if_pos ⟨hpush, hpull⟩]
        exact ⟨.inr (.inl ⟨_, rfl⟩), .inr (.inl ⟨rfl, ⟨hpush, hpull⟩, rfl⟩)⟩
      · rw [if_pos hpush, if_neg hpull, if_neg fun hall ↦ hpull hall.2]
        have hfalse := eq_false_of_ne_true hpull
        exact ⟨.inr (.inr ⟨by simp, hpush, hfalse⟩), .inr (.inr ⟨hh2, hfalse, rfl⟩)⟩
    · rw [if_neg hpush, if_neg fun hall ↦ hpush hall.1]
      exact ⟨.inl rfl, .inl ⟨rfl, rfl⟩⟩

theorem forwardedConn_eq (h : Helpers) (ans : Answers) (conn : Conn) (bytes : List UInt8) :
    forwardedConn h ans conn bytes = { (parse h ans conn).conn with
      flow := (forwardedConn h ans conn bytes).flow
      dirty := if syncPrefix (parse h ans conn) ans.table = [] then conn.dirty
        else update (h.ok .clearDirty) 0 conn.dirty } := by
  obtain ⟨hup, -, hd, -⟩ := trackedConn_keeps h ans conn bytes
  rw [← hd]
  show _ = Conn.mk (parse h ans conn).conn.upgraded _ _
  rw [← hup]
  rfl

theorem forwardedConn_flow_isSome (h : Helpers) (ans : Answers) (conn : Conn)
    (bytes : List UInt8) :
    (forwardedConn h ans conn bytes).flow.isSome = conn.flow.isSome := by
  rw [← (trackedConn_keeps h ans conn bytes).2.2.2.1]
  simp only [forwardedConn]
  split <;> simp

theorem toUserSpace_conn (h : Helpers) (msg : SkMsg) (conn : Conn) (len : Nat) :
    (toUserSpace h msg conn len).conn = conn := by
  unfold toUserSpace
  split <;> rfl

/-- Nothing but the preface upgrades a connection, and nothing takes that back. -/
theorem msgVerdict_isH2 {conn : Conn} {bytes : List UInt8} (hnew : ¬ SeesPreface ans conn) :
    (msgVerdict lim cfg h ans conn bytes).conn.isH2 = conn.isH2 := by
  have hsettles := msgVerdict_settles lim cfg h ans conn bytes
  have hparse := (parse_conn h ans conn).1
  have htracked := (trackedConn_keeps h ans conn bytes).2.1
  generalize msgVerdict lim cfg h ans conn bytes = o at hsettles
  cases hsettles with
  | upgraded hsees => exact absurd hsees hnew
  | spoilt => exact hparse
  | answered => exact hparse
  | unsynced => exact htracked
  | forwarded =>
    rw [toUserSpace_conn]
    exact htracked

variable (lim cfg h ans) in
/-- `msg_verdict` ends in one of these ways. -/
theorem msgVerdict_exit (conn : Conn) (bytes : List UInt8) :
    Exit lim cfg h ans conn bytes (msgVerdict lim cfg h ans conn bytes) := by
  have hsettles := msgVerdict_settles lim cfg h ans conn bytes
  obtain ⟨hh2, hflow, hdirty⟩ := parse_conn h ans conn
  generalize msgVerdict lim cfg h ans conn bytes = o at hsettles
  cases hsettles with
  | upgraded hnew =>
    rcases toUserSpace_eq h (.ofBytes bytes) (conn.upgrade h) 24 with ⟨hdrop, hfail⟩ | hpass
    · exact .dropped hdrop fun hall ↦ absurd hall hfail
    · rw [hpass]
      exact .upgraded hnew rfl rfl rfl
  | spoilt _ _ _ hfail => exact .dropped rfl fun hall ↦ absurd hall hfail
  | @answered msg i hnew hserves hroute hbytes happly hredirect =>
    obtain ⟨-, hpos, hsuits, -⟩ := answeringRoute_suits hroute
    have hne := response_length (cfg.routes i) cfg.arena (parse h ans conn).sid
    refine .answered _ hnew hserves hpos hsuits.2.2.2.2 ?_ hbytes happly hredirect ?_
    · exact List.ne_nil_of_length_pos (hne ▸ Nat.pos_of_ne_zero hsuits.1)
    · rw [Route.spent]
      split <;> simp
  | unsynced _ _ hsync => exact .dropped rfl (not_syncs hsync)
  | @forwarded msg hnew hdecl hsync hbytes =>
    obtain ⟨hreport, hlen⟩ := runFront_report h ans conn
    rcases toUserSpace_eq h msg (forwardedConn h ans conn bytes) (if forwardedLen h ans conn ≤ 0 then
      0xFFFFFFFF else max msg.size (forwardedLen h ans conn).toNat) with ⟨hdrop, hfail⟩ | hpass
    · exact .dropped hdrop fun hall ↦ absurd hall hfail
    · rw [hpass, forwardedConn_eq]
      exact .forwarded hnew hdecl.not_serves hreport (fun hne ↦ (hsync hne).1) hbytes hlen rfl rfl
        (forwardedConn_flow_isSome h ans conn bytes)

end HyperFastPath.FastPath
