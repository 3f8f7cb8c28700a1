import HyperFastPath.FastPath.Attach
import HyperFastPath.FastPath.Outcome

/-!
# What a failure leaves behind

A helper can fail at any point of `serve_route`, `prepend_fc_sync` and `prepend_dt_sync`.  What they
return says whether the message is still what the client sent.
-/

namespace HyperFastPath.FastPath

open Bytes

/-! ## 1. Answering -/

/-- A connection's flow control once `dataLen` bytes were answered with. -/
def Spends (before after : Option H2Flow) (dataLen : Nat) : Prop :=
  ∃ fc fc', before = some fc ∧ after = some fc' ∧ fc'.connWindow = fc.connWindow - dataLen ∧
    fc'.unreported = fc.unreported + UInt32.ofNat dataLen ∧ fc'.streamWindow = fc.streamWindow

theorem spent_spends {r : Route} {flow : Option H2Flow} {sid : UInt32} {reqLen size : Nat}
    (hsuits : r.Suits flow sid reqLen size) (hsid : sid ≠ 0) :
    Spends flow (r.spent sid flow) r.h2DataLen := by
  have hroom := hsuits.2.2.1 hsid
  cases flow with
  | none => cases hroom
  | some fc => exact ⟨fc, fc.spend r.h2DataLen, rfl, if_pos hsid, rfl, rfl, rfl⟩

/-- The growth loop reaches its target unless a push fails. -/
theorem resizeRequest_reaches {h : Helpers} {msg : SkMsg} {bodyLen reqLen : Nat} (hall : h.AllOk)
    (hreq : reqLen ≤ msg.size) (hbody : bodyLen ≤ maxRouteBody) :
    ∃ m, resizeRequest h msg bodyLen reqLen = .ok m ∧ m.size + reqLen = msg.size + bodyLen := by
  have hends := resizeRequest_ends (h := h) hreq hbody
  cases hrun : resizeRequest h msg bodyLen reqLen with
  | error t =>
    rw [hrun] at hends
    exact absurd hall hends.2
  | ok m =>
    rw [hrun] at hends
    obtain ⟨front, hfront, hbytes, -⟩ := hends
    refine ⟨m, rfl, ?_⟩
    rw [SkMsg.size, hbytes, List.length_append, hfront, List.length_drop, ← SkMsg.size]
    omega

variable {lim : Limits} {cfg : Routes} {h : Helpers} {ans : Answers}

variable (lim cfg h ans) in
/-- What `msg_verdict` makes of an attempt to answer: one that is declined is as good as none, and
one that fails half way leaves the connection's entries alone. -/
theorem serveOrForward_eq {p : Parsed} {path : List UInt8} (hpath : p.path = some path)
    (hcan : p.CanServe) (hpos : 0 < p.msgLen) (msg : SkMsg) :
    let t := tryServeRoute h cfg p.conn.flow msg path p.sid p.msgLen.toNat
    (t.1 = -1 → serveOrForward lim cfg h ans p msg = forward lim h ans p msg) ∧
      (t.1 = -2 → serveOrForward lim cfg h ans p msg = ⟨.drop, t.2.1, p.conn⟩) ∧
      (t.1 = 0 → serveOrForward lim cfg h ans p msg =
        ⟨.pass, t.2.1, Conn.markDirty h { p.conn with flow := t.2.2 }⟩) := by
  intro t
  have hcases := tryServeRoute_cases h cfg p.conn.flow msg path p.sid p.msgLen.toNat
  have ht : tryServeRoute h cfg p.conn.flow msg path p.sid p.msgLen.toNat = t := rfl
  simp only [serveOrForward, hpath, if_pos (show _ ∧ _ from ⟨hcan, hpos⟩), ht]
  rw [ht] at hcases
  refine ⟨fun hres ↦ ?_, fun hres ↦ ?_, fun hres ↦ ?_⟩
  · have hsame : t = (-1, msg, p.conn.flow) := by
      rcases hcases with ⟨hneg, -⟩ | ⟨hsame, -⟩ | ⟨i, msg', -, heq, -⟩
      · omega
      · exact hsame
      · rw [heq] at hres
        cases hres
    rw [hsame]
    rfl
  · have hkept : t.2.2 = p.conn.flow := by
      rcases hcases with ⟨-, hkept, -⟩ | ⟨hsame, -⟩ | ⟨i, msg', -, heq, -⟩
      · exact hkept
      · rw [hsame]
      · rw [heq] at hres
        cases hres
    rw [if_pos (by omega), hkept]
  · rw [if_neg (by omega), if_pos hres]

variable (lim cfg h ans) in
/-- A request that is not answered for want of a helper is left as it was, or the message is given
up along with the request; the flow control is only charged for an answer. -/
theorem serveRoute_clean (arena : Nat → UInt8) (flow : Option H2Flow) (msg : SkMsg) (r : Route)
    (sid : UInt32) (reqLen : Nat) :
    let t := serveRoute h arena flow msg r sid reqLen
    (t.1 = 0 ∨ t.1 = -1 ∨ t.1 = -2) ∧ (t.1 = -1 → t.2 = (msg, flow)) ∧
      (t.1 = -2 → t.2.2 = flow) ∧
      (t.1 = 0 → if sid ≠ 0 then Spends flow t.2.2 r.h2DataLen else t.2.2 = flow) ∧
      (h.AllOk → t.1 ≠ -2 ∧ ∀ bodyLen ≤ maxRouteBody, reqLen ≤ msg.size →
        ∃ m, resizeRequest h msg bodyLen reqLen = .ok m ∧
          m.size + reqLen = msg.size + bodyLen) ∧
      ∀ p path, p.path = some path → p.CanServe → 0 < p.msgLen →
        let t := tryServeRoute h cfg p.conn.flow msg path p.sid p.msgLen.toNat
        (t.1 = -1 → serveOrForward lim cfg h ans p msg = forward lim h ans p msg) ∧
          (t.1 = -2 → serveOrForward lim cfg h ans p msg = ⟨.drop, t.2.1, p.conn⟩) ∧
          (t.1 = 0 → serveOrForward lim cfg h ans p msg =
            ⟨.pass, t.2.1, Conn.markDirty h { p.conn with flow := t.2.2 }⟩) := by
  intro t
  have hcases := serveRoute_cases h arena flow msg r sid reqLen
  have ht : serveRoute h arena flow msg r sid reqLen = t := rfl
  rw [ht] at hcases
  have hverdict (p : Parsed) (path : List UInt8) (hpath : p.path = some path) (hcan : p.CanServe)
      (hpos : 0 < p.msgLen) := serveOrForward_eq lim cfg h ans hpath hcan hpos msg
  have hgrows (hall : h.AllOk) (bodyLen : Nat) (hbody : bodyLen ≤ maxRouteBody)
      (hreq : reqLen ≤ msg.size) := resizeRequest_reaches hall hreq hbody
  rcases hcases with ⟨hres, hkept, hfail⟩ | ⟨hsame, -⟩ | ⟨msg', heq, hsuits, -⟩
  · rw [hres]
    exact ⟨by simp, by simp, fun _ ↦ hkept, by simp, fun hall ↦ absurd hall hfail, hverdict⟩
  · rw [hsame]
    exact ⟨by simp, fun _ ↦ rfl, by simp, by simp, fun hall ↦ ⟨by simp, hgrows hall⟩, hverdict⟩
  · rw [heq]
    refine ⟨by simp, by simp, by simp, fun _ ↦ ?_, fun hall ↦ ⟨by simp, hgrows hall⟩, hverdict⟩
    split
    · exact spent_spends hsuits ‹_›
    · exact if_neg ‹_›

/-- A request over HTTP/2 is answered, and the four bytes of the page are charged for. -/
theorem serveRoute_clean_page :
    ∃ msg flow, serveRoute allOk exampleAttached.cfg.arena (some ⟨100, 50, 8⟩)
        (.ofBytes [0, 0, 1, 1, 5, 0, 0, 0, 5, 0x82]) (exampleAttached.cfg.routes (routeAt 0)) 5 10 =
          (0, msg, flow) ∧
      Spends (some ⟨100, 50, 8⟩) flow 4 := by
  obtain ⟨msg, flow, hserve⟩ := result_of_zero (show (serveRoute allOk exampleAttached.cfg.arena
    (some ⟨100, 50, 8⟩) (.ofBytes [0, 0, 1, 1, 5, 0, 0, 0, 5, 0x82])
    (exampleAttached.cfg.routes (routeAt 0)) 5 10).1 = 0 by decide +kernel)
  have hclean := serveRoute_clean ⟨128, by decide⟩ exampleAttached.cfg allOk
    ⟨10, false, none, none, ⟨5, 1, 5, 0⟩, []⟩ exampleAttached.cfg.arena (some ⟨100, 50, 8⟩)
    (.ofBytes [0, 0, 1, 1, 5, 0, 0, 0, 5, 0x82]) (exampleAttached.cfg.routes (routeAt 0)) 5 10
  have hlen : (exampleAttached.cfg.routes (routeAt 0)).h2DataLen = 4 := by decide +kernel
  simp only [hserve] at hclean
  obtain ⟨-, -, -, hspends, -⟩ := hclean
  have hspent := hspends trivial
  rw [if_pos (by decide), hlen] at hspent
  exact ⟨msg, flow, hserve, hspent⟩

/-! ## 2. Prepending -/

theorem prepended_ne {front bytes : List UInt8} (h : front ≠ []) : front ++ bytes ≠ bytes :=
  fun heq ↦ h (List.append_left_eq_self.mp heq)

/-- A failed report leaves the message alone unless room was made for it. -/
theorem prependFcSync_clean_iff (h : Helpers) (msg : SkMsg) (sent : UInt32) :
    let t := prependFcSync h msg sent
    (t.1 = -1 → t.2.bytes = msg.bytes) ↔ ¬ (h.ok .pushFcSync ∧ h.ok .pullFcSync = false) := by
  intro t
  obtain ⟨msg', heq, hbytes, -⟩ := prependFcSync_eq h msg sent
  rw [show t = _ from heq]
  simp only
  by_cases hpush : h.ok .pushFcSync = true
  swap
  · rw [reportPrefix, if_neg hpush] at hbytes
    exact ⟨fun _ hroom ↦ hpush hroom.1, fun _ _ ↦ hbytes⟩
  cases hpull : h.ok .pullFcSync with
  | true =>
    rw [if_pos ⟨hpush, rfl⟩]
    simp
  | false =>
    rw [reportPrefix, if_pos hpush, if_neg (ne_true_of_eq_false hpull)] at hbytes
    rw [if_neg (by simp), hbytes]
    have hgrown : (List.range 13).map (h.inserted .pushFcSync) ++ msg.bytes ≠ msg.bytes :=
      prepended_ne (by simp)
    exact ⟨fun hclean _ ↦ hgrown (hclean rfl), fun hroom ↦ absurd ⟨hpush, rfl⟩ hroom⟩

/-- Neither does a failed sync. -/
theorem prependDtSync_clean_iff (lim : Limits) (h : Helpers) (table : List HeaderField) (msg : SkMsg)
    (n : Nat) :
    let t := prependDtSync lim h table msg n
    (t.1 = -1 → t.2.bytes = msg.bytes) ↔
      (Replayable lim table n → ¬ (h.ok .lookupScratch ∧ h.ok .pushDtSync ∧
        h.ok .pullDtSync = false)) := by
  intro t
  by_cases hr : Replayable lim table n
  swap
  · rw [show t = _ from prependDtSync_not_replayable hr h msg]
    exact ⟨fun _ hr' ↦ absurd hr' hr, fun _ _ ↦ rfl⟩
  obtain ⟨msg', heq, hbytes, -⟩ := prependDtSync_replayable hr h msg
  rw [show t = _ from heq]
  simp only [hr, true_imp_iff]
  by_cases hpush : h.ok .lookupScratch = true ∧ h.ok .pushDtSync = true
  swap
  · rw [replayPrefix, if_neg hpush] at hbytes
    exact ⟨fun _ hroom ↦ hpush ⟨hroom.1, hroom.2.1⟩, fun _ _ ↦ hbytes⟩
  cases hpull : h.ok .pullDtSync with
  | true =>
    rw [if_pos ⟨hpush.1, hpush.2, rfl⟩]
    refine ⟨by simp, fun _ hneg ↦ ?_⟩
    omega
  | false =>
    rw [replayPrefix, if_pos hpush, if_neg (ne_true_of_eq_false hpull)] at hbytes
    rw [if_neg (by simp), hbytes]
    have hgrown : (List.range (9 + wireLen (table.take n))).map (h.inserted .pushDtSync) ++
        msg.bytes ≠ msg.bytes := prepended_ne (by simp)
    exact ⟨fun hclean _ ↦ hgrown (hclean rfl), fun hroom ↦ absurd ⟨hpush.1, hpush.2, rfl⟩ hroom⟩

/-- The run hands its message to user space although it has not reported what it had to. -/
def ForwardsUnreported (lim : Limits) (cfg : Routes) (h : Helpers) (ans : Answers) (conn : Conn)
    (bytes : List UInt8) : Prop :=
  (msgVerdict lim cfg h ans conn bytes).verdict = .pass ∧
    (msgVerdict lim cfg h ans conn bytes).msg.redirect = some .ingress ∧
    ¬ SeesPreface ans conn ∧ (runDue h ans conn).isSome ∧ ¬ h.Reports (runDue h ans conn)

/-- Where a report is due and fails, the message is preceded by the table alone, or by the room that
was made for the report as well. -/
theorem forwards_unreported {conn : Conn} {bytes : List UInt8}
    (hun : ForwardsUnreported lim cfg h ans conn bytes) :
    (msgVerdict lim cfg h ans conn bytes).msg.bytes =
      (if h.ok .pushFcSync then (List.range 13).map (h.inserted .pushFcSync) else []) ++
        syncPrefix (parse h ans conn) ans.table ++ bytes := by
  obtain ⟨hpass, hingress, hnew, hdue, hno⟩ := hun
  have hsettles := msgVerdict_settles lim cfg h ans conn bytes
  generalize msgVerdict lim cfg h ans conn bytes = o at hsettles hpass hingress
  cases hsettles with
  | upgraded hsees => exact absurd hsees hnew
  | spoilt => cases hpass
  | answered _ _ _ _ _ hredirect =>
    rw [hredirect] at hingress
    cases hingress
  | unsynced => cases hpass
  | @forwarded msg _ _ _ hbytes =>
    obtain ⟨sent, hsent⟩ := Option.isSome_iff_exists.mp hdue
    have hfails : ¬ (h.ok .pushFcSync ∧ h.ok .pullFcSync) := fun hok ↦ hno ⟨hdue, hok⟩
    have hmsg (n : Nat) : (toUserSpace h msg (forwardedConn h ans conn bytes) n).msg.bytes =
        msg.bytes := by
      unfold toUserSpace SkMsg.redirectTo SkMsg.apply
      cases h.ok .redirectIngress <;> rfl
    rw [hmsg, hbytes, runFront, hsent, Option.elim_some, reportPrefix]
    by_cases hpush : h.ok .pushFcSync = true
    · rw [if_pos hpush, if_pos hpush, if_neg fun hpull ↦ hfails ⟨hpush, hpull⟩]
    · rw [if_neg hpush, if_neg hpush]

/-- A prepend that fails leaves the message as it was, and so does `msg_verdict` where it goes on
after one, except that room that was made and not filled stays in. -/
theorem prepends_clean_iff (lim : Limits) (cfg : Routes) (h : Helpers) (ans : Answers)
    (conn : Conn) (bytes : List UInt8) (msg : SkMsg) (sent : UInt32) (table : List HeaderField)
    (n : Nat) :
    (((prependFcSync h msg sent).1 = -1 → (prependFcSync h msg sent).2.bytes = msg.bytes) ↔
      ¬ (h.ok .pushFcSync ∧ h.ok .pullFcSync = false)) ∧
    (((prependDtSync lim h table msg n).1 = -1 →
        (prependDtSync lim h table msg n).2.bytes = msg.bytes) ↔
      (Replayable lim table n → ¬ (h.ok .lookupScratch ∧ h.ok .pushDtSync ∧
        h.ok .pullDtSync = false))) ∧
    ((ForwardsUnreported lim cfg h ans conn bytes →
      (msgVerdict lim cfg h ans conn bytes).msg.bytes =
        syncPrefix (parse h ans conn) ans.table ++ bytes) ↔
      (ForwardsUnreported lim cfg h ans conn bytes →
        ¬ (h.ok .pushFcSync ∧ h.ok .pullFcSync = false))) := by
  refine ⟨prependFcSync_clean_iff h msg sent, prependDtSync_clean_iff lim h table msg n,
    forall_congr' fun hun ↦ ?_⟩
  rw [forwards_unreported hun, List.append_assoc]
  by_cases hpush : h.ok .pushFcSync = true
  · have hpull : h.ok .pullFcSync = false :=
      eq_false_of_ne_true fun hpull ↦ hun.2.2.2.2 ⟨hun.2.2.2.1, hpush, hpull⟩
    rw [if_pos hpush]
    exact ⟨fun heq ↦ absurd heq (prepended_ne (by simp)), fun hroom ↦ absurd ⟨hpush, hpull⟩ hroom⟩
  · rw [if_neg hpush, List.nil_append]
    exact ⟨fun _ hroom ↦ hpush hroom.1, fun _ ↦ rfl⟩

/-- A connection that eight bytes are still to be reported on: the store behind the push fails, and
user space gets thirteen bytes that nobody sent. -/
theorem report_left_room :
    let h := { allOk with ok := fun c ↦ c ≠ .pullFcSync }
    let conn : Conn := ⟨some h2Handshaked, some ⟨65527, 65535, 8⟩, some 0⟩
    let ans : Answers := ⟨10, false, none, none, ⟨3, 1, 5, 0⟩, []⟩
    let bytes : List UInt8 := [0, 0, 1, 1, 5, 0, 0, 0, 3, 0x83]
    let o := msgVerdict ⟨128, by decide⟩ ⟨fun _ ↦ .empty, fun _ ↦ none, fun _ ↦ 0⟩ h ans conn bytes
    prependFcSync h (.ofBytes bytes) 8 =
        (-1, .ofBytes (List.replicate 13 0 ++ bytes)) ∧
      o.verdict = .pass ∧ o.msg.redirect = some .ingress ∧
      o.msg.bytes = List.replicate 13 0 ++ bytes := by
  decide +kernel

end HyperFastPath.FastPath
