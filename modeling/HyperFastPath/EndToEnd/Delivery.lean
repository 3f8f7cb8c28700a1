import HyperFastPath.EndToEnd.UserSpace

/-!
# From the client to user space

What each step on a dummy does to the two ends of the connection, as long as the client sends whole
frames and every verdict ends between two of them.
-/

namespace HyperFastPath.EndToEnd

open Bytes Http2 FastPath Listener Segments

variable {lim : Limits} {cfg : Routes} {dec : Decoder} {fs : List Frame} {p : Pipe}

/-- The client sends its frames, each message a number of whole ones. -/
def SendsFrames (fs : List Frame) (p : Pipe) : Act → Prop
  | .send m => p.Accepts → p.sent ++ m.1 <+: (fs.map Frame.encode).flatten ∧
      Boundary (fs.map Frame.encode) (p.sent.length + m.1.length)
  | .run _ _ => True

/-- `parse_h2` answers with the length of the frame at the front of the message. -/
def MeasuresFront (p : Pipe) : Act → Prop
  | .send _ => True
  | .run _ ans => p.Pending → ∀ n ∈ frameLen p.buf, ans.ret = n

/-- Every verdict ends between two frames, and what is forwarded stays below `2 ^ 31` with what is
put ahead of it. -/
def VerdictsWhole (cfg : Routes) (fs : List Frame) (p : Pipe) : Act → Prop
  | .send _ => True
  | .run h ans => p.Pending → ∀ n ∈ frameLen p.buf,
      h.ok .pullFcSync ∧
      (¬ Serves cfg h ans p.conn p.buf →
        n + announced h ans p.conn + frontLen h ans p.conn < 2 ^ 31) ∧
      EndsBetween (fs.map Frame.encode) cfg p h ans n

instance (fs : List Frame) (p : Pipe) : (a : Act) → Decidable (SendsFrames fs p a)
  | .send _ => inferInstanceAs (Decidable (_ → _))
  | .run _ _ => isTrue trivial

instance (p : Pipe) : (a : Act) → Decidable (MeasuresFront p a)
  | .send _ => isTrue trivial
  | .run _ _ => inferInstanceAs (Decidable (_ → _))

instance (cfg : Routes) (fs : List Frame) (p : Pipe) :
    (a : Act) → Decidable (VerdictsWhole cfg fs p a)
  | .send _ => isTrue trivial
  | .run _ _ => inferInstanceAs (Decidable (_ → _))

/-- The two ends are between two frames. -/
structure Framing (dec : Decoder) (fs : List Frame) (p : Pipe) : Prop extends
    Pipe.Aligned (fs.map Frame.encode) p where
  whole : Boundary (fs.map Frame.encode) p.sent.length
  boundary : Boundary (fs.map Frame.encode) p.position
  egress : p.dir = .egress → p.left = 0
  h2 : p.dropped = false → p.conn.isH2
  settled : (walk .atHeader p.toUser).1.settle = (.atHeader, [])
  userRest : (userSpace dec p.toUser).rest = []
  clientRest : (client dec p.log).rest = []

/-- What a step does to the two ends. -/
inductive Moves (lim : Limits) (cfg : Routes) (dec : Decoder) (p : Pipe) : Act → Pipe → Prop
  | still {a : Act} {p' : Pipe} (huser : userSpace dec p'.toUser = userSpace dec p.toUser)
      (hclient : client dec p'.log = client dec p.log)
      (hconn : p'.dropped = true ∨ p'.dropped = p.dropped ∧ p'.conn = p.conn ∧ p'.left = p.left) :
      Moves lim cfg dec p a p'
  | passed {m : Message} {p' : Pipe} (fs : List Frame) (hacc : p.Accepts) (hleft : 0 < p.left)
      (hbytes : m.1.take p.left = encodeAll fs)
      (huser : userSpace dec p'.toUser = (userSpace dec p.toUser).frames dec true fs)
      (hclient : client dec p'.log = (client dec p.log).frames dec true fs) :
      Moves lim cfg dec p (.send m) p'
  | answered {h : Helpers} {ans : Answers} {p' : Pipe} (fs : List Frame) (n : Nat)
      (hpend : p.Pending) (hwhole : frameLen p.buf = some n)
      (hserves : Serves cfg h ans p.conn p.buf)
      (hbytes : p.buf.take (n + (announced h ans p.conn).toNat) = encodeAll fs)
      (huser : userSpace dec p'.toUser = userSpace dec p.toUser)
      (hclient : client dec p'.log = (client dec p.log).frames dec false fs)
      (hdirty : h.ok .setDirty → p'.conn.isDirty) (hleft : p'.left = 0) :
      Moves lim cfg dec p (.run h ans) p'
  | forwarded {h : Helpers} {ans : Answers} {p' : Pipe} (fs : List Frame)
      (block : Option (List UInt8)) (n : Nat) (hpend : p.Pending) (hwhole : frameLen p.buf = some n)
      (hserves : ¬ Serves cfg h ans p.conn p.buf) (hbytes : p.buf = encodeAll fs)
      (huser : userSpace dec p'.toUser =
        ((userSpace dec p.toUser).primed dec block).frames dec true fs)
      (hclient : client dec p'.log = (client dec p.log).frames dec true fs)
      (hclean : block = none → p.conn.isDirty = false)
      (hsync : ∀ b ∈ block, p.conn.isDirty ∧ Replayable lim ans.table ans.frame.dtCountBefore ∧
        b = syncBlock (ans.table.take ans.frame.dtCountBefore)) :
      Moves lim cfg dec p (.run h ans) p'

/-- Between two boundaries of the client's stream there are whole frames. -/
theorem frames_between {front part : List UInt8}
    (hsent : front ++ part <+: (fs.map Frame.encode).flatten)
    (hfront : Boundary (fs.map Frame.encode) front.length) {n : Nat}
    (hn : Boundary (fs.map Frame.encode) (front.length + n)) (hle : n ≤ part.length) :
    ∃ gs, part.take n = encodeAll gs ∧ ∀ g ∈ gs, g ∈ fs := by
  obtain ⟨k, l, h⟩ := hfront.between hn (Nat.le_add_right _ _)
  obtain ⟨rest, hrest⟩ := hsent
  rw [Nat.add_sub_cancel_left, ← hrest, List.append_assoc, List.drop_left,
    List.take_append_of_le_length hle] at h
  refine ⟨(fs.drop k).take l, ?_, fun g hg ↦ List.mem_of_mem_drop (List.mem_of_mem_take hg)⟩
  rw [h, encodeAll, List.flatMap_def, List.map_take, List.map_drop]

theorem Framing.opened (dec : Decoder) (fs : List Frame) {conn : Conn} (hh2 : conn.isH2) :
    Framing dec fs (opened conn) where
  toAligned := ⟨Nat.two_pow_pos 31, List.nil_prefix, fun _ ↦ rfl, .inr (boundary_zero _)⟩
  whole := boundary_zero _
  boundary := boundary_zero _
  egress := fun _ ↦ rfl
  h2 := fun _ ↦ hh2
  settled := rfl
  userRest := rfl
  clientRest := rfl

/-! ## 1. A message arrives -/

theorem Framing.send (hp : Framing dec fs p) (hfs : ∀ f ∈ fs, Foreign f) {m : Message}
    (hsend : SendsFrames fs p (.send m)) :
    Framing dec fs (p.step lim cfg (.send m)) ∧
      Moves lim cfg dec p (.send m) (p.step lim cfg (.send m)) := by
  by_cases hacc : p.Accepts
  swap
  · rw [step_send_idle hacc]
    exact ⟨hp, .still rfl rfl (.inr ⟨rfl, rfl, rfl⟩)⟩
  obtain ⟨hsends, hwhole⟩ := hsend hacc
  have haligned := hp.toAligned.send lim cfg hacc hsends
  have hposition := @position_send lim cfg p m hacc
  have hsent := @step_send_sent lim cfg p m hacc
  obtain ⟨hconn, -⟩ := @step_send_conn lim cfg p m hacc
  have hboundary := hposition ▸ hp.boundary
  have hwhole' : Boundary (fs.map Frame.encode) (p.step lim cfg (.send m)).sent.length := by
    rwa [hsent, List.length_append]
  have hegress : (p.step lim cfg (.send m)).dir = .egress →
      (p.step lim cfg (.send m)).left = 0 := by
    simp only [Pipe.step, if_pos hacc]
    intro hdir
    rw [hp.egress (by cases hd : p.dir <;> simp_all [Pipe.deliver]), Nat.zero_sub]
  have hh2 : (p.step lim cfg (.send m)).dropped = false →
      (p.step lim cfg (.send m)).conn.isH2 := fun _ ↦ by rw [hconn]; exact hp.h2 hacc.1
  by_cases hleft : p.left = 0
  · -- the whole message is left for the program
    have hstill : (p.step lim cfg (.send m)).toUser = p.toUser ∧
        client dec (p.step lim cfg (.send m)).log = client dec p.log ∧
        (p.step lim cfg (.send m)).dropped = p.dropped ∧ (p.step lim cfg (.send m)).left = p.left := by
      simp only [Pipe.step, if_pos hacc, hleft]
      cases p.dir <;> simp [Pipe.deliver, client]
    obtain ⟨huser, hclient, hdropped, hleft'⟩ := hstill
    exact ⟨⟨haligned, hwhole', hboundary, hegress, hh2, huser ▸ hp.settled, huser ▸ hp.userRest,
      hclient ▸ hp.clientRest⟩, .still (huser ▸ rfl) hclient (.inr ⟨hdropped, hconn, hleft'⟩)⟩
  · -- the last verdict still applies to some of it
    have hdir : p.dir = .ingress := by
      cases hd : p.dir with
      | ingress => rfl
      | egress => exact absurd (hp.egress hd) hleft
    set t := min p.left m.1.length with ht
    have hstep : (p.step lim cfg (.send m)).toUser = p.toUser ++ m.1.take t ∧
        (p.step lim cfg (.send m)).log = p.log ++ [⟨true, m.1.take t⟩] := by
      simp only [Pipe.step, if_pos hacc, hdir, Pipe.deliver]
      exact ⟨rfl, rfl⟩
    -- the verdict ends between two frames, and so does the message
    have hend : Boundary (fs.map Frame.encode) (p.sent.length + t) := by
      rcases Nat.le_total p.left m.1.length with hle | hle
      · rw [ht, Nat.min_eq_left hle, Pipe.sent, hacc.2, List.append_nil]
        exact hp.boundary
      · rw [ht, Nat.min_eq_right hle]
        exact hwhole
    obtain ⟨gs, hgs, hmem⟩ := frames_between hsends hp.whole hend (Nat.min_le_right _ _)
    have hne : gs ≠ [] := by
      rintro rfl
      have hpos := List.length_pos_iff.mpr m.2.1
      have hlen := congrArg List.length hgs
      rw [List.length_take, encodeAll_nil, List.length_nil] at hlen
      omega
    obtain ⟨hsettled, huser⟩ := @userSpace_append dec _ hp.settled hp.userRest [] (.inl rfl) none
      (by simp) _ hne fun g hg ↦ hfs g (hmem g hg)
    have hclient := client_append hp.clientRest true gs
    have hbytes : m.1.take p.left = encodeAll gs := by rw [← hgs, ht, ← List.take_eq_take_min]
    rw [← hgs] at hsettled huser hclient
    simp only [syncBytes, Option.map_none, Option.getD_none, List.nil_append] at hsettled huser
    rw [← hstep.1] at hsettled huser
    rw [← hstep.2] at hclient
    exact ⟨⟨haligned, hwhole', hboundary, hegress, hh2, hsettled,
      by rw [huser]; exact frames_rest gs hp.userRest,
      by rw [hclient]; exact frames_rest gs hp.clientRest⟩,
      .passed gs hacc (Nat.pos_of_ne_zero hleft) hbytes huser hclient⟩

/-! ## 2. The program is run -/

/-- Whatever of a message ends between two frames is a number of whole ones. -/
theorem Framing.take_buf (hp : Framing dec fs p) (hpend : p.Pending) {n : Nat}
    (hn : Boundary (fs.map Frame.encode) (p.consumed.length + n)) (hle : n ≤ p.buf.length) :
    ∃ gs, p.buf.take n = encodeAll gs ∧ ∀ g ∈ gs, g ∈ fs := by
  have hstart := hp.boundary
  rw [Pipe.position, hp.left hpend.2, Nat.add_zero] at hstart
  exact frames_between hp.sent hstart hn hle

theorem Framing.buf (hp : Framing dec fs p) (hpend : p.Pending) :
    ∃ gs, p.buf = encodeAll gs ∧ gs ≠ [] ∧ (∀ g ∈ gs, g ∈ fs) ∧ ∃ n, frameLen p.buf = some n := by
  obtain ⟨gs, hgs, hmem⟩ := hp.take_buf hpend
    (by rw [← List.length_append]; exact hp.whole) le_rfl
  rw [List.take_length] at hgs
  cases gs with
  | nil => exact absurd hgs hpend.2
  | cons f gs =>
    exact ⟨f :: gs, hgs, List.cons_ne_nil f gs, hmem, _,
      by rw [hgs, encodeAll_cons, frameLen_encode]⟩

/-- A run that leaves off between two frames keeps the client's stream in step. -/
theorem Framing.left_off (hp : Framing dec fs p) (hpend : p.Pending) {h : Helpers} {ans : Answers}
    {p' : Pipe} (hrun : RunEnds lim cfg p h ans p')
    (hnext : Boundary (fs.map Frame.encode)
      (p.consumed.length + (p.buf.length - p'.buf.length) + p'.left)) :
    p'.Aligned (fs.map Frame.encode) ∧ Boundary (fs.map Frame.encode) p'.sent.length ∧
      Boundary (fs.map Frame.encode) p'.position := by
  have hlen := congrArg List.length hrun.sent_eq
  have hle := hrun.buf_suffix.length_le
  simp only [Pipe.sent, List.length_append] at hlen
  have hposition : p.consumed.length + (p.buf.length - p'.buf.length) + p'.left = p'.position := by
    rw [Pipe.position]
    omega
  rw [hposition] at hnext
  refine ⟨hrun.aligned hp.toAligned hpend (.inr hnext), ?_, hnext⟩
  rw [hrun.sent_eq]
  exact hp.whole

/-- The table is handed over whenever it may be stale, and then it can be spelled out. -/
theorem syncPrefix_cases {h : Helpers} {ans : Answers} (hh2 : p.conn.isH2) (hret : 0 ≤ ans.ret)
    (hlen : 0 ≤ (parse h ans p.conn).msgLen)
    (hsync : syncPrefix (parse h ans p.conn) ans.table ≠ [] →
      Replayable lim ans.table (parse h ans p.conn).dtCount) :
    ∃ block, syncPrefix (parse h ans p.conn) ans.table = syncBytes block ∧
      (block = none → p.conn.isDirty = false) ∧
      ∀ b ∈ block, b.length ≤ maxSyncFrame ∧ p.conn.isDirty ∧
        Replayable lim ans.table ans.frame.dtCountBefore ∧
        b = syncBlock (ans.table.take ans.frame.dtCountBefore) := by
  obtain ⟨hstale, hcount⟩ := parse_h2_frame h hh2 hret
  have hh2' : (parse h ans p.conn).conn.isH2 = true := (parse_conn h ans p.conn).1.trans hh2
  cases hdirty : p.conn.isDirty with
  | false =>
    refine ⟨none, if_neg ?_, fun _ ↦ rfl, by simp⟩
    rw [hstale, hdirty]
    exact fun hc ↦ Bool.false_ne_true hc.2.2
  | true =>
    have hc : (parse h ans p.conn).conn.isH2 ∧ 0 ≤ (parse h ans p.conn).msgLen ∧
        (parse h ans p.conn).dtStale := ⟨hh2', hlen, by rw [hstale, hdirty]⟩
    have hreplay := hsync (syncPrefix_ne_nil_iff.mpr hc)
    rw [hcount] at hreplay
    refine ⟨some (syncBlock (ans.table.take ans.frame.dtCountBefore)), ?_, fun hnone ↦ ?_, ?_⟩
    · rw [syncPrefix, if_pos hc, hcount]
      rfl
    · cases hnone
    · intro b hb
      cases hb
      have hbody := lim.maxSyncBody_le
      have hwire := hreplay.2
      refine ⟨?_, rfl, hreplay, rfl⟩
      rw [syncBlock_length]
      simp only [maxSyncBuf, maxSyncFrame] at hbody ⊢
      omega

theorem Framing.run (hp : Framing dec fs p) (hfs : ∀ f ∈ fs, Foreign f) {h : Helpers}
    {ans : Answers} (hmeasure : MeasuresFront p (.run h ans))
    (hverdict : VerdictsWhole cfg fs p (.run h ans)) :
    Framing dec fs (p.step lim cfg (.run h ans)) ∧
      Moves lim cfg dec p (.run h ans) (p.step lim cfg (.run h ans)) := by
  by_cases hpend : p.Pending
  swap
  · rw [step_run_idle hpend]
    exact ⟨hp, .still rfl rfl (.inr ⟨rfl, rfl, rfl⟩)⟩
  have hh2 := hp.h2 hpend.1
  obtain ⟨gs, hgs, hne, hmem, n, hn⟩ := hp.buf hpend
  have hret := hmeasure hpend n hn
  obtain ⟨hpull, hlt, hends⟩ := hverdict hpend n hn
  -- unless its length overflows, the verdict reaches as far as the front frame and what it announces
  obtain ⟨hpos, hle⟩ := frameLen_bounds hn
  have hreach : 0 ≤ (parse h ans p.conn).msgLen →
      (parse h ans p.conn).msgLen.toNat = n + (announced h ans p.conn).toNat :=
    (parsed_len hret (by omega) hle hp.bounded).2
  have hrun := run_ends lim cfg h ans hpend hp.bounded
  generalize p.step lim cfg (.run h ans) = p' at hrun
  have hkept := hp.left_off hpend hrun
  cases hrun with
  | dropped conn =>
    have hstart := hp.boundary
    rw [Pipe.position] at hstart
    obtain ⟨haligned, hwhole, hnext⟩ := hkept (by simpa using hstart)
    refine ⟨⟨haligned, hwhole, hnext, hp.egress, fun hd ↦ ?_, hp.settled, hp.userRest,
      hp.clientRest⟩, .still rfl rfl (.inl rfl)⟩
    cases hd
  | upgraded hnew =>
    rw [Conn.isH2, hnew.1] at hh2
    cases hh2
  | answered response flow hnew hserves hposLen hfit =>
    -- the client's frames up to the end of the answered one are dealt with
    rw [EndsBetween, if_pos hserves, ← hreach hposLen.le] at hends
    obtain ⟨gs', hgs', -⟩ := hp.take_buf hpend hends hfit
    obtain ⟨haligned, hwhole, hnext⟩ := hkept (by
      rw [List.length_drop, Nat.sub_sub_self hfit]
      exact hends)
    have hclient := client_append hp.clientRest false gs'
    rw [← hgs'] at hclient
    refine ⟨⟨haligned, hwhole, hnext, fun _ ↦ rfl, fun _ ↦ ?_, hp.settled, hp.userRest, ?_⟩,
      .answered gs' n hpend hn hserves (hreach hposLen.le ▸ hgs') rfl hclient ?_ rfl⟩
    · exact (parse_conn h ans p.conn).1.trans hh2
    · rw [hclient]
      exact frames_rest gs' hp.clientRest
    · intro hset
      simp [Conn.isDirty, hh2, update, hset]
  | forwarded report msgLen size m flow hnew hserves hreport hsync hgrown hsize hm =>
    -- all the frames of the message go to user space, with a report and an update in front
    have hann : announced h ans p.conn = h2Announced h ans := by rw [announced, if_pos hh2]
    have hlt := hlt hserves
    rw [hann] at hlt
    have hnonneg := h2Announced_nonneg h ans
    have hlen := @parse_h2_len h ans _ hh2 (by omega) (by omega)
    rw [EndsBetween, if_neg hserves, ← hreach (by omega)] at hends
    have hgrown := (reportedLen_eq hh2 (by omega) (by omega) (by omega) hgrown).resolve_right
      fun hfail ↦ by rw [hpull] at hfail; cases hfail.1
    obtain ⟨haligned, hwhole, hnext⟩ := hkept (by
      simp only [List.length_nil, Nat.sub_zero]
      rw [hm, if_neg (by omega)]
      convert hends using 1
      omega)
    have hreport' : report = [] ∨ ∃ sent, report = fcSyncFrame sent := by
      rcases hreport with hnil | hsent | ⟨-, -, hfail⟩
      · exact .inl hnil
      · exact .inr hsent
      · rw [hpull] at hfail
        cases hfail
    obtain ⟨block, hblock, hclean, hdirty⟩ := syncPrefix_cases hh2 (by omega) (by omega) hsync
    rw [hblock] at haligned hwhole hnext ⊢
    obtain ⟨hsettled, huser⟩ := userSpace_append dec hp.settled hp.userRest hreport'
      (fun b hb ↦ (hdirty b hb).1) hne fun g hg ↦ hfs g (hmem g hg)
    have hclient := client_append hp.clientRest true gs
    rw [← hgs] at hsettled huser hclient
    have hprimed : ((userSpace dec p.toUser).primed dec block).rest = [] := by
      cases block <;> exact hp.userRest
    refine ⟨⟨haligned, hwhole, hnext, fun hdir ↦ ?_, fun _ ↦ ?_, hsettled, ?_, ?_⟩,
      .forwarded gs block n hpend hn hserves hgs huser hclient hclean fun b hb ↦ (hdirty b hb).2⟩
    · cases hdir
    · exact (parse_conn h ans p.conn).1.trans hh2
    · rw [huser]
      exact frames_rest gs hprimed
    · rw [hclient]
      exact frames_rest gs hp.clientRest

theorem Framing.step (hp : Framing dec fs p) (hfs : ∀ f ∈ fs, Foreign f) {a : Act}
    (hsend : SendsFrames fs p a) (hmeasure : MeasuresFront p a)
    (hverdict : VerdictsWhole cfg fs p a) :
    Framing dec fs (p.step lim cfg a) ∧ Moves lim cfg dec p a (p.step lim cfg a) := by
  cases a with
  | send m => exact hp.send hfs hsend
  | run h ans => exact hp.run hfs hmeasure hverdict

/-! ## 3. A small connection -/

/-- Strings count as long as they are coded. -/
def exampleDecoder : Decoder where
  len s := s.octets.length
  static := Hpack.staticTable
  capacity := 4096

/-- A request that leaves the table alone. -/
def plainHeaders (sid : UInt32) : Frame := ⟨headersKind, 5, sid, [0x84], by decide⟩

end HyperFastPath.EndToEnd
