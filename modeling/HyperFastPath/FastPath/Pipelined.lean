import HyperFastPath.FastPath.Determined
import HyperFastPath.Lib.FrontEnd

/-!
# Answering HTTP/1.1

What the program is there for on a connection that speaks HTTP/1.1, and that this is what it does.
The requests for a route at the front of a message are answered with the pages of the routes, and
the rest of the message is left to user space.
-/

namespace HyperFastPath.FastPath

variable {lim : Limits} {cfg : Routes} {ps : Parsers} {ans : Answers} {p : Pipe} {h : Helpers}
  {buf : List UInt8}

/-! ## 1. The front end -/

/-- What a path is answered with over HTTP/1.1. -/
def Routes.page (cfg : Routes) (path : List UInt8) : Option (List UInt8) :=
  (cfg.find path).bind fun i ↦
    let r := cfg.routes i
    if r.bodyLen ≠ 0 ∧ r.bodyLen ≤ maxRouteBody then some (r.response cfg.arena 0) else none

/-- The length of the request at the front of a message with its body, and not positive where the
parser finds none or cannot tell. -/
def Answers.requestLen (ans : Answers) : Int :=
  if 0 < ans.ret then addContentLength allOk ans.ret ans.contentLength else ans.ret

/-- What is to be done about a message on a connection that speaks HTTP/1.1. -/
def Routes.react (cfg : Routes) (ps : Parsers) (buf : List UInt8) : Reaction UInt8 :=
  let ans := ps.h1 buf
  let len := ans.requestLen
  if 0 < ans.ret ∧ ans.preface then .switches
  else
    -- the rest of the connection, where there is no telling how long the request is
    let span := if len ≤ 0 then 0xFFFFFFFF else len.toNat
    -- a body that has not all arrived yet is not waited for
    match ans.path.bind cfg.page with
    | some page => if 0 < len ∧ len ≤ buf.length then .answers len.toNat page else .handsOver span
    | none => .handsOver span

theorem react_consumes (len : Nat) (response : List UInt8)
    (h : cfg.react ps buf = .answers len response) : 0 < len := by
  unfold Routes.react at h
  simp only at h
  split at h
  · cases h
  split at h
  · split at h
    · rename_i hpos
      cases h
      omega
    · cases h
  · cases h

def Routes.frontEnd (cfg : Routes) (ps : Parsers) : FrontEnd UInt8 where
  react := cfg.react ps
  consumes _ := react_consumes

/-! ## 2. What the checks of a run come to -/

theorem parse_new_path (ans : Answers) (hlen : 0 < ans.requestLen) :
    (parse allOk ans .new).path = ans.path := by
  have hret : 0 < ans.ret := by
    unfold Answers.requestLen at hlen
    split at hlen
    · assumption
    · exact hlen
  exact if_pos hret

/-- Neither the window nor the table has a say. -/
theorem suited_page (path : List UInt8) {len size : Nat} (hlen : 0 < len) :
    ((cfg.suited none path 0 len size).map fun i ↦ (cfg.routes i).response cfg.arena 0) =
      if len ≤ size then cfg.page path else none := by
  unfold Routes.suited Routes.page
  cases cfg.find path with
  | none => simp
  | some i =>
    have hsuits : (cfg.routes i).Suits none 0 len size ↔
        ((cfg.routes i).bodyLen ≠ 0 ∧ (cfg.routes i).bodyLen ≤ maxRouteBody) ∧ len ≤ size := by
      simp only [Route.Suits, ne_eq, not_true_eq_false, if_false, false_implies, true_and]
      constructor
      · rintro ⟨hne, hle, -, hfit⟩
        exact ⟨⟨hne, hle⟩, hfit⟩
      · rintro ⟨⟨hne, hle⟩, hfit⟩
        exact ⟨hne, hle, by omega, hfit⟩
    rw [Option.filter_some]
    by_cases hfit : len ≤ size
    · by_cases hbody : (cfg.routes i).bodyLen ≠ 0 ∧ (cfg.routes i).bodyLen ≤ maxRouteBody
      · simp [hsuits, hfit, hbody]
      · simp only [hsuits, hbody, false_and, decide_false]
        simp [hfit, hbody]
    · simp [hsuits, hfit]

variable (cfg) in
/-- The route a run answers with is the one whose page is due. -/
theorem answering_page (ans : Answers) (buf : List UInt8) :
    ((answeringRoute cfg allOk ans .new buf).map fun i ↦ (cfg.routes i).response cfg.arena 0) =
      if 0 < ans.requestLen ∧ ans.requestLen ≤ buf.length then ans.path.bind cfg.page
      else none := by
  by_cases hlen : 0 < ans.requestLen
  swap
  · have hnone : answeringRoute cfg allOk ans .new buf = none := if_neg fun hc ↦ hlen hc.2
    simp [hnone, hlen]
  have hpath := parse_new_path ans hlen
  -- over HTTP/1.1 there is no table that could be out of step
  have hcan : (parse allOk ans .new).CanServe ↔ ans.path.isSome := by
    rw [Parsed.CanServe, hpath]
    exact ⟨fun hc ↦ hc.1, fun hsome ↦ ⟨hsome, (fun hh2 ↦ by cases hh2), Nat.zero_le _⟩⟩
  have hfits : ans.requestLen ≤ buf.length ↔ ans.requestLen.toNat ≤ buf.length := by omega
  simp only [hlen, true_and, hfits]
  cases hp : ans.path with
  | none =>
    have hnone : answeringRoute cfg allOk ans .new buf = none :=
      if_neg fun hc ↦ by simpa [hp] using hcan.mp hc.1
    simp [hnone]
  | some path =>
    have hroute : answeringRoute cfg allOk ans .new buf =
        cfg.suited none path 0 ans.requestLen.toNat buf.length := by
      rw [answeringRoute, if_pos ⟨hcan.mpr (by rw [hp]; rfl), hlen⟩, hpath, hp]
      rfl
    rw [hroute, Option.bind_some]
    exact suited_page path (by omega)

theorem react_switches (hsees : SeesPreface (ps.h1 buf) .new) :
    cfg.react ps buf = .switches := if_pos hsees.2

theorem react_answers (hnew : ¬ SeesPreface (ps.h1 buf) .new) {i : Fin maxRoutes}
    (hroute : answeringRoute cfg allOk (ps.h1 buf) .new buf = some i) :
    cfg.react ps buf = .answers (ps.h1 buf).requestLen.toNat
      ((cfg.routes i).response cfg.arena 0) := by
  have hpage := answering_page cfg (ps.h1 buf) buf
  rw [hroute, Option.map_some] at hpage
  split at hpage
  · rename_i hfit
    unfold Routes.react
    simp only
    rw [if_neg fun hsees ↦ hnew ⟨rfl, hsees⟩, ← hpage]
    exact if_pos hfit
  · cases hpage

theorem react_handsOver (hnew : ¬ SeesPreface (ps.h1 buf) .new)
    (hnone : answeringRoute cfg allOk (ps.h1 buf) .new buf = none) :
    cfg.react ps buf = .handsOver
      (if (ps.h1 buf).requestLen ≤ 0 then 0xFFFFFFFF else (ps.h1 buf).requestLen.toNat) := by
  have hpage := answering_page cfg (ps.h1 buf) buf
  rw [hnone, Option.map_none] at hpage
  unfold Routes.react
  simp only
  rw [if_neg fun hsees ↦ hnew ⟨rfl, hsees⟩]
  split
  · rename_i hsome
    rw [hsome] at hpage
    split at hpage
    · cases hpage
    · rename_i hfit
      rw [if_neg hfit]
  · rfl

/-! ## 3. The program is the front end -/

/-- What has come of a pipe so far. -/
def Pipe.tally (p : Pipe) : Tally UInt8 :=
  { toClient := p.toClient, toServer := p.toUser, left := p.left, switched := false }

/-- A connection that speaks HTTP/1.1 and has nothing held against it.  Nothing of what is being
worked off has been covered by a verdict. -/
structure Pipe.OnHttp1 (p : Pipe) : Prop where
  regular : p.Regular
  conn : p.conn = .new
  passes : p.dropped = false
  uncovered : p.buf ≠ [] → p.left = 0

theorem Pipe.OnHttp1.new : Pipe.new.OnHttp1 := ⟨.new, rfl, rfl, fun hne ↦ absurd rfl hne⟩

variable (lim cfg ps) in
/-- A run either finds something else spoken or does what the front end does. -/
theorem run_finish (hp : p.OnHttp1) (hpend : p.Pending) :
    let f := cfg.frontEnd ps
    let p' := p.step lim cfg (.run allOk (ps.h1 p.buf))
    (f.finish p.tally p.buf).switched = true ∨
      p'.OnHttp1 ∧ f.finish p'.tally p'.buf = f.finish p.tally p.buf := by
  intro f p'
  have hall : allOk.AllOk := fun _ ↦ rfl
  have hne := hpend.2
  have hreg' : p'.Regular := step_regular lim cfg hp.regular
  have hrun : RunSettles lim cfg p allOk (ps.h1 p.buf) p' :=
    run_settles lim cfg allOk _ hpend hp.regular.bounded
  have hconn := hp.conn
  clear_value p'
  cases hrun with
  | dropped hcause =>
    -- there is no table that could be stale
    obtain ⟨-, hsync⟩ := hcause hall
    rw [hconn] at hsync
    exact absurd (fun hne ↦ absurd rfl hne) hsync
  | upgraded hnew =>
    left
    rw [hconn] at hnew
    rw [FrontEnd.finish_switches hne (react_switches hnew)]
  | @answered i hnew hserves hroute =>
    right
    rw [hconn] at hnew hroute
    have hstep := FrontEnd.finish_answers (f := f) (t := p.tally) hne (react_answers hnew hroute)
    refine ⟨⟨hreg', ?_, hp.passes, fun _ ↦ rfl⟩, ?_⟩
    · simp only [hconn]
      rfl
    · rw [hstep]
      simp only [Pipe.tally, hconn, hp.uncovered hne]
      rfl
  | forwarded size n hnew hdecl hsync hsize hn =>
    right
    rw [hconn] at hnew hsize hn
    have hnone : answeringRoute cfg allOk (ps.h1 p.buf) .new p.buf = none := by
      -- what is forwarded is what no route was found for
      have hserves := hdecl.not_serves
      rw [serves_iff hall, hconn] at hserves
      simpa using hserves
    have hstep := FrontEnd.finish_handsOver (f := f) (t := p.tally) hne (react_handsOver hnew hnone)
    refine ⟨⟨hreg', ?_, hp.passes, fun hbuf ↦ absurd rfl hbuf⟩, ?_⟩
    · simp only [hconn]
      rfl
    · rw [hstep, FrontEnd.finish_nil]
      have hfront : runFront allOk (ps.h1 p.buf) p.conn = [] := by rw [hconn]; rfl
      have hlen : forwardedLen allOk (ps.h1 p.buf) .new = (ps.h1 p.buf).requestLen := rfl
      have hsize' : size = p.buf.length := by rw [hsize, Nat.add_eq_right]; rfl
      -- the verdict covers the message, and the span what follows it
      have hleft : n - size = (if (ps.h1 p.buf).requestLen ≤ 0 then 0xFFFFFFFF
          else (ps.h1 p.buf).requestLen.toNat) - p.buf.length := by
        rw [hn, hlen, hsize']
        split <;> omega
      simp only [Pipe.tally, hfront, hleft, List.nil_append]

variable (lim cfg ps) in
/-- A message that is sent is one more for the front end. -/
theorem send_finish (hp : p.OnHttp1) (hacc : p.Accepts) (m : Message) :
    let f := cfg.frontEnd ps
    let p' := p.step lim cfg (.send m)
    p'.OnHttp1 ∧ f.finish p'.tally p'.buf = f.take (f.finish p.tally p.buf) m.1 := by
  intro f p'
  have hreg' : p'.Regular := step_regular lim cfg hp.regular
  have hstep : p' = { p.deliver p.dir (m.1.take (min p.left m.1.length)) with
      buf := m.1.drop (min p.left m.1.length)
      left := p.left - min p.left m.1.length
      log := p.log ++ [⟨p.dir = .ingress, m.1.take (min p.left m.1.length)⟩] } := if_pos hacc
  have hbuf : p'.buf = m.1.drop p.left := by
    rw [hstep]
    exact List.drop_eq_drop_iff.mpr (by omega)
  have htake : m.1.take (min p.left m.1.length) = m.1.take p.left := by
    rw [List.take_eq_take_iff]
    omega
  -- an answer covers nothing of what is still to come
  have htally : p'.tally = { p.tally with
      toServer := p.toUser ++ m.1.take p.left, left := p.left - m.1.length } := by
    rw [hstep, htake]
    cases hdir : p.dir with
    | ingress =>
      simp only [Pipe.tally, Pipe.deliver, Tally.mk.injEq, true_and, and_true]
      omega
    | egress =>
      have hleft := hp.regular.egress hdir
      simp [Pipe.tally, Pipe.deliver, hleft]
  refine ⟨⟨hreg', ?_, ?_, fun hne ↦ ?_⟩, ?_⟩
  · rw [(step_send_conn lim cfg (p := p) hacc).1, hp.conn]
  · rw [hstep]
    cases p.dir <;> exact hp.passes
  · -- what is left over has not been covered
    rw [hbuf, ne_eq, List.drop_eq_nil_iff] at hne
    have hleft : p'.left = p.left - m.1.length := congrArg Tally.left htally
    omega
  · rw [hacc.2, FrontEnd.finish_nil, hbuf, htally]
    rfl

/-! ## 4. Whole requests -/

/-- A request of a client: its head up to the blank line, what it announces, and its body. -/
structure ClientRequest where
  head : List UInt8
  path : List UInt8
  contentLength : Option (List UInt8)
  body : List UInt8
  head_ne : head ≠ []
  short : (head ++ body).length < 2 ^ 31
  announced : announcedLen allOk contentLength = body.length

def ClientRequest.wire (r : ClientRequest) : List UInt8 := r.head ++ r.body

/-- The parser finds the request at the front of a message, whatever follows it: it returns the
length of the head, with what it captured. -/
structure Parsers.Finds (ps : Parsers) (r : ClientRequest) : Prop where
  len : ∀ rest, (ps.h1 (r.wire ++ rest)).ret = r.head.length
  path : ∀ rest, (ps.h1 (r.wire ++ rest)).path = some r.path
  contentLength : ∀ rest, (ps.h1 (r.wire ++ rest)).contentLength = r.contentLength
  preface : ∀ rest, (ps.h1 (r.wire ++ rest)).preface = false

theorem requestLen_wire {r : ClientRequest} (hr : ps.Finds r) (rest : List UInt8) :
    (ps.h1 (r.wire ++ rest)).requestLen = r.wire.length := by
  have hpos := List.length_pos_iff.mpr r.head_ne
  have hshort := r.short
  have hbody := r.announced
  rw [List.length_append] at hshort
  have hret : 0 < (ps.h1 (r.wire ++ rest)).ret := by
    rw [hr.len]
    omega
  -- the sum does not overflow, as the request is short
  have hlen : addContentLength allOk r.head.length r.contentLength =
      r.head.length + announcedLen allOk r.contentLength :=
    addContentLength_eq (by omega) (by omega)
  rw [Answers.requestLen, if_pos hret, hr.len, hr.contentLength, hlen, hbody, ClientRequest.wire,
    List.length_append]
  omega

/-- What the program answers of whole requests, and what it leaves alone. -/
theorem sees_request {r : ClientRequest} (hr : ps.Finds r) :
    (cfg.frontEnd ps).Sees ClientRequest.wire (fun r ↦ cfg.page r.path) r := by
  have hlen := requestLen_wire hr
  have hwire : 0 < r.wire.length := by
    have hpos := List.length_pos_iff.mpr r.head_ne
    rw [ClientRequest.wire, List.length_append]
    omega
  have hreact (rest : List UInt8) : cfg.react ps (r.wire ++ rest) =
      match cfg.page r.path with
      | some page => .answers r.wire.length page
      | none => .handsOver r.wire.length := by
    -- the request is all there, whatever follows it
    have hfit : (0 : Int) < r.wire.length ∧
        (r.wire.length : Int) ≤ (r.wire ++ rest).length := by
      rw [List.length_append]
      omega
    unfold Routes.react
    simp only [hr.preface, Bool.false_eq_true, and_false, if_false, hr.path, Option.bind_some, hlen]
    rw [if_neg (show ¬ (r.wire.length : Int) ≤ 0 by omega), Int.toNat_natCast]
    cases cfg.page r.path with
    | none => rfl
    | some page => exact if_pos hfit
  refine ⟨List.ne_nil_of_length_pos hwire, fun response hpage rest ↦ ?_, fun hnone rest ↦ ?_⟩
  · have hrest := hreact rest
    rw [show cfg.page r.path = some response from hpage] at hrest
    exact hrest
  · have hrest := hreact rest
    rw [show cfg.page r.path = none from hnone] at hrest
    refine ⟨_, hrest, ?_⟩
    rw [List.length_append]
    exact Nat.le_add_right _ _

end HyperFastPath.FastPath
