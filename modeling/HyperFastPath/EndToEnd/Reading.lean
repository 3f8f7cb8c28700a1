import HyperFastPath.EndToEnd.Order
import HyperFastPath.FastPath.SlowPath

/-!
# What a client reads

Over HTTP/1.1 it is the method of a request that tells a client where the response to it ends, so
that a client which reads responses one after the other depends on their order, and on each of them
being one to a request with its method.
-/

namespace HyperFastPath.EndToEnd

open Bytes FastPath Segments Http1

/-- What happens on the dummy. -/
def SocketAct.acts : SocketAct → List Act
  | .dummy a => [a]
  | .write _ => []

/-- The server's response to a request says where it ends. -/
def ServesDelimited (coded : List UInt8 → Option (List UInt8 × List UInt8)) (rs : List Request)
    (serve : Nat → List UInt8) : Prop :=
  ∀ (k : Nat) (r : Request), rs[k]? = some r → ∃ reply, Delimited coded r.method (serve k) reply

/-- Nothing but the responses is on the wire, in the order of the requests, and a client that reads
the first `n` of them, each as one to its request, is where the next one starts. -/
def Exchange.ReadsOn (coded : List UInt8 → Option (List UInt8 × List UInt8)) (rs : List Request)
    (serve : Nat → List UInt8) (s : Exchange) : Prop :=
  let responses := s.responses (requestSegments rs) serve
  s.out.wire <+: (responses.map Prod.snd).flatten ∧
    ∀ n ≤ responses.length, ((responses.take n).map Prod.snd).flatten <+: s.out.wire →
      ∃ replies, readResponses coded ((rs.take n).map Request.method) s.out.wire =
        some (replies, s.out.wire.drop ((responses.take n).map Prod.snd).flatten.length)

/-- The answers so far say where they end to a client that knows what it has asked for. -/
structure Exchange.Readable (coded : List UInt8 → Option (List UInt8 × List UInt8))
    (rs : List Request) (s : Exchange) : Prop where
  plain : s.pipe.conn.isH2 = false
  sent : s.pipe.sent <+: (requestSegments rs).flatten
  each : ∀ (k : Nat) (answer : List UInt8) (r : Request),
    (heads (requestSegments rs) s.dealt)[k]? = some (some answer) → rs[k]? = some r →
      ∃ reply, Delimited coded r.method answer reply

variable {coded : List UInt8 → Option (List UInt8 × List UInt8)}
  {fields : List UInt8 → List HeaderField → List (List UInt8 × List UInt8)}
  {huffman : List UInt8 → List UInt8} {routes : List (List UInt8 × File)} {dummies : Nat}
  {a : Attached} {lim : Limits} {cfg : Routes} {rs : List Request} {serve : Nat → List UInt8}
  {s : Exchange} {p : Pipe}

/-! ## 1. The request that is answered -/

theorem takeWhile_of_prefix {α : Type*} {q : α → Bool} {xs ys : List α} (h : xs <+: ys)
    (hlen : (ys.takeWhile q).length < xs.length) : xs.takeWhile q = ys.takeWhile q := by
  obtain ⟨rest, rfl⟩ := h
  rw [List.takeWhile_append] at hlen ⊢
  split at hlen
  · rw [List.length_append] at hlen
    omega
  · rename_i hshort
    rw [if_neg hshort]

/-- The request that starts where the program is run is what the message starts with. -/
theorem request_prefix (hsent : p.sent <+: (requestSegments rs).flatten) {k : Nat} {r : Request}
    (hr : rs[k]? = some r)
    (hstart : ((requestSegments rs).take k).flatten.length = p.consumed.length)
    (hlen : r.encode.length ≤ p.buf.length) : r.encode <+: p.buf := by
  have hk : k < (requestSegments rs).length := by
    rw [requestSegments, List.length_map]
    exact (List.getElem?_eq_some_iff.mp hr).1
  have hget : (requestSegments rs)[k] = r.encode := by
    obtain ⟨hlt, rfl⟩ := List.getElem?_eq_some_iff.mp hr
    exact List.getElem_map _
  have hsplit : (requestSegments rs).flatten = ((requestSegments rs).take k).flatten ++
      (r.encode ++ ((requestSegments rs).drop (k + 1)).flatten) := by
    rw [← hget, ← List.flatten_cons, ← List.flatten_append, ← List.drop_eq_getElem_cons hk,
      List.take_append_drop]
  rw [hsplit, Pipe.sent] at hsent
  have hfront : p.consumed = ((requestSegments rs).take k).flatten :=
    (List.prefix_of_prefix_length_le ((List.prefix_append _ _).trans hsent)
      (List.prefix_append _ _) hstart.ge).eq_of_length hstart.symm
  rw [hfront, List.prefix_append_right_inj] at hsent
  exact List.prefix_of_prefix_length_le (List.prefix_append _ _) hsent hlen

/-- The client knows it for a request with the method that is found in the message. -/
theorem request_method {r : Request} (hr : r.encode <+: p.buf)
    (hget : p.buf.takeWhile (· ≠ 0x20) = ascii "GET") : r.method = ascii "GET" := by
  rw [Request.method, ← hget]
  refine takeWhile_of_prefix ((List.prefix_append _ _).trans hr) ?_
  rw [hget]
  exact Nat.lt_of_lt_of_le (by decide) (headLen_bounds r.whole).1

/-! ## 2. What every step keeps -/

theorem Exchange.Readable.new (coded : List UInt8 → Option (List UInt8 × List UInt8))
    (rs : List Request) : Exchange.new.Readable coded rs :=
  ⟨rfl, List.nil_prefix, fun k answer r h ↦ by simp [Exchange.new] at h⟩

theorem heads_left {us : List (List UInt8)} {ds : List (Option (List UInt8))} {m k : Nat}
    {answer : List UInt8}
    (h : (heads us (ds ++ List.replicate m none))[k]? = some (some answer)) :
    (heads us ds)[k]? = some (some answer) := by
  obtain ⟨more, hmore, hnone⟩ := heads_append us ds (List.replicate m none)
  rw [hmore] at h
  by_cases hk : k < (heads us ds).length
  · rwa [List.getElem?_append_left hk] at h
  · rw [List.getElem?_append_right (Nat.le_of_not_lt hk)] at h
    exact absurd (List.eq_of_mem_replicate (hnone _ (List.mem_of_getElem? h))) (by simp)

theorem step_plain (hplain : p.conn.isH2 = false) {act : Act}
    (hpreface : ∀ h ans, act = .run h ans → ans.preface = false) :
    (p.step lim cfg act).conn.isH2 = false := by
  cases act with
  | send m =>
    by_cases hacc : p.Accepts
    · rwa [(step_send_conn lim cfg hacc).1]
    · rwa [step_send_idle hacc]
  | run h ans =>
    by_cases hpend : p.Pending
    · have hnew : ¬ SeesPreface ans p.conn := fun hnew ↦ by
        have hsees := hnew.2.2
        rw [hpreface h ans rfl] at hsees
        cases hsees
      rwa [step_conn hpend, msgVerdict_isH2 hnew]
    · rwa [step_run_idle hpend]

theorem step_sends_from (hreg : p.Regular) {stream : List UInt8} (hsent : p.sent <+: stream) {act : Act}
    (hclient : SendsFrom stream p act) : (p.step lim cfg act).sent <+: stream := by
  cases act with
  | send m =>
    by_cases hacc : p.Accepts
    · rw [step_send_sent lim cfg hacc]
      exact hclient hacc
    · rwa [step_send_idle hacc]
  | run h ans =>
    by_cases hpend : p.Pending
    · rwa [(run_ends lim cfg h ans hpend hreg.bounded).sent_eq]
    · rwa [step_run_idle hpend]

/-- An answer says where it ends, as one to a GET. -/
theorem answers_delimited (ha : a.Of huffman routes) (hreg : p.Regular)
    (hplain : p.conn.isH2 = false) {act : Act} (hget : AsksByGet fields a.cfg p act)
    (hanswer : p.answers lim a.cfg act ≠ []) :
    ∃ reply, Delimited coded (ascii "GET") (p.answers lim a.cfg act) reply ∧
      p.buf.takeWhile (· ≠ 0x20) = ascii "GET" := by
  have hstream : AsksOnStream p act := by
    cases act with
    | send m => trivial
    | run h ans =>
      intro hh2
      rw [hplain] at hh2
      cases hh2
  have hagrees : ∀ x ∈ answered fields lim a.cfg p act, x.Agrees coded huffman routes :=
    answered_agrees ha hreg hget hstream
  cases act with
  | send m => exact absurd (send_answers lim a.cfg hreg m) hanswer
  | run h ans =>
    unfold Pipe.answers at hanswer ⊢
    rw [answered, if_neg hanswer, List.forall_mem_singleton] at hagrees
    obtain ⟨hmethod, path, file, content, -, -, -, hsays⟩ := hagrees
    simp only [Answered.Says, hplain, Bool.false_eq_true, if_false] at hsays hmethod
    rw [hmethod] at hsays
    rw [Pipe.method, hplain, if_neg Bool.false_ne_true] at hmethod
    exact ⟨_, hsays, hmethod⟩

/-- The condition for the answers to be in order, and the one for them to be the server's. -/
def ReadsSteps (fields : List UInt8 → List HeaderField → List (List UInt8 × List UInt8))
    (cfg : Routes) (rs : List Request) (serve : Nat → List UInt8) (s : Exchange) (x : SocketAct) :
    Prop :=
  (SpeaksH1 rs s x ∧ AnswersInTurn cfg rs serve s x) ∧
    ∀ act ∈ x.acts, AsksByGet fields cfg s.pipe act

/-- An answer is dealt to the request that starts where the program is run. -/
theorem act_answers {items : List (Bool × List UInt8)} {rest : List (List UInt8)} {n : Nat}
    {h : Helpers} {ans : Answers} (hturn : InTurn (requestSegments rs) serve s items rest n)
    (hsent : s.pipe.sent <+: (requestSegments rs).flatten)
    (hstep : AnswersInTurn cfg rs serve s (.dummy (.run h ans))) (hplain : ans.preface = false)
    (hanswer : s.pipe.answers lim cfg (.run h ans) ≠ []) :
    heads (requestSegments rs) (s.act lim cfg (requestSegments rs) serve (.run h ans)).dealt =
        heads (requestSegments rs) s.dealt ++ [some (s.pipe.answers lim cfg (.run h ans))] ∧
      ∀ r, rs[(heads (requestSegments rs) s.dealt).length]? = some r → r.encode <+: s.pipe.buf := by
  rcases run_answers lim cfg (h := h) hturn.regular hplain with
    ⟨hnone, -⟩ | ⟨hpend, hserves, -, hlen⟩
  · exact absurd hnone hanswer
  obtain ⟨⟨j, hj, hstart, hend⟩, -⟩ := hstep hpend hserves
  have hcovers : Covers (requestSegments rs) s.dealt.length
      (s.dealt.length + (parse h ans s.pipe.conn).msgLen.toNat) := by
    rw [hturn.dealt]
    exact ⟨j, hj, hstart, hend⟩
  have hdeals : s.deals lim cfg (.run h ans) =
      List.replicate (parse h ans s.pipe.conn).msgLen.toNat
        (some (s.pipe.answers lim cfg (.run h ans))) := by
    simp only [Exchange.deals, if_neg hanswer, List.length_drop, hlen, Nat.add_sub_cancel_left]
  refine ⟨?_, fun r hr ↦ ?_⟩
  · rw [← heads_covers requestSegments_ne_nil hcovers, ← hdeals]
    rfl
  · rw [heads_length_at requestSegments_ne_nil hj.le (hturn.dealt.trans hstart.symm)] at hr
    refine request_prefix hsent hr hstart ?_
    -- it is as long as what is parsed, which lies in the message
    obtain ⟨hlt, rfl⟩ := List.getElem?_eq_some_iff.mp hr
    have hsame := length_of_covers hj hstart hend
    rw [show (requestSegments rs)[j] = rs[j].encode from List.getElem_map _] at hsame
    obtain ⟨i, hroute⟩ := hserves.route
    have hfit := (answeringRoute_suits hroute).2.2.1.2.2.2.2
    omega

theorem Exchange.Readable.act (ha : a.Of huffman routes) (h : s.Readable coded rs)
    (hs : s.Ordered (requestSegments rs) serve) {act : Act}
    (hstep : ReadsSteps fields a.cfg rs serve s (.dummy act)) :
    (s.act lim a.cfg (requestSegments rs) serve act).Readable coded rs := by
  obtain ⟨-, items, rest, n, hturn⟩ := hs
  obtain ⟨⟨hclient, hcovered⟩, hget⟩ := hstep
  rw [SocketAct.acts, List.forall_mem_singleton] at hget
  have hplain : (s.pipe.step lim a.cfg act).conn.isH2 = false :=
    step_plain h.plain fun h ans hact ↦ by rw [hact] at hclient; exact hclient
  have hsent : (s.pipe.step lim a.cfg act).sent <+: (requestSegments rs).flatten := by
    refine step_sends_from hturn.regular h.sent ?_
    cases act with
    | send m => exact hclient
    | run h ans => trivial
  refine ⟨hplain, hsent, fun k answer r hhead hr ↦ ?_⟩
  by_cases hnone : s.pipe.answers lim a.cfg act = []
  · simp only [Exchange.act, Exchange.deals, if_pos hnone] at hhead
    exact h.each k answer r (heads_left hhead) hr
  obtain ⟨reply, hdelimited, hmethod⟩ : ∃ reply, Delimited coded _ _ reply ∧ _ :=
    answers_delimited ha hturn.regular h.plain hget hnone
  cases act with
  | send m => exact absurd (send_answers lim a.cfg hturn.regular m) hnone
  | run h' ans =>
    obtain ⟨hheads, hrequest⟩ := act_answers hturn h.sent hcovered hclient hnone
    rw [hheads] at hhead
    rcases Nat.lt_trichotomy k (heads (requestSegments rs) s.dealt).length with hlt | rfl | hgt
    · rw [List.getElem?_append_left hlt] at hhead
      exact h.each k answer r hhead hr
    -- the request that is answered now
    · rw [List.getElem?_append_right le_rfl, Nat.sub_self, List.getElem?_cons_zero,
        Option.some.injEq, Option.some.injEq] at hhead
      rw [request_method (hrequest r hr) hmethod, ← hhead]
      exact ⟨reply, hdelimited⟩
    · have hlt := (List.getElem?_eq_some_iff.mp hhead).1
      rw [List.length_append, List.length_singleton] at hlt
      omega

theorem readable_step (ha : a.Of huffman routes) (s : Exchange) (x : SocketAct)
    (hs : s.Ordered (requestSegments rs) serve ∧ s.Readable coded rs)
    (hstep : ReadsSteps fields a.cfg rs serve s x) :
    (s.step lim a.cfg (requestSegments rs) serve x).Ordered (requestSegments rs) serve ∧
      (s.step lim a.cfg (requestSegments rs) serve x).Readable coded rs := by
  refine ⟨(ordered_step s x hs.1 hstep.1).2, ?_⟩
  cases x with
  | write accepted => exact ⟨hs.2.plain, hs.2.sent, hs.2.each⟩
  | dummy act =>
    have hact : (s.act lim a.cfg (requestSegments rs) serve act).Readable coded rs :=
      hs.2.act ha hs.1 hstep
    cases act with
    | run h ans => exact hact
    | send m =>
      unfold Exchange.step
      simp only
      split
      · exact ⟨hact.plain, hact.sent, hact.each⟩
      · exact hact

/-! ## 3. Reading responses off the wire -/

/-- Each response says where it ends to a client that takes it for the one to its request. -/
theorem Exchange.Readable.delimited (h : s.Readable coded rs)
    (hserve : ServesDelimited coded rs serve) {k : Nat} {r : Request} (hr : rs[k]? = some r)
    {x : Bool × List UInt8} (hx : (s.responses (requestSegments rs) serve)[k]? = some x) :
    ∃ reply, Delimited coded r.method x.2 reply := by
  rw [Exchange.responses, List.getElem?_mapIdx] at hx
  obtain ⟨d, hd, rfl⟩ := Option.map_eq_some_iff.mp hx
  cases d with
  | none => exact hserve k r hr
  | some answer => exact h.each k answer r hd hr

theorem Exchange.Readable.readsOn (h : s.Readable coded rs)
    (hs : s.Ordered (requestSegments rs) serve) (hserve : ServesDelimited coded rs serve) :
    s.ReadsOn coded rs serve := by
  obtain ⟨-, items, rest, n, hturn⟩ := hs
  refine ⟨hturn.on_wire, fun n hn hwire ↦ ?_⟩
  generalize hresponses : s.responses (requestSegments rs) serve = responses at hn hwire
  -- there are no more responses than requests
  have hcount : responses.length ≤ rs.length := by
    rw [← hresponses, Exchange.responses, List.length_mapIdx]
    refine (heads_length_le _ _).trans_eq ?_
    rw [requestSegments, List.length_map]
  let pairs := ((rs.take n).map Request.method).zip ((responses.take n).map Prod.snd)
  have hlen : ((rs.take n).map Request.method).length = ((responses.take n).map Prod.snd).length := by
    simp only [List.length_map, List.length_take]
    omega
  have hmethods : pairs.map Prod.fst = (rs.take n).map Request.method :=
    List.map_fst_zip hlen.le
  have hbodies : pairs.flatMap Prod.snd = ((responses.take n).map Prod.snd).flatten := by
    rw [List.flatMap_def, List.map_snd_zip hlen.ge]
  have hpairs : ∀ x ∈ pairs, ∃ reply, Delimited coded x.1 x.2 reply := by
    intro x hx
    obtain ⟨k, hk⟩ := List.mem_iff_getElem?.mp hx
    obtain ⟨hmethod, hresponse⟩ := List.getElem?_zip_eq_some.mp hk
    rw [List.getElem?_map, Option.map_eq_some_iff] at hmethod hresponse
    obtain ⟨r, hr, hmethod⟩ := hmethod
    obtain ⟨y, hy, hresponse⟩ := hresponse
    rw [← hmethod, ← hresponse]
    rw [← hresponses] at hy
    have hfront {α : Type} {l : List α} {c : α} (hc : (l.take n)[k]? = some c) : l[k]? = some c := by
      rw [List.getElem?_take] at hc
      split at hc
      · exact hc
      · cases hc
    exact h.delimited hserve (hfront hr) (hfront hy)
  obtain ⟨left, hleft⟩ := hwire
  obtain ⟨replies, hread⟩ := readResponses_flatMap hpairs left
  rw [hmethods, hbodies, hleft] at hread
  refine ⟨replies, ?_⟩
  rw [hread, ← hleft, List.drop_left]

theorem exchange_pipe (us : List (List UInt8)) (s : Exchange) (x : SocketAct) :
    (s.step lim cfg us serve x).pipe = Runs.exec (Pipe.step lim cfg) s.pipe x.acts := by
  cases x with
  | write accepted => rfl
  | dummy act =>
    cases act with
    | run h ans => rfl
    | send m =>
      unfold Exchange.step
      simp only
      split <;> rfl

/-- What holds of the runs on the dummy holds of them as steps of the exchange. -/
theorem along_exchange {P : Pipe → Act → Prop} (us : List (List UInt8)) {sacts : List SocketAct}
    (h : Runs.Along (Pipe.step lim cfg) P .new (sacts.flatMap SocketAct.acts)) :
    Runs.Along (Exchange.step lim cfg us serve) (fun s x ↦ ∀ act ∈ x.acts, P s.pipe act) .new
      sacts := by
  refine ((Runs.Along.view_iff (fun s : Exchange ↦ s.pipe) SocketAct.acts (exchange_pipe us) .new
    sacts).mp h).imp fun s x hx act hact ↦ ?_
  cases x with
  | write accepted => cases hact
  | dummy act' =>
    rw [SocketAct.acts, List.mem_singleton] at hact
    rw [hact]
    exact hx.1

/-- A message with a request for `/a`, and what is parsed of it. -/
def plainRequest (m : Message) (n : Int) : List Act :=
  [.send m, .run allOk (parsedHead n none (some (ascii "/a")))]

def headRequest : Request :=
  ⟨ascii "HEAD / HTTP/1.1\r\n\r\n", .none, by decide +kernel⟩

/-- What the server writes for a head, and for what it does not find. -/
def servedHead : Nat → List UInt8
  | 0 => ascii "HTTP/1.1 200 OK\r\nContent-Length: 5\r\n\r\n"
  | _ => ascii "HTTP/1.1 404 Not Found\r\nContent-Length: 0\r\n\r\n"

theorem servedHead_delimited :
    ServesDelimited (fun _ ↦ none) [headRequest, getRoute] servedHead := by
  have hhead : Delimited (fun _ ↦ none) (ascii "HEAD")
      ((ascii "HTTP/1.1 200 OK" :: [ascii "Content-Length: 5"]).flatMap (· ++ crlf) ++ crlf)
      ⟨200, []⟩ := delimited_of_head (by decide) (by decide)
  have hlength : field "content-length" [ascii "Content-Length: 0"] = some (ascii "0") := by decide
  have hget : Delimited (fun _ ↦ none) (ascii "GET")
      ((ascii "HTTP/1.1 404 Not Found" :: [ascii "Content-Length: 0"]).flatMap (· ++ crlf) ++ crlf ++
        []) ⟨404, []⟩ :=
    delimited_of_lines (by decide) (by decide) (by decide) (by decide) hlength (by decide)
  intro k r hr
  rcases k with _ | _ | k
  · rw [List.getElem?_cons_zero, Option.some.injEq] at hr
    have hmethod : r.method = ascii "HEAD" := by
      rw [← hr]
      decide
    rw [hmethod, show servedHead 0 =
      (ascii "HTTP/1.1 200 OK" :: [ascii "Content-Length: 5"]).flatMap (· ++ crlf) ++ crlf by decide]
    exact ⟨_, hhead⟩
  · rw [List.getElem?_cons_succ, List.getElem?_cons_zero, Option.some.injEq] at hr
    have hmethod : r.method = ascii "GET" := by
      rw [← hr]
      decide
    rw [hmethod, show servedHead 1 =
      (ascii "HTTP/1.1 404 Not Found" :: [ascii "Content-Length: 0"]).flatMap (· ++ crlf) ++ crlf ++
        [] by decide]
    exact ⟨_, hget⟩
  · rw [List.getElem?_eq_none (by simp)] at hr
    cases hr

end HyperFastPath.EndToEnd
