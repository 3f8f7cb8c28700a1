import HyperFastPath.EndToEnd.Socket
import HyperFastPath.FastPath.Alignment

/-!
# Responses over HTTP/1.1

A client need not wait for a response before it sends the next request.  Its requests are answered
by the fast path or by the server in user space, which answers them in the order it gets them, and
neither knows of what the other still has to write.
-/

namespace HyperFastPath.EndToEnd

open Bytes FastPath Segments

/-- `dealt` has the answer to each byte of the client's that a verdict has applied to, if there was
one.  `late` tells of the message being worked off that user space owed a response when it came. -/
structure Exchange extends Socket where
  dealt : List (Option (List UInt8))
  late : Bool
  deriving DecidableEq, Repr

def Exchange.new : Exchange := { toSocket := .new, dealt := [], late := false }

/-- The response to the `k`th request: the server's, unless the request was answered. -/
def reply (serve : Nat → List UInt8) (k : Nat) : Option (List UInt8) → Bool × List UInt8
  | none => (true, serve k)
  | some answer => (false, answer)

/-- The responses to the requests so far, in the order of the requests. -/
def Exchange.responses (us : List (List UInt8)) (serve : Nat → List UInt8) (s : Exchange) :
    List (Bool × List UInt8) :=
  (heads us s.dealt).mapIdx (reply serve)

/-- What the server writes: a response to each request that was handed over. -/
def Exchange.served (us : List (List UInt8)) (serve : Nat → List UInt8) (s : Exchange) :
    List UInt8 :=
  (Writers.ownOf (s.responses us serve)).flatten

/-- The response to a request that was handed over is not complete. -/
def Exchange.Owes (us : List (List UInt8)) (serve : Nat → List UInt8) (s : Exchange) : Prop :=
  s.out.written < (s.served us serve).length

instance (us : List (List UInt8)) (serve : Nat → List UInt8) (s : Exchange) :
    Decidable (s.Owes us serve) := inferInstanceAs (Decidable (_ < _))

/-- The answers to the bytes that a step of the dummy disposes of. -/
def Exchange.deals (lim : Limits) (cfg : Routes) (s : Exchange) (a : Act) :
    List (Option (List UInt8)) :=
  let answer := s.pipe.answers lim cfg a
  let done := (s.pipe.step lim cfg a).consumed.drop s.pipe.consumed.length
  List.replicate done.length (if answer = [] then none else some answer)

/-- A step of the dummy, where `serve` is what the server writes for each of the requests `us`. -/
def Exchange.act (lim : Limits) (cfg : Routes) (us : List (List UInt8)) (serve : Nat → List UInt8)
    (s : Exchange) (a : Act) : Exchange :=
  { s with
    toSocket := s.toSocket.step lim cfg (s.served us serve) (.dummy a)
    dealt := s.dealt ++ s.deals lim cfg a }

def Exchange.step (lim : Limits) (cfg : Routes) (us : List (List UInt8))
    (serve : Nat → List UInt8) (s : Exchange) : SocketAct → Exchange
  | .dummy (.send m) =>
    let s' := s.act lim cfg us serve (.send m)
    if s.pipe.Accepts then { s' with late := s'.Owes us serve } else s'
  | .dummy (.run h ans) => s.act lim cfg us serve (.run h ans)
  | .write accepted =>
    { s with toSocket := s.toSocket.step lim cfg (s.served us serve) (.write accepted) }

/-- The client sends nothing but its requests, in which the parser does not see the preface. -/
def SpeaksH1 (rs : List Http1.Request) (s : Exchange) : SocketAct → Prop
  | .dummy (.send m) => SendsFrom (requestSegments rs).flatten s.pipe (.send m)
  | .dummy (.run _ ans) => ans.preface = false
  | .write _ => True

/-- What is answered is one request, and if its message came while user space owed a response, that
is complete by now. -/
def AnswersInTurn (cfg : Routes) (rs : List Http1.Request) (serve : Nat → List UInt8)
    (s : Exchange) : SocketAct → Prop
  | .dummy (.run h ans) => s.pipe.Pending → Serves cfg h ans s.pipe.conn s.pipe.buf →
      Covers (requestSegments rs) s.pipe.consumed.length
        (s.pipe.consumed.length + (parse h ans s.pipe.conn).msgLen.toNat) ∧
      (s.late → ¬ s.Owes (requestSegments rs) serve)
  | _ => True

/-- No response starts while user space owes one. -/
def AnswersComplete (lim : Limits) (cfg : Routes) (us : List (List UInt8))
    (serve : Nat → List UInt8) (s : Exchange) : SocketAct → Prop
  | .dummy a => s.pipe.answers lim cfg a ≠ [] → ¬ s.Owes us serve
  | .write _ => True

instance (rs : List Http1.Request) (s : Exchange) : (a : SocketAct) → Decidable (SpeaksH1 rs s a)
  | .dummy (.send m) => inferInstanceAs (Decidable (SendsFrom _ s.pipe (.send m)))
  | .dummy (.run _ _) => inferInstanceAs (Decidable (_ = _))
  | .write _ => isTrue trivial

instance (cfg : Routes) (rs : List Http1.Request) (serve : Nat → List UInt8) (s : Exchange) :
    (a : SocketAct) → Decidable (AnswersInTurn cfg rs serve s a)
  | .dummy (.run _ _) => inferInstanceAs (Decidable (_ → _ → _))
  | .dummy (.send _) => isTrue trivial
  | .write _ => isTrue trivial

variable {lim : Limits} {cfg : Routes} {rs : List Http1.Request} {serve : Nat → List UInt8}
  {us : List (List UInt8)} {s : Exchange} {items : List (Bool × List UInt8)}
  {rest : List (List UInt8)} {n : Nat}

variable (us serve) in
theorem responses_forwarded (s s' : Exchange) (m : Nat)
    (h : s'.dealt = s.dealt ++ List.replicate m none) :
    ∃ more : List (List UInt8),
      s'.responses us serve = s.responses us serve ++ more.map fun b ↦ (true, b) := by
  obtain ⟨ds, hds, hnone⟩ := heads_append us s.dealt (List.replicate m none)
  refine ⟨ds.mapIdx fun k _ ↦ serve (k + (heads us s.dealt).length), ?_⟩
  rw [Exchange.responses, Exchange.responses, h, hds, List.mapIdx_append]
  congr 1
  apply List.ext_getElem (by simp)
  intro k hk _
  rw [List.length_mapIdx] at hk
  simp [List.eq_of_mem_replicate (hnone _ (List.getElem_mem hk)), reply]

variable (serve) in
theorem responses_answered (hne : ∀ u ∈ us, u ≠ []) (s s' : Exchange) {m : Nat}
    {answer : List UInt8} (hcovers : Covers us s.dealt.length (s.dealt.length + m))
    (h : s'.dealt = s.dealt ++ List.replicate m (some answer)) :
    s'.responses us serve = s.responses us serve ++ [(false, answer)] := by
  rw [Exchange.responses, Exchange.responses, h, heads_covers hne hcovers, List.mapIdx_append]
  rfl

/-! ## 1. What a step deals out -/

variable (lim cfg) in
theorem send_answers {p : Pipe} (hreg : p.Regular) (m : Message) :
    p.answers lim cfg (.send m) = [] := by
  rw [Pipe.answers, send_toClient lim cfg hreg m, List.drop_length]

variable (lim cfg) in
/-- A run answers a request, or it leaves nothing of the message. -/
theorem run_answers {p : Pipe} {h : Helpers} {ans : Answers} (hreg : p.Regular)
    (hplain : ans.preface = false) :
    (p.answers lim cfg (.run h ans) = [] ∧ ¬ (p.step lim cfg (.run h ans)).Pending) ∨
      (p.Pending ∧ Serves cfg h ans p.conn p.buf ∧ p.answers lim cfg (.run h ans) ≠ [] ∧
        (p.step lim cfg (.run h ans)).consumed.length =
          p.consumed.length + (parse h ans p.conn).msgLen.toNat) := by
  by_cases hp : p.Pending
  swap
  · left
    rw [Pipe.answers, step_run_idle hp]
    exact ⟨List.drop_length, hp⟩
  have hrun := run_settles lim cfg h ans hp hreg.bounded
  unfold Pipe.answers
  generalize p.step lim cfg (.run h ans) = p' at hrun
  cases hrun with
  | dropped => exact .inl ⟨List.drop_length, fun hpend ↦ by cases hpend.1⟩
  | upgraded hnew => exact absurd hnew.2.2 (by simp [hplain])
  | @answered i hnew hserves hroute =>
    obtain ⟨-, -, hsuits, -⟩ := answeringRoute_suits hroute
    refine .inr ⟨hp, hserves, ?_, ?_⟩
    · apply List.ne_nil_of_length_pos
      rw [List.drop_left, response_length]
      exact Nat.pos_of_ne_zero hsuits.1
    · have hfit := hsuits.2.2.2.2
      simp only [Pipe.consumed, List.flatMap_append, List.length_append, List.flatMap_cons,
        List.flatMap_nil, List.append_nil, List.length_take]
      omega
  | forwarded => exact .inl ⟨List.drop_length, fun hpend ↦ hpend.2 rfl⟩

/-! ## 2. Responses in their order -/

/-- The socket has the responses in the order of the requests, up to one that user space is at. -/
structure InTurn (us : List (List UInt8)) (serve : Nat → List UInt8) (s : Exchange)
    (items : List (Bool × List UInt8)) (rest : List (List UInt8)) (n : Nat) : Prop extends
    Writers.Orderly id (Writers.ownOf (s.responses us serve)) s.out items rest n where
  regular : s.pipe.Regular
  dealt : s.dealt.length = s.pipe.consumed.length
  responses : s.responses us serve = items ++ rest.map fun b ↦ (true, b)
  answers : (Writers.putOf items).flatten = s.pipe.toClient

/-- What is left of a message that came while nothing was owed comes before all that is. -/
def Exchange.Prompt (us : List (List UInt8)) (serve : Nat → List UInt8) (s : Exchange) : Prop :=
  s.pipe.Pending → s.late = false → ¬ s.Owes us serve

theorem InTurn.new (us : List (List UInt8)) (serve : Nat → List UInt8) :
    InTurn us serve .new [] [] 0 := by
  have hnone : Exchange.new.responses us serve = [] := by
    simp [Exchange.responses, Exchange.new]
  refine ⟨?_, .new, rfl, hnone, rfl⟩
  rw [hnone]
  exact .new id []

theorem InTurn.write (h : InTurn us serve s items rest n) (accepted : Nat) :
    InTurn us serve (s.step lim cfg us serve (.write accepted)) items rest
      (n + (((rest.flatMap id).drop n).take accepted).length) := by
  have hwrite := h.toOrderly.write accepted
  rw [List.flatMap_id (L := Writers.ownOf _)] at hwrite
  exact ⟨hwrite, h.regular, h.dealt, h.responses, h.answers⟩

theorem act_dealt (hreg : s.pipe.Regular) (hdealt : s.dealt.length = s.pipe.consumed.length)
    (a : Act) : (s.act lim cfg us serve a).dealt.length =
      (s.act lim cfg us serve a).pipe.consumed.length := by
  have hle := (step_consumed lim cfg s.pipe a hreg.bounded).length_le
  simp only [Exchange.act, Exchange.deals, Socket.step, List.length_append, List.length_replicate,
    List.length_drop]
  omega

/-- Requests are handed over. -/
theorem InTurn.forwards (h : InTurn us serve s items rest n) {a : Act}
    (hnone : s.pipe.answers lim cfg a = []) :
    ∃ rest', InTurn us serve (s.act lim cfg us serve a) items rest' n := by
  have hclient := (step_responds lim cfg a h.regular).2
  rw [hnone, List.append_nil] at hclient
  have hdealt : (s.act lim cfg us serve a).dealt =
      s.dealt ++ List.replicate (s.deals lim cfg a).length none := by
    simp [Exchange.act, Exchange.deals, hnone]
  obtain ⟨more, hmore⟩ := responses_forwarded serve us s _ _ hdealt
  refine ⟨rest ++ more, ?_, step_regular lim cfg h.regular, act_dealt h.regular h.dealt a, ?_,
    h.answers.trans hclient.symm⟩
  · rw [hmore, Writers.ownOf_append, Writers.ownOf_own]
    simpa [Exchange.act, Socket.step, hnone, Writers.Shared.put] using h.toOrderly.extend more
  · rw [hmore, h.responses, List.map_append, List.append_assoc]

/-- A request is answered while user space owes nothing. -/
theorem InTurn.answers_one (h : InTurn us serve s items rest n) (hne : ∀ u ∈ us, u ≠ []) {a : Act}
    {m : Nat} (howes : ¬ s.Owes us serve) (hanswer : s.pipe.answers lim cfg a ≠ [])
    (hcovers : Covers us s.pipe.consumed.length (s.pipe.consumed.length + m))
    (hlen : (s.pipe.step lim cfg a).consumed.length = s.pipe.consumed.length + m) :
    ¬ (s.act lim cfg us serve a).Owes us serve ∧
      ∃ items' rest' n', InTurn us serve (s.act lim cfg us serve a) items' rest' n' := by
  have hclient := (step_responds lim cfg a h.regular).2
  rw [← h.dealt] at hcovers
  have hdealt : (s.act lim cfg us serve a).dealt =
      s.dealt ++ List.replicate m (some (s.pipe.answers lim cfg a)) := by
    simp only [Exchange.act, Exchange.deals, if_neg hanswer, List.length_drop, hlen,
      Nat.add_sub_cancel_left]
  have hresponses := responses_answered serve hne s _ hcovers hdealt
  have hown : Writers.ownOf ((s.act lim cfg us serve a).responses us serve) =
      Writers.ownOf (s.responses us serve) := by
    rw [hresponses, Writers.ownOf_append]
    exact List.append_nil _
  -- all that user space has to write is there
  have hwhole : ((rest.take rest.length).flatMap id).length = n := by
    have hle := h.le
    rw [Exchange.Owes, Exchange.served, h.responses, Writers.ownOf_append, Writers.ownOf_own,
      List.flatten_append, List.length_append, h.written, List.flatMap_id] at howes
    rw [List.flatMap_id] at hle
    rw [List.take_length, List.flatMap_id]
    omega
  have hput := h.toOrderly.put_at hwhole [s.pipe.answers lim cfg a]
  rw [List.take_length, List.drop_length, List.flatMap_singleton, id] at hput
  refine ⟨?_, items ++ rest.map (fun b ↦ (true, b)) ++ [(false, s.pipe.answers lim cfg a)], [], 0,
    ?_, step_regular lim cfg h.regular, act_dealt h.regular h.dealt a, ?_, ?_⟩
  · rw [Exchange.Owes, Exchange.served, hown]
    exact howes
  · rw [hown]
    exact hput
  · rw [hresponses, h.responses]
    simp
  · have hone : Writers.putOf [(false, s.pipe.answers lim cfg a)] = [s.pipe.answers lim cfg a] :=
      Writers.putOf_put [s.pipe.answers lim cfg a]
    simp only [Writers.putOf_append, Writers.putOf_own, hone, List.append_nil, List.flatten_append,
      h.answers, List.flatten_singleton]
    exact hclient.symm

/-- Nothing but the responses is on the wire, in the order of the requests. -/
theorem InTurn.on_wire (h : InTurn us serve s items rest n) :
    s.out.wire <+: ((s.responses us serve).map Prod.snd).flatten := by
  have hwire := h.toOrderly.whole
  rwa [List.flatMap_id, ← h.responses] at hwire

/-- A message that is not taken on changes nothing. -/
theorem act_idle {m : Message} (hacc : ¬ s.pipe.Accepts) :
    s.act lim cfg us serve (.send m) = s := by
  simp [Exchange.act, Exchange.deals, Socket.step, Pipe.answers, step_send_idle hacc,
    Writers.Shared.put]

theorem InTurn.late (h : InTurn us serve s items rest n) (late : Bool) :
    InTurn us serve { s with late } items rest n :=
  ⟨h.toOrderly, h.regular, h.dealt, h.responses, h.answers⟩

theorem requestSegments_ne_nil (u : List UInt8) (hu : u ∈ requestSegments rs) : u ≠ [] := by
  obtain ⟨r, -, rfl⟩ := List.mem_map.mp hu
  have hle := (Http1.headLen_bounds r.whole).1
  rw [Http1.Request.encode]
  exact List.append_ne_nil_of_left_ne_nil (List.ne_nil_of_length_pos (by omega)) _

/-- What every step keeps. -/
def Exchange.Ordered (us : List (List UInt8)) (serve : Nat → List UInt8) (s : Exchange) : Prop :=
  s.Prompt us serve ∧ ∃ items rest n, InTurn us serve s items rest n

theorem Exchange.Ordered.new (us : List (List UInt8)) (serve : Nat → List UInt8) :
    Exchange.new.Ordered us serve :=
  ⟨fun hpend ↦ absurd rfl hpend.2, [], [], 0, .new us serve⟩

theorem ordered_step (s : Exchange) (a : SocketAct) (hs : s.Ordered (requestSegments rs) serve)
    (ha : SpeaksH1 rs s a ∧ AnswersInTurn cfg rs serve s a) :
    AnswersComplete lim cfg (requestSegments rs) serve s a ∧
      (s.step lim cfg (requestSegments rs) serve a).Ordered (requestSegments rs) serve := by
  obtain ⟨hprompt, items, rest, n, h⟩ := hs
  obtain ⟨hclient, hturn⟩ := ha
  cases a with
  | write accepted =>
    refine ⟨trivial, fun hpend hlate ↦ ?_, items, rest, _, h.write accepted⟩
    have howes := hprompt hpend hlate
    rw [Exchange.Owes] at howes ⊢
    exact fun hlt ↦ howes ((Nat.le_add_right _ _).trans_lt hlt)
  | dummy a =>
  cases a with
  | send m =>
    have hnone := send_answers lim cfg h.regular m
    refine ⟨fun hne ↦ absurd hnone hne, ?_⟩
    unfold Exchange.step
    by_cases hacc : s.pipe.Accepts
    · obtain ⟨rest', hforwards⟩ := h.forwards hnone
      simp only [if_pos hacc]
      exact ⟨fun _ ↦ of_decide_eq_false, items, rest', n, hforwards.late _⟩
    · simp only [if_neg hacc, act_idle hacc]
      exact ⟨hprompt, items, rest, n, h⟩
  | run h' ans =>
    rcases run_answers lim cfg (h := h') h.regular hclient with
      ⟨hnone, hidle⟩ | ⟨hpend, hserves, hanswer, hlen⟩
    · obtain ⟨rest', hforwards⟩ := h.forwards hnone
      exact ⟨fun hne ↦ absurd hnone hne, fun hpend ↦ absurd hpend hidle, items, rest', n, hforwards⟩
    · obtain ⟨hcovers, hlate⟩ := hturn hpend hserves
      -- a message that was prompt when it came is so until a request in it is handed over
      have howes : ¬ s.Owes (requestSegments rs) serve := by
        cases hl : s.late with
        | false => exact hprompt hpend hl
        | true => exact hlate hl
      obtain ⟨howes', hanswers⟩ := h.answers_one requestSegments_ne_nil howes hanswer hcovers hlen
      exact ⟨fun _ ↦ howes, fun _ _ ↦ howes', hanswers⟩

/-- Where a client's requests are answered one by one, and none of those that came while user space
owed a response before that is complete, the responses are in the order of the requests, and no
answer starts before the responses of user space ahead of it are complete. -/
theorem responses_in_order {acts : List SocketAct}
    (hclient : Runs.Along (Exchange.step lim cfg (requestSegments rs) serve) (SpeaksH1 rs) .new acts)
    (hturn : Runs.Along (Exchange.step lim cfg (requestSegments rs) serve)
      (AnswersInTurn cfg rs serve) .new acts) :
    let s := Runs.exec (Exchange.step lim cfg (requestSegments rs) serve) .new acts
    let responses := s.responses (requestSegments rs) serve
    s.out.wire <+: (responses.map Prod.snd).flatten ∧
      (Writers.putOf responses).flatten = s.pipe.toClient ∧
      Runs.Along (Exchange.step lim cfg (requestSegments rs) serve)
        (AnswersComplete lim cfg (requestSegments rs) serve) .new acts := by
  intro s responses
  have hboth := (Runs.Along.and _ _).mpr ⟨hclient, hturn⟩
  obtain ⟨-, items, rest, n, h⟩ : s.Ordered (requestSegments rs) serve :=
    hboth.preserves (fun s a hs ha ↦ (ordered_step s a hs ha).2) (.new _ serve)
  have hresponses : responses = items ++ rest.map fun b ↦ (true, b) := h.responses
  refine ⟨h.on_wire, ?_, hboth.of_invariant (fun s a hs ha ↦ (ordered_step s a hs ha).2)
    (fun s a hs ha ↦ (ordered_step s a hs ha).1) (.new _ serve)⟩
  rw [hresponses, Writers.putOf_append, Writers.putOf_own, List.append_nil]
  exact h.answers

/-! ## 3. Two requests without waiting -/

def getRequest : Http1.Request :=
  ⟨Http1.ascii "GET / HTTP/1.1\r\n\r\n", .none, by decide +kernel⟩

theorem getRoute_whole :
    Http1.headLen (Http1.ascii "GET /a HTTP/1.1\r\n\r\n") =
      some (Http1.ascii "GET /a HTTP/1.1\r\n\r\n").length := by
  decide

def getRoute : Http1.Request := ⟨Http1.ascii "GET /a HTTP/1.1\r\n\r\n", .none, getRoute_whole⟩

def answersOk (_ : Nat) : List UInt8 := Http1.ascii "OK"

open Http1 in
/-- The first message has a request that is answered and one that is not.  The second one comes while
the response to that is written, and is worked off once it is. -/
theorem responses_in_order_waited :
    let rs := [getRoute, getRequest, getRoute]
    let acts : List SocketAct := [
      .dummy (.send ⟨ascii "GET /a HTTP/1.1\r\n\r\nGET / HTTP/1.1\r\n\r\n", by decide +kernel⟩),
      .dummy (.run allOk (parsedHead 19 none (some (ascii "/a")))),
      .dummy (.run allOk (parsedHead 18 none none)), .write 1,
      .dummy (.send ⟨ascii "GET /a HTTP/1.1\r\n\r\n", by decide +kernel⟩), .write 1,
      .dummy (.run allOk (parsedHead 19 none (some (ascii "/a"))))]
    let step := Exchange.step exampleLimits exampleRoutes (requestSegments rs) answersOk
    let s := Runs.exec step .new acts
    let responses := s.responses (requestSegments rs) answersOk
    s.out.wire <+: (responses.map Prod.snd).flatten ∧
      (Writers.putOf responses).flatten = s.pipe.toClient ∧
      Runs.Along step (AnswersComplete exampleLimits exampleRoutes (requestSegments rs) answersOk)
        .new acts :=
  responses_in_order (by decide +kernel) (by decide +kernel)

open Http1 in
/-- The second request is answered before the server has written its response to the first one. -/
theorem response_overtakes :
    let rs := [getRequest, getRoute]
    let acts : List Act := [
      .send ⟨ascii "GET / HTTP/1.1\r\n\r\n", by decide +kernel⟩,
      .run allOk (parsedHead 18 none none),
      .send ⟨ascii "GET /a HTTP/1.1\r\n\r\n", by decide +kernel⟩,
      .run allOk (parsedHead 19 none (some (ascii "/a")))]
    let step := Exchange.step exampleLimits exampleRoutes (requestSegments rs) answersOk
    let s := Runs.exec step .new (acts.map .dummy ++ [.write 2])
    Runs.Along (Pipe.step exampleLimits exampleRoutes)
        (fun p a ↦ SendsFrom (requestSegments rs).flatten p a ∧ ParsersHonest p a) .new acts ∧
      (s.responses (requestSegments rs) answersOk).map Prod.snd = [ascii "OK", ascii "HTTP/"] ∧
      s.out.wire = ascii "HTTP/" ++ ascii "OK" ∧
      ¬ s.out.wire <+: ((s.responses (requestSegments rs) answersOk).map Prod.snd).flatten := by
  decide +kernel

end HyperFastPath.EndToEnd
