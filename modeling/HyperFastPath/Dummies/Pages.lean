import HyperFastPath.Dummies.Connections
import HyperFastPath.FastPath.Pipelined

/-!
# Serving HTTP/1.1

What comes of the requests of a connection to the server, under all that the programs do.
-/

namespace HyperFastPath.Dummies

open FastPath

variable {su : Setup} {i : Nat} {acts : List Act} {maps : DummyMaps}
  {before after : List MachineEvent} {loc rem : SocketAddrV4} {ok : AddStep → Bool}

/-! ## 1. Runs of a pipe -/

/-- The front end of the server. -/
def Setup.frontEnd (su : Setup) : FrontEnd UInt8 := su.cfg.frontEnd su.parsers

/-- As long as helpers succeed, a pipe has done of its messages what the front end does of them, but
for what it is still working off. -/
structure Setup.Serving (su : Setup) (p : Pipe) (ms : List Message) : Prop where
  plain : p.OnHttp1
  done : su.frontEnd.finish p.tally p.buf = su.frontEnd.serve (ms.map fun m ↦ m.1)

theorem serving_step {p : Pipe} {ms : List Message} (hp : su.Serving p ms) {a : Act}
    (hdue : Due su.parsers Helpers.AllOk p a) :
    let ms' := ms ++ [a].filterMap Act.message?
    (su.frontEnd.serve (ms'.map fun m ↦ m.1)).switched = true ∨
      su.Serving (p.step su.lim su.cfg a) ms' := by
  intro ms'
  cases a with
  | send m =>
    obtain ⟨hplain, hdone⟩ := send_finish su.lim su.cfg su.parsers hp.plain hdue m
    right
    refine ⟨hplain, ?_⟩
    have hms : (ms'.map fun m ↦ m.1) = (ms.map fun m ↦ m.1) ++ [m.1] := List.map_append
    rw [hms, FrontEnd.serve_concat, ← hp.done]
    exact hdone
  | run h ans =>
    obtain ⟨hpend, hall, rfl⟩ := hdue
    -- on HTTP/1.1 it is the parser of HTTP/1.1 that is asked
    have hanswers : su.parsers.answers p = su.parsers.h1 p.buf := by
      rw [Parsers.answers, hp.plain.conn]
      rfl
    -- helpers that all succeed are told apart by nothing
    have hsame := step_same su.lim su.cfg (su.parsers.answers p) hall
      (show allOk.AllOk from fun _ ↦ rfl) p
    have hms : ms' = ms := List.append_nil ms
    rw [hsame, hanswers, hms, ← hp.done]
    rcases run_finish su.lim su.cfg su.parsers hp.plain hpend with
      hswitched | ⟨hplain, hdone⟩
    · exact .inl hswitched
    · exact .inr ⟨hplain, hdone.trans hp.done⟩

theorem serve_switched (f : FrontEnd UInt8) {ms : List (List UInt8)}
    (h : (f.serve ms).switched = true) (ms' : List (List UInt8)) :
    (f.serve (ms ++ ms')).switched = true := by
  induction ms' using List.reverseRecOn with
  | nil => simpa using h
  | append_singleton ms' m ih =>
    rw [← List.append_assoc, FrontEnd.serve_concat, FrontEnd.take_switched ih]
    exact ih

theorem due_serving
    (hdue : Runs.Along (Pipe.step su.lim su.cfg) (Due su.parsers Helpers.AllOk) .new acts) :
    let ms := acts.filterMap Act.message?
    (su.frontEnd.serve (ms.map fun m ↦ m.1)).switched = true ∨
      su.Serving (Runs.exec (Pipe.step su.lim su.cfg) .new acts) ms := by
  induction acts using List.reverseRecOn with
  | nil => exact .inr ⟨.new, FrontEnd.finish_nil _ _⟩
  | append_singleton acts a ih =>
    obtain ⟨hacts, ha⟩ := (Runs.Along.concat_iff _ _ _).mp hdue
    rw [List.filterMap_append, Runs.exec_concat]
    rcases ih hacts with hswitched | hserving
    · left
      rw [List.map_append]
      exact serve_switched _ hswitched _
    · exact serving_step hserving ha

/-! ## 2. Connections to the server -/

/-- What of the messages of a connection has reached its pipe: all but those that are queued. -/
theorem tenant_serving (hmaps : su.openDummies = .ok maps)
    (ht : Tenant su maps before after loc rem ok i) (hok : ∀ h, .msg i h ∈ after → h.AllOk) :
    let m := Runs.exec (Machine.step su) (.start su maps)
      (before ++ [.established loc rem true ok] ++ after)
    ∃ sent, sent ++ m.queues i = after.flatMap (MachineEvent.messages su (su.key loc rem)) ∧
      ((su.frontEnd.serve (sent.map fun m ↦ m.1)).switched = true ∨
        su.Serving (su.pipe m loc rem i) sent) := by
  intro m
  obtain ⟨-, -, acts, skipped, hf⟩ := tenant_pipe hmaps ht hok
  have hsent := hf.sent
  rcases due_serving hf.due with hswitched | hserving
  · refine ⟨acts.filterMap Act.message? ++ skipped, hsent, .inl ?_⟩
    rw [List.map_append]
    exact serve_switched _ hswitched _
  · rw [← hf.pipe] at hserving
    -- nothing has been skipped, as nothing has been dropped
    have hskip : skipped = [] := by
      refine hf.skips.resolve_right fun hdead ↦ ?_
      rw [hserving.plain.passes] at hdead
      cases hdead
    rw [hskip, List.append_nil] at hsent
    exact ⟨_, hsent, .inr hserving⟩

/-- However the programs, the backlog, the recycler and other connections go on: where no helper
fails in the runs for it, a connection to the server is served as the front end serves it, until
something other than HTTP/1.1 is spoken on it. What has been sent to the client and to user space,
and what they are still to get of the message that is being worked off, is what the front end makes
of the messages that have arrived and are not queued. -/
theorem programs_serve (hmaps : su.openDummies = .ok maps)
    (ht : Tenant su maps before after loc rem ok i) (hok : ∀ h, .msg i h ∈ after → h.AllOk) :
    let m := Runs.exec (Machine.step su) (.start su maps)
      (before ++ [.established loc rem true ok] ++ after)
    let p := su.pipe m loc rem i
    ∃ sent : List Message,
      sent ++ m.queues i = after.flatMap (MachineEvent.messages su (su.key loc rem)) ∧
      let t := su.frontEnd.serve (sent.map fun m ↦ m.1)
      t.switched = true ∨ p.dropped = false ∧ su.frontEnd.finish p.tally p.buf = t := by
  intro m p
  obtain ⟨sent, hsent, hend⟩ := tenant_serving hmaps ht hok
  exact ⟨sent, hsent, hend.imp_right fun hs ↦ ⟨hs.plain.passes, hs.done⟩⟩

theorem programs_serve_turn :
    let m := Runs.exec (Machine.step exampleSetup) (.start exampleSetup exampleMaps)
      (exampleTurn.take 4)
    let p := exampleSetup.pipe m (exampleHost 1 443) exampleClient 0
    p.dropped = false ∧ exampleSetup.frontEnd.finish p.tally p.buf =
      exampleSetup.frontEnd.serve [Http1.ascii "GET /a HTTP/1.1\r\n\r\n"] := by
  intro m p
  obtain ⟨sent, hsent, hend⟩ := programs_serve example_open exampleTurn_tenant exampleTurn_ok
  rw [exampleTurn_split] at hsent hend
  have hqueue : m.queues 0 = [] := by decide +kernel
  rw [hqueue, List.append_nil] at hsent
  rw [hsent] at hend
  exact hend.resolve_left (by decide +kernel)

/-- The request of the example. -/
def exampleRequest : ClientRequest where
  head := Http1.ascii "GET /a HTTP/1.1\r\n\r\n"
  path := Http1.ascii "/a"
  contentLength := none
  body := []
  head_ne := by decide
  short := by decide
  announced := rfl

theorem exampleRequest_found : exampleParsers.Finds exampleRequest where
  len _ := rfl
  path _ := rfl
  contentLength _ := rfl
  preface _ := rfl

end HyperFastPath.Dummies
