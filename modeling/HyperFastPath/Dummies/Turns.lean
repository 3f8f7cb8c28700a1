import HyperFastPath.Dummies.Connections

/-!
# Getting on

Whatever arrives on a connection is worked off, as long as the backlog and `msg_verdict` get their
turns on its dummy.
-/

namespace HyperFastPath.Dummies

open FastPath

variable {su : Setup} {m : Machine} {i : Nat} {key : Ip4Conn} {messages : List Message}

/-! ## 1. What a turn takes away -/

/-- What a message comes to: one for being sent, and one for each byte of it. -/
def messageCost (m : Message) : Nat := 1 + m.1.length

/-- What is still to be done on dummy `i`, and one for the drop that would end it. -/
def System.waiting (i : Nat) (s : System) : Nat :=
  let d := s.dummies i
  (d.queue.map messageCost).sum + d.psock.buf.length + if d.psock.dead then 0 else 1

/-- Whether the event is a turn on dummy `i` that finds something to do. -/
def System.turn (i : Nat) (s : System) : SystemEvent → Nat
  | .backlog j => if j = i ∧ ¬ (s.dummies i).psock.Busy ∧ (s.dummies i).queue ≠ [] then 1 else 0
  | .run j _ => if j = i ∧ (s.dummies i).psock.Busy then 1 else 0
  | _ => 0

/-- What arrives with the event. -/
def arrival (key : Ip4Conn) (e : SystemEvent) : Nat := ((messagesOf key e).map messageCost).sum

/-- What is still to be done on a pipe. -/
def pipeWaiting (p : Pipe) : Nat := p.buf.length + if p.dropped then 0 else 1

theorem waiting_eq (s : System) (key : Ip4Conn) (i : Nat) :
    s.waiting i = ((s.dummies i).queue.map messageCost).sum + pipeWaiting (s.pipe key i) :=
  Nat.add_assoc _ _ _

theorem turn_le (s : System) (e : SystemEvent) : s.turn i e ≤ 1 := by
  cases e with
  | backlog j => rw [System.turn]; split <;> omega
  | run j h => rw [System.turn]; split <;> omega
  | _ => exact Nat.zero_le 1

theorem send_waiting (lim : Limits) (cfg : Routes) (p : Pipe) (m : Message) :
    pipeWaiting (p.step lim cfg (.send m)) ≤ pipeWaiting p + m.1.length := by
  by_cases hacc : p.Accepts
  · have hsent : (p.step lim cfg (.send m)).buf.length ≤ m.1.length ∧
        (p.step lim cfg (.send m)).dropped = p.dropped := by
      simp only [Pipe.step, if_pos hacc, List.length_drop]
      refine ⟨Nat.sub_le _ _, ?_⟩
      cases p.dir <;> rfl
    rw [pipeWaiting, pipeWaiting, hsent.2]
    omega
  · rw [step_send_idle hacc]
    omega

/-- A run gets on with the message, or drops it. -/
theorem run_waiting (lim : Limits) (cfg : Routes) {p : Pipe} (hp : p.Pending)
    (hlen : p.buf.length < 2 ^ 31) (h : Helpers) (ans : Answers) :
    1 + pipeWaiting (p.step lim cfg (.run h ans)) ≤ pipeWaiting p := by
  -- however the run ends, at least one byte goes or the message is dropped for good
  have hpos := List.length_pos_iff.mpr hp.2
  have hrun := run_ends lim cfg h ans hp hlen
  generalize p.step lim cfg (.run h ans) = p' at hrun
  cases hrun with
  | dropped =>
    simp only [pipeWaiting, hp.1]
    exact (Nat.add_comm _ _).le
  | upgraded =>
    simp only [pipeWaiting, hp.1, List.length_drop]
    omega
  | answered _ _ _ _ hmsg =>
    simp only [pipeWaiting, hp.1, List.length_drop]
    omega
  | forwarded =>
    simp only [pipeWaiting, hp.1, List.length_nil]
    omega

variable {H : Helpers → Prop} {s : System}

theorem backlog_waiting (hs : s.Pipes su H key i messages) :
    s.turn i (.backlog i) + (s.step su.lim su.cfg su.parsers (.backlog i)).waiting i ≤
      s.waiting i := by
  rcases own_backlog su hs.fresh hs.held with ⟨hsame, hidle⟩ | ⟨hbusy, -, m, hqueue, hpipe⟩
  · have hno : ¬ (¬ (s.dummies i).psock.Busy ∧ (s.dummies i).queue ≠ []) := by tauto
    simp only [System.turn, true_and, if_neg hno, hsame, Nat.zero_add, Nat.le_refl]
  · have hturn := turn_le (i := i) s (.backlog i)
    have hsend := send_waiting su.lim su.cfg (s.pipe key i) m
    -- the message leaves the queue
    have hcost : ((s.dummies i).queue.map messageCost).sum = 1 + m.1.length +
        (((s.step su.lim su.cfg su.parsers (.backlog i)).dummies i).queue.map messageCost).sum := by
      rw [hqueue, List.map_cons, List.sum_cons]
      rfl
    rw [waiting_eq _ key, waiting_eq _ key, hpipe, hcost]
    omega

theorem run_turn_waiting (hs : s.Pipes su H key i messages) (h : Helpers) :
    s.turn i (.run i h) + (s.step su.lim su.cfg su.parsers (.run i h)).waiting i ≤ s.waiting i := by
  rcases own_run su hs.fresh hs.held h with ⟨hsame, hidle⟩ | ⟨hbusy, -, hqueue, hpipe⟩
  · simp only [System.turn, true_and, if_neg hidle, hsame, Nat.zero_add, Nat.le_refl]
  · have hturn := turn_le (i := i) s (.run i h)
    obtain ⟨acts, skipped, hf⟩ := hs.follow
    -- a pipe that has come about by what is due is regular
    have hreg : (s.pipe key i).Regular := by
      rw [hf.pipe]
      exact hf.due.preserves (fun _ _ hp _ ↦ step_regular su.lim su.cfg hp) .new
    have hrun := run_waiting su.lim su.cfg (p := s.pipe key i) hbusy hreg.bounded h
      (su.parsers.answers (s.pipe key i))
    rw [waiting_eq _ key, waiting_eq _ key, hpipe, hqueue]
    omega

/-- What a turn takes away was waiting or has just arrived. -/
theorem waiting_step (hs : s.Pipes su H key i messages) {e : SystemEvent} (hsane : Sane s e)
    (hclose : ¬ Closes key e) :
    s.turn i e + (s.step su.lim su.cfg su.parsers e).waiting i ≤ s.waiting i + arrival key e := by
  by_cases hother : Concerns key i e
  swap
  · have hsame : SameFor key i s (s.step su.lim su.cfg su.parsers e) :=
      others_keep hs.fresh hs.held hsane hclose hother
    -- a turn on the dummy concerns it
    have hturn : s.turn i e = 0 := by
      cases e with
      | backlog j => exact if_neg fun h ↦ hother h.1
      | run j h => exact if_neg fun h ↦ hother h.1
      | _ => rfl
    rw [hturn, System.waiting, System.waiting, hsame.dummy]
    omega
  cases e with
  | pool e => exact hother.elim
  | message k m =>
    obtain rfl : k = key := hother
    have hstep : s.step su.lim su.cfg su.parsers (.message k m) =
        s.setDummy i { s.dummies i with queue := (s.dummies i).queue ++ [m] } := by
      simp only [System.step, hs.held]
    have harrival : arrival k (.message k m) = messageCost m := by simp [arrival, messagesOf]
    rw [hstep, System.waiting, setDummy_self, harrival, List.map_append, List.sum_append]
    simp only [System.turn, System.waiting, List.map_cons, List.map_nil, List.sum_cons,
      List.sum_nil]
    omega
  | backlog j =>
    obtain rfl : j = i := hother
    exact (backlog_waiting hs).trans (Nat.le_add_right _ _)
  | run j h =>
    obtain rfl : j = i := hother
    exact (run_turn_waiting hs h).trans (Nat.le_add_right _ _)

/-! ## 2. The machine -/

/-- The same of the maps, for `view`. -/
def Machine.waiting (i : Nat) (m : Machine) : Nat :=
  ((m.queues i).map messageCost).sum + (m.psocks i).buf.length + if (m.psocks i).dead then 0 else 1

/-- Whether the kernel does something on dummy `i`: it sends the next message, or runs the program.
-/
def Machine.turn (i : Nat) (m : Machine) : MachineEvent → Nat
  | .backlog j => if j = i ∧ ¬ (m.psocks i).Busy ∧ m.queues i ≠ [] then 1 else 0
  | .msg j _ => if j = i ∧ (m.psocks i).Busy then 1 else 0
  | _ => 0

/-- What arrives on connection `key`: one for each message, and one for each byte. -/
def Setup.arrival (su : Setup) (key : Ip4Conn) (ev : MachineEvent) : Nat :=
  ((ev.messages su key).map messageCost).sum

theorem total_messages (step : System → SystemEvent → System) (s : System) (k : Ip4Conn)
    (ms : List Message) :
    Runs.total step (System.turn i) s (ms.map (.message k)) = 0 := by
  induction ms generalizing s with
  | nil => rfl
  | cons msg ms ih => rw [List.map_cons, Runs.total, ih]; rfl

theorem turn_does (hi : i < su.socks.length) (ev : MachineEvent) :
    Runs.total (System.step su.lim su.cfg su.parsers) (System.turn i) (m.view su) (m.does su ev) =
      m.turn i ev := by
  cases ev with
  | established loc rem passive ok => rw [Machine.does]; split <;> rfl
  | tcpState loc rem new => rw [Machine.does]; split <;> rfl
  | skb loc rem skb pull =>
    rw [Machine.does]
    split
    · exact total_messages _ _ _ _
    · rfl
  | backlog j => exact Nat.add_zero _
  | msg j h =>
    rw [Machine.does]
    split
    · exact Nat.add_zero _
    · rename_i hj
      exact (if_neg fun hboth : j = i ∧ _ ↦ hj (hboth.1 ▸ hi)).symm
  | condition stop => rfl
  | callback => rw [Machine.does]; split <;> rfl
  | polled ok => rfl
  | check ok => rw [Machine.does]; split <;> rfl
  | tick ns => rfl

theorem sum_arrivals (es : List SystemEvent) :
    (es.map (arrival key)).sum = ((es.flatMap (messagesOf key)).map messageCost).sum := by
  induction es with
  | nil => rfl
  | cons e es ih => rw [List.map_cons, List.sum_cons, ih, List.flatMap_cons, List.map_append,
      List.sum_append, arrival]

/-- A machine on which connection `key` holds dummy `i`. -/
structure Machine.Lends (su : Setup) (key : Ip4Conn) (i : Nat) (m : Machine) : Prop where
  tied : m.Tied su
  pipes : ∃ messages, (m.view su).Pipes su (fun _ ↦ True) key i messages

theorem lends_step (hm : m.Lends su key i) {ev : MachineEvent}
    (hev : Admissible su m ev ∧ ¬ ev.Closes su key) : (m.step su ev).Lends su key i := by
  obtain ⟨htied, messages, hpipes⟩ := hm
  have halong : Runs.Along (Machine.step su) (Admissible su) m [ev] := ⟨hev.1, trivial⟩
  have hnext := machine_pipes htied hpipes halong
    (fun e he ↦ by rw [List.mem_singleton.mp he]; exact hev.2) fun _ _ ↦ trivial
  exact ⟨step_tied htied hev.1, _, hnext⟩

theorem turn_waiting (hm : m.Lends su key i) {ev : MachineEvent}
    (hev : Admissible su m ev ∧ ¬ ev.Closes su key) :
    m.turn i ev + (m.step su ev).waiting i ≤ m.waiting i + su.arrival key ev := by
  obtain ⟨htied, messages, hpipes⟩ := hm
  have hheld : m.pool.connDummy key = some i := hpipes.held
  have hi := (htied.lent hheld).2.2
  have hclose : ∀ e ∈ m.does su ev, ¬ Closes key e := by
    intro e he
    cases does_comes he with
    | close => exact fun hkey ↦ hev.2 ⟨rfl, hkey⟩
    | _ => exact id
  -- an event comes to steps that are covered one by one
  have hsteps := (Runs.Along.and (m.view su) (m.does su ev)).mpr
    ⟨does_sane htied hev.1, Runs.Along.of_forall_mem (P := fun _ e ↦ ¬ Closes key e)
      (fun e he _ ↦ hclose e he) _⟩
  have hstep (s : System) (e : SystemEvent)
      (hs : ∃ messages, s.Pipes su (fun _ ↦ True) key i messages)
      (he : Sane s e ∧ ¬ Closes key e) :
      (∃ messages, (s.step su.lim su.cfg su.parsers e).Pipes su (fun _ ↦ True) key i messages) ∧
        s.turn i e + (s.step su.lim su.cfg su.parsers e).waiting i ≤
          s.waiting i + arrival key e := by
    obtain ⟨messages, hs⟩ := hs
    exact ⟨⟨_, hs.step he.1 he.2 fun _ _ ↦ trivial⟩, waiting_step hs he.1 he.2⟩
  have hcost := Runs.Along.amortizes (fun s e hs he ↦ (hstep s e hs he).1)
    (fun s e hs he ↦ (hstep s e hs he).2) ⟨messages, hpipes⟩ hsteps
  rw [turn_does hi, Runs.total_eq_sum, sum_arrivals, does_messages htied
    (by rw [hheld]; exact Option.some_ne_none i), ← step_view htied ev] at hcost
  exact hcost

/-! ## 3. Connections to the server -/

/-- Nothing is left to be done on dummy `i`, or a verdict has dropped a message. -/
def Machine.Settled (i : Nat) (m : Machine) : Prop :=
  (m.psocks i).dead = true ∨ (m.queues i = [] ∧ (m.psocks i).buf = [])

theorem settled_of_waiting (h : m.waiting i ≤ 1) : m.Settled i := by
  unfold Machine.waiting at h
  cases hdead : (m.psocks i).dead with
  | true => exact .inl hdead
  | false =>
    rw [hdead] at h
    simp only [Bool.false_eq_true, if_false] at h
    refine .inr ⟨?_, List.eq_nil_of_length_eq_zero (by omega)⟩
    cases hq : m.queues i with
    | nil => rfl
    | cons msg queue =>
      rw [hq, List.map_cons, List.sum_cons, messageCost] at h
      omega

theorem turn_due (h : ¬ m.Settled i) :
    m.turn i (.backlog i) = 1 ∨ ∀ hlp, m.turn i (.msg i hlp) = 1 := by
  rw [Machine.Settled, not_or, not_and_or] at h
  obtain ⟨halive, hwaits⟩ := h
  by_cases hbusy : (m.psocks i).Busy
  · exact .inr fun hlp ↦ if_pos ⟨rfl, hbusy⟩
  · left
    -- a dummy that is not busy has nothing to be run on
    have hbuf : (m.psocks i).buf = [] := by
      by_contra hne
      exact hbusy ⟨eq_false_of_ne_true halive, hne⟩
    exact if_pos ⟨rfl, hbusy, hwaits.resolve_right (not_not.mpr hbuf)⟩

variable {maps : DummyMaps} {before after : List MachineEvent} {loc rem : SocketAddrV4}
  {ok : AddStep → Bool}

/-- No connection is left waiting: on its dummy the kernel cannot take more turns than messages and
bytes have arrived on it, and one for a drop.  Once it has taken as many as have arrived, nothing is
waiting, unless a verdict has dropped a message, and as long as something is, a turn is due. -/
theorem programs_get_on (hmaps : su.openDummies = .ok maps)
    (ht : Tenant su maps before after loc rem ok i) :
    let lent := Runs.exec (Machine.step su) (.start su maps)
      (before ++ [.established loc rem true ok])
    let m := Runs.exec (Machine.step su) (.start su maps)
      (before ++ [.established loc rem true ok] ++ after)
    let turns := Runs.total (Machine.step su) (Machine.turn i) lent after
    let arrived := (after.map (su.arrival (su.key loc rem))).sum
    turns ≤ arrived + 1 ∧ (arrived ≤ turns → m.Settled i) ∧
      (m.Settled i ∨ m.turn i (.backlog i) = 1 ∨ ∀ hlp, m.turn i (.msg i hlp) = 1) := by
  intro lent m turns arrived
  obtain ⟨hfirst, hafter⟩ := (Runs.Along.append_iff _ _ _).mp ht.admissible
  obtain ⟨hpipes, hpipe, hqueue⟩ := tenant_start hmaps ht fun _ ↦ True
  have hlends : lent.Lends su (su.key loc rem) i := ⟨exec_tied hmaps hfirst, _, hpipes⟩
  -- at first only the drop is to be waited for
  have hone : lent.waiting i = 1 := by
    have hstart := waiting_eq (lent.view su) (su.key loc rem) i
    rw [hpipe, hqueue] at hstart
    exact hstart
  have hboth := (Runs.Along.and lent after).mpr ⟨hafter,
    Runs.Along.of_forall_mem (P := fun _ ev ↦ ¬ ev.Closes su (su.key loc rem))
      (fun ev hev _ ↦ ht.stays ev hev) _⟩
  have hcost := Runs.Along.amortizes (f := Machine.turn i) (w := Machine.waiting i)
    (g := fun _ ↦ su.arrival (su.key loc rem)) (fun _ _ hm hev ↦ lends_step hm hev)
    (fun _ _ hm hev ↦ turn_waiting hm hev) hlends hboth
  have hend : Runs.exec (Machine.step su) lent after = m := (Runs.exec_append _ _ _ _).symm
  rw [Runs.total_eq_sum, hone, hend] at hcost
  have hbound : turns + m.waiting i ≤ 1 + arrived := hcost
  refine ⟨by omega, fun hmany ↦ settled_of_waiting (by omega), ?_⟩
  by_cases hsettled : m.Settled i
  · exact .inl hsettled
  · exact .inr (turn_due hsettled)

/-- A request that has been answered leaves nothing to be done. -/
theorem programs_get_on_turn :
    let m := Runs.exec (Machine.step exampleSetup) (.start exampleSetup exampleMaps)
      (exampleTurn.take 4)
    (m.psocks 0).dead = false ∧ m.queues 0 = [] ∧ (m.psocks 0).buf = [] := by
  intro m
  have halive : (m.psocks 0).dead = false := by decide +kernel
  obtain ⟨-, -, hend⟩ := programs_get_on example_open exampleTurn_tenant
  rw [exampleTurn_split] at hend
  rcases hend with hsettled | hbacklog | hmsg
  · exact ⟨halive, hsettled.resolve_left (ne_true_of_eq_false halive)⟩
  -- no turn is due
  · exact absurd hbacklog (by decide +kernel)
  · exact absurd (hmsg allOk) (by decide +kernel)

end HyperFastPath.Dummies
