import HyperFastPath.Dummies.Refinement
import HyperFastPath.FastPath.Conserved

/-!
# Connections under the programs

Which connections get a dummy, and what becomes of what they send.
-/

namespace HyperFastPath.Dummies

open FastPath

variable {su : Setup} {m : Machine} {key : Ip4Conn} {i : Nat}

/-! ## 1. Whose connections they are -/

/-- The socket is one of the server's. -/
def Setup.Serves (su : Setup) (loc : SocketAddrV4) : Prop :=
  (su.addr.octets = unspecified ∨ loc.octets = su.addr.octets) ∧ loc.port = su.addr.port

instance (su : Setup) (loc : SocketAddrV4) : Decidable (su.Serves loc) :=
  inferInstanceAs (Decidable (_ ∧ _))

theorem takes_iff_serves (loc rem : SocketAddrV4) :
    su.server.Takes (su.key loc rem) ↔ su.Serves loc := takes_iff su.addr loc rem

/-- The key is that of a socket of the server's. -/
def Setup.Served (su : Setup) (key : Ip4Conn) : Prop :=
  ∃ loc rem, key = su.key loc rem ∧ su.Serves loc

theorem step_pool (s : System) (e : SystemEvent) :
    (s.step su.lim su.cfg su.parsers e).pool = match e with
      | .pool e => s.pool.step e
      | _ => s.pool := by
  cases e with
  | pool e =>
    cases e with
    | accept key ok => rfl
    | close key output => rfl
    | deliver => rfl
    | reset ok =>
      unfold System.step Pool.step Pool.reset
      cases s.pool.quarantine with
      | nil => rfl
      | cons i rest => rfl
  | message key m =>
    simp only [System.step]
    cases s.pool.connDummy key <;> rfl
  | backlog i =>
    unfold System.step System.send
    simp only
    split
    · rfl
    · cases (s.dummies i).queue with
      | nil => rfl
      | cons m queue => simp only; split <;> rfl
  | run i h =>
    unfold System.step System.run
    simp only
    split
    · rfl
    · split <;> rfl

/-- Only an established connection opens. -/
theorem pool_step_opened {p : Pool} {e : Event} (h : key ∈ (p.step e).opened) :
    key ∈ p.opened ∨ ∃ ok, e = .accept key ok := by
  cases e with
  | accept k ok =>
    rcases List.mem_cons.mp h with rfl | h
    · exact .inr ⟨ok, rfl⟩
    · exact .inl h
  | close k output => exact .inl (List.mem_filter.mp h).1
  | deliver =>
    left
    have hsame : p.deliver.opened = p.opened := by
      unfold Pool.deliver
      split <;> rfl
    rw [← hsame]
    exact h
  | reset ok =>
    left
    have hsame : (p.reset ok).opened = p.opened := by
      unfold Pool.reset Pool.pushFree
      cases p.quarantine with
      | nil => rfl
      | cons i rest =>
        simp only
        split
        · split <;> rfl
        · rfl
    rw [← hsame]
    exact h

theorem exec_opened {s : System} {es : List SystemEvent} {Q : Ip4Conn → Prop}
    (hs : ∀ key ∈ s.pool.opened, Q key)
    (hes : ∀ key ok, .pool (.accept key ok) ∈ es → Q key) :
    ∀ key ∈ (Runs.exec (System.step su.lim su.cfg su.parsers) s es).pool.opened, Q key := by
  induction es generalizing s with
  | nil => exact hs
  | cons e es ih =>
    refine ih (fun key hkey ↦ ?_) fun key ok h ↦ hes key ok (List.mem_cons_of_mem _ h)
    rw [step_pool] at hkey
    cases e with
    | pool e =>
      rcases pool_step_opened hkey with hkey | ⟨ok, rfl⟩
      · exact hs key hkey
      · exact hes key ok List.mem_cons_self
    | message _ _ => exact hs key hkey
    | backlog _ => exact hs key hkey
    | run _ _ => exact hs key hkey

/-- What an event may come to. -/
inductive Comes (su : Setup) : MachineEvent → SystemEvent → Prop
  | accept {loc rem : SocketAddrV4} {ok : AddStep → Bool} (hserves : su.Serves loc) :
      Comes su (.established loc rem true ok) (.pool (.accept (su.key loc rem) ok))
  | close {loc rem : SocketAddrV4} {output : Bool} :
      Comes su (.tcpState loc rem .close) (.pool (.close (su.key loc rem) output))
  | message {loc rem : SocketAddrV4} {buf : Skb} {pull : Bool} {msg : Message} :
      Comes su (.skb loc rem buf pull) (.message (su.key loc rem) msg)
  | backlog {i : Nat} : Comes su (.backlog i) (.backlog i)
  | run {i : Nat} {h : Helpers} : Comes su (.msg i h) (.run i h)
  | deliver : Comes su .callback (.pool .deliver)
  | reset {ok : ResetStep → Bool} : Comes su (.check ok) (.pool (.reset ok))

theorem does_comes {ev : MachineEvent} {e : SystemEvent} (h : e ∈ m.does su ev) :
    Comes su ev e := by
  cases ev with
  | established loc rem passive ok =>
    rw [Machine.does] at h
    split at h
    · rename_i htakes
      cases List.mem_singleton.mp h
      rw [htakes.1]
      exact .accept ((takes_iff_serves loc rem).mp htakes.2)
    · cases h
  | tcpState loc rem new =>
    rw [Machine.does] at h
    split at h
    · rename_i hnew
      cases List.mem_singleton.mp h
      rw [hnew]
      exact .close
    · cases h
  | skb loc rem skb pull =>
    rw [Machine.does] at h
    split at h
    · obtain ⟨_, -, rfl⟩ := List.mem_map.mp h
      exact .message
    · cases h
  | backlog i =>
    cases List.mem_singleton.mp h
    exact .backlog
  | msg i h' =>
    rw [Machine.does] at h
    split at h
    · cases List.mem_singleton.mp h
      exact .run
    · cases h
  | callback =>
    rw [Machine.does] at h
    split at h
    · cases List.mem_singleton.mp h
      exact .deliver
    · cases h
  | check ok' =>
    rw [Machine.does] at h
    split at h
    · cases List.mem_singleton.mp h
      exact .reset
    · cases h
  | condition stop => cases h
  | polled ok' => cases h
  | tick ns => cases h

/-- What is open is a connection to the server. -/
theorem opened_served {maps : DummyMaps} (hmaps : su.openDummies = .ok maps)
    {events : List MachineEvent}
    (h : Runs.Along (Machine.step su) (Admissible su) (.start su maps) events) :
    ∀ key ∈ (Runs.exec (Machine.step su) (.start su maps) events).pool.opened, su.Served key := by
  intro key hmem
  have hview := (exec_view hmaps h).1
  have hpool : (Runs.exec (Machine.step su) (.start su maps) events).pool =
      ((Runs.exec (Machine.step su) (.start su maps) events).view su).pool := rfl
  rw [hpool, hview] at hmem
  refine exec_opened (fun k hk ↦ ?_) (fun k ok hk ↦ ?_) key hmem
  · cases hk
  · obtain ⟨m, ev, hmem⟩ := Runs.exists_of_mem_record hk
    cases does_comes hmem with
    | accept hserves => exact ⟨_, _, rfl, hserves⟩

/-- The end of a connection that is not open changes nothing. -/
theorem tcpState_foreign (hm : m.Tied su) {loc rem : SocketAddrV4} {new : TcpState}
    (hnone : m.pool.connDummy (su.key loc rem) = none)
    (hclosed : su.key loc rem ∉ m.pool.opened) : m.step su (.tcpState loc rem new) = m := by
  rw [tcpState_eq hm]
  split
  swap
  · rfl
  have hpool : m.pool.step (.close (su.key loc rem) (decide m.pool.HasRoom)) = m.pool := by
    have hfilter : m.pool.opened.filter (· ≠ su.key loc rem) = m.pool.opened := by
      rw [List.filter_eq_self]
      intro key hkey
      exact decide_eq_true fun heq ↦ hclosed (heq ▸ hkey)
    simp only [Pool.step, Pool.removeConn, hnone, hfilter]
  -- its flags are off and it is not in `sock_map`
  have hoff {b : Bool} (h : b = true ↔ m.pool.connDummy (su.key loc rem) ≠ none) : b = false := by
    rw [hnone] at h
    exact eq_false_of_ne_true fun hb ↦ h.mp hb rfl
  have hstate : Function.update m.stateCb (su.key loc rem) false = m.stateCb := by
    rw [← hoff (hm.flagged _), Function.update_eq_self]
  have hsock : Function.update m.sockMap (su.key loc rem) false = m.sockMap := by
    rw [← hoff (hm.added _), Function.update_eq_self]
  rw [hpool, hstate, hsock, removeConn_eq, hnone]
  rfl

/-- What happens to a socket that is not the server's. -/
def MachineEvent.Foreign (su : Setup) : MachineEvent → Prop
  | .established loc _ _ _ | .tcpState loc _ _ | .skb loc _ _ _ => ¬ su.Serves loc
  | _ => False

/-- The programs see the sockets of the whole host, and leave those alone that are not the server's:
only a connection to the server ever holds a dummy, and nothing that happens on another one changes
anything. -/
theorem programs_keep_to_server {maps : DummyMaps} (hmaps : su.openDummies = .ok maps)
    {events : List MachineEvent}
    (h : Runs.Along (Machine.step su) (Admissible su) (.start su maps) events) :
    let m := Runs.exec (Machine.step su) (.start su maps) events
    (∀ key i, m.pool.connDummy key = some i → su.Served key) ∧
      ∀ ev, ev.Foreign su → m.step su ev = m := by
  intro m
  have htied : m.Tied su := exec_tied hmaps h
  have hopened := opened_served hmaps h
  have hholder : ∀ key i, m.pool.connDummy key = some i → su.Served key :=
    fun key i hc ↦ hopened key (htied.sound.opened key i hc)
  refine ⟨hholder, fun ev hev ↦ ?_⟩
  -- the keys of other sockets are none the pool knows of
  have hforeign {loc : SocketAddrV4} (rem : SocketAddrV4) (hloc : ¬ su.Serves loc) :
      ¬ su.Served (su.key loc rem) := by
    rintro ⟨loc', rem', hkey, hserves⟩
    apply hloc
    rw [← takes_iff_serves loc rem, hkey]
    exact (takes_iff_serves loc' rem').mpr hserves
  have hnone {loc : SocketAddrV4} (rem : SocketAddrV4) (hloc : ¬ su.Serves loc) :
      m.pool.connDummy (su.key loc rem) = none := by
    cases hc : m.pool.connDummy (su.key loc rem) with
    | none => rfl
    | some i => exact absurd (hholder _ i hc) (hforeign rem hloc)
  cases ev with
  | established loc rem passive ok =>
    rw [established_eq, if_neg]
    rintro ⟨-, htakes⟩
    exact hev ((takes_iff_serves loc rem).mp htakes)
  | tcpState loc rem new =>
    apply tcpState_foreign htied (hnone rem hev)
    intro hmem
    exact hforeign rem hev (hopened _ hmem)
  | skb loc rem buf pull =>
    rw [skb_eq htied, hnone rem hev]
    rfl
  | _ => exact hev.elim

/-- What happens on another port of the host. -/
theorem programs_keep_to_server_port :
    let m := Runs.exec (Machine.step exampleSetup) (.start exampleSetup exampleMaps) exampleTurn
    m.step exampleSetup (.established (exampleHost 1 80) exampleClient true fun _ ↦ true) = m := by
  intro m
  have hforeign : ¬ exampleSetup.Serves (exampleHost 1 80) := by decide
  exact (programs_keep_to_server example_open exampleTurn_admissible).2 _ hforeign

/-! ## 2. What becomes of its bytes -/

/-- What arrives on connection `key`. -/
def MachineEvent.bytes (su : Setup) (key : Ip4Conn) : MachineEvent → List UInt8
  | .skb loc rem buf _ => if su.key loc rem = key then buf.bytes else []
  | _ => []

/-- The messages it is sent on in. -/
def MachineEvent.messages (su : Setup) (key : Ip4Conn) : MachineEvent → List Message
  | .skb loc rem buf pull => if su.key loc rem = key then buf.messages pull else []
  | _ => []

/-- Connection `key` is closed. -/
def MachineEvent.Closes (su : Setup) (key : Ip4Conn) : MachineEvent → Prop
  | .tcpState loc rem new => new = .close ∧ su.key loc rem = key
  | _ => False

instance (key : Ip4Conn) : (ev : MachineEvent) → Decidable (ev.Closes su key)
  | .tcpState _ _ _ => inferInstanceAs (Decidable (_ ∧ _))
  | .established _ _ _ _ | .skb _ _ _ _ | .backlog _ | .msg _ _ => isFalse id
  | .condition _ | .callback | .polled _ | .check _ | .tick _ => isFalse id

theorem messages_bytes (skb : Skb) (linear : Bool) :
    (skb.messages linear).flatMap (fun m ↦ m.1) = skb.bytes := by
  unfold Skb.messages
  split
  · rename_i h
    simp [Skb.bytes, h]
  · cases linear with
    | false => rfl
    | true => exact List.append_nil _

theorem event_bytes (ev : MachineEvent) :
    (ev.messages su key).flatMap (fun m ↦ m.1) = ev.bytes su key := by
  cases ev with
  | skb loc rem skb pull =>
    simp only [MachineEvent.messages, MachineEvent.bytes]
    split
    · exact messages_bytes skb pull
    · rfl
  | _ => rfl

variable (su) in
/-- What the backlog does on the dummy of a connection. -/
theorem own_backlog {s : System} {n : Nat} (hs : s.Fresh n)
    (hheld : s.pool.connDummy key = some i) :
    let s' := s.step su.lim su.cfg su.parsers (.backlog i)
    s' = s ∧ ((s.dummies i).psock.Busy ∨ (s.dummies i).queue = []) ∨
    ¬ (s.dummies i).psock.Busy ∧ s'.pool = s.pool ∧ ∃ m,
      (s.dummies i).queue = m :: (s'.dummies i).queue ∧
        s'.pipe key i = (s.pipe key i).step su.lim su.cfg (.send m) := by
  have howner := (hs.sound.owner key i).mp hheld
  by_cases hbusy : (s.dummies i).psock.Busy
  · exact .inl ⟨if_pos hbusy, .inl hbusy⟩
  cases hq : (s.dummies i).queue with
  | nil =>
    refine .inl ⟨?_, .inr rfl⟩
    simp only [System.step, if_neg hbusy, hq]
  | cons m queue =>
    have hstep : s.step su.lim su.cfg su.parsers (.backlog i) = s.setPipe key i
        ((s.pipe key i).step su.lim su.cfg (.send m)) queue (s.dummies i).table := by
      simp only [System.step, if_neg hbusy, hq, System.send, howner, if_true]
    -- sending leaves the table as it is
    have htable : ((s.dummies i).table).getD [] =
        ((s.pipe key i).step su.lim su.cfg (.send m)).mirror := (send_mirror (s.pipe key i) m).symm
    obtain ⟨hpipe, hqueue⟩ := pipe_setPipe s key i
      ((s.pipe key i).step su.lim su.cfg (.send m)) queue htable
    right
    rw [hstep]
    exact ⟨hbusy, rfl, m, by rw [hqueue], hpipe⟩

variable (su) in
/-- And a run of the program. -/
theorem own_run {s : System} {n : Nat} (hs : s.Fresh n) (hheld : s.pool.connDummy key = some i)
    (h : Helpers) :
    let s' := s.step su.lim su.cfg su.parsers (.run i h)
    s' = s ∧ ¬ (s.dummies i).psock.Busy ∨ (s.dummies i).psock.Busy ∧ s'.pool = s.pool ∧
      (s'.dummies i).queue = (s.dummies i).queue ∧
      s'.pipe key i =
        (s.pipe key i).step su.lim su.cfg (.run h (su.parsers.answers (s.pipe key i))) := by
  have howner := (hs.sound.owner key i).mp hheld
  by_cases hbusy : (s.dummies i).psock.Busy
  swap
  · exact .inl ⟨if_pos hbusy, hbusy⟩
  generalize hp' : (s.pipe key i).step su.lim su.cfg
    (.run h (su.parsers.answers (s.pipe key i))) = p'
  have hstep : s.step su.lim su.cfg su.parsers (.run i h) = s.setPipe key i p'
      (s.dummies i).queue
      (if (s.pipe key i).conn.isH2 then some p'.mirror else (s.dummies i).table) := by
    simp only [System.step, System.run, hbusy, not_true_eq_false, if_false, howner, if_true, hp']
  have htable : (if (s.pipe key i).conn.isH2 then some p'.mirror
      else (s.dummies i).table).getD [] = p'.mirror := by
    split
    · rfl
    · -- a connection that does not speak HTTP/2 has no table to be changed
      rw [← hp', run_mirror (eq_false_of_ne_true ‹_›)]
      rfl
  obtain ⟨hpipe, hqueue⟩ := pipe_setPipe s key i p' (s.dummies i).queue htable
  right
  rw [hstep]
  exact ⟨hbusy, rfl, hqueue, hpipe⟩

/-- An act that is due, on what the parsers answer, with helpers of which `H` is known. -/
def Due (ps : Parsers) (H : Helpers → Prop) (p : Pipe) : Act → Prop
  | .send _ => p.Accepts
  | .run h ans => p.Pending ∧ H h ∧ ans = ps.answers p

def Act.message? : Act → Option Message
  | .send m => some m
  | .run _ _ => none

/-- `acts` is what has happened on the pipe of connection `key`, which holds dummy `i` and has sent
`messages`.  What comes after a drop is skipped. -/
structure Follow (su : Setup) (H : Helpers → Prop) (key : Ip4Conn) (i : Nat) (s : System)
    (messages : List Message) (acts : List Act) (skipped : List Message) : Prop where
  due : Runs.Along (Pipe.step su.lim su.cfg) (Due su.parsers H) .new acts
  pipe : s.pipe key i = Runs.exec (Pipe.step su.lim su.cfg) .new acts
  sent : acts.filterMap Act.message? ++ skipped ++ (s.dummies i).queue = messages
  skips : skipped = [] ∨ (s.pipe key i).dropped = true

/-- Connection `key` holds dummy `i`, and its pipe has come about by what is due on it. -/
structure System.Pipes (su : Setup) (H : Helpers → Prop) (key : Ip4Conn) (i : Nat) (s : System)
    (messages : List Message) : Prop where
  fresh : s.Fresh su.socks.length
  held : s.pool.connDummy key = some i
  follow : ∃ acts skipped, Follow su H key i s messages acts skipped

variable {H : Helpers → Prop} {acts : List Act} {skipped messages : List Message}

theorem Follow.same {s s' : System} (hf : Follow su H key i s messages acts skipped)
    (hsame : SameFor key i s s') : Follow su H key i s' messages acts skipped := by
  refine ⟨hf.due, ?_, ?_, ?_⟩
  · rw [hsame.pipe, hf.pipe]
  · rw [hsame.dummy, hf.sent]
  · rw [hsame.pipe]
    exact hf.skips

theorem Follow.send {s s' : System} (hf : Follow su H key i s messages acts skipped) {m : Message}
    (hbusy : ¬ (s.dummies i).psock.Busy) (hqueue : (s.dummies i).queue = m :: (s'.dummies i).queue)
    (hpipe : s'.pipe key i = (s.pipe key i).step su.lim su.cfg (.send m)) :
    ∃ acts' skipped', Follow su H key i s' messages acts' skipped' := by
  have hsent := hf.sent
  rw [hqueue] at hsent
  by_cases hacc : (s.pipe key i).Accepts
  · have hskip : skipped = [] := hf.skips.resolve_right (by rw [hacc.1]; decide)
    refine ⟨acts ++ [.send m], [], ?_, ?_, ?_, .inl rfl⟩
    · rw [Runs.Along.concat_iff, ← hf.pipe]
      exact ⟨hf.due, hacc⟩
    · rw [Runs.exec_concat, ← hf.pipe, hpipe]
    · rw [← hsent, hskip, List.filterMap_append]
      simp [Act.message?]
  · -- the message is skipped, as there has been a drop
    have hdead : (s.pipe key i).dropped = true := by
      by_contra halive
      have halive := eq_false_of_ne_true halive
      exact hacc ⟨halive, not_not.mp fun hne ↦ hbusy ⟨halive, hne⟩⟩
    rw [step_send_idle hacc] at hpipe
    refine ⟨acts, skipped ++ [m], hf.due, hpipe.trans hf.pipe, ?_, .inr ?_⟩
    · rw [← hsent]
      simp
    · rw [hpipe, hdead]

theorem Follow.run {s s' : System} (hf : Follow su H key i s messages acts skipped) {h : Helpers}
    (hh : H h) (hpend : (s.pipe key i).Pending)
    (hqueue : (s'.dummies i).queue = (s.dummies i).queue)
    (hpipe : s'.pipe key i =
      (s.pipe key i).step su.lim su.cfg (.run h (su.parsers.answers (s.pipe key i)))) :
    ∃ acts' skipped', Follow su H key i s' messages acts' skipped' := by
  have hskip : skipped = [] := hf.skips.resolve_right (by rw [hpend.1]; decide)
  refine ⟨acts ++ [.run h (su.parsers.answers (s.pipe key i))], [], ?_, ?_, ?_, .inl rfl⟩
  · rw [Runs.Along.concat_iff, ← hf.pipe]
    exact ⟨hf.due, hpend, hh, rfl⟩
  · rw [Runs.exec_concat, ← hf.pipe, hpipe]
  · rw [← hf.sent, hskip, hqueue, List.filterMap_append]
    simp [Act.message?]

theorem System.Pipes.step {s : System} (hs : s.Pipes su H key i messages) {e : SystemEvent}
    (hsane : Sane s e) (hclose : ¬ Closes key e) (hok : ∀ h, e = .run i h → H h) :
    (s.step su.lim su.cfg su.parsers e).Pipes su H key i (messages ++ messagesOf key e) := by
  have hfresh := fresh_step su.lim su.cfg su.parsers hs.fresh hsane
  obtain ⟨acts, skipped, hf⟩ := hs.follow
  by_cases hother : Concerns key i e
  swap
  · obtain ⟨hms, -⟩ := others_rule su.lim su.cfg su.parsers hs.held hother
    -- what happens elsewhere leaves the connection and its dummy alone
    have hsame : SameFor key i s (s.step su.lim su.cfg su.parsers e) :=
      others_keep hs.fresh hs.held hsane hclose hother
    rw [hms, List.append_nil]
    exact ⟨hfresh, hsame.held.trans hs.held, acts, skipped, hf.same hsame⟩
  cases e with
  | pool e => exact hother.elim
  | message k m =>
    obtain rfl : k = key := hother
    have hstep : s.step su.lim su.cfg su.parsers (.message k m) =
        s.setDummy i { s.dummies i with queue := (s.dummies i).queue ++ [m] } := by
      simp only [System.step, hs.held]
    have hpipe : (s.setDummy i { s.dummies i with
        queue := (s.dummies i).queue ++ [m] }).pipe k i = s.pipe k i := by
      simp [System.pipe, System.setDummy]
    have hms : messagesOf k (.message k m) = [m] := if_pos rfl
    rw [hstep] at hfresh ⊢
    refine ⟨hfresh, hs.held, acts, skipped, hf.due, hpipe.trans hf.pipe, ?_,
      by rw [hpipe]; exact hf.skips⟩
    rw [setDummy_self, hms, ← hf.sent, List.append_assoc _ _ [m]]
  | backlog j =>
    obtain rfl : j = i := hother
    have hms : messagesOf key (.backlog j) = [] := rfl
    rw [hms, List.append_nil]
    rcases own_backlog su hs.fresh hs.held with ⟨hsame, -⟩ | ⟨hbusy, hpool, m, hqueue, hpipe⟩
    · rw [hsame]
      exact hs
    · exact ⟨hfresh, by rw [hpool]; exact hs.held, hf.send hbusy hqueue hpipe⟩
  | run j h =>
    obtain rfl : j = i := hother
    have hms : messagesOf key (.run j h) = [] := rfl
    rw [hms, List.append_nil]
    rcases own_run su hs.fresh hs.held h with ⟨hsame, -⟩ | ⟨hbusy, hpool, hqueue, hpipe⟩
    · rw [hsame]
      exact hs
    · exact ⟨hfresh, by rw [hpool]; exact hs.held, hf.run (hok h rfl) hbusy hqueue hpipe⟩

/-! ## 3. Runs of the machine -/

variable (su) in
/-- A connection that has just been lent a dummy starts out anew. -/
theorem accepted_new {s : System} {n : Nat} (hs : s.Fresh n) (hnew : key ∉ s.pool.opened)
    {ok : AddStep → Bool} (hi : (s.pool.addConn key ok).connDummy key = some i) :
    let s' := s.step su.lim su.cfg su.parsers (.pool (.accept key ok))
    s'.pipe key i = .new ∧ (s'.dummies i).queue = [] := by
  -- the dummy was free, and what is free has been reset
  obtain ⟨-, -, hfree⟩ := addConn_keeps hs.sound hnew ok
  have hconn := hs.conns key (hs.sound.not_held hnew)
  have hdummy := hs.free i (hfree i hi)
  constructor
  · simp [System.pipe, System.step, hconn, hdummy, Dummy.new, Psock.new, Delivered.new, Pipe.new]
  · simp [System.step, hdummy, Dummy.new]

theorem does_messages (hm : m.Tied su) (hheld : m.pool.connDummy key ≠ none) (ev : MachineEvent) :
    (m.does su ev).flatMap (messagesOf key) = ev.messages su key := by
  cases ev with
  | established loc rem passive ok => rw [Machine.does]; split <;> rfl
  | tcpState loc rem new => rw [Machine.does]; split <;> rfl
  | skb loc rem buf pull =>
    have hother (k : Ip4Conn) (ms : List Message) :
        (ms.map (SystemEvent.message k)).flatMap (messagesOf key) = if k = key then ms else [] := by
      induction ms with
      | nil => simp
      | cons msg ms ih =>
        rw [List.map_cons, List.flatMap_cons, ih, messagesOf]
        split <;> rfl
    rw [Machine.does, MachineEvent.messages]
    by_cases hkey : su.key loc rem = key
    · rw [hkey, if_pos ((hm.added key).mpr hheld), hother]
    · rw [if_neg hkey]
      split
      · rw [hother, if_neg hkey]
      · rfl
  | backlog i => rfl
  | msg i h => rw [Machine.does]; split <;> rfl
  | condition stop => rfl
  | callback => rw [Machine.does]; split <;> rfl
  | polled ok => rfl
  | check ok => rw [Machine.does]; split <;> rfl
  | tick ns => rfl

theorem exec_pipes {s : System} (hs : s.Pipes su H key i messages) {es : List SystemEvent}
    (hsane : Runs.Along (System.step su.lim su.cfg su.parsers) Sane s es)
    (hclose : ∀ e ∈ es, ¬ Closes key e) (hok : ∀ h, .run i h ∈ es → H h) :
    (Runs.exec (System.step su.lim su.cfg su.parsers) s es).Pipes su H key i
      (messages ++ es.flatMap (messagesOf key)) := by
  -- step by step, as the messages grow
  induction es generalizing s messages with
  | nil => simpa using hs
  | cons e es ih =>
    have hstep := hs.step hsane.1 (hclose e List.mem_cons_self)
      (fun h he ↦ hok h (he ▸ List.mem_cons_self))
    have hrest := ih hstep hsane.2 (fun e' he' ↦ hclose e' (List.mem_cons_of_mem e he'))
      (fun h he ↦ hok h (List.mem_cons_of_mem e he))
    rw [List.flatMap_cons, ← List.append_assoc]
    exact hrest

/-- What a machine does on the way is what happens to the pipe of a connection. -/
theorem machine_pipes (hm : m.Tied su) (hs : (m.view su).Pipes su H key i messages)
    {events : List MachineEvent}
    (h : Runs.Along (Machine.step su) (Admissible su) m events)
    (hopen : ∀ ev ∈ events, ¬ ev.Closes su key) (hok : ∀ h, .msg i h ∈ events → H h) :
    ((Runs.exec (Machine.step su) m events).view su).Pipes su H key i
      (messages ++ events.flatMap (MachineEvent.messages su key)) := by
  -- an event may come to several steps of the system, or to none
  induction events generalizing m messages with
  | nil => simpa using hs
  | cons ev events ih =>
    have hheld : m.pool.connDummy key ≠ none := by
      rw [show m.pool.connDummy key = some i from hs.held]
      exact Option.some_ne_none i
    have hclose : ∀ e ∈ m.does su ev, ¬ Closes key e := by
      intro e he
      cases does_comes he with
      | close => exact fun hkey ↦ hopen _ List.mem_cons_self ⟨rfl, hkey⟩
      | _ => exact id
    have hrun : ∀ h', .run i h' ∈ m.does su ev → H h' := by
      intro h' he
      cases does_comes he with
      | run => exact hok h' List.mem_cons_self
    have hstep := exec_pipes hs (does_sane hm h.1) hclose hrun
    rw [← step_view hm ev, does_messages hm hheld] at hstep
    have hrest := ih (step_tied hm h.1) hstep h.2
      (fun e he ↦ hopen e (List.mem_cons_of_mem ev he))
      (fun h' he ↦ hok h' (List.mem_cons_of_mem ev he))
    rw [List.flatMap_cons, ← List.append_assoc]
    exact hrest

/-- A run in which a connection to the server is lent dummy `i` and stays open. -/
structure Tenant (su : Setup) (maps : DummyMaps) (before after : List MachineEvent)
    (loc rem : SocketAddrV4) (ok : AddStep → Bool) (i : Nat) : Prop where
  admissible : Runs.Along (Machine.step su) (Admissible su) (.start su maps)
    (before ++ [.established loc rem true ok] ++ after)
  serves : su.Serves loc
  lent : (Runs.exec (Machine.step su) (.start su maps)
    (before ++ [.established loc rem true ok])).pool.connDummy (su.key loc rem) = some i
  stays : ∀ ev ∈ after, ¬ ev.Closes su (su.key loc rem)

/-- A connection that has just been lent a dummy has done nothing on it. -/
theorem tenant_start {maps : DummyMaps} (hmaps : su.openDummies = .ok maps)
    {before after : List MachineEvent} {loc rem : SocketAddrV4} {ok : AddStep → Bool}
    (ht : Tenant su maps before after loc rem ok i) (H : Helpers → Prop) :
    let s := (Runs.exec (Machine.step su) (.start su maps)
      (before ++ [.established loc rem true ok])).view su
    s.Pipes su H (su.key loc rem) i [] ∧ s.pipe (su.key loc rem) i = .new ∧
      (s.dummies i).queue = [] := by
  obtain ⟨hfirst, -⟩ := (Runs.Along.append_iff _ _ _).mp ht.admissible
  obtain ⟨hbefore, hnew⟩ := (Runs.Along.concat_iff _ _ _).mp hfirst
  have htied := exec_tied hmaps hbefore
  have htakes := (takes_iff_serves loc rem).mpr ht.serves
  have hm₁ := exec_tied hmaps hfirst
  have hlent := ht.lent
  rw [Runs.exec_concat] at hlent hm₁ ⊢
  generalize Runs.exec (Machine.step su) (.start su maps) before = m₀ at *
  have hview := step_view htied (.established loc rem true ok)
  rw [Machine.does, if_pos ⟨rfl, htakes⟩, Runs.exec_cons, Runs.exec_nil] at hview
  have hlent' : (m₀.pool.addConn (su.key loc rem) ok).connDummy (su.key loc rem) = some i := by
    rw [established_eq, if_pos ⟨rfl, htakes⟩] at hlent
    exact hlent
  obtain ⟨hpipe, hqueue⟩ := accepted_new su htied.fresh (hnew htakes) hlent'
  rw [← hview] at hpipe hqueue
  -- no act and no message as yet
  exact ⟨⟨hm₁.fresh, hlent, [], [], trivial, hpipe, hqueue, .inl rfl⟩, hpipe, hqueue⟩

/-- Whatever else the machine does and whichever helper fails: what a connection to the server sees
of it is a run of its own pipe, on the messages its bytes have arrived in. -/
theorem tenant_pipe {maps : DummyMaps} (hmaps : su.openDummies = .ok maps)
    {before after : List MachineEvent} {loc rem : SocketAddrV4} {ok : AddStep → Bool}
    (ht : Tenant su maps before after loc rem ok i) (hok : ∀ h, .msg i h ∈ after → H h) :
    ((Runs.exec (Machine.step su) (.start su maps)
      (before ++ [.established loc rem true ok] ++ after)).view su).Pipes su H (su.key loc rem) i
        (after.flatMap (MachineEvent.messages su (su.key loc rem))) := by
  obtain ⟨hfirst, hafter⟩ := (Runs.Along.append_iff _ _ _).mp ht.admissible
  obtain ⟨hstart, -⟩ := tenant_start hmaps ht H
  rw [Runs.exec_append]
  exact machine_pipes (exec_tied hmaps hfirst) hstart hafter ht.stays hok

/-- An act that is due sends what its message says. -/
theorem due_sent (hdue : Runs.Along (Pipe.step su.lim su.cfg) (Due su.parsers H) .new acts) :
    (Runs.exec (Pipe.step su.lim su.cfg) .new acts).sent =
      (acts.filterMap Act.message?).flatMap fun m ↦ m.1 := by
  induction acts using List.reverseRecOn with
  | nil => rfl
  | append_singleton acts a ih =>
    obtain ⟨hacts, ha⟩ := (Runs.Along.concat_iff _ _ _).mp hdue
    -- what a message adds to a pipe is bounded on pipes that are regular only
    have hreg := hacts.preserves (I := Pipe.Regular)
      (fun _ _ hp _ ↦ step_regular su.lim su.cfg hp) .new
    rw [Runs.exec_concat, step_sent su.lim su.cfg _ a hreg.bounded, ih hacts,
      List.filterMap_append, List.flatMap_append]
    cases a with
    | send m =>
      have hsends : (Runs.exec (Pipe.step su.lim su.cfg) .new acts).sends (.send m) = m.1 :=
        if_pos ha
      have hmessage : [Act.send m].filterMap Act.message? = [m] := rfl
      rw [hsends, hmessage, List.flatMap_cons, List.flatMap_nil, List.append_nil]
    | run h ans => rfl

/-- The pipe of a connection to the server, as the maps have it. -/
def Setup.pipe (su : Setup) (m : Machine) (loc rem : SocketAddrV4) (i : Nat) : Pipe :=
  m.pipe (su.key loc rem) i (m.table su i)

/-- However the programs, the backlog, the recycler and other connections go on and whichever helper
fails: what the maps have of a connection that was lent a dummy is what a run of its own pipe comes
to, of acts that were due and on what the parsers answered for that pipe.  The messages it has been
sent, those that came after a drop and those that are queued are what has arrived, in order. -/
theorem programs_run_pipe {maps : DummyMaps} (hmaps : su.openDummies = .ok maps)
    {before after : List MachineEvent} {loc rem : SocketAddrV4} {ok : AddStep → Bool}
    (ht : Tenant su maps before after loc rem ok i) (hok : ∀ h, .msg i h ∈ after → H h) :
    let m := Runs.exec (Machine.step su) (.start su maps)
      (before ++ [.established loc rem true ok] ++ after)
    m.pool.connDummy (su.key loc rem) = some i ∧ ∃ acts skipped,
      Runs.Along (Pipe.step su.lim su.cfg) (Due su.parsers H) .new acts ∧
      su.pipe m loc rem i = Runs.exec (Pipe.step su.lim su.cfg) .new acts ∧
      acts.filterMap Act.message? ++ skipped ++ m.queues i =
        after.flatMap (MachineEvent.messages su (su.key loc rem)) ∧
      (skipped = [] ∨ (su.pipe m loc rem i).dropped = true) := by
  intro m
  obtain ⟨-, hheld, acts, skipped, hf⟩ := tenant_pipe hmaps ht hok
  exact ⟨hheld, acts, skipped, hf.due, hf.pipe, hf.sent, hf.skips⟩

theorem exampleTurn_split : [] ++ [.established (exampleHost 1 443) exampleClient true
    fun _ ↦ true] ++ (exampleTurn.take 4).drop 1 = exampleTurn.take 4 := rfl

/-- A connection is lent a dummy and asks for a route. -/
theorem exampleTurn_tenant : Tenant exampleSetup exampleMaps [] ((exampleTurn.take 4).drop 1)
    (exampleHost 1 443) exampleClient (fun _ ↦ true) 0 where
  admissible := by decide +kernel
  serves := by decide
  lent := by decide +kernel
  stays := by decide +kernel

theorem exampleTurn_ok : ∀ h, .msg 0 h ∈ (exampleTurn.take 4).drop 1 → h.AllOk := by
  intro h hmem
  simp only [exampleTurn, List.take_succ_cons, List.drop_succ_cons, List.take_zero,
    List.drop_zero, List.mem_cons, reduceCtorEq, MachineEvent.msg.injEq, List.not_mem_nil,
    or_false, false_or] at hmem
  rw [hmem.2]
  exact fun _ ↦ rfl

theorem programs_run_pipe_turn :
    let m := Runs.exec (Machine.step exampleSetup) (.start exampleSetup exampleMaps)
      (exampleTurn.take 4)
    ∃ acts, Runs.Along (Pipe.step exampleLimits exampleRoutes)
        (Due exampleParsers fun h ↦ h.AllOk) .new acts ∧
      acts.filterMap Act.message? = [exampleGet] ∧
      let p := Runs.exec (Pipe.step exampleLimits exampleRoutes) .new acts
      exampleSetup.pipe m (exampleHost 1 443) exampleClient 0 = p ∧
        p.toClient = Http1.ascii "HTTP/" := by
  intro m
  obtain ⟨-, acts, skipped, hdue, hpipe, hsent, hskips⟩ :=
    programs_run_pipe example_open exampleTurn_tenant exampleTurn_ok
  rw [exampleTurn_split] at hpipe hsent hskips
  -- nothing has been dropped and nothing is queued
  have halive : (exampleSetup.pipe m (exampleHost 1 443) exampleClient 0).dropped ≠ true := by
    decide +kernel
  have hqueue : m.queues 0 = [] := by decide +kernel
  have hclient : (exampleSetup.pipe m (exampleHost 1 443) exampleClient 0).toClient =
      Http1.ascii "HTTP/" := by
    decide +kernel
  rw [hskips.resolve_right halive, hqueue, List.append_nil, List.append_nil] at hsent
  exact ⟨acts, hdue, hsent, hpipe, hpipe ▸ hclient⟩

/-- However the programs, the backlog, the recycler and other connections go on and whichever helper
fails: of the bytes that have arrived on a connection that was lent a dummy, each has gone
somewhere, is being worked off or is queued on that dummy, in their order, unless a verdict has
dropped a message. -/
theorem programs_account {maps : DummyMaps} (hmaps : su.openDummies = .ok maps)
    {before after : List MachineEvent} {loc rem : SocketAddrV4} {ok : AddStep → Bool}
    (ht : Tenant su maps before after loc rem ok i) :
    let m := Runs.exec (Machine.step su) (.start su maps)
      (before ++ [.established loc rem true ok] ++ after)
    (m.psocks i).dead = true ∨
      (m.delivered (su.key loc rem)).log.flatMap Disposal.bytes ++ (m.psocks i).buf ++
        (m.queues i).flatMap (fun msg ↦ msg.1) =
          after.flatMap (MachineEvent.bytes su (su.key loc rem)) := by
  intro m
  obtain ⟨-, -, acts, skipped, hf⟩ := tenant_pipe (H := fun _ ↦ True) hmaps ht
    (fun _ _ ↦ trivial)
  rcases hf.skips with hskip | hdead
  swap
  · exact .inl hdead
  right
  have hsent := due_sent hf.due
  rw [← hf.pipe] at hsent
  -- the bytes of an sk_buff are those of its messages, linear or not
  have hbytes : after.flatMap (MachineEvent.bytes su (su.key loc rem)) =
      (after.flatMap (MachineEvent.messages su (su.key loc rem))).flatMap fun msg ↦ msg.1 := by
    rw [List.flatMap_assoc]
    exact List.flatMap_congr fun ev _ ↦ (event_bytes ev).symm
  rw [hbytes, ← hf.sent, hskip, List.append_nil, List.flatMap_append, ← hsent]
  rfl

theorem programs_account_turn :
    let m := Runs.exec (Machine.step exampleSetup) (.start exampleSetup exampleMaps)
      (exampleTurn.take 4)
    let key := exampleSetup.key (exampleHost 1 443) exampleClient
    (m.delivered key).log.flatMap Disposal.bytes = exampleSkb.bytes := by
  intro m key
  have haccount := programs_account example_open exampleTurn_tenant
  rw [exampleTurn_split] at haccount
  have hbuf : (m.psocks 0).buf = [] := by decide +kernel
  have hqueue : m.queues 0 = [] := by decide +kernel
  have hall := haccount.resolve_left (by decide +kernel)
  rw [hbuf, hqueue, List.flatMap_nil, List.append_nil, List.append_nil] at hall
  exact hall

end HyperFastPath.Dummies
