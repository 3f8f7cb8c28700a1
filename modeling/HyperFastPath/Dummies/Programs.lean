import HyperFastPath.Dummies.Machine
import HyperFastPath.Dummies.Isolation

/-!
# What the programs come to

Seen through `view`, a step of the programs or of the recycler is one of the system of connections
and dummies: the keys the maps are kept under lead each program to the connection and the dummy it
is about.
-/

namespace HyperFastPath.Dummies

open FastPath

variable (su : Setup)

/-- The system a machine is. -/
def Machine.view (m : Machine) : System :=
  { pool := m.pool
    conns := m.conns
    dummies := fun i ↦ { queue := m.queues i, psock := m.psocks i, table := m.table su i }
    delivered := m.delivered }

/-- What a step of a machine does to it. -/
def Machine.does (m : Machine) : MachineEvent → List SystemEvent
  | .established loc rem passive ok =>
    if passive ∧ su.server.Takes (su.key loc rem) then [.pool (.accept (su.key loc rem) ok)] else []
  | .tcpState loc rem new =>
    if new = .close then [.pool (.close (su.key loc rem) (decide m.pool.HasRoom))] else []
  | .skb loc rem skb pull =>
    if m.sockMap (su.key loc rem) then (skb.messages pull).map (.message (su.key loc rem)) else []
  | .backlog i => [.backlog i]
  | .msg i h => if i < su.socks.length then [.run i h] else []
  | .callback => if m.phase = .polling then [.pool .deliver] else []
  | .check ok => if m.phase = .draining ∧ m.due.isSome then [.pool (.reset ok)] else []
  | .condition _ | .polled _ | .tick _ => []

variable {su} {m : Machine} {key : Ip4Conn} {i j : Nat}

/-! ## 1. The dummies and their keys -/

theorem dummyKey_inj {e : Endian} {d d' : DummySocket} (h : d.key e = d'.key e) : d = d' := by
  obtain ⟨hloc, hpeer⟩ := key_inj.mp (bytes_injective h)
  cases d
  cases d'
  cases hloc
  cases hpeer
  rfl

theorem idx_eq {d d' : DummySocket} (hi : su.socks[i]? = some d) (hj : su.socks[j]? = some d')
    (h : d.key su.endian = d'.key su.endian) : i = j := by
  have hlt : i < su.socks.length := (List.getElem?_eq_some_iff.mp hi).1
  rw [← List.getElem?_inj hlt su.socks_nodup, hi, hj, dummyKey_inj h]

theorem socks_some (hi : i < su.socks.length) : ∃ d, su.socks[i]? = some d :=
  ⟨_, List.getElem?_eq_getElem hi⟩

/-- What is kept under the key of a dummy is kept for that dummy. -/
theorem table_update {d : DummySocket} (hi : su.socks[i]? = some d)
    (t : Option (List HeaderField)) (j : Nat) :
    su.socks[j]?.bind (fun d' ↦ Function.update m.tables (d.key su.endian) t (d'.key su.endian)) =
      if j = i then t else m.table su j := by
  unfold Machine.table
  cases hj : su.socks[j]? with
  | none =>
    have hne : j ≠ i := fun hji ↦ by
      rw [hji, hi] at hj
      cases hj
    simp [hne]
  | some d' =>
    by_cases hji : j = i
    · subst hji
      cases hi.symm.trans hj
      simp
    · -- another dummy has another address, and so another key
      have hne : d'.key su.endian ≠ d.key su.endian := fun h ↦ hji (idx_eq hj hi h)
      simp [hji, hne]

theorem addAll_spec {e : Endian} {socks : List DummySocket} (hnodup : socks.Nodup)
    (maps : DummyMaps) (idx : Nat) :
    ∃ maps', maps.addAll e idx (socks.map fun d ↦ (.v4 d.loc, .v4 d.peer)) = .ok maps' ∧
      maps'.freeDummies = maps.freeDummies ++ List.range' idx socks.length ∧
      (∀ i, maps'.dummyMap i = (maps.dummyMap i || decide (idx ≤ i ∧ i < idx + socks.length))) ∧
      (∀ i d, socks[i]? = some d → maps'.dummyIdx (d.key e) = some (idx + i)) ∧
      ∀ key, (∀ d ∈ socks, d.key e ≠ key) → maps'.dummyIdx key = maps.dummyIdx key := by
  -- the maps of the turns so far and the index of the next dummy change from turn to turn
  induction socks generalizing maps idx with
  | nil =>
    refine ⟨maps, rfl, by simp, fun i ↦ ?_, fun i d h ↦ by simp at h, fun _ _ ↦ rfl⟩
    have hno : ¬ (idx ≤ i ∧ i < idx) := by omega
    simp [hno]
  | cons d socks ih =>
    obtain ⟨hd, hrest⟩ := List.nodup_cons.mp hnodup
    obtain ⟨maps', hok, hfree, hmap, hidx, hother⟩ := ih hrest
      { dummyMap := Function.update maps.dummyMap idx true
        dummyIdx := Function.update maps.dummyIdx (d.key e) (some idx)
        freeDummies := maps.freeDummies ++ [idx] } (idx + 1)
    refine ⟨maps', ?_, ?_, fun i ↦ ?_, fun i d' hd' ↦ ?_, fun key hkey ↦ ?_⟩
    · rw [List.map_cons, DummyMaps.addAll, DummyMaps.add, connKey_eq]
      exact hok
    · rw [hfree, List.length_cons, List.range'_succ, List.append_assoc, List.singleton_append]
    · rw [hmap i]
      simp only [List.length_cons]
      by_cases hi : i = idx
      · subst hi
        simp
      · rw [Function.update_of_ne hi]
        congr 1
        simp only [decide_eq_decide]
        omega
    · cases i with
      | zero =>
        cases hd'
        -- no later turn adds the same key
        have hfirst : ∀ d' ∈ socks, d'.key e ≠ d.key e := fun d' hd' hkey ↦ by
          rw [dummyKey_inj hkey] at hd'
          exact hd hd'
        rw [hother _ hfirst]
        simp
      | succ i =>
        rw [hidx i d' (by simpa using hd'), Nat.add_assoc, Nat.add_comm 1]
    · rw [hother key fun d' hd' ↦ hkey d' (List.mem_cons_of_mem _ hd')]
      exact Function.update_of_ne (hkey d List.mem_cons_self).symm _ _

variable (su) in
/-- `DummyPool::new` registers each dummy under its index, and no dummy is left out. -/
theorem openDummies_spec : ∃ maps, su.openDummies = .ok maps ∧
    maps.freeDummies = List.range su.socks.length ∧
    (∀ i, maps.dummyMap i = decide (i < su.socks.length)) ∧
    ∀ i d, su.socks[i]? = some d → maps.dummyIdx (d.key su.endian) = some i := by
  obtain ⟨maps, hok, hfree, hmap, hidx, -⟩ := addAll_spec (e := su.endian) su.socks_nodup
    { dummyMap := fun _ ↦ false, dummyIdx := fun _ ↦ none, freeDummies := [] } 0
  refine ⟨maps, hok, ?_, fun i ↦ ?_, fun i d hd ↦ ?_⟩
  · rw [hfree, List.nil_append, List.range_eq_range']
  · simpa using hmap i
  · rw [hidx i d hd, Nat.zero_add]

/-! ## 2. What ties a machine to the system -/

/-- `sock_map`, the callback flags, `dummy_map` and `dummy_idx` are as the pool has it, and what is
in quarantine was given back no later than it was noted. -/
structure Machine.Tied (su : Setup) (m : Machine) : Prop where
  fresh : (m.view su).Fresh su.socks.length
  idx : ∀ i d, su.socks[i]? = some d → m.dummyIdx (d.key su.endian) = some i
  added : ∀ key, m.sockMap key = true ↔ m.pool.connDummy key ≠ none
  flagged : ∀ key, m.stateCb key = true ↔ m.pool.connDummy key ≠ none
  mapped : ∀ i, i ∈ m.pool.freeDummies ∨ (m.pool.dummyOwners i).active = true → m.dummyMap i = true
  times : m.times.length = m.pool.quarantine.length
  closed : ∀ i t, (i, t) ∈ m.released → m.closedAt i ≤ t
  past : ∀ i, m.closedAt i ≤ m.now

theorem Machine.Tied.sound (hm : m.Tied su) : m.pool.Sound su.socks.length := hm.fresh.sound

theorem start_tied {maps : DummyMaps} (hmaps : su.openDummies = .ok maps) :
    (Machine.start su maps).Tied su ∧ (Machine.start su maps).view su = .new su.socks.length := by
  obtain ⟨maps', hok, hfree, hmap, hidx⟩ := openDummies_spec su
  cases hmaps.symm.trans hok
  have hpool : (Machine.start su maps).pool = .new su.socks.length := by
    simp [Machine.start, hfree, Pool.new]
  have hview : (Machine.start su maps).view su = .new su.socks.length := by
    rw [Machine.view, hpool]
    simp [Machine.start, Machine.table, System.new, Dummy.new]
  refine ⟨⟨hview ▸ .new _, hidx, fun key ↦ ?_, fun key ↦ ?_, fun i hi ↦ ?_, rfl, ?_, ?_⟩, hview⟩
  · simp [Pool.new, Machine.start]
  · simp [Pool.new, Machine.start]
  · rw [hpool] at hi
    have hlt : i < su.socks.length := by simpa [Pool.new] using hi
    simpa [Machine.start, hlt] using hmap i
  · intro i t h
    simp [Machine.released, Machine.start] at h
  · intro i
    exact Nat.zero_le _

/-! ## 3. What a step comes to -/

theorem System.eq_of {s t : System} (hpool : s.pool = t.pool) (hconns : s.conns = t.conns)
    (hdummies : ∀ i, s.dummies i = t.dummies i) (hdelivered : s.delivered = t.delivered) :
    s = t := by
  cases s
  cases t
  cases hpool
  cases hconns
  cases hdelivered
  cases funext hdummies
  rfl

variable (su) in
theorem view_dummy (m : Machine) (i : Nat) : (m.view su).dummies i =
    { queue := m.queues i, psock := m.psocks i, table := m.table su i } := rfl

theorem addConn_eq (m : Machine) (key : Ip4Conn) (ok : AddStep → Bool) :
    m.addConn key ok = { m with
      pool := m.pool.addConn key ok
      stateCb := if m.pool.freeDummies = [] then m.stateCb
        else Function.update m.stateCb key (addsConn ok)
      sockMap := if m.pool.freeDummies = [] ∨ addsConn ok = false then m.sockMap
        else Function.update m.sockMap key true } := by
  unfold Machine.addConn
  cases hfree : m.pool.freeDummies with
  | nil =>
    -- no dummy is left, so the connection is left to user space
    have hpool : m.pool.addConn key ok = m.pool := by
      unfold Pool.addConn
      rw [hfree]
    simp [hpool]
  | cons dummy free => cases addsConn ok <;> simp

theorem removeConn_eq (m : Machine) (key : Ip4Conn) :
    m.removeConn key = { m with
      pool := m.pool.removeConn key (decide m.pool.HasRoom)
      conns := if m.pool.connDummy key = none then m.conns else Function.update m.conns key .new
      closedAt := (m.pool.connDummy key).elim m.closedAt fun i ↦
        Function.update m.closedAt i m.now } := by
  unfold Machine.removeConn
  cases hc : m.pool.connDummy key with
  | none =>
    have hpool (output : Bool) : m.pool.removeConn key output = m.pool := by
      unfold Pool.removeConn
      rw [hc]
    simp [hpool]
  | some dummy => simp

theorem established_eq (m : Machine) (loc rem : SocketAddrV4) (passive : Bool)
    (ok : AddStep → Bool) :
    m.step su (.established loc rem passive ok) =
      if passive ∧ su.server.Takes (su.key loc rem) then
        { m.addConn (su.key loc rem) ok with
          pool := m.pool.step (.accept (su.key loc rem) ok)
          delivered := Function.update m.delivered (su.key loc rem) .new }
      else m := by
  have hkey : (SockCtx.of su.endian loc rem).key su.endian = su.key loc rem := rfl
  cases passive with
  | false => simp [Machine.step, Machine.monitorSockets]
  | true =>
    by_cases htakes : su.server.Takes (su.key loc rem)
    · simp [Machine.step, Machine.monitorSockets, htakes, hkey, addConn_eq, Pool.step]
    · simp [Machine.step, Machine.monitorSockets, htakes, hkey]

theorem tcpState_eq (hm : m.Tied su) (loc rem : SocketAddrV4) (new : TcpState) :
    m.step su (.tcpState loc rem new) =
      if new = .close then
        { m.removeConn (su.key loc rem) with
          pool := m.pool.step (.close (su.key loc rem) (decide m.pool.HasRoom))
          stateCb := Function.update m.stateCb (su.key loc rem) false
          sockMap := Function.update m.sockMap (su.key loc rem) false }
      else m := by
  have hkey : (SockCtx.of su.endian loc rem).key su.endian = su.key loc rem := rfl
  by_cases hnew : new = .close
  swap
  · simp [Machine.step, Machine.monitorSockets, hnew]
  by_cases hcb : m.stateCb (su.key loc rem) = true
  · simp [Machine.step, Machine.monitorSockets, hnew, hcb, hkey, removeConn_eq, Pool.step]
  · -- a connection without a dummy has nothing to give back
    have hnone : m.pool.connDummy (su.key loc rem) = none :=
      not_not.mp fun hne ↦ hcb ((hm.flagged _).mpr hne)
    have hpool : m.pool.removeConn (su.key loc rem) (decide m.pool.HasRoom) = m.pool := by
      unfold Pool.removeConn
      rw [hnone]
    simp [Machine.step, hnew, hcb, removeConn_eq, hnone, Pool.step, hpool]

theorem exec_messages {s : System} (hc : s.pool.connDummy key = some i) (ms : List Message) :
    Runs.exec (System.step su.lim su.cfg su.parsers) s (ms.map (.message key)) =
      s.setDummy i { s.dummies i with queue := (s.dummies i).queue ++ ms } := by
  -- the connection holds the same dummy after each of the messages
  induction ms generalizing s with
  | nil => simp [System.setDummy]
  | cons m ms ih =>
    have hstep : s.step su.lim su.cfg su.parsers (.message key m) =
        s.setDummy i { s.dummies i with queue := (s.dummies i).queue ++ [m] } := by
      simp only [System.step, hc]
    have hheld : (s.setDummy i { s.dummies i with
        queue := (s.dummies i).queue ++ [m] }).pool.connDummy key = some i := hc
    rw [List.map_cons, Runs.exec_cons, hstep, ih hheld, setDummy_self]
    simp [System.setDummy]

theorem Machine.Tied.lent (hm : m.Tied su) (hc : m.pool.connDummy key = some i) :
    m.pool.dummyOwners i = { conn := key, active := true } ∧ m.dummyMap i = true ∧
      i < su.socks.length := by
  have howner := (hm.sound.owner key i).mp hc
  -- a dummy that is lent is one of the pool's
  refine ⟨howner, hm.mapped i (.inr (by rw [howner])), ?_⟩
  have hplaces := hm.sound.places i
  rw [Pool.places, howner, if_pos rfl] at hplaces
  by_contra hlt
  rw [if_neg hlt] at hplaces
  omega

/-- An sk_buff of a connection that was added is queued on its dummy, in one message or in its
parts. -/
theorem skb_eq (hm : m.Tied su) (loc rem : SocketAddrV4) (skb : Skb) (pull : Bool) :
    m.step su (.skb loc rem skb pull) =
      (m.pool.connDummy (su.key loc rem)).elim m fun i ↦
        { m with queues := Function.update m.queues i (m.queues i ++ skb.messages pull) } := by
  have hkey : (SockCtx.of su.endian loc rem).key su.endian = su.key loc rem := rfl
  cases hc : m.pool.connDummy (su.key loc rem) with
  | none =>
    have hadded : m.sockMap (su.key loc rem) = false :=
      eq_false_of_ne_true fun h ↦ (hm.added _).mp h hc
    simp [Machine.step, hadded]
  | some i =>
    have hadded : m.sockMap (su.key loc rem) = true :=
      (hm.added _).mpr (by rw [hc]; exact Option.some_ne_none i)
    obtain ⟨-, hmapped, -⟩ := hm.lent hc
    simp only [Machine.step, hadded, if_true, Machine.skbVerdict, hkey, hc, hmapped,
      Option.elim_some]
    by_cases hempty : skb.parts = []
    · simp [Skb.bytes, Skb.messages, hempty]
    · rw [if_neg fun h ↦ bytes_ne_nil hempty (List.eq_nil_of_length_eq_zero h)]

theorem pipe_view (m : Machine) (key : Ip4Conn) (i : Nat) :
    (m.view su).pipe key i = m.pipe key i (m.table su i) := rfl

/-- The message goes out on the dummy it was queued on. -/
theorem backlog_view (m : Machine) (i : Nat) :
    (m.step su (.backlog i)).view su =
      (m.view su).step su.lim su.cfg su.parsers (.backlog i) := by
  have hview := view_dummy su m i
  by_cases hbusy : (m.psocks i).Busy
  · have hsys : (m.view su).step su.lim su.cfg su.parsers (.backlog i) = m.view su :=
      if_pos (by rw [hview]; exact hbusy)
    have hmach : m.step su (.backlog i) = m := if_pos hbusy
    rw [hsys, hmach]
  cases hq : m.queues i with
  | nil => simp [Machine.step, System.step, hview, hbusy, hq]
  | cons msg queue =>
    simp only [Machine.step, System.step, hview, hbusy, hq, if_false]
    -- what the pipe makes of the message does not matter, only where it is put
    unfold Machine.send System.send
    have hpool : (m.view su).pool = m.pool := rfl
    simp only [hpool, pipe_view]
    generalize (m.pipe _ i (m.table su i)).step su.lim su.cfg (.send msg) = p
    split
    · refine System.eq_of rfl rfl (fun j ↦ ?_) rfl
      by_cases hj : j = i
      · subst hj
        simp [Machine.view, System.setPipe, Machine.setPipe, Machine.table]
      · simp [Machine.view, System.setPipe, Machine.setPipe, hj, Machine.table]
    · refine System.eq_of rfl rfl (fun j ↦ ?_) rfl
      by_cases hj : j = i
      · subst hj
        simp [Machine.view, System.setDummy, Machine.setPsock, Machine.table]
      · simp [Machine.view, System.setDummy, Machine.setPsock, hj, Machine.table]

/-- The program finds the dummy it runs on, and the table the parser has kept for it. -/
theorem msg_view (hm : m.Tied su) (hi : i < su.socks.length) (h : Helpers) :
    (m.step su (.msg i h)).view su =
      (m.view su).step su.lim su.cfg su.parsers (.run i h) := by
  obtain ⟨d, hd⟩ := socks_some hi
  have hview := view_dummy su m i
  have htable : m.table su i = m.tables (d.key su.endian) := by rw [Machine.table, hd]; rfl
  have hkey : ((d.ctx su.endian).key su.endian).bytes su.endian = d.key su.endian := rfl
  simp only [Machine.step, System.step, hd, System.run, hview]
  by_cases hbusy : (m.psocks i).Busy
  swap
  · simp only [hbusy, not_false_eq_true, if_true, if_false]
  simp only [hbusy, not_true_eq_false, if_true, if_false, Machine.msgVerdict, hkey, hm.idx i d hd]
  have hpool : (m.view su).pool = m.pool := rfl
  have htables := table_update (m := m) hd
  simp only [hpool, pipe_view, htable]
  split
  · refine System.eq_of rfl rfl (fun j ↦ ?_) rfl
    by_cases hj : j = i
    · subst hj
      -- only the parser of HTTP/2 writes the table
      by_cases hh2 : (m.pipe (m.pool.dummyOwners j).conn j (m.tables (d.key su.endian))).conn.isH2
      · simp [Machine.view, System.setPipe, Machine.setPipe, hh2, Machine.table, htables]
      · simp [Machine.view, System.setPipe, Machine.setPipe, hh2, Machine.table, hd]
    · by_cases hh2 : (m.pipe (m.pool.dummyOwners i).conn i (m.tables (d.key su.endian))).conn.isH2
      · simp [Machine.view, System.setPipe, Machine.setPipe, hh2, hj, Machine.table, htables]
      · simp [Machine.view, System.setPipe, Machine.setPipe, hh2, hj, Machine.table]
  · refine System.eq_of rfl rfl (fun j ↦ ?_) rfl
    by_cases hj : j = i
    · subst hj
      simp [Machine.view, System.setDummy, Machine.setPsock, Machine.table, hd]
    · simp [Machine.view, System.setDummy, Machine.setPsock, hj, Machine.table]

theorem Machine.Tied.lt_of_released (hm : m.Tied su) (hi : i ∈ m.pool.released) :
    i < su.socks.length := by
  have hplaces := hm.sound.places i
  have hcount := List.count_pos_iff.mpr hi
  rw [Pool.places] at hplaces
  by_contra hlt
  rw [if_neg hlt] at hplaces
  omega

/-- The record of a dummy is read back as that dummy. -/
theorem callback_eq (hm : m.Tied su) :
    m.callback su.endian = { m with
      pool := m.pool.deliver
      times := if m.pool.releasedDummies = [] then m.times else m.times ++ [m.now] } := by
  unfold Machine.callback Pool.deliver
  cases hrel : m.pool.releasedDummies with
  | nil => rfl
  | cons dummy rest =>
    -- what is in the ring buffer is a dummy, and so fits the record
    have hlt : dummy < su.socks.length := hm.lt_of_released (by simp [Pool.released, hrel])
    have hle := su.socks_le
    have hsmall : dummy < 2 ^ 32 := by
      simp only [maxDummies] at hle
      omega
    have hread : (fromNe su.endian (recordOf su.endian dummy)).toNat = dummy := by
      rw [recordOf, fromNe_toNe, UInt32.toNat_ofNat', Nat.mod_eq_of_lt hsmall]
    have hlen : (recordOf su.endian dummy).length = 4 := toNe_length _
    simp [hlen, hread]

theorem due_eq (h : m.due = some i) :
    ∃ t rest, m.released = (i, t) :: rest ∧ t + quarantine ≤ m.now := by
  unfold Machine.due at h
  cases hr : m.released with
  | nil =>
    rw [hr] at h
    cases h
  | cons x rest =>
    rw [hr] at h
    simp only at h
    split at h
    · cases h
    · cases h
      refine ⟨x.2, rest, rfl, ?_⟩
      have hq : 0 < quarantine := by decide
      omega

theorem quarantine_of_due (h : m.due = some i) : ∃ rest, m.pool.quarantine = i :: rest := by
  obtain ⟨t, rest, hr, -⟩ := due_eq h
  cases hq : m.pool.quarantine with
  | nil => simp [Machine.released, hq] at hr
  | cons j js =>
    cases ht : m.times with
    | nil => simp [Machine.released, hq, ht] at hr
    | cons t' ts =>
      simp only [Machine.released, hq, ht, List.zip_cons_cons, List.cons.injEq, Prod.mk.injEq] at hr
      exact ⟨js, by rw [hr.1.1]⟩

theorem reset_view (hm : m.Tied su) (hdue : m.due = some i) (ok : ResetStep → Bool) :
    (m.reset su.endian su.socks i ok).view su =
      (m.view su).step su.lim su.cfg su.parsers (.pool (.reset ok)) := by
  obtain ⟨rest, hq⟩ := quarantine_of_due hdue
  have hlt : i < su.socks.length := hm.lt_of_released (by simp [Pool.released, hq])
  obtain ⟨d, hd⟩ := socks_some hlt
  have hpool : (m.view su).pool = m.pool := rfl
  have hview := view_dummy su m i
  have htables := table_update (m := m) hd none
  simp only [Machine.reset, System.step, hpool, hq, hd, hm.sound.size, hlt, if_true, hview]
  refine System.eq_of ?_ ?_ (fun j ↦ ?_) ?_
  · cases ok .removeDummy <;> rfl
  · cases ok .removeDummy <;> rfl
  · by_cases hj : j = i
    · subst hj
      -- the psock goes with the first step, the table only if none ahead of it fails
      cases h1 : ok .removeDummy <;> cases h2 : ok .takeError <;> cases h3 : ok .addDummy <;>
        cases h4 : ok .clearTable <;>
          simp [Machine.view, Dummy.reset, h1, h2, h3, h4, Machine.table, htables, hd]
    · cases ok .removeDummy <;> cases ok .takeError && ok .addDummy && ok .clearTable <;>
        simp [Machine.view, System.setDummy, Machine.table, htables, hj]
  · cases ok .removeDummy <;> rfl

theorem step_view (hm : m.Tied su) (ev : MachineEvent) :
    (m.step su ev).view su =
      Runs.exec (System.step su.lim su.cfg su.parsers) (m.view su) (m.does su ev) := by
  cases ev with
  | established loc rem passive ok =>
    rw [established_eq, Machine.does]
    split
    · rw [addConn_eq]
      rfl
    · rfl
  | tcpState loc rem new =>
    rw [tcpState_eq hm, Machine.does]
    split
    · rw [removeConn_eq, Runs.exec_cons, Runs.exec_nil]
      have hpool : (m.view su).pool = m.pool := rfl
      simp only [System.step, System.removeConn, hpool]
      cases m.pool.connDummy (su.key loc rem) <;> rfl
    · rfl
  | skb loc rem skb pull =>
    rw [skb_eq hm, Machine.does]
    cases hc : m.pool.connDummy (su.key loc rem) with
    | none =>
      have hadded : m.sockMap (su.key loc rem) = false :=
        eq_false_of_ne_true fun h ↦ (hm.added _).mp h hc
      simp [hadded]
    | some i =>
      have hadded : m.sockMap (su.key loc rem) = true :=
        (hm.added _).mpr (by rw [hc]; exact Option.some_ne_none i)
      rw [if_pos hadded, exec_messages (i := i) (by exact hc)]
      refine System.eq_of rfl rfl (fun j ↦ ?_) rfl
      by_cases hj : j = i
      · subst hj
        simp [Machine.view, System.setDummy, Machine.table]
      · simp [Machine.view, System.setDummy, hj, Machine.table]
  | backlog i => exact backlog_view m i
  | msg i h =>
    rw [Machine.does]
    split
    · exact msg_view hm ‹_› h
    · have hnone : su.socks[i]? = none := List.getElem?_eq_none (Nat.le_of_not_lt ‹_›)
      simp [Machine.step, hnone]
  | condition stop =>
    simp only [Machine.step, Machine.does]
    split <;> rfl
  | callback =>
    simp only [Machine.step, Machine.does]
    split
    · rw [callback_eq hm]
      rfl
    · rfl
  | polled ok =>
    simp only [Machine.step, Machine.does]
    split <;> rfl
  | check ok =>
    simp only [Machine.step, Machine.does]
    by_cases hphase : m.phase = .draining
    swap
    · simp [hphase]
    cases hdue : m.due with
    | none => simp [hphase, Machine.view, Machine.table]
    | some i =>
      simp only [hphase, if_true, Option.isSome_some, and_self]
      exact reset_view hm hdue ok
  | tick ns => rfl

end HyperFastPath.Dummies
