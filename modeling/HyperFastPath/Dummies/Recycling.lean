import HyperFastPath.Dummies.Connections

/-!
# The recycler in time

No dummy is reset early, none is left waiting, none is lost on its way back, and none overtakes
another.
-/

namespace HyperFastPath.Dummies

open FastPath

variable {su : Setup} {m : Machine} {i : Nat}

/-! ## 1. The clock -/

/-- What is sent on a dummy leaves the recycler and the pool as they are. -/
theorem send_keeps (m : Machine) (i : Nat) (msg : Message) (queue : List Message) :
    (m.send su i msg queue).pool = m.pool ∧ (m.send su i msg queue).now = m.now ∧
      (m.send su i msg queue).times = m.times := by
  unfold Machine.send
  simp only
  split <;> exact ⟨rfl, rfl, rfl⟩

theorem msgVerdict_keeps (m : Machine) (i : Nat) (ctx : SockCtx) (h : Helpers) :
    let m' := m.msgVerdict su.lim su.cfg su.parsers su.endian i ctx h
    m'.pool = m.pool ∧ m'.now = m.now ∧ m'.times = m.times := by
  simp only [Machine.msgVerdict]
  split
  · exact ⟨rfl, rfl, rfl⟩
  · split <;> exact ⟨rfl, rfl, rfl⟩

variable (su) in
theorem backlog_keeps (m : Machine) (i : Nat) :
    let m' := m.step su (.backlog i)
    m'.pool = m.pool ∧ m'.now = m.now ∧ m'.times = m.times := by
  simp only [Machine.step]
  split
  · exact ⟨rfl, rfl, rfl⟩
  · split
    · exact ⟨rfl, rfl, rfl⟩
    · exact send_keeps m i _ _

variable (su) in
theorem msg_keeps (m : Machine) (i : Nat) (h : Helpers) :
    let m' := m.step su (.msg i h)
    m'.pool = m.pool ∧ m'.now = m.now ∧ m'.times = m.times := by
  simp only [Machine.step]
  split
  · exact ⟨rfl, rfl, rfl⟩
  · split
    · exact msgVerdict_keeps m i _ h
    · exact ⟨rfl, rfl, rfl⟩

/-- What was noted first comes first, and nothing was noted later than now. -/
structure Machine.Timely (m : Machine) : Prop where
  sorted : m.times.Pairwise (· ≤ ·)
  past : ∀ t ∈ m.times, t ≤ m.now

/-- Only the callback notes an instant, only a reset is done with one, and the clock never goes
back. -/
theorem step_clock (hm : m.Tied su) (ev : MachineEvent) :
    m.now ≤ (m.step su ev).now ∧ ((m.step su ev).times = m.times ∨
      (m.step su ev).times = m.times.tail ∨ (m.step su ev).times = m.times ++ [m.now]) := by
  cases ev with
  | established loc rem passive ok =>
    rw [established_eq, addConn_eq]
    split <;> exact ⟨le_rfl, .inl rfl⟩
  | tcpState loc rem new =>
    rw [tcpState_eq hm, removeConn_eq]
    split <;> exact ⟨le_rfl, .inl rfl⟩
  | skb loc rem skb pull =>
    rw [skb_eq hm]
    cases m.pool.connDummy (su.key loc rem) <;> exact ⟨le_rfl, .inl rfl⟩
  | backlog i =>
    obtain ⟨-, hnow, htimes⟩ := backlog_keeps su m i
    exact ⟨hnow.ge, .inl htimes⟩
  | msg i h =>
    obtain ⟨-, hnow, htimes⟩ := msg_keeps su m i h
    exact ⟨hnow.ge, .inl htimes⟩
  | condition stop =>
    simp only [Machine.step]
    split <;> exact ⟨le_rfl, .inl rfl⟩
  | callback =>
    simp only [Machine.step]
    rw [callback_eq hm]
    split
    · by_cases hnone : m.pool.releasedDummies = []
      · exact ⟨le_rfl, .inl (if_pos hnone)⟩
      · exact ⟨le_rfl, .inr (.inr (if_neg hnone))⟩
    · exact ⟨le_rfl, .inl rfl⟩
  | polled ok =>
    simp only [Machine.step]
    split <;> exact ⟨le_rfl, .inl rfl⟩
  | check ok =>
    simp only [Machine.step]
    split
    · cases m.due with
      | none => exact ⟨le_rfl, .inl rfl⟩
      | some i =>
        -- whatever fails, the dummy is off the queue
        refine ⟨?_, .inr (.inl rfl)⟩
        simp only [Machine.reset]
        cases su.socks[i]? with
        | none => exact le_rfl
        | some d => cases ok .removeDummy <;> exact le_rfl
    · exact ⟨le_rfl, .inl rfl⟩
  | tick ns => exact ⟨Nat.le_add_right _ _, .inl rfl⟩

theorem step_timely (hm : m.Tied su) (ht : m.Timely) (ev : MachineEvent) :
    (m.step su ev).Timely := by
  obtain ⟨hnow, htimes⟩ := step_clock hm ev
  have hpast : ∀ t ∈ m.times, t ≤ (m.step su ev).now := fun t h ↦ Nat.le_trans (ht.past t h) hnow
  rcases htimes with htimes | htimes | htimes
  · exact ⟨htimes ▸ ht.sorted, htimes ▸ hpast⟩
  · refine ⟨htimes ▸ ht.sorted.tail, fun t h ↦ hpast t ?_⟩
    rw [htimes] at h
    exact List.mem_of_mem_tail h
  · constructor
    · rw [htimes, List.pairwise_append]
      refine ⟨ht.sorted, List.pairwise_singleton _ _, fun t h t' h' ↦ ?_⟩
      rw [List.mem_singleton.mp h']
      exact ht.past t h
    · intro t h
      rw [htimes] at h
      rcases List.mem_append.mp h with h | h
      · exact hpast t h
      · rw [List.mem_singleton.mp h]
        exact hnow

/-! ## 2. When a dummy is reset -/

/-- What the recycler stops at has not been left alone for long enough, and neither has what is
behind it. -/
theorem not_due (hm : m.Tied su) (ht : m.Timely) (h : m.due = none) :
    ∀ i t, (i, t) ∈ m.released → m.now < t + quarantine := by
  intro i t hmem
  unfold Machine.due at h
  cases hr : m.released with
  | nil =>
    rw [hr] at hmem
    cases hmem
  | cons x rest =>
    rw [hr] at h
    simp only at h
    have hfirst : m.now < x.2 + quarantine := by
      by_contra hge
      have hq : ¬ m.now - x.2 < quarantine := by omega
      rw [if_neg hq] at h
      cases h
    -- the instants are those of the queue, in its order
    have htimes : m.times = x.2 :: rest.map Prod.snd := by
      have hsnd : m.released.map Prod.snd = m.times := by
        rw [Machine.released, List.map_snd_zip hm.times.le]
      rw [← hsnd, hr]
      rfl
    have hle : x.2 ≤ t := by
      rw [hr] at hmem
      rcases List.mem_cons.mp hmem with heq | hmem
      · exact (congrArg Prod.snd heq).ge
      · have hsorted := ht.sorted
        rw [htimes] at hsorted
        exact List.rel_of_pairwise_cons hsorted (List.mem_map_of_mem hmem)
    omega

/-- A turn at the front of the queue is in time: what it resets has been left alone for the
quarantine since its connection closed, and when it stops, nothing is left in the queue that has
been there for that long. -/
def InTime (m : Machine) : MachineEvent → Prop
  | .check _ => m.phase = .draining →
    match m.due with
    | some i => m.closedAt i + quarantine ≤ m.now
    | none => ∀ i t, (i, t) ∈ m.released → m.now < t + quarantine
  | _ => True

theorem step_inTime (hm : m.Tied su) (ht : m.Timely) (ev : MachineEvent) : InTime m ev := by
  cases ev with
  | check ok =>
    intro hphase
    cases hdue : m.due with
    | none => exact not_due hm ht hdue
    | some i =>
      obtain ⟨t, rest, hr, hle⟩ := due_eq hdue
      have hclosed := hm.closed i t (by rw [hr]; exact List.mem_cons_self)
      show m.closedAt i + quarantine ≤ m.now
      omega
  | _ => trivial

/-- The recycler resets no dummy before `QUARANTINE` has passed since its connection closed, and
never goes back to waiting with one that the callback noted longer ago than that. -/
theorem recycler_inTime {maps : DummyMaps} (hmaps : su.openDummies = .ok maps)
    {events : List MachineEvent}
    (h : Runs.Along (Machine.step su) (Admissible su) (.start su maps) events) :
    Runs.Along (Machine.step su) InTime (.start su maps) events := by
  have hstart : (Machine.start su maps).Tied su ∧ (Machine.start su maps).Timely :=
    ⟨(start_tied hmaps).1, .nil, fun t ht ↦ absurd ht List.not_mem_nil⟩
  exact h.of_invariant (I := fun m ↦ m.Tied su ∧ m.Timely)
    (fun _ ev hm ha ↦ ⟨step_tied hm.1 ha, step_timely hm.1 hm.2 ev⟩)
    (fun _ ev hm _ ↦ step_inTime hm.1 hm.2 ev) hstart

theorem recycler_inTime_turn : Runs.Along (Machine.step exampleSetup) InTime
    (.start exampleSetup exampleMaps) exampleTurn :=
  recycler_inTime example_open exampleTurn_admissible

/-! ## 3. Dummies that are lost -/

/-- No step of a reset fails. -/
def Resets : MachineEvent → Prop
  | .check ok => ∀ s, ok s = true
  | _ => True

/-- There is room for the record of a dummy that is given back. -/
theorem hasRoom_of_held (hm : m.Tied su) (hfew : su.socks.length < maxDummies) {key : Ip4Conn}
    (hc : m.pool.connDummy key = some i) : m.pool.HasRoom := by
  obtain ⟨howner, -, -⟩ := hm.lent hc
  -- it is not on its way back yet, and no other dummy is twice
  have hle : (i :: m.pool.releasedDummies).length ≤ su.socks.length :=
    length_le_of_count fun j ↦ by
      have hplaces := hm.sound.places j
      rw [Pool.places, Pool.released, List.count_append] at hplaces
      rw [List.count_cons, ← hplaces]
      by_cases hj : i = j
      · subst hj
        simp only [howner, if_true, beq_self_eq_true]
        omega
      · have hne : (i == j) = false := beq_false_of_ne hj
        simp only [hne, Bool.false_eq_true, if_false]
        omega
  rw [List.length_cons] at hle
  simp only [maxDummies] at hfew
  show 16 * (m.pool.releasedDummies.length + 1) < 262144
  omega

theorem pushFree_lists (p : Pool) (dummy : Nat) :
    (p.pushFree dummy).lost = p.lost ∧ (p.pushFree dummy).releasedDummies = p.releasedDummies := by
  unfold Pool.pushFree
  split <;> exact ⟨rfl, rfl⟩

theorem addConn_lists (p : Pool) (key : Ip4Conn) (ok : AddStep → Bool) :
    (p.addConn key ok).lost = p.lost ∧
      (p.addConn key ok).releasedDummies = p.releasedDummies := by
  unfold Pool.addConn Pool.release
  cases p.freeDummies with
  | nil => exact ⟨rfl, rfl⟩
  | cons dummy free =>
    simp only
    split
    · exact pushFree_lists _ _
    split
    · exact pushFree_lists _ _
    split
    · exact pushFree_lists _ _
    split
    · exact pushFree_lists _ _
    · exact ⟨rfl, rfl⟩

/-- A dummy that is given back is behind all others in the ring buffer, or it is lost. -/
theorem removeConn_lists (p : Pool) (key : Ip4Conn) (output : Bool) :
    (p.removeConn key output).lost =
        p.lost ++ (if output then [] else (p.connDummy key).toList) ∧
      (p.removeConn key output).releasedDummies =
        p.releasedDummies ++ if output then (p.connDummy key).toList else [] := by
  unfold Pool.removeConn
  cases p.connDummy key with
  | none => cases output <;> simp
  | some i => cases output <;> simp [Pool.setOwner, Pool.setConnDummy]

theorem reset_lost {p : Pool} (hp : p.Sound su.socks.length) {ok : ResetStep → Bool}
    (hok : ∀ s, ok s = true) (hi : ∀ i ∈ p.quarantine, i < su.socks.length) :
    (p.reset ok).lost = p.lost := by
  unfold Pool.reset Pool.pushFree
  cases hq : p.quarantine with
  | nil => rfl
  | cons i rest =>
    -- there is such a dummy
    have hlt : i < p.size := by
      rw [hp.size]
      exact hi i (by rw [hq]; exact List.mem_cons_self)
    simp only [hlt, hok, and_self, if_true]
    split <;> rfl

theorem step_lost (hm : m.Tied su) (hfew : su.socks.length < maxDummies) {ev : MachineEvent}
    (hok : Resets ev) : (m.step su ev).pool.lost = m.pool.lost := by
  cases ev with
  | established loc rem passive ok =>
    rw [established_eq]
    split
    · exact (addConn_lists m.pool (su.key loc rem) ok).1
    · rfl
  | tcpState loc rem new =>
    rw [tcpState_eq hm]
    split
    · refine (removeConn_lists m.pool (su.key loc rem) (decide m.pool.HasRoom)).1.trans ?_
      cases hc : m.pool.connDummy (su.key loc rem) with
      | none => simp
      | some i => simp [hasRoom_of_held hm hfew hc]
    · rfl
  | skb loc rem skb pull =>
    rw [skb_eq hm]
    cases m.pool.connDummy (su.key loc rem) <;> rfl
  | backlog i => rw [(backlog_keeps su m i).1]
  | msg i h => rw [(msg_keeps su m i h).1]
  | condition stop =>
    simp only [Machine.step]
    split <;> rfl
  | callback =>
    simp only [Machine.step]
    split
    · rw [callback_eq hm]
      simp only [Pool.deliver]
      split <;> rfl
    · rfl
  | polled ok =>
    simp only [Machine.step]
    split <;> rfl
  | check ok =>
    simp only [Machine.step]
    split
    · cases m.due with
      | none => rfl
      | some i =>
        exact reset_lost hm.sound hok fun j hj ↦
          hm.lt_of_released (List.mem_append_right m.pool.releasedDummies hj)
    · rfl
  | tick ns => rfl

/-- As long as the resets succeed no dummy is lost, to a ring buffer that is full or otherwise: each
is free, lent, on its way back or set aside. -/
theorem recycler_loses_none {maps : DummyMaps} (hmaps : su.openDummies = .ok maps)
    (hfew : su.socks.length < maxDummies) {events : List MachineEvent}
    (h : Runs.Along (Machine.step su) (Admissible su) (.start su maps) events)
    (hok : ∀ ev ∈ events, Resets ev) :
    let p := (Runs.exec (Machine.step su) (.start su maps) events).pool
    p.lost = [] ∧ ∀ i < su.socks.length,
      i ∈ p.freeDummies ∨ (∃ key, p.connDummy key = some i) ∨ i ∈ p.released := by
  intro p
  have hend : p.Sound su.socks.length ∧ p.lost = [] := by
    have hboth := (Runs.Along.and (Q := fun _ ev ↦ Resets ev) _ _).mpr
      ⟨h, Runs.Along.of_forall_mem (fun ev hev _ ↦ hok ev hev) _⟩
    have hinv := hboth.preserves (I := fun m ↦ m.Tied su ∧ m.pool.lost = [])
      (fun m ev hm ha ↦ ⟨step_tied hm.1 ha.1, (step_lost hm.1 hfew ha.2).trans hm.2⟩)
      ⟨(start_tied hmaps).1, rfl⟩
    exact ⟨hinv.1.sound, hinv.2⟩
  obtain ⟨hsound, hlost⟩ := hend
  refine ⟨hlost, fun i hi ↦ ?_⟩
  have hplaces := hsound.places i
  rw [Pool.places, if_pos hi, hlost, List.count_nil] at hplaces
  -- a dummy is in one place, so where it is in none of the others it is lent
  by_cases hfree : i ∈ p.freeDummies
  · exact .inl hfree
  by_cases hrel : i ∈ p.released
  · exact .inr (.inr hrel)
  rw [List.count_eq_zero_of_not_mem hfree, List.count_eq_zero_of_not_mem hrel] at hplaces
  have hactive : (p.dummyOwners i).active = true := by
    by_contra hidle
    rw [if_neg hidle] at hplaces
    omega
  have howner : p.dummyOwners i = { conn := (p.dummyOwners i).conn, active := true } := by
    rw [← hactive]
  exact .inr (.inl ⟨_, (hsound.owner _ i).mpr howner⟩)

theorem recycler_loses_none_turn :
    (Runs.exec (Machine.step exampleSetup) (.start exampleSetup exampleMaps)
      exampleTurn).pool.lost = [] := by
  have hok : ∀ ev ∈ exampleTurn, Resets ev := by
    simp [exampleTurn, Resets]
  exact (recycler_loses_none example_open (by decide) exampleTurn_admissible hok).1

/-! ## 4. What the maps keep -/

/-- One of the maps the programs keep by connection has an entry for this one: `conn_dummy`,
`upgraded_conns`, `flow_ctl`, `dt_dirty` or `sock_map`. -/
def Machine.Keeps (m : Machine) (key : Ip4Conn) : Prop :=
  m.pool.connDummy key ≠ none ∨ m.conns key ≠ .new ∨ m.sockMap key = true

theorem Machine.Tied.keeps (hm : m.Tied su) {key : Ip4Conn} (hkey : m.Keeps key) :
    m.pool.connDummy key ≠ none := by
  rcases hkey with hheld | hconn | hsock
  · exact hheld
  · exact fun hnone ↦ hconn (hm.fresh.conns key hnone)
  · exact (hm.added key).mp hsock

/-- Connections that hold a dummy hold different ones. -/
theorem count_held (hm : m.Tied su) {keys : List Ip4Conn} (hnodup : keys.Nodup) (i : Nat) :
    (keys.filterMap m.pool.connDummy).count i ≤ if (m.pool.dummyOwners i).active then 1 else 0 := by
  by_cases hi : i ∈ keys.filterMap m.pool.connDummy
  · obtain ⟨key, -, hc⟩ := List.mem_filterMap.mp hi
    have howner := (hm.sound.owner key i).mp hc
    rw [howner, if_pos rfl]
    apply List.nodup_iff_count_le_one.mp
    apply List.Nodup.filterMap _ hnodup
    intro key₁ key₂ j h₁ h₂
    have howner₁ := (hm.sound.owner key₁ j).mp h₁
    rw [(hm.sound.owner key₂ j).mp h₂] at howner₁
    exact (congrArg DummyOwner.conn howner₁).symm
  · rw [List.count_eq_zero_of_not_mem hi]
    exact Nat.zero_le _

/-- Only connections that are open have entries in the maps, and with what is free, on its way back
or lost these are never more than there are dummies, which is what the maps have room for. -/
theorem maps_never_fill {maps : DummyMaps} (hmaps : su.openDummies = .ok maps)
    {events : List MachineEvent}
    (h : Runs.Along (Machine.step su) (Admissible su) (.start su maps) events) :
    let m := Runs.exec (Machine.step su) (.start su maps) events
    (∀ key, m.Keeps key → key ∈ m.pool.opened) ∧
      ∀ keys : List Ip4Conn, keys.Nodup → (∀ key ∈ keys, m.Keeps key) →
        keys.length + m.pool.freeDummies.length + m.pool.released.length + m.pool.lost.length ≤
          su.socks.length := by
  intro m
  have hm : m.Tied su := exec_tied hmaps h
  refine ⟨fun key hkey ↦ ?_, fun keys hnodup hkeys ↦ ?_⟩
  · obtain ⟨i, hi⟩ := Option.ne_none_iff_exists'.mp (hm.keeps hkey)
    exact hm.sound.opened key i hi
  · have hlen : (keys.filterMap m.pool.connDummy).length = keys.length := by
      rw [List.length_filterMap_eq_countP, List.countP_eq_length]
      intro key hkey
      exact Option.isSome_iff_ne_none.mpr (hm.keeps (hkeys key hkey))
    have hle : (keys.filterMap m.pool.connDummy ++ m.pool.freeDummies ++ m.pool.released ++
        m.pool.lost).length ≤ su.socks.length :=
      length_le_of_count fun i ↦ by
        have hplaces := hm.sound.places i
        have hheld := count_held hm hnodup i
        rw [Pool.places] at hplaces
        rw [List.count_append, List.count_append, List.count_append]
        omega
    simpa only [List.length_append, hlen] using hle

/-- Ahead of its close, the connection is all the maps know of. -/
theorem maps_never_fill_turn :
    let m := Runs.exec (Machine.step exampleSetup) (.start exampleSetup exampleMaps)
      (exampleTurn.take 4)
    [exampleSetup.key (exampleHost 1 443) exampleClient].length + m.pool.freeDummies.length +
      m.pool.released.length + m.pool.lost.length ≤ 2 := by
  intro m
  have hadm : Runs.Along (Machine.step exampleSetup) (Admissible exampleSetup)
      (.start exampleSetup exampleMaps) (exampleTurn.take 4) := by
    decide +kernel
  have hkeeps : m.Keeps (exampleSetup.key (exampleHost 1 443) exampleClient) :=
    .inl (by decide +kernel)
  exact (maps_never_fill example_open hadm).2 [_] (List.nodup_singleton _)
    (fun key hkey ↦ List.mem_singleton.mp hkey ▸ hkeeps)

/-! ## 5. In the order of their closes -/

/-- The dummy whose record `remove_conn` outputs. -/
def Machine.outputs (su : Setup) (m : Machine) : MachineEvent → List Nat
  | .tcpState loc rem .close =>
    if m.stateCb (su.key loc rem) ∧ m.pool.HasRoom then
      (m.pool.connDummy (su.key loc rem)).toList
    else []
  | _ => []

/-- The dummy of the record that is delivered, with the instant the callback notes. -/
def Machine.deliveries (m : Machine) : MachineEvent → List (Nat × Nat)
  | .callback =>
    if m.phase = .polling then (m.pool.releasedDummies.take 1).map fun i ↦ (i, m.now) else []
  | _ => []

/-- The dummy `reset` is called for, with the instant that was noted for it. -/
def Machine.resets (m : Machine) : MachineEvent → List (Nat × Nat)
  | .check _ => if m.phase = .draining ∧ m.due ≠ none then m.released.take 1 else []
  | _ => []

theorem reset_ring (p : Pool) (ok : ResetStep → Bool) :
    (p.reset ok).releasedDummies = p.releasedDummies := by
  unfold Pool.reset
  cases p.quarantine with
  | nil => rfl
  | cons i rest =>
    simp only
    split
    · exact (pushFree_lists _ _).2
    · rfl

/-- A record leaves the front of the ring buffer when it is delivered and its dummy the front of the
quarantine when it is reset, and both are joined at the end. -/
theorem step_queues (hm : m.Tied su) (ev : MachineEvent) :
    (m.deliveries ev).map Prod.fst ++ (m.step su ev).pool.releasedDummies =
        m.pool.releasedDummies ++ m.outputs su ev ∧
      m.resets ev ++ (m.step su ev).released = m.released ++ m.deliveries ev := by
  have hkeep {m' : Machine} (hpool : m'.pool = m.pool) (htimes : m'.times = m.times) :
      m'.pool.releasedDummies = m.pool.releasedDummies ++ [] ∧
        m'.released = m.released ++ [] := by
    rw [Machine.released, Machine.released, hpool, htimes, List.append_nil, List.append_nil]
    exact ⟨rfl, rfl⟩
  cases ev with
  | established loc rem passive ok =>
    rw [established_eq, addConn_eq]
    split
    · obtain ⟨-, hring⟩ := addConn_lists m.pool (su.key loc rem) ok
      obtain ⟨hquarantine, -⟩ := step_quarantine m.pool (su.key loc rem) ok true
      simp [Machine.deliveries, Machine.outputs, Machine.resets, Machine.released, Pool.step, hring,
        hquarantine]
    · exact hkeep rfl rfl
  | tcpState loc rem new =>
    obtain ⟨-, hring⟩ := removeConn_lists m.pool (su.key loc rem) (decide m.pool.HasRoom)
    obtain ⟨-, hquarantine⟩ := step_quarantine m.pool (su.key loc rem) (fun _ ↦ true)
      (decide m.pool.HasRoom)
    rw [tcpState_eq hm, removeConn_eq]
    by_cases hnew : new = .close
    · subst hnew
      -- who holds a dummy has the callback on
      have hflagged := hm.flagged (su.key loc rem)
      simp [Machine.deliveries, Machine.outputs, Machine.resets, Machine.released, Pool.step, hring,
        hquarantine]
      cases hc : m.pool.connDummy (su.key loc rem) with
      | none => simp
      | some i =>
        rw [hc] at hflagged
        simp [hflagged]
    · rw [if_neg hnew]
      have hnone : m.outputs su (.tcpState loc rem new) = [] := by
        cases new <;> first | rfl | exact absurd rfl hnew
      rw [hnone]
      exact hkeep rfl rfl
  | skb loc rem skb pull =>
    rw [skb_eq hm]
    cases m.pool.connDummy (su.key loc rem) <;> exact hkeep rfl rfl
  | backlog i =>
    obtain ⟨hpool, -, htimes⟩ := backlog_keeps su m i
    exact hkeep hpool htimes
  | msg i h =>
    obtain ⟨hpool, -, htimes⟩ := msg_keeps su m i h
    exact hkeep hpool htimes
  | condition stop =>
    simp only [Machine.step]
    split <;> exact hkeep rfl rfl
  | callback =>
    simp only [Machine.step, Machine.deliveries, Machine.outputs, Machine.resets]
    split
    · rw [callback_eq hm]
      cases hring : m.pool.releasedDummies with
      | nil => simp [Pool.deliver, hring, Machine.released]
      | cons i rest =>
        -- the dummy and its instant join their queues together
        have hzip : (m.pool.quarantine ++ [i]).zip (m.times ++ [m.now]) =
            m.released ++ [(i, m.now)] := List.zip_append hm.times.symm
        simp [Pool.deliver, hring, Machine.released, hzip]
    · exact hkeep rfl rfl
  | polled ok =>
    simp only [Machine.step]
    split <;> exact hkeep rfl rfl
  | check ok =>
    simp only [Machine.step, Machine.deliveries, Machine.outputs, Machine.resets]
    by_cases hphase : m.phase = .draining
    · simp only [hphase, if_true]
      cases hdue : m.due with
      | none => exact hkeep rfl rfl
      | some i =>
        obtain ⟨t, rest, hr, -⟩ := due_eq hdue
        have hnext : (m.reset su.endian su.socks i ok).released = m.released.tail := by
          show (m.pool.reset ok).quarantine.zip m.times.tail = _
          rw [(reset_pool m.pool ok).1, Machine.released, List.tail_zip]
        have hring : (m.reset su.endian su.socks i ok).pool.releasedDummies =
            m.pool.releasedDummies := reset_ring m.pool ok
        simp [hnext, hring, hr]
    · simp only [hphase, if_false, false_and]
      exact hkeep rfl rfl
  | tick ns => exact hkeep rfl rfl

/-- What was reset had been left alone for long enough. -/
structure Machine.Aged (su : Setup) (m : Machine) (resets : List (Nat × Nat)) : Prop where
  tied : m.Tied su
  timely : m.Timely
  aged : ∀ x ∈ resets, x.2 + quarantine ≤ m.now

theorem step_aged {resets : List (Nat × Nat)} (hm : m.Aged su resets) {ev : MachineEvent}
    (ha : Admissible su m ev) : (m.step su ev).Aged su (resets ++ m.resets ev) where
  tied := step_tied hm.tied ha
  timely := step_timely hm.tied hm.timely ev
  aged x hx := by
    refine Nat.le_trans ?_ (step_clock hm.tied ev).1
    rcases List.mem_append.mp hx with hx | hx
    · exact hm.aged x hx
    cases ev with
    | check ok =>
      simp only [Machine.resets] at hx
      split at hx
      · obtain ⟨i, hdue⟩ := Option.ne_none_iff_exists'.mp (‹_ ∧ m.due ≠ none›).2
        obtain ⟨t, rest, hr, hle⟩ := due_eq hdue
        rw [hr, List.take_one, List.head?_cons, Option.toList_some, List.mem_singleton] at hx
        rw [hx]
        exact hle
      · cases hx
    | _ => cases hx

/-- The recycler is a queue.  What was reset, then what is in quarantine, then what is in the ring
buffer are the dummies `remove_conn` gave back, in the order of the closes, and whenever it finds
nothing to do, what was reset is what was delivered at least `QUARANTINE` ago. -/
theorem recycler_in_order {maps : DummyMaps} (hmaps : su.openDummies = .ok maps)
    {events : List MachineEvent}
    (h : Runs.Along (Machine.step su) (Admissible su) (.start su maps) events) :
    let m := Runs.exec (Machine.step su) (.start su maps) events
    let outputs := Runs.record (Machine.step su) (Machine.outputs su) (.start su maps) events
    let deliveries := Runs.record (Machine.step su) Machine.deliveries (.start su maps) events
    let resets := Runs.record (Machine.step su) Machine.resets (.start su maps) events
    resets.map Prod.fst ++ m.pool.quarantine ++ m.pool.releasedDummies = outputs ∧
      resets ++ m.released = deliveries ∧
      (m.due = none → resets = deliveries.filter fun x ↦ x.2 + quarantine ≤ m.now) := by
  intro m outputs deliveries resets
  have hstart : (Machine.start su maps).Tied su := (start_tied hmaps).1
  have hstep (m : Machine) (ev : MachineEvent) (hm : m.Tied su) (ha : Admissible su m ev) :
      (m.step su ev).Tied su := step_tied hm ha
  have hend : m.Aged su resets :=
    h.preserves_record (J := Machine.Aged su) (fun _ _ _ hm ha ↦ step_aged hm ha)
      ⟨hstart, ⟨.nil, fun t ht ↦ absurd ht List.not_mem_nil⟩,
        fun x hx ↦ absurd hx List.not_mem_nil⟩
  -- the ring buffer and the quarantine are two queues in a row
  have hring : deliveries.map Prod.fst ++ m.pool.releasedDummies = outputs := by
    rw [← Runs.record_map]
    exact h.queues (w := fun m ↦ m.pool.releasedDummies) hstep
      (fun _ ev hm _ ↦ (step_queues hm ev).1) hstart
  have hreleased : resets ++ m.released = deliveries :=
    h.queues (w := Machine.released) hstep (fun _ ev hm _ ↦ (step_queues hm ev).2) hstart
  refine ⟨?_, hreleased, fun hdue ↦ ?_⟩
  · rw [← hring, ← hreleased, List.map_append, Machine.released,
      List.map_fst_zip hend.tied.times.ge]
  · have hyoung : m.released.filter (fun x ↦ x.2 + quarantine ≤ m.now) = [] := by
      rw [List.filter_eq_nil_iff]
      intro x hx
      have hlt := not_due hend.tied hend.timely hdue x.1 x.2 hx
      simpa using hlt
    have hall : resets.filter (fun x ↦ x.2 + quarantine ≤ m.now) = resets :=
      List.filter_eq_self.mpr fun x hx ↦ by simpa using hend.aged x hx
    rw [← hreleased, List.filter_append, hyoung, hall, List.append_nil]

theorem recycler_in_order_turn :
    let m := Runs.exec (Machine.step exampleSetup) (.start exampleSetup exampleMaps) exampleTurn
    let resets := Runs.record (Machine.step exampleSetup) Machine.resets
      (.start exampleSetup exampleMaps) exampleTurn
    resets.map Prod.fst ++ m.pool.quarantine ++ m.pool.releasedDummies = [0] := by
  refine (recycler_in_order example_open exampleTurn_admissible).1.trans ?_
  decide +kernel

end HyperFastPath.Dummies
