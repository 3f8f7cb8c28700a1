import HyperFastPath.Dummies.Programs

/-!
# The programs refine the system

What ties a machine to the system holds along every run, as the quarantine keeps a dummy from being
reset before it is worked off.
-/

namespace HyperFastPath.Dummies

open FastPath

variable {su : Setup} {m : Machine} {key : Ip4Conn} {i j : Nat}

/-! ## 1. Every run -/

/-- Where nothing fails a dummy is lent, and where something does nobody holds what nobody held. -/
theorem addConn_held {p : Pool} (hnone : p.connDummy key = none) (ok : AddStep → Bool) :
    (p.addConn key ok).connDummy key =
      if p.freeDummies = [] ∨ addsConn ok = false then none else p.freeDummies.head? := by
  have hpush (p : Pool) (dummy : Nat) : (p.pushFree dummy).connDummy = p.connDummy := by
    unfold Pool.pushFree
    split <;> rfl
  unfold Pool.addConn
  cases hfree : p.freeDummies with
  | nil => simpa using hnone
  | cons dummy free =>
    -- wherever it fails, the entry that was set is deleted again
    cases h1 : ok .setOwner <;> cases h2 : ok .setConnDummy <;> cases h3 : ok .setFlags <;>
      cases h4 : ok .addSocket <;>
        simp [addsConn, h1, h2, h3, h4, Pool.release, hpush, Pool.setConnDummy, Pool.setOwner]

theorem due_sane (hm : m.Tied su) (hdue : m.due = some i) (hoff : m.WorkedOff) :
    m.queues i = [] := by
  obtain ⟨t, rest, hr, hle⟩ := due_eq hdue
  obtain ⟨rest', hq⟩ := quarantine_of_due hdue
  have hmem : i ∈ m.pool.released := by simp [Pool.released, hq]
  have hcount := List.count_pos_iff.mpr hmem
  have hclosed := hm.closed i t (by rw [hr]; exact List.mem_cons_self)
  -- what is due was noted a quarantine ago, and its connection closed before that
  apply hoff i
  · rw [hm.sound.size]
    exact hm.lt_of_released hmem
  · exact hm.sound.inactive (by omega)
  · omega

/-- What the programs and the recycler do is sane as long as the quarantine is long enough. -/
theorem does_sane (hm : m.Tied su) {ev : MachineEvent} (ha : Admissible su m ev) :
    Runs.Along (System.step su.lim su.cfg su.parsers) Sane (m.view su) (m.does su ev) := by
  cases ev with
  | established loc rem passive ok =>
    rw [Machine.does]
    split
    · exact ⟨ha (by tauto), trivial⟩
    · trivial
  | tcpState loc rem new =>
    rw [Machine.does]
    split
    · exact ⟨trivial, trivial⟩
    · trivial
  | skb loc rem skb pull =>
    rw [Machine.does]
    split
    · refine Runs.Along.of_forall_mem (fun e he s ↦ ?_) _
      obtain ⟨msg, -, rfl⟩ := List.mem_map.mp he
      trivial
    · trivial
  | backlog i => exact ⟨trivial, trivial⟩
  | msg i h =>
    rw [Machine.does]
    split
    · exact ⟨trivial, trivial⟩
    · trivial
  | callback =>
    rw [Machine.does]
    split
    · exact ⟨trivial, trivial⟩
    · trivial
  | check ok =>
    rw [Machine.does]
    split
    · rename_i hdraining
      obtain ⟨i, hdue⟩ := Option.isSome_iff_exists.mp hdraining.2
      obtain ⟨rest, hq⟩ := quarantine_of_due hdue
      refine ⟨fun j hj ↦ ?_, trivial⟩
      -- what is reset is the front of the queue
      have hji : j = i := by
        have hhead : m.pool.quarantine.head? = some j := hj
        rw [hq] at hhead
        exact (Option.some.inj hhead).symm
      rw [hji]
      exact due_sane hm hdue ha
    · trivial
  | condition stop => trivial
  | polled ok => trivial
  | tick ns => trivial

theorem step_quarantine (p : Pool) (key : Ip4Conn) (ok : AddStep → Bool) (output : Bool) :
    (p.addConn key ok).quarantine = p.quarantine ∧
      (p.removeConn key output).quarantine = p.quarantine := by
  have hpush (p : Pool) (dummy : Nat) : (p.pushFree dummy).quarantine = p.quarantine := by
    unfold Pool.pushFree
    split <;> rfl
  constructor
  · unfold Pool.addConn Pool.release
    cases p.freeDummies with
    | nil => rfl
    | cons dummy free =>
      simp only
      split
      · exact hpush _ _
      split
      · exact hpush _ _
      split
      · exact hpush _ _
      split
      · exact hpush _ _
      · rfl
  · unfold Pool.removeConn
    cases p.connDummy key with
    | none => rfl
    | some dummy => cases output <;> rfl

theorem reset_pool (p : Pool) (ok : ResetStep → Bool) :
    (p.reset ok).quarantine = p.quarantine.tail ∧ (p.reset ok).dummyOwners = p.dummyOwners := by
  unfold Pool.reset Pool.pushFree
  cases hq : p.quarantine with
  | nil => exact ⟨hq, rfl⟩
  | cons i rest =>
    simp only
    split
    · split <;> exact ⟨rfl, rfl⟩
    · exact ⟨rfl, rfl⟩

theorem deliver_pool (p : Pool) :
    p.deliver.connDummy = p.connDummy ∧ p.deliver.freeDummies = p.freeDummies ∧
      p.deliver.dummyOwners = p.dummyOwners ∧
      p.deliver.quarantine = p.quarantine ++ p.releasedDummies.head?.toList := by
  unfold Pool.deliver
  cases p.releasedDummies <;> simp

theorem step_fresh (hm : m.Tied su) {ev : MachineEvent} (ha : Admissible su m ev) :
    ((m.step su ev).view su).Fresh su.socks.length := by
  rw [step_view hm ev]
  exact (does_sane hm ha).preserves (I := fun s ↦ s.Fresh su.socks.length)
    (fun _ _ ↦ fresh_step _ _ _) hm.fresh

/-- A step that has nothing to do with the pool. -/
theorem Machine.Tied.of_pool (hm : m.Tied su) {m' : Machine}
    (hfresh : (m'.view su).Fresh su.socks.length) (hpool : m'.pool = m.pool)
    (hidx : m'.dummyIdx = m.dummyIdx) (hsock : m'.sockMap = m.sockMap)
    (hcb : m'.stateCb = m.stateCb) (hmap : m'.dummyMap = m.dummyMap) (htimes : m'.times = m.times)
    (hclosed : m'.closedAt = m.closedAt) (hnow : m.now ≤ m'.now) : m'.Tied su where
  fresh := hfresh
  idx := hidx ▸ hm.idx
  added := by rw [hsock, hpool]; exact hm.added
  flagged := by rw [hcb, hpool]; exact hm.flagged
  mapped := by rw [hmap, hpool]; exact hm.mapped
  times := by rw [htimes, hpool]; exact hm.times
  closed := by rw [Machine.released, htimes, hclosed, hpool]; exact hm.closed
  past i := hclosed ▸ Nat.le_trans (hm.past i) hnow

theorem established_tied (hm : m.Tied su) {loc rem : SocketAddrV4} {passive : Bool}
    {ok : AddStep → Bool} (ha : Admissible su m (.established loc rem passive ok)) :
    (m.step su (.established loc rem passive ok)).Tied su := by
  have hfresh := step_fresh hm ha
  rw [established_eq] at hfresh ⊢
  split at hfresh
  swap
  · rw [if_neg ‹_›]
    exact hm
  rename_i htakes
  have hnew : su.key loc rem ∉ m.pool.opened := ha htakes.2
  rw [if_pos htakes]
  rw [addConn_eq] at hfresh ⊢
  generalize su.key loc rem = key at *
  obtain ⟨hkeys, hfree, hlent⟩ := addConn_keeps hm.sound hnew ok
  have hnone := hm.sound.not_held hnew
  have hheld := addConn_held hnone ok
  have hquarantine := (step_quarantine m.pool key ok true).1
  have hsound : ({ m.pool.addConn key ok with opened := key :: m.pool.opened } : Pool).Sound
    su.socks.length := hfresh.sound
  -- nothing is set for a connection that is new
  have hsock : m.sockMap key = false := eq_false_of_ne_true fun h ↦ (hm.added key).mp h hnone
  have hcb : m.stateCb key = false := eq_false_of_ne_true fun h ↦ (hm.flagged key).mp h hnone
  refine ⟨hfresh, hm.idx, fun k ↦ ?_, fun k ↦ ?_, fun i hi ↦ ?_, ?_, ?_, hm.past⟩
  · show (if _ then m.sockMap else Function.update m.sockMap key true) k = true ↔
      (m.pool.addConn key ok).connDummy k ≠ none
    by_cases hk : k = key
    · subst hk
      rw [hheld]
      split
      · simp [hsock]
      · rename_i hadded
        cases hf : m.pool.freeDummies <;> simp_all
    · rw [hkeys k hk, ← hm.added k]
      split
      · rfl
      · rw [Function.update_of_ne hk]
  · show (if _ then m.stateCb else Function.update m.stateCb key (addsConn ok)) k = true ↔
      (m.pool.addConn key ok).connDummy k ≠ none
    by_cases hk : k = key
    · subst hk
      rw [hheld]
      cases hf : m.pool.freeDummies <;> cases hadds : addsConn ok <;> simp [hcb]
    · rw [hkeys k hk, ← hm.flagged k]
      split
      · rfl
      · rw [Function.update_of_ne hk]
  · rcases hi with hi | hi
    · exact hm.mapped i (.inl (hfree i hi))
    · -- it is lent to the new connection or was lent before
      have hconn := hsound.lent hi
      generalize Pool.dummyOwners _ i = owner at hconn
      by_cases hk : owner.conn = key
      · rw [hk] at hconn
        exact hm.mapped i (.inl (hlent i hconn))
      · rw [show (m.pool.addConn key ok).connDummy owner.conn = m.pool.connDummy owner.conn from
          hkeys _ hk] at hconn
        exact (hm.lent hconn).2.1
  · exact hm.times.trans (congrArg List.length hquarantine).symm
  · intro i t hi
    apply hm.closed i t
    rw [Machine.released, ← hquarantine]
    exact hi

theorem tcpState_tied (hm : m.Tied su) {loc rem : SocketAddrV4} {new : TcpState} :
    (m.step su (.tcpState loc rem new)).Tied su := by
  have hfresh : ((m.step su (.tcpState loc rem new)).view su).Fresh su.socks.length :=
    step_fresh hm trivial
  rw [tcpState_eq hm] at hfresh ⊢
  split at hfresh
  swap
  · rw [if_neg ‹_›]
    exact hm
  rw [if_pos ‹_›]
  rw [removeConn_eq] at hfresh ⊢
  generalize su.key loc rem = key at *
  obtain ⟨hfree, hkeys, hnone⟩ := removeConn_keeps m.pool key (decide m.pool.HasRoom)
  have hquarantine := (step_quarantine m.pool key (fun _ ↦ true) (decide m.pool.HasRoom)).2
  refine ⟨hfresh, hm.idx, fun k ↦ ?_, fun k ↦ ?_, fun i hi ↦ ?_, ?_, ?_, ?_⟩
  · show Function.update m.sockMap key false k = true ↔
      (m.pool.removeConn key (decide m.pool.HasRoom)).connDummy k ≠ none
    by_cases hk : k = key
    · subst hk
      simp [hnone]
    · rw [Function.update_of_ne hk, hkeys k hk, hm.added k]
  · show Function.update m.stateCb key false k = true ↔
      (m.pool.removeConn key (decide m.pool.HasRoom)).connDummy k ≠ none
    by_cases hk : k = key
    · subst hk
      simp [hnone]
    · rw [Function.update_of_ne hk, hkeys k hk, hm.flagged k]
  · rcases hi with hi | hi
    · exact hm.mapped i (.inl (hfree ▸ hi))
    · -- whoever still holds one held it before
      have hconn := hfresh.sound.lent hi
      generalize Pool.dummyOwners _ i = owner at hconn
      have hconn' : (m.pool.removeConn key (decide m.pool.HasRoom)).connDummy owner.conn = some i :=
        hconn
      by_cases hk : owner.conn = key
      · rw [hk, hnone] at hconn'
        cases hconn'
      · rw [hkeys _ hk] at hconn'
        exact (hm.lent hconn').2.1
  · exact hm.times.trans (congrArg List.length hquarantine).symm
  · intro i t hi
    have hmem : (i, t) ∈ m.released := by
      rw [Machine.released, ← hquarantine]
      exact hi
    cases hc : m.pool.connDummy key with
    | none => exact hm.closed i t hmem
    | some dummy =>
      -- a dummy that was lent until now is not in quarantine
      have hne : i ≠ dummy := fun hid ↦
        hm.sound.not_quarantined hc (hid ▸ (List.of_mem_zip hmem).1)
      show Function.update m.closedAt dummy m.now i ≤ t
      rw [Function.update_of_ne hne]
      exact hm.closed i t hmem
  · intro i
    cases hc : m.pool.connDummy key with
    | none => exact hm.past i
    | some dummy =>
      show Function.update m.closedAt dummy m.now i ≤ m.now
      by_cases hid : i = dummy
      · subst hid
        rw [Function.update_self]
      · rw [Function.update_of_ne hid]
        exact hm.past i

theorem callback_tied (hm : m.Tied su) : (m.step su .callback).Tied su := by
  have hfresh : ((m.step su .callback).view su).Fresh su.socks.length := step_fresh hm trivial
  simp only [Machine.step] at hfresh ⊢
  split at hfresh
  swap
  · rw [if_neg ‹_›]
    exact hm
  rw [if_pos ‹_›]
  rw [callback_eq hm] at hfresh ⊢
  obtain ⟨hkeys, hfree, howners, hquarantine⟩ := deliver_pool m.pool
  -- only the dummy that is delivered is noted, and it is noted now
  have hreleased : ∀ i t, (i, t) ∈ m.pool.deliver.quarantine.zip
      (if m.pool.releasedDummies = [] then m.times else m.times ++ [m.now]) →
      (i, t) ∈ m.released ∨ t = m.now := by
    intro i t hi
    rw [hquarantine] at hi
    cases hrel : m.pool.releasedDummies with
    | nil =>
      left
      simpa [hrel, Machine.released] using hi
    | cons dummy rest =>
      simp only [hrel, List.head?_cons, Option.toList_some, reduceCtorEq, if_false] at hi
      rw [List.zip_append hm.times.symm] at hi
      rcases List.mem_append.mp hi with hi | hi
      · exact .inl hi
      · right
        simp only [List.zip_cons_cons, List.zip_nil_left, List.mem_singleton, Prod.mk.injEq] at hi
        exact hi.2
  refine ⟨hfresh, hm.idx, fun k ↦ ?_, fun k ↦ ?_, fun i hi ↦ ?_, ?_, fun i t hi ↦ ?_, hm.past⟩
  · rw [hkeys]
    exact hm.added k
  · rw [hkeys]
    exact hm.flagged k
  · rw [hfree, howners] at hi
    exact hm.mapped i hi
  · have htimes := hm.times
    cases hrel : m.pool.releasedDummies <;> simp [hquarantine, hrel, htimes]
  · rcases hreleased i t hi with hi | rfl
    · exact hm.closed i t hi
    · exact hm.past i

theorem check_tied (hm : m.Tied su) {ok : ResetStep → Bool} (ha : Admissible su m (.check ok)) :
    (m.step su (.check ok)).Tied su := by
  have hfresh := step_fresh hm ha
  simp only [Machine.step] at hfresh ⊢
  split at hfresh
  swap
  · rw [if_neg ‹_›]
    exact hm
  rw [if_pos ‹_›]
  cases hdue : m.due with
  | none =>
    simp only [hdue] at hfresh
    exact hm.of_pool hfresh rfl rfl rfl rfl rfl rfl rfl le_rfl
  | some i =>
    simp only [hdue] at hfresh ⊢
    obtain ⟨rest, hq⟩ := quarantine_of_due hdue
    have hmem : i ∈ m.pool.released := by simp [Pool.released, hq]
    obtain ⟨d, hd⟩ := socks_some (hm.lt_of_released hmem)
    obtain ⟨hkeys, hfree⟩ := reset_keeps m.pool ok
    obtain ⟨hquarantine, howners⟩ := reset_pool m.pool ok
    -- nobody holds what is in quarantine
    have hidle : (m.pool.dummyOwners i).active = false :=
      hm.sound.inactive (by have := List.count_pos_iff.mpr hmem; omega)
    generalize hm' : m.reset su.endian su.socks i ok = m' at hfresh
    -- of the maps only that of the dummies changes, and there only the entry of this one
    have hreset : m'.pool = m.pool.reset ok ∧ m'.times = m.times.tail ∧
        m'.dummyIdx = m.dummyIdx ∧ m'.sockMap = m.sockMap ∧ m'.stateCb = m.stateCb ∧
        m'.closedAt = m.closedAt ∧ m'.now = m.now ∧
        ∀ j, m'.dummyMap j = if j = i ∧ ok .removeDummy then ok .takeError && ok .addDummy
          else m.dummyMap j := by
      subst hm'
      simp only [Machine.reset, hd]
      cases ok .removeDummy <;> simp [Function.update_apply]
    obtain ⟨hpool, htimes, hidx, hsock, hcb, hclosed, hnow, hmap⟩ := hreset
    refine ⟨hfresh, hidx ▸ hm.idx, fun k ↦ ?_, fun k ↦ ?_, fun j hj ↦ ?_, ?_, fun j t hj ↦ ?_,
      fun j ↦ ?_⟩
    · rw [hsock, hpool, hkeys]
      exact hm.added k
    · rw [hcb, hpool, hkeys]
      exact hm.flagged k
    · rw [hpool, howners] at hj
      rw [hmap]
      by_cases hji : j = i
      · subst hji
        rcases hj with hj | hj
        · -- it is free again only if it was put back into the map
          rcases hfree j hj with hj | ⟨-, -, h1, h2, h3, -⟩
          · exact absurd (hq ▸ List.mem_cons_self) (hm.sound.free_not_quarantined hj)
          · simp [h1, h2, h3]
        · rw [hidle] at hj
          cases hj
      · rw [if_neg fun h ↦ hji h.1]
        rcases hj with hj | hj
        · rcases hfree j hj with hj | ⟨hhead, -⟩
          · exact hm.mapped j (.inl hj)
          · rw [hq] at hhead
            exact absurd (Option.some.inj hhead).symm hji
        · exact hm.mapped j (.inr hj)
    · rw [htimes, hpool, hquarantine, List.length_tail, List.length_tail, hm.times]
    · rw [hclosed]
      apply hm.closed j t
      rw [Machine.released, htimes, hpool, hquarantine] at hj
      rw [Machine.released]
      cases htm : m.times with
      | nil => simp [htm] at hj
      | cons t' ts =>
        rw [htm, hq] at hj
        rw [hq, List.zip_cons_cons]
        exact List.mem_cons_of_mem _ hj
    · rw [hclosed, hnow]
      exact hm.past j

theorem step_tied (hm : m.Tied su) {ev : MachineEvent} (ha : Admissible su m ev) :
    (m.step su ev).Tied su := by
  have hfresh := step_fresh hm ha
  cases ev with
  | established loc rem passive ok => exact established_tied hm ha
  | tcpState loc rem new => exact tcpState_tied hm
  | callback => exact callback_tied hm
  | check ok => exact check_tied hm ha
  | skb loc rem skb pull =>
    rw [skb_eq hm] at hfresh ⊢
    cases hc : m.pool.connDummy (su.key loc rem) with
    | none => exact hm
    | some i =>
      simp only [hc, Option.elim_some] at hfresh ⊢
      exact hm.of_pool hfresh rfl rfl rfl rfl rfl rfl rfl le_rfl
  | backlog i =>
    simp only [Machine.step] at hfresh ⊢
    split at hfresh
    · rw [if_pos ‹_›]
      exact hm
    rw [if_neg ‹_›]
    cases hq : m.queues i with
    | nil => exact hm
    | cons msg queue =>
      simp only [hq, Machine.send] at hfresh ⊢
      split at hfresh
      · rw [if_pos ‹_›]
        exact hm.of_pool hfresh rfl rfl rfl rfl rfl rfl rfl le_rfl
      · rw [if_neg ‹_›]
        exact hm.of_pool hfresh rfl rfl rfl rfl rfl rfl rfl le_rfl
  | msg i h =>
    simp only [Machine.step] at hfresh ⊢
    cases hd : su.socks[i]? with
    | none => exact hm
    | some d =>
      -- whatever the verdict, the maps of the pool stay as they are
      simp only [hd, Machine.msgVerdict] at hfresh ⊢
      split at hfresh
      swap
      · rw [if_neg ‹_›]
        exact hm
      rw [if_pos ‹_›]
      cases hidx : m.dummyIdx (((d.ctx su.endian).key su.endian).bytes su.endian) with
      | none =>
        simp only [hidx] at hfresh ⊢
        exact hm.of_pool hfresh rfl rfl rfl rfl rfl rfl rfl le_rfl
      | some dummy =>
        simp only [hidx] at hfresh ⊢
        split at hfresh
        · rw [if_pos ‹_›]
          exact hm.of_pool hfresh rfl rfl rfl rfl rfl rfl rfl le_rfl
        · rw [if_neg ‹_›]
          exact hm.of_pool hfresh rfl rfl rfl rfl rfl rfl rfl le_rfl
  | condition stop =>
    simp only [Machine.step] at hfresh ⊢
    split at hfresh
    · rw [if_pos ‹_›]
      exact hm.of_pool hfresh rfl rfl rfl rfl rfl rfl rfl le_rfl
    · rw [if_neg ‹_›]
      exact hm
  | polled ok =>
    simp only [Machine.step] at hfresh ⊢
    split at hfresh
    · rw [if_pos ‹_›]
      exact hm.of_pool hfresh rfl rfl rfl rfl rfl rfl rfl le_rfl
    · rw [if_neg ‹_›]
      exact hm
  | tick ns => exact hm.of_pool hfresh rfl rfl rfl rfl rfl rfl rfl (Nat.le_add_right _ _)

theorem exec_tied {maps : DummyMaps} (hmaps : su.openDummies = .ok maps)
    {events : List MachineEvent}
    (h : Runs.Along (Machine.step su) (Admissible su) (.start su maps) events) :
    (Runs.exec (Machine.step su) (.start su maps) events).Tied su :=
  h.preserves (I := Machine.Tied su) (fun _ _ hm ha ↦ step_tied hm ha) (start_tied hmaps).1

/-- What the programs and the recycler come to is a sane run of the system, from the system nothing
has happened to. -/
theorem exec_view {maps : DummyMaps} (hmaps : su.openDummies = .ok maps)
    {events : List MachineEvent}
    (h : Runs.Along (Machine.step su) (Admissible su) (.start su maps) events) :
    (Runs.exec (Machine.step su) (.start su maps) events).view su =
        Runs.exec (System.step su.lim su.cfg su.parsers) (.new su.socks.length)
          (Runs.record (Machine.step su) (Machine.does su) (.start su maps) events) ∧
      Runs.Along (System.step su.lim su.cfg su.parsers) Sane (.new su.socks.length)
        (Runs.record (Machine.step su) (Machine.does su) (.start su maps) events) := by
  obtain ⟨htied, hview⟩ := start_tied hmaps
  rw [← hview]
  exact h.simulates (I := Machine.Tied su) (fun _ _ hm ha ↦ step_tied hm ha)
    (fun _ ev hm _ ↦ step_view hm ev) (fun _ _ hm ha ↦ does_sane hm ha) htied

/-! ## 2. A turn of a dummy -/

/-- Port `port` of a host. -/
def exampleHost (last : UInt8) (port : UInt16) : SocketAddrV4 := ⟨⟨[10, 0, 0, last], rfl⟩, port⟩

/-- A server with two dummies. -/
def exampleSetup : Setup where
  endian := .little
  addr := exampleHost 1 443
  socks := [⟨exampleHost 2 1001, exampleHost 2 2001⟩, ⟨exampleHost 2 1002, exampleHost 2 2002⟩]
  lim := exampleLimits
  cfg := exampleRoutes
  parsers := exampleParsers
  socks_nodup := by decide
  socks_le := by decide

def exampleMaps : DummyMaps where
  dummyMap := Function.update (Function.update (fun _ ↦ false) 0 true) 1 true
  dummyIdx := Function.update (Function.update (fun _ ↦ none)
    [10, 0, 0, 2, 0xE9, 3, 0, 0, 10, 0, 0, 2, 0xD1, 7, 0, 0] (some 0))
    [10, 0, 0, 2, 0xEA, 3, 0, 0, 10, 0, 0, 2, 0xD2, 7, 0, 0] (some 1)
  freeDummies := [0, 1]

theorem example_open : exampleSetup.openDummies = .ok exampleMaps := rfl

def exampleClient : SocketAddrV4 := exampleHost 3 50000

def exampleSkb : Skb where
  parts := [exampleGet]
  bounded := by decide

/-- A connection that asks for a route and is closed, and the recycler that waits until it resets
the dummy. -/
def exampleTurn : List MachineEvent :=
  [.established (exampleHost 1 443) exampleClient true fun _ ↦ true,
    .skb (exampleHost 1 443) exampleClient exampleSkb true, .backlog 0, .msg 0 allOk,
    .tcpState (exampleHost 1 443) exampleClient .close, .condition false, .callback, .polled true,
    .check fun _ ↦ true, .tick quarantine, .condition false, .polled true, .check fun _ ↦ true,
    .check fun _ ↦ true]

theorem exampleTurn_admissible : Runs.Along (Machine.step exampleSetup) (Admissible exampleSetup)
    (.start exampleSetup exampleMaps) exampleTurn := by
  decide +kernel

/-- The programs and the recycler refine the system of connections and dummies, whatever they are
run on: each dummy is found under its address, and a connection has a dummy exactly if its socket
was added and its close is told of. -/
theorem programs_refine {maps : DummyMaps} (hmaps : su.openDummies = .ok maps)
    {events : List MachineEvent}
    (h : Runs.Along (Machine.step su) (Admissible su) (.start su maps) events) :
    let m := Runs.exec (Machine.step su) (.start su maps) events
    let es := Runs.record (Machine.step su) (Machine.does su) (.start su maps) events
    (m.view su = Runs.exec (System.step su.lim su.cfg su.parsers) (.new su.socks.length) es ∧
      Runs.Along (System.step su.lim su.cfg su.parsers) Sane (.new su.socks.length) es) ∧
    (∀ i d, su.socks[i]? = some d → m.dummyIdx (d.key su.endian) = some i) ∧
    ∀ key, (m.sockMap key = true ↔ m.pool.connDummy key ≠ none) ∧
      (m.stateCb key = true ↔ m.pool.connDummy key ≠ none) ∧
      ∀ i, m.pool.connDummy key = some i →
        m.pool.dummyOwners i = { conn := key, active := true } ∧ m.dummyMap i = true := by
  intro m es
  have htied := exec_tied hmaps h
  exact ⟨exec_view hmaps h, htied.idx, fun key ↦ ⟨htied.added key, htied.flagged key, fun i hi ↦
    ⟨(htied.lent hi).1, (htied.lent hi).2.1⟩⟩⟩

theorem programs_refine_turn :
    let m := Runs.exec (Machine.step exampleSetup) (.start exampleSetup exampleMaps) exampleTurn
    let es := Runs.record (Machine.step exampleSetup) (Machine.does exampleSetup)
      (.start exampleSetup exampleMaps) exampleTurn
    m.view exampleSetup =
        Runs.exec (System.step exampleLimits exampleRoutes exampleParsers) (.new 2) es ∧
      m.dummyIdx [10, 0, 0, 2, 0xEA, 3, 0, 0, 10, 0, 0, 2, 0xD2, 7, 0, 0] = some 1 := by
  intro m es
  obtain ⟨⟨hview, -⟩, hidx, -⟩ := programs_refine example_open exampleTurn_admissible
  exact ⟨hview, hidx 1 ⟨exampleHost 2 1002, exampleHost 2 2002⟩ rfl⟩

end HyperFastPath.Dummies
