import HyperFastPath.Dummies.Pool
import HyperFastPath.FastPath.Determined

/-!
# Connections and their dummies

The whole of the fast path: the pool, what is kept for a connection under its address pair, and what
a dummy carries over from one connection to the next.
-/

namespace HyperFastPath.Dummies

open FastPath

/-- What the kernel keeps for a dummy: the rest of the message that is being worked off, and how far
the last verdict reaches.  A verdict that drops a message leaves it dead. -/
structure Psock where
  buf : List UInt8
  left : Nat
  dir : Direction
  dead : Bool
  deriving DecidableEq, Repr

def Psock.new : Psock := { buf := [], left := 0, dir := .ingress, dead := false }

/-- `queue` is what `skb_verdict` has redirected to the dummy and the backlog has not sent on it,
`table` the dummy's entry in `dynamic_table_info`. -/
structure Dummy where
  queue : List Message
  psock : Psock
  table : Option (List HeaderField)

/-- A dummy that nothing has been sent on. -/
def Dummy.new : Dummy := { queue := [], psock := .new, table := none }

/-- A message of the dummy is still being worked off. -/
def Psock.Busy (ps : Psock) : Prop := ps.dead = false ∧ ps.buf ≠ []

instance (ps : Psock) : Decidable ps.Busy := inferInstanceAs (Decidable (_ ∧ _))

/-- What was redirected to the socket of a connection. -/
structure Delivered where
  toUser : List UInt8
  toClient : List UInt8
  log : List Disposal
  forGood : Bool
  deriving DecidableEq, Repr

def Delivered.new : Delivered := { toUser := [], toClient := [], log := [], forGood := false }

/-- `conns` are the entries of `upgraded_conns`, `flow_ctl` and `dt_dirty`. -/
structure System where
  pool : Pool
  conns : Ip4Conn → Conn
  dummies : Nat → Dummy
  delivered : Ip4Conn → Delivered

def System.new (n : Nat) : System :=
  { pool := .new n, conns := fun _ ↦ .new, dummies := fun _ ↦ .new, delivered := fun _ ↦ .new }

/-- What happens to the pool, or a message arrives from a client, the backlog sends the next message
on a dummy, or `msg_verdict` is run on what there is of one. -/
inductive SystemEvent where
  | pool (e : Event)
  | message (key : Ip4Conn) (m : Message)
  | backlog (i : Nat)
  | run (i : Nat) (h : Helpers)

/-- The pipe a dummy is to the connection that holds it. -/
def System.pipe (s : System) (key : Ip4Conn) (i : Nat) : Pipe :=
  let psock := (s.dummies i).psock
  let delivered := s.delivered key
  { conn := s.conns key, mirror := (s.dummies i).table.getD [], buf := psock.buf,
    left := psock.left, dir := psock.dir, toUser := delivered.toUser,
    toClient := delivered.toClient, log := delivered.log, dropped := psock.dead,
    forGood := delivered.forGood }

def System.setDummy (s : System) (i : Nat) (d : Dummy) : System :=
  { s with dummies := Function.update s.dummies i d }

/-- What a step has made of the pipe. -/
def System.setPipe (s : System) (key : Ip4Conn) (i : Nat) (p : Pipe) (queue : List Message)
    (table : Option (List HeaderField)) : System :=
  { s with
    conns := Function.update s.conns key p.conn
    delivered := Function.update s.delivered key
      { toUser := p.toUser, toClient := p.toClient, log := p.log, forGood := p.forGood }
    dummies := Function.update s.dummies i
      { queue, psock := { buf := p.buf, left := p.left, dir := p.dir, dead := p.dropped }, table } }

/-- `remove_conn`, on the maps that are keyed by the connection. -/
def System.removeConn (s : System) (key : Ip4Conn) : System :=
  match s.pool.connDummy key with
  | none => s
  | some _ => { s with conns := Function.update s.conns key .new }

/-- `reset`, on the dummy itself. -/
def Dummy.reset (d : Dummy) (ok : ResetStep → Bool) : Dummy :=
  if ok .removeDummy = false then d
  else
    -- with its psock goes what the last verdict still applied to
    let d := { d with psock := .new }
    if ok .takeError ∧ ok .addDummy ∧ ok .clearTable then { d with table := none } else d

/-- A message that is sent on a dummy whose connection is closed. -/
def Psock.skip (ps : Psock) (m : Message) : Psock :=
  if ps.dead then ps
  else
    { ps with buf := m.1.drop (min ps.left m.1.length), left := ps.left - min ps.left m.1.length }

/-- The backlog sends `m` on dummy `i`. -/
def System.send (lim : Limits) (cfg : Routes) (s : System) (i : Nat) (m : Message)
    (queue : List Message) : System :=
  let owner := s.pool.dummyOwners i
  let d := s.dummies i
  if owner.active then
    s.setPipe owner.conn i ((s.pipe owner.conn i).step lim cfg (.send m)) queue d.table
  else s.setDummy i { d with queue, psock := d.psock.skip m }

/-- `msg_verdict`, on dummy `i`. -/
def System.run (lim : Limits) (cfg : Routes) (ps : Parsers) (s : System) (i : Nat) (h : Helpers) :
    System :=
  let owner := s.pool.dummyOwners i
  let d := s.dummies i
  if ¬ d.psock.Busy then s
  else if owner.active then
    let p := s.pipe owner.conn i
    let p' := p.step lim cfg (.run h (ps.answers p))
    s.setPipe owner.conn i p' d.queue (if p.conn.isH2 then some p'.mirror else d.table)
  -- what is left over from a connection that closed has nowhere to go
  else s.setDummy i { d with psock := { d.psock with dead := true } }

def System.step (lim : Limits) (cfg : Routes) (ps : Parsers) (s : System) : SystemEvent → System
  | .pool (.accept key ok) =>
    { s with
      pool := s.pool.step (.accept key ok)
      delivered := Function.update s.delivered key .new }
  | .pool (.close key output) =>
    { s.removeConn key with pool := s.pool.step (.close key output) }
  | .pool .deliver => { s with pool := s.pool.step .deliver }
  | .pool (.reset ok) =>
    match s.pool.quarantine with
    | [] => s
    | i :: _ =>
      -- there may be no such dummy
      let s' := if i < s.pool.size then s.setDummy i ((s.dummies i).reset ok) else s
      { s' with pool := s.pool.step (.reset ok) }
  | .message key m =>
    match s.pool.connDummy key with
    | none => s
    | some i => s.setDummy i { s.dummies i with queue := (s.dummies i).queue ++ [m] }
  | .backlog i =>
    if (s.dummies i).psock.Busy then s
    else
      match (s.dummies i).queue with
      | [] => s
      | m :: queue => s.send lim cfg i m queue
  | .run i h => s.run lim cfg ps i h

/-- A connection is not established again before its close, and a dummy's messages are worked off
by the time it is reset. -/
def Sane (s : System) : SystemEvent → Prop
  | .pool (.reset _) => ∀ i ∈ s.pool.quarantine.head?, (s.dummies i).queue = []
  | .pool e => NewKey s.pool e
  | _ => True

instance (s : System) : (e : SystemEvent) → Decidable (Sane s e)
  | .pool (.reset _) => inferInstanceAs (Decidable (∀ i ∈ _, _ = []))
  | .pool (.accept key ok) => inferInstanceAs (Decidable (NewKey _ (.accept key ok)))
  | .pool (.close _ _) => isTrue trivial
  | .pool .deliver => isTrue trivial
  | .message _ _ => isTrue trivial
  | .backlog _ => isTrue trivial
  | .run _ _ => isTrue trivial

variable {lim : Limits} {cfg : Routes} {ps : Parsers} {n i j : Nat} {s : System} {p : Pool}
  {key key' : Ip4Conn}

@[simp] theorem setDummy_self (s : System) (i : Nat) (d : Dummy) :
    (s.setDummy i d).dummies i = d := by
  simp [System.setDummy]

theorem setDummy_of_ne (s : System) (d : Dummy) (h : j ≠ i) :
    (s.setDummy i d).dummies j = s.dummies j := by
  simp [System.setDummy, h]

/-! ## 1. Who has what -/

theorem Pool.Sound.not_free (hp : p.Sound n) (hc : p.connDummy key = some i) :
    i ∉ p.freeDummies := fun hmem ↦ by
  have hcount := List.count_pos_iff.mpr hmem
  exact hp.not_lent (hp.inactive (by omega)) hc

theorem Pool.Sound.not_quarantined (hp : p.Sound n) (hc : p.connDummy key = some i) :
    i ∉ p.quarantine := fun hmem ↦ by
  have hcount := List.count_pos_iff.mpr (List.mem_append_right p.releasedDummies hmem)
  rw [← Pool.released] at hcount
  exact hp.not_lent (hp.inactive (by omega)) hc

theorem Pool.Sound.free_not_quarantined (hp : p.Sound n) (hfree : i ∈ p.freeDummies) :
    i ∉ p.quarantine := fun hmem ↦ by
  have hcount := List.count_pos_iff.mpr (List.mem_append_right p.releasedDummies hmem)
  have hcount' := List.count_pos_iff.mpr hfree
  have hle : p.places i ≤ 1 := by
    rw [hp.places i]
    split <;> omega
  rw [Pool.places, Pool.released] at hle
  omega

theorem Pool.Sound.same_key (hp : p.Sound n) (hc : p.connDummy key = some i)
    (hc' : p.connDummy key' = some i) : key = key' := by
  have hsame := ((hp.owner key i).mp hc).symm.trans ((hp.owner key' i).mp hc')
  exact (DummyOwner.mk.inj hsame).1

theorem Pool.Sound.lent (hp : p.Sound n) (hactive : (p.dummyOwners i).active = true) :
    p.connDummy (p.dummyOwners i).conn = some i := by
  rw [hp.owner, ← hactive]

/-- Whoever holds a dummy keeps it when another connection is accepted, and no dummy becomes free. -/
theorem addConn_keeps (hp : p.Sound n) (hnew : key ∉ p.opened) (ok : AddStep → Bool) :
    (∀ k ≠ key, (p.addConn key ok).connDummy k = p.connDummy k) ∧
      (∀ i ∈ (p.addConn key ok).freeDummies, i ∈ p.freeDummies) ∧
      ∀ i, (p.addConn key ok).connDummy key = some i → i ∈ p.freeDummies := by
  have hnone := hp.not_held hnew
  rcases addConn_cases hp hnew ok with heq | ⟨dummy, free, hfree, heq | heq⟩
  · rw [heq]
    refine ⟨fun _ _ ↦ rfl, fun _ h ↦ h, fun i h ↦ ?_⟩
    rw [hnone] at h
    cases h
  · rw [heq, hfree]
    refine ⟨fun _ _ ↦ rfl, fun i hi ↦ ?_, fun i h ↦ ?_⟩
    · simpa [or_comm] using hi
    · rw [show p.connDummy key = some i from h] at hnone
      cases hnone
  · rw [heq, hfree]
    refine ⟨fun k hk ↦ Function.update_of_ne hk _ _, fun i hi ↦ List.mem_cons_of_mem _ hi,
      fun i h ↦ ?_⟩
    simp only [Function.update_self, Option.some.injEq] at h
    exact h ▸ List.mem_cons_self

theorem removeConn_keeps (p : Pool) (key : Ip4Conn) (output : Bool) :
    (p.removeConn key output).freeDummies = p.freeDummies ∧
      (∀ k ≠ key, (p.removeConn key output).connDummy k = p.connDummy k) ∧
      (p.removeConn key output).connDummy key = none := by
  unfold Pool.removeConn
  cases hc : p.connDummy key with
  | none => exact ⟨rfl, fun _ _ ↦ rfl, hc⟩
  | some dummy =>
    have hother (k : Ip4Conn) (hk : k ≠ key) :
        Function.update p.connDummy key none k = p.connDummy k := Function.update_of_ne hk _ _
    cases output <;> exact ⟨rfl, hother, Function.update_self _ _ _⟩

/-- A dummy that becomes free has been reset. -/
theorem reset_keeps (p : Pool) (ok : ResetStep → Bool) :
    (p.reset ok).connDummy = p.connDummy ∧ ∀ i ∈ (p.reset ok).freeDummies, i ∈ p.freeDummies ∨
      (i ∈ p.quarantine.head? ∧ i < p.size ∧ ok .removeDummy ∧ ok .takeError ∧ ok .addDummy ∧
        ok .clearTable) := by
  unfold Pool.reset
  cases hq : p.quarantine with
  | nil => exact ⟨rfl, fun _ h ↦ .inl h⟩
  | cons dummy rest =>
    simp only
    split
    · rename_i hok
      unfold Pool.pushFree
      split
      · refine ⟨rfl, fun i hi ↦ ?_⟩
        rcases List.mem_append.mp hi with hi | hi
        · exact .inl hi
        · cases List.mem_singleton.mp hi
          exact .inr ⟨rfl, hok.1, hok.2.1, hok.2.2.1, hok.2.2.2.1, hok.2.2.2.2.1⟩
      · exact ⟨rfl, fun _ h ↦ .inl h⟩
    · exact ⟨rfl, fun _ h ↦ .inl h⟩

/-! ## 2. What is fresh -/

/-- Nothing is left of the connection before, on the dummies that are free and under the address
pairs that hold none. -/
structure System.Fresh (n : Nat) (s : System) : Prop where
  sound : s.pool.Sound n
  free : ∀ i ∈ s.pool.freeDummies, s.dummies i = .new
  conns : ∀ key, s.pool.connDummy key = none → s.conns key = .new

theorem System.Fresh.new (n : Nat) : (System.new n).Fresh n :=
  ⟨.new n, fun _ _ ↦ rfl, fun _ _ ↦ rfl⟩

/-- A dummy that is not free may be changed. -/
theorem System.Fresh.setDummy (hs : s.Fresh n) (hi : i ∉ s.pool.freeDummies) (d : Dummy) :
    (s.setDummy i d).Fresh n where
  sound := hs.sound
  free j hj := by
    have hne : j ≠ i := fun hji ↦ hi (hji ▸ hj)
    rw [setDummy_of_ne s d hne]
    exact hs.free j hj
  conns := hs.conns

/-- And so may what is kept for the connection that holds it. -/
theorem System.Fresh.setPipe (hs : s.Fresh n) (hc : s.pool.connDummy key = some i) (p : Pipe)
    (queue : List Message) (table : Option (List HeaderField)) :
    (s.setPipe key i p queue table).Fresh n where
  sound := hs.sound
  free j hj := by
    have hne : j ≠ i := fun hji ↦ hs.sound.not_free hc (hji ▸ hj)
    exact (Function.update_of_ne hne _ _).trans (hs.free j hj)
  conns k hk := by
    have hne : k ≠ key := fun hkk ↦ by
      have hnone : s.pool.connDummy key = none := hkk ▸ hk
      rw [hc] at hnone
      cases hnone
    exact (Function.update_of_ne hne _ _).trans (hs.conns k hk)

/-- Nothing is done on a free dummy. -/
theorem System.Fresh.not_free (hs : s.Fresh n)
    (hi : (s.dummies i).queue ≠ [] ∨ (s.dummies i).psock.Busy) : i ∉ s.pool.freeDummies :=
  fun hfree ↦ by
    rw [hs.free i hfree] at hi
    exact hi.elim (fun h ↦ h rfl) fun h ↦ h.2 rfl

variable (lim cfg ps) in
theorem fresh_step {e : SystemEvent} (hs : s.Fresh n) (hsane : Sane s e) :
    (s.step lim cfg ps e).Fresh n := by
  cases e with
  | pool e =>
    cases e with
    | accept key ok =>
      have hnew : key ∉ s.pool.opened := hsane
      obtain ⟨hkeys, hfree, -⟩ := addConn_keeps hs.sound hnew ok
      refine ⟨step_sound (e := .accept key ok) hs.sound hnew, fun i hi ↦ hs.free i (hfree i hi), fun k hk ↦ ?_⟩
      apply hs.conns k
      by_cases hkey : k = key
      · rw [hkey]
        exact hs.sound.not_held hnew
      · rw [← hkeys k hkey]
        exact hk
    | close key output =>
      obtain ⟨hfree, hkeys, -⟩ := removeConn_keeps s.pool key output
      have hsound := step_sound (e := .close key output) hs.sound trivial
      simp only [System.step, System.removeConn]
      cases hc : s.pool.connDummy key with
      | none =>
        refine ⟨hsound, fun i hi ↦ hs.free i (hfree ▸ hi), fun k hk ↦ hs.conns k ?_⟩
        by_cases hkey : k = key
        · rw [hkey, hc]
        · rw [← hkeys k hkey]
          exact hk
      | some i =>
        refine ⟨hsound, fun i hi ↦ hs.free i (hfree ▸ hi), fun k hk ↦ ?_⟩
        by_cases hkey : k = key
        · rw [hkey]
          exact Function.update_self _ _ _
        · exact (Function.update_of_ne hkey _ _).trans (hs.conns k ((hkeys k hkey).symm.trans hk))
    | deliver =>
      have hsound := step_sound (e := .deliver) hs.sound trivial
      have hpool : s.pool.deliver.freeDummies = s.pool.freeDummies ∧
          s.pool.deliver.connDummy = s.pool.connDummy := by
        unfold Pool.deliver
        split <;> exact ⟨rfl, rfl⟩
      exact ⟨hsound, fun i hi ↦ hs.free i (hpool.1 ▸ hi), fun k hk ↦ hs.conns k (hpool.2 ▸ hk)⟩
    | reset ok =>
      have hsound := step_sound (e := .reset ok) hs.sound trivial
      obtain ⟨hkeys, hfree⟩ := reset_keeps s.pool ok
      unfold System.step
      simp only
      cases hq : s.pool.quarantine with
      | nil => exact hs
      | cons dummy rest =>
        have hempty : (s.dummies dummy).queue = [] := hsane dummy (by rw [hq]; rfl)
        simp only
        refine ⟨hsound, fun j hj ↦ ?_, fun k hk ↦ ?_⟩
        · rcases hfree j hj with hj | ⟨hhead, hsize, h1, h2, h3, h4⟩
          · have hne : j ≠ dummy := fun hji ↦
              hs.sound.free_not_quarantined hj (by rw [hq, hji]; exact List.mem_cons_self)
            split
            · exact (setDummy_of_ne s _ hne).trans (hs.free j hj)
            · exact hs.free j hj
          · rw [hq] at hhead
            cases hhead
            rw [if_pos hsize]
            show (s.setDummy dummy _).dummies dummy = _
            simp [Dummy.reset, h1, h2, h3, h4, hempty, Dummy.new]
        · have hnone : s.pool.connDummy k = none := hkeys ▸ hk
          split <;> exact hs.conns k hnone
  | message key m =>
    unfold System.step
    simp only
    cases hc : s.pool.connDummy key with
    | none => exact hs
    | some i => exact hs.setDummy (hs.sound.not_free hc) _
  | backlog i =>
    unfold System.step
    simp only
    split
    · exact hs
    · cases hq : (s.dummies i).queue with
      | nil => exact hs
      | cons m queue =>
        have hi := hs.not_free (i := i) (.inl (by simp [hq]))
        unfold System.send
        simp only
        split
        · exact hs.setPipe (hs.sound.lent ‹_›) _ _ _
        · exact hs.setDummy hi _
  | run i h =>
    unfold System.step System.run
    simp only
    split
    · exact hs
    · rename_i hbusy
      have hi := hs.not_free (i := i) (.inr (not_not.mp hbusy))
      split
      · exact hs.setPipe (hs.sound.lent ‹_›) _ _ _
      · exact hs.setDummy hi _

end HyperFastPath.Dummies
