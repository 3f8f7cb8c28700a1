import HyperFastPath.Lib.Runs
import Mathlib.Data.List.Nodup
import Mathlib.Data.List.Perm.Subperm
import Mathlib.Logic.Function.Basic

/-!
# The pool of dummies

A dummy is lent to a connection by `add_conn` of `fast_path.bpf.c` and taken back by `remove_conn`,
which hands it over a ring buffer to the thread of `dummies.rs` that resets it.
-/

namespace HyperFastPath.Dummies

/-- `struct ip4_conn`. -/
structure Ip4Conn where
  localIp4 : UInt32
  localPort : UInt32
  remoteIp4 : UInt32
  remotePort : UInt32
  deriving DecidableEq, Repr, Inhabited

/-- `struct dummy_owner`. -/
structure DummyOwner where
  conn : Ip4Conn
  active : Bool
  deriving DecidableEq, Repr

/-- The queue of free dummies holds `size` of them at most.  `lost` lists the dummies whose loss was
reported, `opened` the connections that were established and have not closed since. -/
structure Pool where
  size : Nat
  freeDummies : List Nat
  connDummy : Ip4Conn → Option Nat
  dummyOwners : Nat → DummyOwner
  releasedDummies : List Nat
  quarantine : List Nat
  lost : List Nat
  overflowed : Bool
  opened : List Ip4Conn

/-- `DummyPool::new`: every dummy is free. -/
def Pool.new (n : Nat) : Pool :=
  { size := n, freeDummies := List.range n, connDummy := fun _ ↦ none,
    dummyOwners := fun _ ↦ { conn := default, active := false }, releasedDummies := [],
    quarantine := [], lost := [], overflowed := false, opened := [] }

/-- The steps of `add_conn` that may fail. -/
inductive AddStep where
  | setOwner
  | setConnDummy
  | setFlags
  | addSocket
  deriving DecidableEq, Repr

/-- The steps of `reset` that may fail. -/
inductive ResetStep where
  | removeDummy
  | takeError
  | addDummy
  | clearTable
  | pushFree
  deriving DecidableEq, Repr

/-- What happens to the pool.  A record of the ring buffer is delivered once, and the recycler works
off what was delivered in its order. -/
inductive Event where
  | accept (key : Ip4Conn) (ok : AddStep → Bool)
  | close (key : Ip4Conn) (output : Bool)
  | deliver
  | reset (ok : ResetStep → Bool)

/-- `bpf_map_push_elem` on `free_dummies`. -/
def Pool.pushFree (p : Pool) (dummy : Nat) : Pool :=
  if p.freeDummies.length < p.size then { p with freeDummies := p.freeDummies ++ [dummy] }
  else { p with overflowed := true }

def Pool.setOwner (p : Pool) (dummy : Nat) (owner : DummyOwner) : Pool :=
  { p with dummyOwners := Function.update p.dummyOwners dummy owner }

def Pool.setConnDummy (p : Pool) (key : Ip4Conn) (dummy : Option Nat) : Pool :=
  { p with connDummy := Function.update p.connDummy key dummy }

/-- What `add_conn` does behind its `release` label. -/
def Pool.release (p : Pool) (key : Ip4Conn) (dummy : Nat) : Pool :=
  ((p.setConnDummy key none).setOwner dummy { conn := key, active := false }).pushFree dummy

/-- `add_conn`. -/
def Pool.addConn (p : Pool) (key : Ip4Conn) (ok : AddStep → Bool) : Pool :=
  match p.freeDummies with
  -- no dummy left
  | [] => p
  | dummy :: free =>
    let p := { p with freeDummies := free }
    if ok .setOwner = false then p.release key dummy
    else
      let p := p.setOwner dummy { conn := key, active := true }
      if ok .setConnDummy = false then p.release key dummy
      else
        let p := p.setConnDummy key (some dummy)
        if ok .setFlags = false then p.release key dummy
        else if ok .addSocket = false then p.release key dummy
        else p

/-- `remove_conn`, on the pool's maps. -/
def Pool.removeConn (p : Pool) (key : Ip4Conn) (output : Bool) : Pool :=
  match p.connDummy key with
  | none => p
  | some dummy =>
    let p := (p.setConnDummy key none).setOwner dummy { conn := key, active := false }
    if output then { p with releasedDummies := p.releasedDummies ++ [dummy] }
    else { p with lost := p.lost ++ [dummy] }

/-- The callback of the ring buffer. -/
def Pool.deliver (p : Pool) : Pool :=
  match p.releasedDummies with
  | [] => p
  | dummy :: rest => { p with releasedDummies := rest, quarantine := p.quarantine ++ [dummy] }

/-- A turn of the recycler: the dummy that was delivered first is reset. -/
def Pool.reset (p : Pool) (ok : ResetStep → Bool) : Pool :=
  match p.quarantine with
  | [] => p
  | dummy :: rest =>
    let p := { p with quarantine := rest }
    if dummy < p.size ∧ ok .removeDummy ∧ ok .takeError ∧ ok .addDummy ∧ ok .clearTable ∧
        ok .pushFree then p.pushFree dummy
    else { p with lost := p.lost ++ [dummy] }

def Pool.step (p : Pool) : Event → Pool
  | .accept key ok => { p.addConn key ok with opened := key :: p.opened }
  | .close key output => { p.removeConn key output with opened := p.opened.filter (· ≠ key) }
  | .deliver => p.deliver
  | .reset ok => p.reset ok

/-- A connection is not established again before its close. -/
def NewKey (p : Pool) : Event → Prop
  | .accept key _ => key ∉ p.opened
  | _ => True

instance (p : Pool) : (e : Event) → Decidable (NewKey p e)
  | .accept key _ => inferInstanceAs (Decidable (key ∉ p.opened))
  | .close _ _ => isTrue trivial
  | .deliver => isTrue trivial
  | .reset _ => isTrue trivial

/-! ## 1. Where a dummy is -/

/-- On its way back: in the ring buffer or in quarantine. -/
def Pool.released (p : Pool) : List Nat := p.releasedDummies ++ p.quarantine

/-- How many of the places a dummy can be in it is in. -/
def Pool.places (p : Pool) (i : Nat) : Nat :=
  p.freeDummies.count i + (if (p.dummyOwners i).active then 1 else 0) + p.released.count i +
    p.lost.count i

/-- Every dummy of the pool is in one place, and who holds one is named as its owner. -/
structure Pool.Sound (n : Nat) (p : Pool) : Prop where
  size : p.size = n
  places : ∀ i, p.places i = if i < n then 1 else 0
  owner : ∀ key i, p.connDummy key = some i ↔ p.dummyOwners i = { conn := key, active := true }
  opened : ∀ key i, p.connDummy key = some i → key ∈ p.opened
  overflowed : p.overflowed = false

theorem Pool.Sound.new (n : Nat) : (Pool.new n).Sound n where
  size := rfl
  places i := by simp [Pool.places, Pool.new, Pool.released, List.count_range]
  owner key i := by simp [Pool.new]
  opened key i h := by cases h
  overflowed := rfl

variable {n : Nat} {p : Pool} {key : Ip4Conn}

theorem Pool.Sound.not_held (hp : p.Sound n) (hnew : key ∉ p.opened) : p.connDummy key = none := by
  cases hc : p.connDummy key with
  | none => rfl
  | some i => exact absurd (hp.opened key i hc) hnew

/-- Dummies that are free twice nowhere, and of the pool, do not fill the queue beyond its size. -/
theorem length_le_of_count {l : List Nat} (h : ∀ i, l.count i ≤ if i < n then 1 else 0) :
    l.length ≤ n := by
  have hnodup : l.Nodup := List.nodup_iff_count_le_one.mpr fun i ↦
    Nat.le_trans (h i) (by split <;> omega)
  have hsub : l ⊆ List.range n := fun i hi ↦ by
    have hcount := List.count_pos_iff.mpr hi
    have hle := h i
    rw [List.mem_range]
    split at hle
    · assumption
    · omega
  simpa using (hnodup.subperm hsub).length_le

theorem pushFree_eq {dummy : Nat} (h : p.freeDummies.length < p.size) :
    p.pushFree dummy = { p with freeDummies := p.freeDummies ++ [dummy] } := if_pos h

/-! ## 2. What the operations do -/

/-- An accepted connection is left to user space, or the dummy at the front of the queue goes back
to its end, or it is lent. -/
theorem addConn_cases (hp : p.Sound n) (hnew : key ∉ p.opened) (ok : AddStep → Bool) :
    p.addConn key ok = p ∨ ∃ dummy free, p.freeDummies = dummy :: free ∧
      (p.addConn key ok = { p with
          freeDummies := free ++ [dummy]
          dummyOwners := Function.update p.dummyOwners dummy { conn := key, active := false } } ∨
        p.addConn key ok = { p with
          freeDummies := free
          dummyOwners := Function.update p.dummyOwners dummy { conn := key, active := true }
          connDummy := Function.update p.connDummy key (some dummy) }) := by
  unfold Pool.addConn
  cases hfree : p.freeDummies with
  | nil => exact .inl rfl
  | cons dummy free =>
    refine .inr ⟨dummy, free, rfl, ?_⟩
    have hnone := hp.not_held hnew
    -- there is room for a dummy that was just taken out
    have hlen : free.length < p.size := by
      have hle : p.freeDummies.length ≤ n := length_le_of_count fun i ↦ by
        rw [← hp.places i, Pool.places]
        omega
      rw [hfree, List.length_cons] at hle
      rw [hp.size]
      omega
    have hkept : Function.update p.connDummy key none = p.connDummy := by
      rw [← hnone, Function.update_eq_self]
    -- wherever it fails, what was set is taken back
    by_cases h1 : ok .setOwner = false
    · left
      simp [h1, Pool.release, Pool.setConnDummy, Pool.setOwner, Pool.pushFree, hlen, hkept]
    by_cases h2 : ok .setConnDummy = false
    · left
      simp [h1, h2, Pool.release, Pool.setConnDummy, Pool.setOwner, Pool.pushFree, hlen, hkept]
    by_cases h3 : ok .setFlags = false
    · left
      simp [h1, h2, h3, Pool.release, Pool.setConnDummy, Pool.setOwner, Pool.pushFree, hlen, hkept]
    by_cases h4 : ok .addSocket = false
    · left
      simp [h1, h2, h3, h4, Pool.release, Pool.setConnDummy, Pool.setOwner, Pool.pushFree, hlen,
        hkept]
    · right
      simp [h1, h2, h3, h4, Pool.setConnDummy, Pool.setOwner]

/-- A dummy in one place is in no other. -/
theorem Pool.Sound.inactive {dummy : Nat} (hp : p.Sound n)
    (h : 0 < p.freeDummies.count dummy + p.released.count dummy + p.lost.count dummy) :
    (p.dummyOwners dummy).active = false := by
  have hplaces := hp.places dummy
  rw [Pool.places] at hplaces
  split at hplaces
  · split at hplaces <;> omega
  · exact eq_false_of_ne_true ‹_›

theorem Pool.Sound.not_lent {dummy : Nat} (hp : p.Sound n)
    (h : (p.dummyOwners dummy).active = false) : p.connDummy key ≠ some dummy := by
  intro hc
  rw [(hp.owner key dummy).mp hc] at h
  cases h

/-- Who holds what is named as its owner: a connection and an idle dummy. -/
theorem owner_lend {dummy : Nat} (hp : p.Sound n) (hnone : p.connDummy key = none)
    (hidle : (p.dummyOwners dummy).active = false) (k : Ip4Conn) (i : Nat) :
    Function.update p.connDummy key (some dummy) k = some i ↔
      Function.update p.dummyOwners dummy { conn := key, active := true } i =
        { conn := k, active := true } := by
  have hold := hp.owner k i
  by_cases hk : k = key
  · subst hk
    by_cases hi : i = dummy
    · simp [hi]
    · -- the connection holds this one dummy only
      rw [hnone] at hold
      simpa [hi, Ne.symm hi] using hold
  · by_cases hi : i = dummy
    · subst hi
      simpa [hk, Ne.symm hk] using hp.not_lent hidle
    · simpa [hk, hi] using hold

/-- And a connection that gives its dummy back. -/
theorem owner_return {dummy : Nat} (hp : p.Sound n) (hc : p.connDummy key = some dummy)
    (k : Ip4Conn) (i : Nat) :
    Function.update p.connDummy key none k = some i ↔
      Function.update p.dummyOwners dummy { conn := key, active := false } i =
        { conn := k, active := true } := by
  have hold := hp.owner k i
  by_cases hk : k = key
  · subst hk
    by_cases hi : i = dummy
    · simp [hi]
    · rw [hc] at hold
      simpa [hi, Ne.symm hi] using hold
  · by_cases hi : i = dummy
    · subst hi
      -- its owner is not the other connection
      rw [(hp.owner key i).mp hc] at hold
      simpa [hk, Ne.symm hk] using hold
    · simpa [hk, hi] using hold

theorem addConn_sound (hp : p.Sound n) (hnew : key ∉ p.opened) (ok : AddStep → Bool) :
    { p.addConn key ok with opened := key :: p.opened }.Sound n := by
  have hnone : p.connDummy key = none := hp.not_held hnew
  rcases addConn_cases hp hnew ok with heq | ⟨dummy, free, hfree, heq⟩
  · rw [heq]
    exact { hp with opened := fun k i h ↦ .tail _ (hp.opened k i h) }
  have hidle : (p.dummyOwners dummy).active = false :=
    hp.inactive (by rw [hfree, List.count_cons_self]; omega)
  rcases heq with heq | heq
  · rw [heq]
    refine ⟨hp.size, fun i ↦ ?_, fun k i ↦ ?_, fun k i h ↦ .tail _ (hp.opened k i h), hp.overflowed⟩
    · rw [← hp.places i]
      by_cases hi : i = dummy
      · subst hi
        simp [Pool.places, Pool.released, hfree, hidle]
      · simp [Pool.places, Pool.released, hfree, hi, Ne.symm hi]
    · by_cases hi : i = dummy
      · subst hi
        simpa using hp.not_lent hidle
      · simpa [hi] using hp.owner k i
  · rw [heq]
    refine ⟨hp.size, fun i ↦ ?_, owner_lend hp hnone hidle, fun k i h ↦ ?_, hp.overflowed⟩
    · rw [← hp.places i]
      by_cases hi : i = dummy
      · subst hi
        simp [Pool.places, Pool.released, hfree, hidle]
      · simp [Pool.places, Pool.released, hfree, hi, Ne.symm hi]
    · by_cases hk : k = key
      · exact hk ▸ .head _
      · simp only [Function.update_of_ne hk] at h
        exact .tail _ (hp.opened k i h)

theorem removeConn_sound (hp : p.Sound n) (key : Ip4Conn) (output : Bool) :
    { p.removeConn key output with opened := p.opened.filter (· ≠ key) }.Sound n := by
  have hopened (k : Ip4Conn) (i : Nat) (h : p.connDummy k = some i) (hk : k ≠ key) :
      k ∈ p.opened.filter (· ≠ key) := List.mem_filter.mpr ⟨hp.opened k i h, by simpa using hk⟩
  unfold Pool.removeConn
  cases hc : p.connDummy key with
  | none =>
    refine { hp with opened := fun k i h ↦ hopened k i h fun hk ↦ ?_ }
    rw [hk] at h
    rw [show p.connDummy key = some i from h] at hc
    cases hc
  | some dummy =>
    have hactive := (hp.owner key dummy).mp hc
    have hkeys (k : Ip4Conn) (i : Nat) (h : Function.update p.connDummy key none k = some i) :
        k ∈ p.opened.filter (· ≠ key) := by
      by_cases hk : k = key
      · rw [hk, Function.update_self] at h
        cases h
      · rw [Function.update_of_ne hk] at h
        exact hopened k i h hk
    -- released if the output succeeds, and otherwise lost
    cases output with
    | true =>
      refine ⟨hp.size, fun i ↦ ?_, owner_return hp hc, hkeys, hp.overflowed⟩
      rw [← hp.places i]
      by_cases hi : i = dummy
      · subst hi
        simp [Pool.places, Pool.released, Pool.setConnDummy, Pool.setOwner, hactive]
        omega
      · simp [Pool.places, Pool.released, Pool.setConnDummy, Pool.setOwner, hi, Ne.symm hi]
    | false =>
      refine ⟨hp.size, fun i ↦ ?_, owner_return hp hc, hkeys, hp.overflowed⟩
      rw [← hp.places i]
      by_cases hi : i = dummy
      · subst hi
        simp [Pool.places, Pool.released, Pool.setConnDummy, Pool.setOwner, hactive]
        omega
      · simp [Pool.places, Pool.released, Pool.setConnDummy, Pool.setOwner, hi, Ne.symm hi]

theorem deliver_sound (hp : p.Sound n) : p.deliver.Sound n := by
  unfold Pool.deliver
  cases hrel : p.releasedDummies with
  | nil => exact hp
  | cons dummy rest =>
    refine { hp with places := fun i ↦ ?_ }
    rw [← hp.places i]
    simp only [Pool.places, Pool.released, hrel, List.count_append, List.count_cons, List.count_nil]
    omega

theorem reset_sound (hp : p.Sound n) (ok : ResetStep → Bool) : (p.reset ok).Sound n := by
  unfold Pool.reset
  cases hq : p.quarantine with
  | nil => exact hp
  | cons dummy rest =>
    simp only
    split
    · -- a dummy in quarantine is not free, so there is room for it
      have hlen : p.freeDummies.length < p.size := by
        have hle : (dummy :: p.freeDummies).length ≤ n := length_le_of_count fun i ↦ by
          rw [← hp.places i, Pool.places, Pool.released, hq]
          simp only [List.count_append, List.count_cons]
          omega
        rw [List.length_cons] at hle
        rw [hp.size]
        omega
      rw [pushFree_eq (by exact hlen)]
      refine { hp with places := fun i ↦ ?_ }
      rw [← hp.places i]
      simp only [Pool.places, Pool.released, hq, List.count_append, List.count_cons, List.count_nil]
      omega
    · refine { hp with places := fun i ↦ ?_ }
      rw [← hp.places i]
      simp only [Pool.places, Pool.released, hq, List.count_append, List.count_cons, List.count_nil]
      omega

theorem step_sound {e : Event} (hp : p.Sound n) (hnew : NewKey p e) : (p.step e).Sound n := by
  cases e with
  | accept key ok => exact addConn_sound hp hnew ok
  | close key output => exact removeConn_sound hp key output
  | deliver => exact deliver_sound hp
  | reset ok => exact reset_sound hp ok

/-! ## 3. Whole runs -/

/-- However connections come and go and whatever fails, every dummy is in exactly one place, it is
lent to the one connection that is named as its owner, and none is ever pushed to a full queue. -/
theorem dummy_lent_once {events : List Event}
    (hnew : Runs.Along Pool.step NewKey (Pool.new n) events) :
    let p := Runs.exec Pool.step (Pool.new n) events
    (∀ i, p.freeDummies.count i + (if (p.dummyOwners i).active then 1 else 0) +
      (p.releasedDummies ++ p.quarantine).count i + p.lost.count i = if i < n then 1 else 0) ∧
    (∀ i, (p.dummyOwners i).active ↔ ∃ key, p.connDummy key = some i) ∧
    (∀ key i, p.connDummy key = some i → p.dummyOwners i = { conn := key, active := true }) ∧
    (∀ key key' i, p.connDummy key = some i → p.connDummy key' = some i → key = key') ∧
    p.overflowed = false ∧ p.freeDummies.length ≤ n := by
  intro p
  have hp : p.Sound n := hnew.preserves (fun _ _ hs hk ↦ step_sound hs hk) (Pool.Sound.new n)
  refine ⟨hp.places, fun i ↦ ⟨fun hactive ↦ ?_, fun ⟨key, hkey⟩ ↦ ?_⟩,
    fun key i ↦ (hp.owner key i).mp, fun key key' i hkey hkey' ↦ ?_, hp.overflowed, ?_⟩
  · refine ⟨(p.dummyOwners i).conn, (hp.owner _ i).mpr ?_⟩
    rw [← hactive]
  · rw [(hp.owner key i).mp hkey]
  · have hsame := ((hp.owner key i).mp hkey).symm.trans ((hp.owner key' i).mp hkey')
    exact (DummyOwner.mk.inj hsame).1
  · apply length_le_of_count
    intro i
    rw [← hp.places i, Pool.places]
    omega

/-- Two connections are accepted, the second of which fails to be added, and the dummy of the first
one is recycled. -/
def exampleEvents : List Event :=
  let first : Ip4Conn := { localIp4 := 1, localPort := 443, remoteIp4 := 2, remotePort := 1 }
  let second : Ip4Conn := { localIp4 := 1, localPort := 443, remoteIp4 := 2, remotePort := 2 }
  [.accept first fun _ ↦ true, .accept second (· ≠ .addSocket), .close first true, .deliver,
    .reset fun _ ↦ true]

theorem dummy_lent_once_recycled :
    let p := Runs.exec Pool.step (Pool.new 2) exampleEvents
    (∀ i, p.freeDummies.count i + (if (p.dummyOwners i).active then 1 else 0) +
      (p.releasedDummies ++ p.quarantine).count i + p.lost.count i = if i < 2 then 1 else 0) ∧
    p.freeDummies.length ≤ 2 :=
  have hnew : Runs.Along Pool.step NewKey (Pool.new 2) exampleEvents := by decide
  ⟨(dummy_lent_once hnew).1, (dummy_lent_once hnew).2.2.2.2.2⟩

example : (Runs.exec Pool.step (Pool.new 2) exampleEvents).freeDummies = [1, 0] := by decide

end HyperFastPath.Dummies
