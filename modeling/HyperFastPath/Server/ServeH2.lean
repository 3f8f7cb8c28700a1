import HyperFastPath.Listener.Handles

/-!
# The connection loop

`serve_h2` of `server.rs`.  What the `h2` crate does with what it is given is an input: the reads
its handshake and a poll of the connection make, and whether it takes a count or a block.
-/

namespace HyperFastPath.Server

open Listener

/-- What `h2` makes of one turn of the loop, with the room in each buffer it reads into. -/
structure Turn where
  consumes : Bool
  primes : List UInt8 → Bool
  reads : List Nat

/-- `consumed` and `primed` list what `consume_send_capacity` and `prime_dynamic_table` have been
called with; once one of them has failed the connection has ended. -/
structure ServeH2 where
  holder : Holder
  consumed : List UInt32
  primed : List (List UInt8)
  ended : Bool
  deriving DecidableEq

def ServeH2.readAll (c : ServeH2) (reads : List Nat) : ServeH2 :=
  { c with holder := Runs.exec Holder.step c.holder (reads.map fun cap ↦ .read (.pollRead cap)) }

/-- The connection after the handshake, which only reads. -/
def ServeH2.start (stream : List SocketRead) (reads : List Nat) : ServeH2 :=
  ServeH2.readAll { holder := .start stream, consumed := [], primed := [], ended := false } reads

/-- A count is passed on unless it is zero. -/
def ServeH2.consume (c : ServeH2) (t : Turn) (sent : UInt32) : ServeH2 :=
  if 0 < sent then { c with consumed := c.consumed ++ [sent], ended := !t.consumes } else c

def ServeH2.takeFlow (c : ServeH2) (t : Turn) : ServeH2 :=
  { c with holder := c.holder.step .takeFlow }.consume t c.holder.stream.scanner.takeFlow.1

/-- The blocks that are tried, the last of which may have failed. -/
def primeBlocks (primes : List UInt8 → Bool) : List (List UInt8) → List (List UInt8) × Bool
  | [] => ([], true)
  | block :: blocks =>
    if primes block then (block :: (primeBlocks primes blocks).1, (primeBlocks primes blocks).2)
    else ([block], false)

def ServeH2.takeSync (c : ServeH2) (t : Turn) : ServeH2 :=
  let (tried, applied) := primeBlocks t.primes c.holder.stream.scanner.takeSync.1
  { c with
    holder := c.holder.step (.read .takeSync)
    primed := c.primed ++ tried
    ended := !applied }

/-- One turn of the loop, up to the end of the poll of the connection. -/
def ServeH2.poll (c : ServeH2) (t : Turn) : ServeH2 :=
  if c.ended then c
  else
    let c := c.takeFlow t
    if c.ended then c
    else
      let c := c.takeSync t
      if c.ended then c else c.readAll t.reads

/-! ## 1. What has been taken -/

/-- The counts ahead of some point of the stream have been consumed, and no update behind it has
been taken. -/
def ServeH2.Accounts (stream : List SocketRead) (c : ServeH2) : Prop :=
  ∃ es₀ es₁, c.holder.Tracks stream es₀ es₁ ∧ c.consumed.sum = reported es₀ ∧
    c.holder.taken.length ≤ (updates es₀).length

variable {stream : List SocketRead} {c : ServeH2} {es₀ es₁ : List Event} {t : Turn}

theorem taken_length_le {o : Holder} (h : o.Tracks stream es₀ []) :
    o.taken.length ≤ (updates es₀).length := by
  have htaken := congrArg List.length h.run.taken
  rw [List.append_nil, List.length_append, List.length_map] at htaken
  omega

theorem readAll_accounts (h : c.Accounts stream) (reads : List Nat) :
    (c.readAll reads).Accounts stream := by
  obtain ⟨es₀, es₁, htracks, hconsumed, htaken⟩ := h
  obtain ⟨es, htracks', htaken'⟩ : ∃ es, (c.readAll reads).holder.Tracks stream es₀ es ∧
      (c.readAll reads).holder.taken = c.holder.taken := by
    unfold ServeH2.readAll
    simp only
    generalize c.holder = o at htracks
    clear htaken
    induction reads generalizing o es₁ with
    | nil => exact ⟨es₁, htracks, rfl⟩
    | cons cap reads ih =>
      obtain ⟨es, htracks⟩ := htracks.pollRead cap
      exact ih _ _ htracks
  exact ⟨es₀, es, htracks', hconsumed, by rwa [htaken']⟩

theorem start_accounts (stream : List SocketRead) (reads : List Nat) :
    (ServeH2.start stream reads).Accounts stream := by
  obtain ⟨es, h⟩ := holder_start stream
  apply readAll_accounts
  exact ⟨[], es, h, rfl, Nat.le_refl 0⟩

theorem consume_holder (c : ServeH2) (t : Turn) (sent : UInt32) :
    (c.consume t sent).holder = c.holder := by
  unfold ServeH2.consume
  split <;> rfl

theorem consume_sum (c : ServeH2) (t : Turn) (sent : UInt32) :
    (c.consume t sent).consumed.sum = c.consumed.sum + sent := by
  unfold ServeH2.consume
  split
  · rw [List.sum_append, List.sum_singleton]
  · rename_i hzero
    -- a count of zero is not passed on, but adds nothing either
    obtain rfl : sent = 0 := by
      by_contra hne
      exact hzero (UInt32.pos_iff_ne_zero.mpr hne)
    rw [UInt32.add_zero]

theorem takeFlow_accounts (h : c.Accounts stream) (t : Turn) :
    ∃ es, (c.takeFlow t).holder.Tracks stream es [] ∧
      (c.takeFlow t).consumed.sum = reported es := by
  obtain ⟨es₀, es₁, htracks, hconsumed, -⟩ := h
  refine ⟨es₀ ++ es₁, ?_, ?_⟩
  · rw [ServeH2.takeFlow, consume_holder]
    exact htracks.takeFlow
  · rw [ServeH2.takeFlow, consume_sum, reported_append, ← hconsumed, ← htracks.sent]
    rfl

theorem takeSync_accounts {es : List Event} (h : c.holder.Tracks stream es [])
    (hconsumed : c.consumed.sum = reported es) (t : Turn) : (c.takeSync t).Accounts stream :=
  ⟨es, [], h.takeSync, hconsumed, taken_length_le h.takeSync⟩

theorem poll_accounts (h : c.Accounts stream) (t : Turn) : (c.poll t).Accounts stream := by
  obtain ⟨es, htracks, hconsumed⟩ := takeFlow_accounts h t
  -- no update is taken ahead of the counts
  have hsync := takeSync_accounts htracks hconsumed t
  unfold ServeH2.poll
  split
  · exact h
  simp only
  split
  · exact ⟨es, [], htracks, hconsumed, taken_length_le htracks⟩
  split
  · exact hsync
  · exact readAll_accounts hsync t.reads

theorem serveH2_handed (stream : List SocketRead) (reads : List Nat) (turns : List Turn) :
    (Runs.exec ServeH2.poll (.start stream reads) turns).holder.handed <+:
      passed (eventsOf (streamOf stream)) := by
  obtain ⟨es₀, es₁, h, -, -⟩ := Runs.exec_preserves (I := ServeH2.Accounts stream)
    (fun _ t hc ↦ poll_accounts hc t) (start_accounts stream reads) turns
  rw [eventsOf, h.run.run, passed_append, h.run.handed, List.append_assoc]
  exact List.prefix_append _ _

/-- A byte that lies behind an update is only handed out with every count ahead of that update
consumed. -/
theorem serveH2_consumes (stream : List SocketRead) (reads : List Nat) (turns : List Turn)
    {es rest : List Event} {block : List UInt8}
    (hevents : eventsOf (streamOf stream) = es ++ .sync block :: rest)
    (hbehind : (passed es).length <
      (Runs.exec ServeH2.poll (.start stream reads) turns).holder.handed.length) :
    ∃ es', es ++ [.sync block] <+: es' ∧ es' <+: eventsOf (streamOf stream) ∧
      (Runs.exec ServeH2.poll (.start stream reads) turns).consumed.sum = reported es' := by
  obtain ⟨es₀, es₁, h, hconsumed, htaken⟩ :=
    Runs.exec_preserves (I := ServeH2.Accounts stream) (fun _ t hc ↦ poll_accounts hc t)
      (start_accounts stream reads) turns
  generalize Runs.exec ServeH2.poll (.start stream reads) turns = c at *
  have hfollows : c.holder.toReader.Follows stream := ⟨_, h.run⟩
  have hprefix : es₀ <+: eventsOf (streamOf stream) := by
    rw [eventsOf, h.run.run, List.append_assoc]
    exact List.prefix_append _ _
  refine ⟨es₀, ?_, hprefix, hconsumed⟩
  -- the update has been taken, as something behind it has been handed out
  have htook : (updates es).length < c.holder.taken.length := by
    by_contra hle
    have hhanded := hfollows.handed_le (Nat.le_of_not_lt hle)
    rw [hevents, ahead_append le_rfl, Nat.sub_self] at hhanded
    exact absurd hhanded (Nat.not_le.mpr hbehind)
  have hfront : es ++ [Event.sync block] <+: eventsOf (streamOf stream) :=
    ⟨rest, by rw [hevents, List.append_assoc]; rfl⟩
  rcases Nat.le_total (es ++ [Event.sync block]).length es₀.length with hle | hle
  · exact List.prefix_of_prefix_length_le hfront hprefix hle
  · have hback := List.prefix_of_prefix_length_le hprefix hfront hle
    -- so short of the update there would be too few of them
    rcases List.prefix_concat_iff.mp hback with rfl | hshort
    · exact List.prefix_refl _
    · have hfew := (hshort.filterMap Event.sync?).length_le
      change (updates es₀).length ≤ (updates es).length at hfew
      omega

end HyperFastPath.Server
