import HyperFastPath.Listener.Progress
import HyperFastPath.Server.ServeH2

/-!
# The connection loop gets on

As long as the codec takes what it is given and reads at all, every byte is handed out in the end,
and every update and every report is applied.
-/

namespace HyperFastPath.Server

open Listener

/-- A turn in which the codec takes what it is given, and reads, with room to read into. -/
structure Turn.Responsive (t : Turn) : Prop where
  consumes : t.consumes = true
  primes : ∀ block, t.primes block = true
  reads : t.reads ≠ []
  room : ∀ cap ∈ t.reads, 0 < cap

/-- What has been primed is what has been taken, and there has been no failure. -/
structure ServeH2.Sound (stream : List SocketRead) (c : ServeH2) : Prop where
  accounts : c.Accounts stream
  primed : c.primed = c.holder.taken.map Taken.block
  runs : c.ended = false

def ServeH2.toDo (c : ServeH2) : Nat := potential c.holder.stream

/-- Everything has been handed out and taken. -/
def ServeH2.Done (c : ServeH2) : Prop := Spent c.holder.stream ∧ c.holder.stream.scanner.sent = 0

theorem readAll_keeps (c : ServeH2) (reads : List Nat) :
    (c.readAll reads).ended = c.ended ∧ (c.readAll reads).primed = c.primed ∧
      (c.readAll reads).holder.taken = c.holder.taken := by
  refine ⟨rfl, rfl, ?_⟩
  unfold ServeH2.readAll
  simp only
  generalize c.holder = o
  induction reads generalizing o with
  | nil => rfl
  | cons cap reads ih => exact ih _

theorem readAll_potential (c : ServeH2) (reads : List Nat) :
    potential (c.readAll reads).holder.stream ≤ potential c.holder.stream := by
  unfold ServeH2.readAll
  simp only
  generalize c.holder = o
  induction reads generalizing o with
  | nil => exact le_rfl
  | cons cap reads ih => exact (ih _).trans (pollRead_potential o.stream cap).1

theorem readAll_spent {c : ServeH2} (h : Spent c.holder.stream) (reads : List Nat) :
    (c.readAll reads).holder.stream = c.holder.stream := by
  unfold ServeH2.readAll
  simp only
  generalize c.holder = o at h
  induction reads generalizing o with
  | nil => rfl
  | cons cap reads ih =>
    have hsame : (o.step (.read (.pollRead cap))).stream = o.stream := pollRead_spent h cap
    rw [List.map_cons, Runs.exec_cons, ih _ (hsame ▸ h), hsame]

theorem primeBlocks_all {primes : List UInt8 → Bool} (h : ∀ block, primes block = true)
    (blocks : List (List UInt8)) : primeBlocks primes blocks = (blocks, true) := by
  induction blocks with
  | nil => rfl
  | cons block blocks ih => simp [primeBlocks, h block, ih]

variable {stream : List SocketRead} {c : ServeH2} {t : Turn}

/-- A turn with a responsive codec comes down to its reads, behind both takes. -/
theorem poll_responsive (hc : c.ended = false) (ht : t.Responsive) :
    c.poll t = ((c.takeFlow t).takeSync t).readAll t.reads ∧ (c.takeFlow t).ended = false ∧
      ((c.takeFlow t).takeSync t).ended = false := by
  have hflow : (c.takeFlow t).ended = false := by
    rw [ServeH2.takeFlow, ServeH2.consume]
    split
    · rw [ht.consumes]
      rfl
    · exact hc
  have hsync : ((c.takeFlow t).takeSync t).ended = false := by
    rw [ServeH2.takeSync, primeBlocks_all ht.primes]
    rfl
  refine ⟨?_, hflow, hsync⟩
  rw [ServeH2.poll, if_neg (by rw [hc]; decide)]
  simp only [hflow, hsync, Bool.false_eq_true, if_false]

theorem takes_eq (c : ServeH2) (ht : t.Responsive) :
    let c' := (c.takeFlow t).takeSync t
    c'.holder.stream = { c.holder.stream with
        scanner := { c.holder.stream.scanner with sent := 0, blocks := [] } } ∧
      c'.primed = c.primed ++ c.holder.stream.scanner.blocks ∧
      c'.holder.taken.map Taken.block =
        c.holder.taken.map Taken.block ++ c.holder.stream.scanner.blocks := by
  have hholder : (c.takeFlow t).holder = c.holder.step .takeFlow := consume_holder _ _ _
  have hprimed : (c.takeFlow t).primed = c.primed := by
    rw [ServeH2.takeFlow, ServeH2.consume]
    split <;> rfl
  simp only [ServeH2.takeSync, primeBlocks_all ht.primes, hholder, hprimed]
  refine ⟨rfl, rfl, ?_⟩
  simp [Holder.step, Reader.step, Scanner.takeSync, Scanner.takeFlow, Function.comp_def]

theorem poll_sound (hc : c.Sound stream) (ht : t.Responsive) : (c.poll t).Sound stream := by
  obtain ⟨hpoll, -, hsync⟩ := poll_responsive hc.runs ht
  obtain ⟨-, htried, htook⟩ := takes_eq c ht
  obtain ⟨hended, hprimed, htaken⟩ := readAll_keeps ((c.takeFlow t).takeSync t) t.reads
  refine ⟨poll_accounts hc.accounts t, ?_, ?_⟩
  · rw [hpoll, hprimed, htaken, htried, htook, hc.primed]
  · rw [hpoll, hended, hsync]

/-- A turn leaves less to do, or nothing. -/
theorem poll_potential (hc : c.ended = false) (ht : t.Responsive) :
    (c.poll t).Done ∨ (c.poll t).toDo < c.toDo := by
  obtain ⟨hpoll, -, -⟩ := poll_responsive hc ht
  obtain ⟨htakes, -, -⟩ := takes_eq c ht
  rw [hpoll, ServeH2.toDo, ServeH2.toDo]
  generalize (c.takeFlow t).takeSync t = c' at htakes
  -- what is taken no longer counts
  have hless : potential c'.holder.stream + c.holder.stream.scanner.blocks.length +
      (if c.holder.stream.scanner.sent = 0 then 0 else 1) = potential c.holder.stream := by
    simp only [potential, toCome, htakes, List.length_nil, if_true]
    omega
  have hblocks : c'.holder.stream.scanner.blocks = [] := by rw [htakes]
  have hsent : c'.holder.stream.scanner.sent = 0 := by rw [htakes]
  -- the first read gets on, and the others undo nothing
  obtain ⟨cap, reads, hreads⟩ := List.exists_cons_of_ne_nil ht.reads
  have hcap : 0 < cap := ht.room cap (by rw [hreads]; exact List.mem_cons_self)
  have hsplit : c'.readAll t.reads = (c'.readAll [cap]).readAll reads := by rw [hreads]; rfl
  have hfirst : GetsOn c'.holder.stream (c'.readAll [cap]).holder.stream :=
    (pollRead_potential c'.holder.stream cap).2 hcap hblocks
  rw [hsplit]
  rcases hfirst with hlt | ⟨hspent, hsame⟩
  · have hrest := readAll_potential (c'.readAll [cap]) reads
    right
    omega
  · left
    have hstream := readAll_spent hspent reads
    exact ⟨by rw [hstream]; exact hspent, by rw [hstream, hsame, hsent]⟩

theorem poll_done (hc : c.ended = false) (ht : t.Responsive) (hd : c.Done) : (c.poll t).Done := by
  obtain ⟨hpoll, -, -⟩ := poll_responsive hc ht
  obtain ⟨htakes, -, -⟩ := takes_eq c ht
  obtain ⟨⟨hinner, hout, hhold, hblocks⟩, hsent⟩ := hd
  rw [hpoll]
  generalize (c.takeFlow t).takeSync t = c' at htakes
  have hspent : Spent c'.holder.stream := by
    rw [htakes]
    exact ⟨hinner, hout, hhold, rfl⟩
  have hstream := readAll_spent hspent t.reads
  exact ⟨by rw [hstream]; exact hspent, by rw [hstream, htakes]⟩

theorem start_sound (stream : List SocketRead) (reads : List Nat) :
    (ServeH2.start stream reads).Sound stream ∧
      (ServeH2.start stream reads).toDo ≤
        2 * (eventsOf (streamOf stream)).length + stream.length := by
  have htaken : (ServeH2.start stream reads).holder.taken = [] := (readAll_keeps _ reads).2.2
  refine ⟨⟨start_accounts stream reads, ?_, rfl⟩, ?_⟩
  · rw [htaken]
    rfl
  · have hread := readAll_potential
      { holder := .start stream, consumed := [], primed := [], ended := false } reads
    have hnew : potential (Holder.start stream).stream ≤ potential ⟨stream, .new⟩ :=
      protocolLoop_potential .new stream fun _ ↦ ⟨rfl, rfl⟩
    exact (hread.trans hnew).trans (by simp [potential, toCome, eventsOf, Scanner.new])

/-- Once there is nothing left to do, everything has been handed on. -/
theorem done_all (hsound : c.Sound stream) (hdone : c.Done) :
    c.ended = false ∧ c.holder.handed = passed (eventsOf (streamOf stream)) ∧
      c.primed = updates (eventsOf (streamOf stream)) ∧
      c.consumed.sum = reported (eventsOf (streamOf stream)) := by
  obtain ⟨⟨es₀, es₁, h, hconsumed, -⟩, hprimed, hruns⟩ := hsound
  obtain ⟨⟨hinner, hout, hhold, hblocks⟩, hsent⟩ := hdone
  have hevents : eventsOf (streamOf stream) = es₀ ++ es₁ := by
    rw [eventsOf, h.run.run, hinner, hhold]
    exact List.append_nil _
  refine ⟨hruns, ?_, ?_, ?_⟩
  · rw [hevents, h.run.handed, hout, List.append_nil]
  · rw [hevents, hprimed, h.run.taken, hblocks, List.append_nil]
  · rw [hevents, reported_append, ← h.sent, hsent, UInt32.add_zero, hconsumed]

/-- With a codec that takes what it is given and reads, the loop comes to the end of the stream. -/
theorem run_done (stream : List SocketRead) (reads : List Nat) {turns : List Turn}
    (hresp : ∀ t ∈ turns, t.Responsive)
    (hmany : 2 * (eventsOf (streamOf stream)).length + stream.length < turns.length) :
    let c := Runs.exec ServeH2.poll (.start stream reads) turns
    c.Sound stream ∧ c.Done := by
  intro c
  obtain ⟨hstart, hpotential⟩ := start_sound stream reads
  have hall : Runs.Along ServeH2.poll (fun _ t ↦ t.Responsive) (.start stream reads) turns :=
    Runs.Along.of_forall_mem (fun t ht _ ↦ hresp t ht) _
  have hstep (c : ServeH2) (t : Turn) (hc : c.Sound stream) (ht : t.Responsive) :
      (c.poll t).Sound stream := poll_sound hc ht
  have hsound : c.Sound stream := hall.preserves hstep hstart
  have hless (c : ServeH2) (t : Turn) (hc : c.Sound stream) (ht : t.Responsive) :
      (c.poll t).Done ∨ (c.poll t).toDo < c.toDo := poll_potential hc.runs ht
  -- each turn leaves less to do, and there are more turns than there is to do
  have hdone : c.Done :=
    hall.reaches hstep (fun _ _ hc ht ↦ poll_done hc.runs ht) hless hstart
      (Nat.lt_of_le_of_lt hpotential hmany)
  exact ⟨hsound, hdone⟩

end HyperFastPath.Server
