import HyperFastPath.Listener.Reader

/-!
# The two handles

Whoever holds the `SyncHandle` and the `FlowHandle` of a stream reads from it, takes updates and
takes what was reported, in any order.
-/

namespace HyperFastPath.Listener

/-- The reports, each of them. -/
def counts (es : List Event) : List UInt32 := es.filterMap Event.flow?

@[simp] theorem counts_append (es fs : List Event) : counts (es ++ fs) = counts es ++ counts fs :=
  List.filterMap_append

@[simp] theorem counts_bytes (bs : List UInt8) : counts (bs.map .byte) = [] := by
  induction bs with
  | nil => rfl
  | cons b bs ih => exact ih

theorem reported_eq_sum (es : List Event) : reported es = (counts es).sum := rfl

/-- A reader that has also called `FlowHandle::take`, which has answered `counts` so far. -/
structure Holder extends Reader where
  counts : List UInt32
  deriving DecidableEq

inductive HolderOp where
  | read (op : ReaderOp)
  | takeFlow
  deriving DecidableEq, Repr

def Holder.start (reads : List SocketRead) : Holder := { Reader.start reads with counts := [] }

def Holder.step (o : Holder) : HolderOp → Holder
  | .read op => { o with toReader := o.toReader.step op }
  | .takeFlow =>
    { o with
      stream := { o.stream with scanner := o.stream.scanner.takeFlow.2 }
      counts := o.counts ++ [o.stream.scanner.takeFlow.1] }

/-- What has been handed to the `SyncHandle`. -/
def Holder.delivered (o : Holder) : List (List UInt8) :=
  o.taken.map Taken.block ++ o.stream.scanner.blocks

/-- What has been added to the `FlowHandle`. -/
def Holder.added (o : Holder) : UInt32 := o.counts.sum + o.stream.scanner.sent

/-- The stream has come past the events `es₀` and `es₁`, and the last take of the `FlowHandle` was
between them. -/
structure Holder.Tracks (reads : List SocketRead) (o : Holder) (es₀ es₁ : List Event) : Prop where
  run : o.stream.Tracks (streamOf reads) o.handed (o.taken.map Taken.block) (es₀ ++ es₁)
  counts : o.counts.sum = reported es₀
  sent : o.stream.scanner.sent = reported es₁

variable {reads : List SocketRead} {o : Holder} {es₀ es₁ : List Event}

theorem holder_start (reads : List SocketRead) :
    ∃ es, (Holder.start reads).Tracks reads [] es := by
  have hnew : BeeperStream.Tracks ⟨reads, .new⟩ (streamOf reads) [] [] [] :=
    ⟨by rw [List.nil_append]; rfl, rfl, rfl, .inl rfl⟩
  obtain ⟨es, h, hsent⟩ := protocolLoop_tracks hnew fun _ ↦ ⟨rfl, rfl⟩
  exact ⟨es, h, rfl, hsent.trans (UInt32.zero_add _)⟩

theorem Holder.Tracks.pollRead (h : o.Tracks reads es₀ es₁) (cap : Nat) :
    ∃ es, (o.step (.read (.pollRead cap))).Tracks reads es₀ (es₁ ++ es) := by
  obtain ⟨es, hrun, hsent⟩ := pollRead_tracks h.run cap
  refine ⟨es, by rwa [← List.append_assoc], h.counts, ?_⟩
  rw [reported_append, ← h.sent]
  exact hsent

theorem Holder.Tracks.takeSync (h : o.Tracks reads es₀ es₁) :
    (o.step (.read .takeSync)).Tracks reads es₀ es₁ := by
  have htaken := takeSync_tracks h.run
  refine ⟨?_, h.counts, h.sent⟩
  simpa [Holder.step, Reader.step, Function.comp_def] using htaken

theorem Holder.Tracks.takeFlow (h : o.Tracks reads es₀ es₁) :
    (o.step .takeFlow).Tracks reads (es₀ ++ es₁) [] where
  run := by
    have hrun := h.run
    exact ⟨by rw [List.append_nil]; exact hrun.run, by rw [List.append_nil]; exact hrun.handed,
      by rw [List.append_nil]; exact hrun.taken, by rw [List.append_nil]; exact hrun.waiting⟩
  counts := by
    show (o.counts ++ [o.stream.scanner.sent]).sum = _
    rw [List.sum_append, h.counts, h.sent, reported_append, List.sum_singleton]
  sent := rfl

theorem Holder.Tracks.step (h : o.Tracks reads es₀ es₁) (op : HolderOp) :
    ∃ es₀ es₁, (o.step op).Tracks reads es₀ es₁ := by
  cases op with
  | read op =>
    cases op with
    | pollRead cap =>
      obtain ⟨es, h'⟩ := h.pollRead cap
      exact ⟨es₀, es₁ ++ es, h'⟩
    | takeSync => exact ⟨es₀, es₁, h.takeSync⟩
  | takeFlow => exact ⟨es₀ ++ es₁, [], h.takeFlow⟩

theorem holder_tracks (reads : List SocketRead) (ops : List HolderOp) :
    ∃ es₀ es₁, (Runs.exec Holder.step (Holder.start reads) ops).Tracks reads es₀ es₁ := by
  obtain ⟨es, hstart⟩ := holder_start reads
  have hstep (o : Holder) (op : HolderOp) (ho : ∃ es₀ es₁, o.Tracks reads es₀ es₁) :
      ∃ es₀ es₁, (o.step op).Tracks reads es₀ es₁ := by
    obtain ⟨es₀, es₁, h⟩ := ho
    exact h.step op
  exact Runs.exec_preserves hstep ⟨[], es, hstart⟩ ops

/-- However the stream is read, the handles have got the filter's events up to some point of it,
and all of them once there is nothing left to scan. -/
theorem holder_events (reads : List SocketRead) (ops : List HolderOp) :
    let o := Runs.exec Holder.step (Holder.start reads) ops
    ∃ es rest, eventsOf (streamOf reads) = es ++ rest ∧ o.delivered = updates es ∧
      o.added = reported es ∧ (o.stream.inner = [] → o.stream.scanner.hold = [] → rest = []) := by
  intro o
  obtain ⟨es₀, es₁, h⟩ := holder_tracks reads ops
  refine ⟨es₀ ++ es₁, _, by rw [eventsOf, h.run.run], h.run.taken.symm, ?_, fun hi hh ↦ ?_⟩
  · rw [Holder.added, h.counts, h.sent, reported_append]
  · rw [hi, hh]
    rfl

end HyperFastPath.Listener
