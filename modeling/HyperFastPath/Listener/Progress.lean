import HyperFastPath.Listener.Reader

/-!
# Reading gets on

What a stream has still to come past, and that reading leaves less of it as long as no update is in
the way.
-/

namespace HyperFastPath.Listener

/-! ## 1. What is left to do -/

/-- What the filter has still to come past. -/
def toCome (s : BeeperStream) : List Event :=
  (walk s.scanner.state (s.scanner.hold ++ streamOf s.inner)).2

/-- An event counts until it has been scanned and until it has been passed on, and a read until it
has been made. -/
def potential (s : BeeperStream) : Nat :=
  2 * (toCome s).length + s.scanner.out.length + s.scanner.blocks.length +
    (if s.scanner.sent = 0 then 0 else 1) + s.inner.length

/-- There is nothing left but the end of the stream. -/
structure Spent (s : BeeperStream) : Prop where
  inner : s.inner = []
  out : s.scanner.out = []
  hold : s.scanner.hold = []
  blocks : s.scanner.blocks = []

theorem passed_updates_length (es : List Event) :
    (passed es).length + (updates es).length + (if reported es = 0 then 0 else 1) ≤ es.length := by
  induction es with
  | nil => simp
  | cons e es ih =>
    cases e with
    | byte b =>
      show (passed es).length + 1 + (updates es).length + (if reported es = 0 then 0 else 1) ≤ _
      rw [List.length_cons]
      omega
    | sync block =>
      show (passed es).length + ((updates es).length + 1) + (if reported es = 0 then 0 else 1) ≤ _
      rw [List.length_cons]
      omega
    | flow n =>
      show (passed es).length + (updates es).length + _ ≤ _
      rw [List.length_cons]
      split <;> omega

/-- A scan uses up what it comes past, and more than that if it comes upon an update or a report. -/
theorem scan_potential (scanner : Scanner) (inner : List SocketRead) (input : List UInt8)
    (hb : scanner.blocks = []) (hh : scanner.hold = []) :
    potential ⟨inner, scanner.scan input⟩ + (scanner.scan input).blocks.length +
        (if (scanner.scan input).sent = scanner.sent then 0 else 1) ≤
      2 * (walk scanner.state (input ++ streamOf inner)).2.length + scanner.out.length +
        (if scanner.sent = 0 then 0 else 1) + inner.length := by
  have hp : scanner.isPending = false := by simp [Scanner.isPending, hb]
  obtain ⟨es, h⟩ := scan_scans hp hh input
  -- an event counts twice until it has been scanned, and once from then on
  have hcount := passed_updates_length es
  have hrun : (walk scanner.state (input ++ streamOf inner)).2 =
      es ++ toCome ⟨inner, scanner.scan input⟩ := by
    rw [toCome, walk_append, h.run, walk_append, List.append_assoc]
  simp only [potential, hrun, h.out, h.blocks, h.sent, hb, List.nil_append, List.length_append,
    UInt32.add_eq_left]
  by_cases hreport : reported es = 0
  · rw [hreport, UInt32.add_zero, if_pos rfl]
    omega
  · rw [if_neg hreport] at hcount ⊢
    split <;> split <;> omega

/-- Reading leaves less to do, or ends at the end of the stream with nothing further reported. -/
def GetsOn (s s' : BeeperStream) : Prop :=
  potential s' < potential s ∨ Spent s' ∧ s'.scanner.sent = s.scanner.sent

theorem getsOn_scan {s s₁ s' : BeeperStream}
    (hscan : potential s₁ + s₁.scanner.blocks.length +
      (if s₁.scanner.sent = s.scanner.sent then 0 else 1) ≤ potential s)
    (hle : potential s' ≤ potential s₁) (hrest : s₁.scanner.blocks = [] → GetsOn s₁ s') :
    GetsOn s s' := by
  by_cases hb : s₁.scanner.blocks = []
  swap
  · -- the scan has come upon an update
    have hpos := List.length_pos_iff.mpr hb
    left
    omega
  rcases hrest hb with hlt | ⟨hspent, hsent⟩
  · left
    omega
  · by_cases hsame : s₁.scanner.sent = s.scanner.sent
    · exact .inr ⟨hspent, hsent.trans hsame⟩
    · rw [if_neg hsame] at hscan
      left
      omega

/-- Reading never leaves more to do, and reading on where no update is in the way gets on. -/
theorem pollRead_potential (s : BeeperStream) (cap : Nat) :
    potential (s.pollRead cap).2.2 ≤ potential s ∧
      (0 < cap → s.scanner.blocks = [] → GetsOn s (s.pollRead cap).2.2) := by
  -- along the branches of the loop: only those that go around again use the hypothesis
  fun_induction BeeperStream.pollRead s cap with
  | case1 s hout =>
    have hpos := List.length_pos_iff.mpr hout
    simp only [potential, toCome, GetsOn, List.length_drop]
    omega
  | case2 s hout hp =>
    refine ⟨le_rfl, fun _ hb ↦ ?_⟩
    simp [Scanner.isPending, hb] at hp
  | case3 s hout hp hh ih =>
    have hb : s.scanner.blocks = [] := by simpa [Scanner.isPending] using hp
    have hscan := scan_potential { s.scanner with hold := [] } s.inner s.scanner.hold hb rfl
    have hbefore : potential s = 2 * (toCome s).length + s.scanner.out.length +
        (if s.scanner.sent = 0 then 0 else 1) + s.inner.length := by
      rw [potential, hb, List.length_nil, Nat.add_zero]
    change _ ≤ 2 * (toCome s).length + s.scanner.out.length +
      (if s.scanner.sent = 0 then 0 else 1) + s.inner.length at hscan
    rw [← hbefore] at hscan
    exact ⟨by omega, fun hcap _ ↦ getsOn_scan hscan ih.1 (ih.2 hcap)⟩
  | case4 s hout hp hh hi =>
    exact ⟨le_rfl, fun _ hb ↦ .inr ⟨⟨hi, not_not.mp hout, not_not.mp hh, hb⟩, rfl⟩⟩
  | case5 s hout hp hh inner hi =>
    simp only [potential, toCome, GetsOn, hi, streamOf_pending, List.length_cons]
    omega
  | case6 s hout hp hh inner hi =>
    simp only [potential, toCome, GetsOn, hi, streamOf_failed, List.length_cons]
    omega
  | case7 s hout hp hh chunk inner hi ih =>
    have hb : s.scanner.blocks = [] := by simpa [Scanner.isPending] using hp
    have hscan := scan_potential s.scanner inner chunk.1 hb (not_not.mp hh)
    have hbefore : potential s = 2 * (walk s.scanner.state (chunk.1 ++ streamOf inner)).2.length +
        s.scanner.out.length + (if s.scanner.sent = 0 then 0 else 1) + (inner.length + 1) := by
      rw [potential, toCome, hb, hi, not_not.mp hh, streamOf_data, List.nil_append,
        List.length_cons, List.length_nil, Nat.add_zero]
    have hless : potential ⟨inner, s.scanner.scan chunk.1⟩ +
        (s.scanner.scan chunk.1).blocks.length +
        (if (s.scanner.scan chunk.1).sent = s.scanner.sent then 0 else 1) ≤ potential s := by
      omega
    exact ⟨by omega, fun hcap _ ↦ getsOn_scan hless ih.1 (ih.2 hcap)⟩

theorem pollRead_spent {s : BeeperStream} (h : Spent s) (cap : Nat) :
    (s.pollRead cap).2.2 = s := by
  obtain ⟨inner, scanner⟩ := s
  obtain ⟨hinner, hout, hhold, hblocks⟩ := h
  obtain rfl : inner = [] := hinner
  have hp : scanner.isPending = false := by
    rw [Scanner.isPending, show scanner.blocks = [] from hblocks]
    rfl
  rw [BeeperStream.pollRead, if_neg (not_not.mpr hout), if_neg (ne_true_of_eq_false hp),
    if_neg (not_not.mpr hhold)]

theorem protocolLoop_potential (scanner : Scanner) (inner : List SocketRead)
    (hclear : scanner.state.protocol? = none → scanner.isPending = false ∧ scanner.hold = []) :
    potential (protocolLoop scanner inner).2 ≤ potential ⟨inner, scanner⟩ := by
  -- along the reads it takes to know the protocol
  fun_induction protocolLoop scanner inner with
  | case1 scanner => exact le_rfl
  | case2 scanner read inner p hs => exact le_rfl
  | case3 scanner inner hs chunk ih =>
    obtain ⟨hp, hh⟩ := hclear hs
    have hb : scanner.blocks = [] := by simpa [Scanner.isPending] using hp
    have hscan := scan_potential scanner inner chunk.1 hb hh
    have hrest := ih fun hs' ↦ scan_preface hp hh hs'
    simp only [potential, toCome, hb, hh, streamOf_data, List.nil_append, List.length_nil,
      List.length_cons] at hscan hrest ⊢
    omega
  | case4 scanner inner hs ih =>
    have hrest := ih hclear
    simp only [potential, toCome, streamOf_pending, List.length_cons] at hrest ⊢
    omega
  | case5 scanner inner hs =>
    simp only [potential, toCome, streamOf_failed, List.length_cons]
    omega

/-! ## 2. Readers -/

/-- From wherever a reader is, there is a way on to the end of the stream. -/
theorem reader_finishes (r : Reader) : ∃ ops, Spent (Runs.exec Reader.step r ops).stream := by
  induction hn : potential r.stream using Nat.strongRecOn generalizing r with
  | ind n ih =>
    -- a read behind a take gets on
    have htake : potential (r.step .takeSync).stream ≤ n := by
      rw [← hn]
      show 2 * (toCome r.stream).length + r.stream.scanner.out.length + 0 +
        (if r.stream.scanner.sent = 0 then 0 else 1) + r.stream.inner.length ≤ potential r.stream
      rw [potential]
      omega
    rcases (pollRead_potential (r.step .takeSync).stream 1).2 Nat.one_pos rfl with
      hless | ⟨hspent, -⟩
    · obtain ⟨ops, hops⟩ := ih _ (hless.trans_le htake)
        ((r.step .takeSync).step (.pollRead 1)) rfl
      exact ⟨.takeSync :: .pollRead 1 :: ops, hops⟩
    · exact ⟨[.takeSync, .pollRead 1], hspent⟩

end HyperFastPath.Listener
