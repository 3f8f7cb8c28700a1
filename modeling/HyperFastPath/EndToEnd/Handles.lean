import HyperFastPath.EndToEnd.UserSpace
import HyperFastPath.FastPath.Conserved
import HyperFastPath.Listener.Handles

/-!
# What comes out of the handles

The scanner over all that is handed to user space: the frames the fast path puts ahead of a message
are found where it has put them, as long as it only acts between two frames of the client.
-/

namespace HyperFastPath.EndToEnd

open Bytes Http2 FastPath Listener

variable {lim : Limits} {cfg : Routes} {fs : List Frame} {p : Pipe} {a : Act}

/-! ## 1. The scanner and a client's frames -/

/-- Position `n` of the client's stream lies behind the preface and between two frames. -/
def BetweenFrames (fs : List Frame) (n : Nat) : Prop :=
  ∃ k, k ≤ fs.length ∧ (Listener.clientStream (fs.take k)).length = n

instance (fs : List Frame) (n : Nat) : Decidable (BetweenFrames fs n) :=
  inferInstanceAs (Decidable (∃ k, k ≤ fs.length ∧ _))

/-- The scanner after all of `bytes`. -/
def placeOf (bytes : List UInt8) : State := (walk Scanner.new.state bytes).1

theorem placeOf_append (as bs : List UInt8) : placeOf (as ++ bs) = (walk (placeOf as) bs).1 := by
  rw [placeOf, walk_append]
  rfl

theorem eventsOf_append (as bs : List UInt8) :
    eventsOf (as ++ bs) = eventsOf as ++ (walk (placeOf as) bs).2 := by
  rw [eventsOf, walk_append]
  rfl

/-- Settling hands nothing on. -/
theorem passed_settle (st : State) : passed st.settle.2 = [] := by
  cases st with
  | payload r => cases r <;> rfl
  | sync block r => cases r <;> rfl
  | _ => rfl

/-- Behind whole frames the scanner waits for a header. -/
theorem placeOf_clientStream (hfs : ∀ f ∈ fs, Accepted f) :
    (placeOf (Listener.clientStream fs)).settle.1 = .atHeader := by
  rw [placeOf, Listener.clientStream, walk_preface_full, (walk_frames hfs).1]

theorem placeOf_between (hfs : ∀ f ∈ fs, Accepted f) {bytes : List UInt8}
    (hbytes : bytes <+: Listener.clientStream fs) (hlen : BetweenFrames fs bytes.length) :
    (placeOf bytes).settle.1 = .atHeader := by
  obtain ⟨k, hk, hlen⟩ := hlen
  have hfront : Listener.clientStream (fs.take k) <+: Listener.clientStream fs := by
    refine ⟨encodeAll (fs.drop k), ?_⟩
    rw [Listener.clientStream, Listener.clientStream, List.append_assoc, ← encodeAll_append,
      List.take_append_drop]
  have heq : bytes = Listener.clientStream (fs.take k) :=
    (List.prefix_of_prefix_length_le hbytes hfront hlen.ge).eq_of_length hlen.symm
  rw [heq]
  exact placeOf_clientStream fun f hf ↦ hfs f (List.mem_of_mem_take hf)

/-! ## 2. What is put ahead of a message -/

/-- What the filter makes of the frames ahead of a message. -/
def frontEvents (f : Front) : List Event := f.report.toList.map .flow ++ f.block.toList.map .sync

theorem front_frames {f : Front} (hblock : ∀ b ∈ f.block, b.length ≤ maxSyncFrame) :
    ∃ gs, f.bytes = encodeAll gs ∧ (∀ g ∈ gs, Accepted g) ∧
      gs.flatMap frameEvents = frontEvents f := by
  obtain ⟨report, block⟩ := f
  obtain ⟨rs, hr, hracc, hrev⟩ := report_frames report
  obtain ⟨us, hu, huacc, huev⟩ := update_frames hblock
  refine ⟨rs ++ us, ?_, ?_, ?_⟩
  · rw [Front.bytes, hr, hu, encodeAll_append]
  · intro g hg
    rcases List.mem_append.mp hg with hg | hg
    · exact hracc g hg
    · exact huacc g hg
  · rw [List.flatMap_append, hrev, huev, frontEvents]

theorem walk_frames_append {st : State} (hst : st.settle.1 = .atHeader) {gs : List Frame}
    (hgs : ∀ g ∈ gs, Accepted g) {bs : List UInt8} (hne : bs ≠ []) :
    walk st (encodeAll gs ++ bs) = ((walk .atHeader bs).1,
      st.settle.2 ++ gs.flatMap frameEvents ++ (walk .atHeader bs).2) := by
  obtain ⟨hset, hev⟩ := walk_frames hgs
  have hset₁ : (walk .atHeader (encodeAll gs)).1.settle.1 = .atHeader := by rw [hset]
  rw [walk_settle st (List.append_ne_nil_of_right_ne_nil _ hne), hst, walk_append,
    walk_settle _ hne, hset₁, ← hev]
  simp only [List.append_assoc]

/-- A stretch as the scanner sees it: the frames ahead of it, and then what the client has sent. -/
theorem walk_stretch {st : State} {s : Stretch} (hanswer : s.answer = none) (hne : s.bytes ≠ [])
    (hblock : ∀ b ∈ s.front.block, b.length ≤ maxSyncFrame)
    (hfront : s.front ≠ .none → st.settle.1 = .atHeader) :
    walk st s.toUser = ((walk st.settle.1 s.bytes).1,
      st.settle.2 ++ frontEvents s.front ++ (walk st.settle.1 s.bytes).2) := by
  rw [Stretch.toUser, hanswer]
  by_cases hnone : s.front = .none
  · rw [hnone]
    show walk st s.bytes = _
    rw [walk_settle st hne]
    simp [frontEvents, Front.none]
  · obtain ⟨gs, hbytes, hacc, hevents⟩ := front_frames hblock
    show walk st (s.front.bytes ++ s.bytes) = _
    rw [hbytes, walk_frames_append (hfront hnone) hacc hne, hevents, hfront hnone]

/-! ## 3. Acting between frames -/

/-- Requests are answered, and frames put ahead of messages, between two of the client's frames
only. -/
def ActsBetween (fs : List Frame) (cfg : Routes) (p : Pipe) : Act → Prop
  | .send _ => True
  | .run h ans => p.Pending → ¬ SeesPreface ans p.conn →
      if Serves cfg h ans p.conn p.buf then
        BetweenFrames fs p.consumed.length ∧
          BetweenFrames fs (p.consumed.length + (parse h ans p.conn).msgLen.toNat)
      else frontOf h ans p.conn ≠ .none → BetweenFrames fs p.consumed.length

instance (p : Pipe) : (a : Act) → Decidable (FillsReports p a)
  | .send _ => isTrue trivial
  | .run _ _ => inferInstanceAs (Decidable (_ → _))

instance (fs : List Frame) (cfg : Routes) (p : Pipe) : (a : Act) → Decidable (ActsBetween fs cfg p a)
  | .send _ => isTrue trivial
  | .run _ _ => inferInstanceAs (Decidable (_ → _ → _))

/-- What a step disposes of. -/
inductive Disposes (fs : List Frame) (p : Pipe) : List Stretch → Prop
  | nothing : Disposes fs p []
  | answered {s : Stretch} (hanswer : s.answer ≠ none) (hfront : s.front = .none)
      (hstart : BetweenFrames fs p.consumed.length)
      (hend : BetweenFrames fs (p.consumed.length + s.bytes.length)) : Disposes fs p [s]
  | forwarded {s : Stretch} (hanswer : s.answer = none) (hne : s.bytes ≠ [])
      (hblock : ∀ b ∈ s.front.block, b.length ≤ maxSyncFrame)
      (hfront : s.front ≠ .none → BetweenFrames fs p.consumed.length) : Disposes fs p [s]

theorem frontOf_block_le {h : Helpers} {ans : Answers} (hsync : Syncs lim h ans p.conn) :
    ∀ b ∈ (frontOf h ans p.conn).block, b.length ≤ maxSyncFrame := by
  intro b hb
  simp only [frontOf] at hb
  split at hb
  swap
  · cases hb
  rename_i hc
  cases hb
  have hwire := (hsync (syncPrefix_ne_nil_iff.mpr hc)).1.2
  have hbody := lim.maxSyncBody_le
  rw [syncBlock_length]
  simp only [maxSyncBuf, maxSyncFrame] at hbody ⊢
  omega

theorem step_disposes (hreg : p.Regular) (hacts : ActsBetween fs cfg p a) :
    Disposes fs p (p.disposes lim cfg a) := by
  cases a with
  | send m =>
    rw [Pipe.disposes]
    split
    · rename_i hc
      refine .forwarded rfl ?_ (by simp [Front.none]) fun hne ↦ absurd rfl hne
      have hpos := List.length_pos_iff.mpr m.2.1
      have hmin : 0 < min p.left m.1.length := by omega
      exact List.ne_nil_of_length_pos (by rw [List.length_take]; omega)
    · exact .nothing
  | run h ans =>
    by_cases hp : p.Pending
    swap
    · rw [Pipe.disposes, if_neg fun hc ↦ hp hc.1]
      exact .nothing
    have hrun := run_settles lim cfg h ans hp hreg.bounded
    have hbetween := hacts hp
    simp only [Pipe.disposes, hp, true_and]
    generalize p.step lim cfg (.run h ans) = p' at hrun
    cases hrun with
    | dropped =>
      rw [if_neg (by simp)]
      exact .nothing
    | upgraded hnew =>
      rw [if_pos hp.1, runStretch, if_pos hnew]
      refine .forwarded rfl ?_ (by simp [Front.none]) fun hne ↦ absurd rfl hne
      simpa using hp.2
    | answered hnew hserves hroute =>
      rw [if_pos hp.1, runStretch, if_neg hnew, if_pos hserves]
      have hfit := (answeringRoute_suits hroute).2.2.1.2.2.2.2
      specialize hbetween hnew
      rw [if_pos hserves] at hbetween
      refine .answered (by simp) rfl hbetween.1 ?_
      rw [List.length_take, Nat.min_eq_left hfit]
      exact hbetween.2
    | forwarded _ _ hnew hdecl hsync =>
      rw [if_pos hp.1, runStretch, if_neg hnew, if_neg hdecl.not_serves]
      specialize hbetween hnew
      rw [if_neg hdecl.not_serves] at hbetween
      exact .forwarded rfl hp.2 (frontOf_block_le hsync) hbetween

/-- A stretch that goes to user space behind `xs`, as a part of the client's stream. -/
structure Fits (fs : List Frame) (xs : List Stretch) (s : Stretch) : Prop where
  ne : s.bytes ≠ []
  block : ∀ b ∈ s.front.block, b.length ≤ maxSyncFrame
  sent : xs.flatMap Stretch.bytes ++ s.bytes <+: Listener.clientStream fs
  place : (placeOf (xs.flatMap Stretch.toUser)).settle.1 =
    (placeOf (xs.flatMap Stretch.bytes)).settle.1
  front : s.front ≠ .none → (placeOf (xs.flatMap Stretch.toUser)).settle.1 = .atHeader

/-- The scanner stands in what was handed over where it would stand in all that was dealt with. -/
structure Dealt (fs : List Frame) (p : Pipe) (ss : List Stretch) : Prop where
  regular : p.Regular
  sent : p.sent <+: Listener.clientStream fs
  toUser : p.toUser = ss.flatMap Stretch.toUser
  consumed : p.consumed = ss.flatMap Stretch.bytes
  place : (placeOf p.toUser).settle.1 = (placeOf p.consumed).settle.1
  fits : ∀ xs s ys, ss = xs ++ s :: ys → if s.answer = none then Fits fs xs s else s.front = .none

theorem Dealt.new (fs : List Frame) : Dealt fs .new [] where
  regular := .new
  sent := List.nil_prefix
  toUser := rfl
  consumed := rfl
  place := rfl
  fits _ s ys h := absurd h.symm (List.append_ne_nil_of_right_ne_nil _ (List.cons_ne_nil s ys))

/-- What a list with one more entry can be split at. -/
theorem split_concat {β : Type*} {bs xs ys : List β} {b c : β} (h : bs ++ [b] = xs ++ c :: ys) :
    (xs = bs ∧ c = b) ∨ ∃ ys', bs = xs ++ c :: ys' := by
  cases ys using List.reverseRecOn with
  | nil =>
    obtain ⟨hxs, hc⟩ := List.append_inj' h rfl
    cases hc
    exact .inl ⟨hxs.symm, rfl⟩
  | append_singleton ys y =>
    rw [← List.cons_append, ← List.append_assoc] at h
    exact .inr ⟨ys, (List.append_inj' h rfl).1⟩

theorem Dealt.step {ss : List Stretch} (hfs : ∀ f ∈ fs, Accepted f) (h : Dealt fs p ss)
    (hsend : SendsFrom (Listener.clientStream fs) p a) (hacts : ActsBetween fs cfg p a)
    (hfill : FillsReports p a) :
    Dealt fs (p.step lim cfg a) (ss ++ p.disposes lim cfg a) := by
  have hacc := @step_accounts lim cfg p a h.regular hfill
  have hregular := @step_regular lim cfg p a h.regular
  have hsent : (p.step lim cfg a).sent <+: Listener.clientStream fs := by
    rw [step_sent lim cfg p a h.regular.bounded]
    cases a with
    | send m =>
      rw [Pipe.sends]
      split
      · exact hsend ‹_›
      · rw [List.append_nil]
        exact h.sent
    | run _ _ => simpa [Pipe.sends] using h.sent
  have hconsumed : (p.step lim cfg a).consumed <+: Listener.clientStream fs :=
    (List.prefix_append _ _).trans hsent
  have hbefore : p.consumed <+: Listener.clientStream fs := (List.prefix_append _ _).trans h.sent
  have hdisposes := @step_disposes lim cfg fs p a h.regular hacts
  generalize p.disposes lim cfg a = out at hacc hdisposes
  generalize p.step lim cfg a = p' at *
  obtain ⟨htoUser, -, hcons⟩ := hacc
  have htoUser' : p'.toUser = (ss ++ out).flatMap Stretch.toUser := by
    rw [htoUser, h.toUser, List.flatMap_append]
  have hcons' : p'.consumed = (ss ++ out).flatMap Stretch.bytes := by
    rw [hcons, h.consumed, List.flatMap_append]
  refine ⟨hregular, hsent, htoUser', hcons', ?_, ?_⟩
  · cases hdisposes with
    | nothing =>
      simp only [List.flatMap_nil, List.append_nil] at htoUser hcons
      rw [htoUser, hcons, h.place]
    | @answered s hanswer hfront hstart hend =>
      -- an answered stretch is a number of whole frames, so leaving it out changes nothing
      obtain ⟨answer, hanswer⟩ := Option.ne_none_iff_exists'.mp hanswer
      simp only [List.flatMap_cons, List.flatMap_nil, List.append_nil, Stretch.toUser, hanswer,
        Option.isNone_some, Bool.false_eq_true, if_false] at htoUser hcons
      rw [htoUser, h.place, placeOf_between hfs hbefore hstart, placeOf_between hfs hconsumed]
      rw [hcons, List.length_append]
      exact hend
    | @forwarded s hanswer hne hblock hfront =>
      simp only [List.flatMap_cons, List.flatMap_nil, List.append_nil] at htoUser hcons
      have hat : s.front ≠ .none → (placeOf p.toUser).settle.1 = .atHeader := fun hf ↦ by
        rw [h.place, placeOf_between hfs hbefore (hfront hf)]
      rw [htoUser, hcons, placeOf_append, placeOf_append, walk_stretch hanswer hne hblock hat,
        h.place, walk_settle (placeOf p.consumed) hne]
  · intro xs s ys hsplit
    cases hdisposes with
    | nothing =>
      rw [List.append_nil] at hsplit
      exact h.fits xs s ys hsplit
    | @answered s' hanswer hfront hstart hend =>
      rcases split_concat hsplit with ⟨rfl, rfl⟩ | ⟨ys', hss⟩
      · rw [if_neg hanswer]
        exact hfront
      · exact h.fits xs s ys' hss
    | @forwarded s' hanswer hne hblock hfront =>
      rcases split_concat hsplit with ⟨rfl, rfl⟩ | ⟨ys', hss⟩
      · rw [if_pos hanswer]
        have hplace := h.place
        rw [h.toUser, h.consumed] at hplace
        refine ⟨hne, hblock, ?_, hplace, fun hf ↦ ?_⟩
        · simpa [hcons'] using hconsumed
        · rw [hplace, ← h.consumed, placeOf_between hfs hbefore (hfront hf)]
      · exact h.fits xs s ys' hss

theorem run_dealt {acts : List Act} (hfs : ∀ f ∈ fs, Accepted f)
    (hclient : Runs.Along (Pipe.step lim cfg) (SendsFrom (Listener.clientStream fs)) .new acts)
    (hacts : Runs.Along (Pipe.step lim cfg) (fun p a ↦ ActsBetween fs cfg p a ∧ FillsReports p a)
      .new acts) :
    Dealt fs (Runs.exec (Pipe.step lim cfg) .new acts) (stretches lim cfg .new acts) := by
  have hboth := (Runs.Along.and _ _).mpr ⟨hclient, hacts⟩
  exact hboth.preserves_record (J := Dealt fs)
    (fun p a ss h ⟨hsend, hact, hfill⟩ ↦ h.step hfs hsend hact hfill) (.new fs)

/-! ## 4. Nothing but the fast path's own -/

theorem settle_bytes {st : State} {bs : List UInt8} (h : st.settle.2 = bs.map .byte) :
    st.settle.2 = [] := by
  cases st with
  | sync block r =>
    cases r with
    | zero => cases bs <;> cases h
    | succ r => rfl
  | payload r => cases r <;> rfl
  | _ => rfl

/-- Of what a client sends under types of its own, nothing is taken out. -/
theorem walk_foreign (hfs : ∀ f ∈ fs, Foreign f) {front bytes : List UInt8} (hne : bytes ≠ [])
    (hsent : front ++ bytes <+: Listener.clientStream fs) :
    (placeOf front).settle.2 = [] ∧ (placeOf (front ++ bytes)).settle.2 = [] ∧
      ∃ bs : List UInt8, (walk (placeOf front).settle.1 bytes).2 = bs.map .byte := by
  -- with one more frame there is something behind `bytes` for sure
  obtain ⟨rest, hrest⟩ := hsent
  let g : Frame := ⟨h2SettingsFrame, 0, 0, [], by decide⟩
  have hfs' : ∀ f ∈ fs ++ [g], Foreign f := by
    intro f hf
    rcases List.mem_append.mp hf with hf | hf
    · exact hfs f hf
    · rw [List.mem_singleton.mp hf]
      decide
  obtain ⟨-, hev⟩ := walk_frames fun f hf ↦ foreign_accepted (hfs' f hf)
  have hstream : Listener.clientStream (fs ++ [g]) = front ++ (bytes ++ (rest ++ g.encode)) := by
    rw [Listener.clientStream, encodeAll_append, ← List.append_assoc, ← Listener.clientStream,
      ← hrest]
    simp [List.append_assoc]
  have hall : ∃ bs : List UInt8, eventsOf (Listener.clientStream (fs ++ [g])) = bs.map .byte := by
    rw [foreign_events hfs'] at hev
    obtain ⟨bs, -, -, hbs, -⟩ := List.map_eq_append_iff.mp hev.symm
    refine ⟨preface ++ bs, ?_⟩
    rw [eventsOf, Listener.clientStream, walk_preface_full, ← hbs, List.map_append]
  obtain ⟨bs, hall⟩ := hall
  have hne' : rest ++ g.encode ≠ [] := List.append_ne_nil_of_right_ne_nil _ (encode_ne_nil g)
  rw [hstream, eventsOf_append, walk_append, ← placeOf_append, walk_settle _ hne,
    walk_settle (placeOf (front ++ bytes)) hne'] at hall
  obtain ⟨-, bs, -, -, hall⟩ := List.map_eq_append_iff.mp hall.symm
  obtain ⟨bs₁, bs₂, -, hbs₁, hbs₂⟩ := List.map_eq_append_iff.mp hall
  obtain ⟨bs₃, bs₄, -, hbs₃, hbs₄⟩ := List.map_eq_append_iff.mp hbs₁
  obtain ⟨bs₅, -, -, hbs₅, -⟩ := List.map_eq_append_iff.mp hbs₂
  exact ⟨settle_bytes hbs₃.symm, settle_bytes hbs₅.symm, bs₄, hbs₄.symm⟩

/-- The blocks put ahead of the messages of some stretches. -/
def blocksOf (ss : List Stretch) : List (List UInt8) := ss.filterMap (·.front.block)

/-- The counts put ahead of them. -/
def reportsOf (ss : List Stretch) : List UInt32 := ss.filterMap (·.front.report)

theorem updates_front (f : Front) : updates (frontEvents f) = f.block.toList := by
  obtain ⟨report, block⟩ := f
  cases report <;> cases block <;> rfl

theorem passed_front (f : Front) : passed (frontEvents f) = [] := by
  obtain ⟨report, block⟩ := f
  cases report <;> cases block <;> rfl

theorem counts_front (f : Front) : counts (frontEvents f) = f.report.toList := by
  obtain ⟨report, block⟩ := f
  cases report <;> cases block <;> rfl

theorem filterMap_concat {β γ : Type*} (f : β → Option γ) (bs : List β) (b : β) :
    (bs ++ [b]).filterMap f = bs.filterMap f ++ (f b).toList := by
  rw [List.filterMap_append]
  cases h : f b <;> simp [h]

theorem events_of_fits (hfs : ∀ f ∈ fs, Foreign f) {ss : List Stretch}
    (hfits : ∀ xs s ys, ss = xs ++ s :: ys → if s.answer = none then Fits fs xs s
      else s.front = .none) :
    updates (eventsOf (ss.flatMap Stretch.toUser)) = blocksOf ss ∧
      counts (eventsOf (ss.flatMap Stretch.toUser)) = reportsOf ss ∧
      (placeOf (ss.flatMap Stretch.toUser)).settle.2 = [] := by
  induction ss using List.reverseRecOn with
  | nil => exact ⟨rfl, rfl, rfl⟩
  | append_singleton ss s ih =>
    obtain ⟨hupdates, hcounts, hsettled⟩ := ih fun xs s' ys hsplit ↦
      hfits xs s' (ys ++ [s]) (by rw [hsplit, List.append_assoc, List.cons_append])
    have hs := hfits ss s [] rfl
    simp only [blocksOf, reportsOf, filterMap_concat, List.flatMap_append, List.flatMap_cons,
      List.flatMap_nil, List.append_nil] at hupdates hcounts ⊢
    by_cases hanswer : s.answer = none
    · rw [if_pos hanswer] at hs
      obtain ⟨-, hsettled', bs, hbs⟩ := walk_foreign hfs hs.ne hs.sent
      have hwalk := walk_stretch hanswer hs.ne hs.block hs.front
      -- what follows the frames ahead of it is the client's own
      rw [hsettled, List.nil_append, hs.place, hbs] at hwalk
      refine ⟨?_, ?_, ?_⟩
      · rw [eventsOf_append, hwalk, updates_append, updates_append, updates_bytes, List.append_nil,
          updates_front, hupdates]
      · rw [eventsOf_append, hwalk, counts_append, counts_append, counts_bytes, List.append_nil,
          counts_front, hcounts]
      · rw [placeOf_append, walk_settle _ hs.ne] at hsettled'
        rw [placeOf_append, hwalk]
        exact hsettled'
    · rw [if_neg hanswer] at hs
      obtain ⟨answer, hanswer⟩ := Option.ne_none_iff_exists'.mp hanswer
      simp only [Stretch.toUser, hanswer, Option.isNone_some, Bool.false_eq_true, if_false, hs,
        Front.none, Option.toList_none, List.append_nil]
      exact ⟨hupdates, hcounts, hsettled⟩

theorem isPrefix_events {stream whole : List UInt8} (h : stream <+: whole) :
    eventsOf stream <+: eventsOf whole := by
  obtain ⟨rest, rfl⟩ := h
  rw [eventsOf_append]
  exact List.prefix_append _ _

/-- As long as the client sends frames of its own types only and the fast path acts between them,
the handles get the blocks and the counts that were put ahead of messages, in their order, and
nothing else. -/
theorem handles_exact (hfs : ∀ f ∈ fs, Foreign f) {acts : List Act}
    (hclient : Runs.Along (Pipe.step lim cfg) (SendsFrom (Listener.clientStream fs)) .new acts)
    (hacts : Runs.Along (Pipe.step lim cfg) (fun p a ↦ ActsBetween fs cfg p a ∧ FillsReports p a)
      .new acts) :
    let p := Runs.exec (Pipe.step lim cfg) .new acts
    let ss := stretches lim cfg .new acts
    updates (eventsOf p.toUser) = blocksOf ss ∧ counts (eventsOf p.toUser) = reportsOf ss ∧
      ∀ reads, streamOf reads <+: p.toUser → ∀ ops,
        let o := Runs.exec Holder.step (Holder.start reads) ops
        o.delivered <+: blocksOf ss ∧ (∃ k, o.added = ((reportsOf ss).take k).sum) ∧
          (streamOf reads = p.toUser → o.stream.inner = [] → o.stream.scanner.hold = [] →
            o.delivered = blocksOf ss ∧ o.added = (reportsOf ss).sum) := by
  intro p ss
  have hdealt := run_dealt (fun f hf ↦ foreign_accepted (hfs f hf)) hclient hacts
  obtain ⟨hupdates, hcounts, -⟩ := events_of_fits hfs hdealt.fits
  rw [← hdealt.toUser] at hupdates hcounts
  refine ⟨hupdates, hcounts, fun reads hreads ops ↦ ?_⟩
  obtain ⟨es, rest, hevents, hdelivered, hadded, hdone⟩ := holder_events reads ops
  have hprefix : es <+: eventsOf p.toUser :=
    (List.prefix_append es rest).trans (hevents ▸ isPrefix_events hreads)
  simp only [hdelivered, hadded]
  refine ⟨?_, ?_, fun hwhole hi hh ↦ ?_⟩
  · rw [← hupdates]
    exact hprefix.filterMap _
  · have hsome : counts es <+: reportsOf ss := hcounts ▸ hprefix.filterMap Event.flow?
    exact ⟨_, congrArg List.sum (List.prefix_iff_eq_take.mp hsome)⟩
  · rw [hdone hi hh, List.append_nil, hwhole] at hevents
    rw [← hevents, reported_eq_sum]
    exact ⟨hupdates, by rw [hcounts]⟩

theorem ackFrame_fits : ([] : List UInt8).length < 2 ^ 24 := by decide

def ackFrame : Frame := ⟨h2SettingsFrame, 1, 0, [], ackFrame_fits⟩

theorem indexedRequest_fits (b : UInt8) : [b].length < 2 ^ 24 := show 1 < 2 ^ 24 by decide

def indexedRequest (sid : UInt32) (b : UInt8) : Frame :=
  ⟨headersKind, 5, sid, [b], indexedRequest_fits b⟩

theorem laterRequest_sent (sid : UInt8) :
    [0, 0, 1, 1, 5, 0, 0, 0, sid, 0x83] ≠ [] ∧
      [0, 0, 1, 1, 5, 0, 0, 0, sid, 0x83].length < 2 ^ 31 :=
  ⟨List.cons_ne_nil _ _, show 10 < 2 ^ 31 by decide⟩

/-- The request that is forwarded. -/
def laterRequest (sid : UInt8) : Message :=
  ⟨[0, 0, 1, 1, 5, 0, 0, 0, sid, 0x83], laterRequest_sent sid⟩

/-- A request is answered, and another one is forwarded behind it. -/
def exchange : List Act :=
  handshake ++ answeredRequest ⟨[0x61], false, [0x62], false⟩ ++
    [.send (laterRequest 3),
      .run allOk (parsedFrame 10 ⟨3, 1, 5, 1⟩ none [⟨[0x61], false, [0x62], false⟩])]

def exchangeFrames : List Frame := [ackFrame, indexedRequest 1 0x82, indexedRequest 3 0x83]

/-- What user space gets of it, in two reads. -/
def exchangeReads : List SocketRead :=
  [.data ⟨preface ++ [0, 0, 0, 4, 1, 0, 0, 0, 0, 0, 0], by decide⟩,
    .data ⟨[4, 0xFA, 0, 0, 0, 0, 0, 0, 0, 0, 1] ++
      [0, 0, 5, 0xFB, 0, 0, 0, 0, 0, 0x40, 1, 0x61, 1, 0x62] ++
      [0, 0, 1, 1, 5, 0, 0, 0, 3, 0x83], by decide⟩]

theorem handles_exact_exchange :
    let o := Runs.exec Holder.step (Holder.start exchangeReads)
      [.read (.pollRead 64), .read (.pollRead 64), .takeFlow, .read .takeSync, .read (.pollRead 64)]
    o.delivered = [[0x40, 1, 0x61, 1, 0x62]] ∧ o.added = 1 := by
  have h := (@handles_exact exampleLimits exampleRoutes exchangeFrames (by decide) exchange
    (by decide +kernel) (by decide +kernel)).2.2 exchangeReads (by decide +kernel)
    [.read (.pollRead 64), .read (.pollRead 64), .takeFlow, .read .takeSync, .read (.pollRead 64)]
  obtain ⟨hdelivered, hadded⟩ := h.2.2 (by decide +kernel) (by decide +kernel) (by decide +kernel)
  exact ⟨hdelivered.trans (by decide +kernel), hadded.trans (by decide +kernel)⟩

/-- An update that a client has made up itself arrives like any other. -/
theorem update_forged :
    let fs := [ackFrame, ⟨Listener.dtSyncFrameType, 0, 0, [0x40, 0x41], by decide⟩]
    let acts := handshake ++ [.send ⟨[0, 0, 2, 0xFB, 0, 0, 0, 0, 0, 0x40, 0x41], by decide⟩,
      .run allOk (parsedFrame 11 ⟨0, 0xFB, 0, 0⟩ none [])]
    let reads : List SocketRead := [.data ⟨preface ++ [0, 0, 0, 4, 1, 0, 0, 0, 0] ++
      [0, 0, 2, 0xFB, 0, 0, 0, 0, 0, 0x40, 0x41], by decide⟩]
    Runs.Along (Pipe.step exampleLimits exampleRoutes)
        (fun p a ↦ SendsFrom (Listener.clientStream fs) p a ∧
          ActsBetween fs exampleRoutes p a ∧ FillsReports p a) .new acts ∧
      streamOf reads = (Runs.exec (Pipe.step exampleLimits exampleRoutes) .new acts).toUser ∧
      blocksOf (stretches exampleLimits exampleRoutes .new acts) = [] ∧
      (Runs.exec Holder.step (Holder.start reads) [.read (.pollRead 64)]).delivered =
        [[0x40, 0x41]] := by
  decide +kernel

end HyperFastPath.EndToEnd
