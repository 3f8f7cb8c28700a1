import HyperFastPath.EndToEnd.Delivery
import Mathlib.Data.List.GetD

/-!
# The streams of a connection

Which of a client's frames reach user space, and what they follow there.
-/

namespace HyperFastPath.EndToEnd

open Bytes Http2 FastPath Listener Segments

variable {lim : Limits} {cfg : Routes} {dec : Decoder} {fs : List Frame} {p : Pipe} {fwd : Bool}

def h2DataFrame : UInt8 := 0x00

def h2RstStreamFrame : UInt8 := 0x03

/-- The stream a frame is on, without the reserved bit. -/
def frameSid (frame : List UInt8) : Nat := ofBe ((frame.drop 5).take 4) % 2 ^ 31

/-- A frame that needs its stream to have been opened. -/
def OnStream (frame : List UInt8) : Prop :=
  frame.getD 3 0 ∈ [h2DataFrame, h2RstStreamFrame, continuationKind] ∨
    frame.getD 3 0 = h2WindowUpdateFrame ∧ frameSid frame ≠ 0

def Opens (g f : List UInt8) : Prop := g.getD 3 0 = headersKind ∧ frameSid g = frameSid f

/-- Every such frame follows a HEADERS frame on its stream. -/
def HeadersFirst (frames : List (List UInt8)) : Prop :=
  ∀ i, i < frames.length → OnStream (frames.getD i []) →
    ∃ j, j < i ∧ Opens (frames.getD j []) (frames.getD i [])

instance (f : List UInt8) : Decidable (OnStream f) := inferInstanceAs (Decidable (_ ∨ _))

instance (g f : List UInt8) : Decidable (Opens g f) := inferInstanceAs (Decidable (_ ∧ _))

instance (frames : List (List UInt8)) : Decidable (HeadersFirst frames) :=
  inferInstanceAs (Decidable (∀ i, i < frames.length → _ → ∃ j, j < i ∧ _))

theorem headersFirst_iff {frames : List (List UInt8)} :
    HeadersFirst frames ↔ ∀ pre f post, frames = pre ++ f :: post → OnStream f →
      ∃ g ∈ pre, Opens g f := by
  constructor
  · rintro h pre f post rfl hon
    obtain ⟨j, hj, hopens⟩ := h pre.length (by simp) (by simpa using hon)
    rw [List.getD_append_right _ _ _ _ le_rfl, Nat.sub_self, List.getD_cons_zero,
      List.getD_append _ _ _ _ hj, List.getD_eq_getElem _ _ hj] at hopens
    exact ⟨_, List.getElem_mem hj, hopens⟩
  · intro h i hi hon
    have hsplit : frames = frames.take i ++ frames.getD i [] :: frames.drop (i + 1) := by
      rw [List.getD_eq_getElem _ _ hi, List.cons_getElem_drop_succ, List.take_append_drop]
    obtain ⟨g, hg, hopens⟩ := h _ _ _ hsplit hon
    obtain ⟨j, hj, rfl⟩ := List.mem_iff_getElem.mp hg
    rw [List.length_take] at hj
    refine ⟨j, by omega, ?_⟩
    rwa [List.getD_eq_getElem _ _ (by omega : j < frames.length), ← List.getElem_take]

theorem HeadersFirst.take {frames : List (List UInt8)} (h : HeadersFirst frames) (k : Nat) :
    HeadersFirst (frames.take k) := by
  rw [headersFirst_iff] at h ⊢
  intro pre f post hsplit hon
  refine h pre f (post ++ frames.drop k) ?_ hon
  rw [← List.cons_append, ← List.append_assoc, ← hsplit, List.take_append_drop]

/-! ## 1. The frames the client has sent -/

/-- The frames of two ends that have read the same bytes. -/
def Codec.SameFrames (c c' : Codec) : Prop :=
  c.entries.map Entry.frame = c'.entries.map Entry.frame ∧ c.rest = c'.rest

theorem Codec.SameFrames.bytes {fwd' : Bool} {c c' : Codec} (h : c.SameFrames c')
    (bs : List UInt8) :
    (bs.foldl (Codec.byte dec fwd) c).SameFrames (bs.foldl (Codec.byte dec fwd') c') := by
  induction bs generalizing c c' with
  | nil => exact h
  | cons b bs ih =>
    apply ih
    obtain ⟨hframes, hrest⟩ := h
    -- whether a frame is complete does not depend on where it goes
    unfold Codec.byte
    rw [hrest]
    split
    · exact ⟨by simp only [Codec.frame, List.map_append, hframes, List.map_cons, List.map_nil], rfl⟩
    · exact ⟨hframes, rfl⟩

theorem client_sameFrames (dec : Decoder) (log : List Disposal) :
    (client dec log).SameFrames
      ((log.flatMap Disposal.bytes).foldl (Codec.byte dec true) (.new dec)) := by
  induction log using List.reverseRecOn with
  | nil => exact ⟨rfl, rfl⟩
  | append_singleton log d ih =>
    rw [client, List.foldl_append, ← client, List.flatMap_append, List.foldl_append]
    simp only [List.foldl_cons, List.foldl_nil, List.flatMap_cons, List.flatMap_nil,
      List.append_nil]
    exact ih.bytes d.bytes

theorem frames_of_frames (fs : List Frame) (c : Codec) :
    (c.frames dec fwd fs).entries.map Entry.frame =
      c.entries.map Entry.frame ++ fs.map Frame.encode := by
  induction fs generalizing c with
  | nil => simp
  | cons f fs ih =>
    rw [frames_cons, ih]
    simp [Codec.frame]

/-- What has been dealt with are the first frames of the client's stream. -/
theorem Framing.client_frames (hp : Framing dec fs p) :
    ∃ k, (client dec p.log).entries.map Entry.frame = (fs.map Frame.encode).take k := by
  have hconsumed : Boundary (fs.map Frame.encode) p.consumed.length := by
    -- with nothing left to run on, the client has just finished a frame
    by_cases hbuf : p.buf = []
    · have hwhole := hp.whole
      rwa [Pipe.sent, hbuf, List.append_nil] at hwhole
    · have hboundary := hp.boundary
      rwa [Pipe.position, hp.left hbuf, Nat.add_zero] at hboundary
  obtain ⟨k, -, hk⟩ := hconsumed
  refine ⟨k, ?_⟩
  have hconsumed : p.consumed <+: (fs.map Frame.encode).flatten :=
    (List.prefix_append _ _).trans hp.sent
  have hbytes : p.consumed = encodeAll (fs.take k) := by
    rw [encodeAll, List.flatMap_def, List.map_take]
    refine (List.prefix_of_prefix_length_le hconsumed ?_ hk.ge).eq_of_length hk.symm
    exact (List.take_prefix k _).flatten
  rw [(client_sameFrames dec p.log).1, ← Pipe.consumed, hbytes, byte_encodeAll _ rfl,
    frames_of_frames, List.map_take]
  rfl

/-! ## 2. The frames that reach user space -/

/-- User space gets the frames that were not answered, as they are and in order. -/
def FramesPass (dec : Decoder) (p : Pipe) : Prop :=
  (userSpace dec p.toUser).entries.map Entry.frame =
    ((client dec p.log).entries.filter (·.forwarded)).map Entry.frame

theorem forwarded_frames (fs : List Frame) (c : Codec) :
    ((c.frames dec true fs).entries.filter (·.forwarded)).map Entry.frame =
      (c.entries.filter (·.forwarded)).map Entry.frame ++ fs.map Frame.encode := by
  induction fs generalizing c with
  | nil => simp
  | cons f fs ih =>
    rw [frames_cons, ih]
    simp [Codec.frame]

theorem FramesPass.moves {a : Act} {p' : Pipe} (hp : FramesPass dec p)
    (hmoves : Moves lim cfg dec p a p') : FramesPass dec p' := by
  unfold FramesPass at hp ⊢
  cases hmoves with
  | still huser hclient => rw [huser, hclient, hp]
  | passed fs _ _ _ huser hclient =>
    rw [huser, hclient, frames_of_frames, forwarded_frames, hp]
  | answered fs _ _ _ _ _ huser hclient => rw [huser, hclient, frames_answered, hp]
  | forwarded fs block _ _ _ _ _ huser hclient =>
    rw [huser, hclient, frames_of_frames, primed_entries, forwarded_frames, hp]

/-! ## 3. The streams that were answered on -/

/-- A request on the stream was answered. -/
def Codec.AnsweredOn (c : Codec) (sid : Nat) : Prop :=
  ∃ e ∈ c.entries, e.forwarded = false ∧ kindOf e.frame = headersKind ∧ frameSid e.frame = sid

/-- A frame of the stream was forwarded. -/
def Codec.ForwardedOn (c : Codec) (sid : Nat) : Prop :=
  ∃ e ∈ c.entries, e.forwarded = true ∧ frameSid e.frame = sid

/-- What is forwarded is not on a stream that was answered on before, and no request is answered on a
stream of which a frame was forwarded before. -/
def KeepsApart (cfg : Routes) (dec : Decoder) (p : Pipe) : Act → Prop
  | .send m => p.Accepts → ∀ f ∈ wholeFrames (m.1.take p.left),
      ¬ (client dec p.log).AnsweredOn (frameSid f.encode)
  | .run h ans => p.Pending →
      (¬ Serves cfg h ans p.conn p.buf → ∀ f ∈ wholeFrames p.buf,
        ¬ (client dec p.log).AnsweredOn (frameSid f.encode)) ∧
      (Serves cfg h ans p.conn p.buf → ∀ n ∈ frameLen p.buf,
        ∀ f ∈ wholeFrames (p.buf.take (n + (announced h ans p.conn).toNat)),
          f.kind = headersKind → ¬ (client dec p.log).ForwardedOn (frameSid f.encode))

instance (c : Codec) (sid : Nat) : Decidable (c.AnsweredOn sid) :=
  inferInstanceAs (Decidable (∃ e ∈ c.entries, _))

instance (c : Codec) (sid : Nat) : Decidable (c.ForwardedOn sid) :=
  inferInstanceAs (Decidable (∃ e ∈ c.entries, _))

instance (cfg : Routes) (dec : Decoder) (p : Pipe) : (a : Act) → Decidable (KeepsApart cfg dec p a)
  | .send _ => inferInstanceAs (Decidable (_ → _))
  | .run _ _ => inferInstanceAs (Decidable (_ → _))

/-- No stream has both a frame that was forwarded and a request that was answered. -/
def Codec.Apart (c : Codec) : Prop := ∀ sid, c.ForwardedOn sid → ¬ c.AnsweredOn sid

theorem frames_entries (fs : List Frame) (c : Codec) {e : Entry}
    (he : e ∈ (c.frames dec fwd fs).entries) :
    e ∈ c.entries ∨ e.forwarded = fwd ∧ ∃ f ∈ fs, e.frame = f.encode := by
  induction fs generalizing c with
  | nil => exact .inl he
  | cons f fs ih =>
    rcases ih _ he with hold | ⟨hfwd, g, hg, hframe⟩
    · rcases List.mem_append.mp hold with hold | hnew
      · exact .inl hold
      · obtain rfl := List.mem_singleton.mp hnew
        exact .inr ⟨rfl, f, List.mem_cons_self, rfl⟩
    · exact .inr ⟨hfwd, g, List.mem_cons_of_mem f hg, hframe⟩

theorem Codec.Apart.forwarded {c : Codec} (hc : c.Apart) {fs : List Frame}
    (hfs : ∀ f ∈ fs, ¬ c.AnsweredOn (frameSid f.encode)) : (c.frames dec true fs).Apart := by
  rintro sid ⟨e, he, hfwd, hsid⟩ ⟨e', he', hans, hkind, hsid'⟩
  -- nothing new was answered, so the stream was answered on before
  have hold : e' ∈ c.entries := (frames_entries fs c he').resolve_right fun ⟨hnew, _⟩ ↦ by
    rw [hans] at hnew
    cases hnew
  have hanswered : c.AnsweredOn sid := ⟨e', hold, hans, hkind, hsid'⟩
  rcases frames_entries fs c he with he | ⟨-, f, hf, hframe⟩
  · exact hc sid ⟨e, he, hfwd, hsid⟩ hanswered
  · rw [hframe] at hsid
    exact hfs f hf (hsid ▸ hanswered)

theorem Codec.Apart.answered {c : Codec} (hc : c.Apart) {fs : List Frame}
    (hfs : ∀ f ∈ fs, f.kind = headersKind → ¬ c.ForwardedOn (frameSid f.encode)) :
    (c.frames dec false fs).Apart := by
  rintro sid ⟨e, he, hfwd, hsid⟩ ⟨e', he', hans, hkind, hsid'⟩
  have hold : e ∈ c.entries := (frames_entries fs c he).resolve_right fun ⟨hnew, _⟩ ↦ by
    rw [hfwd] at hnew
    cases hnew
  have hforwarded : c.ForwardedOn sid := ⟨e, hold, hfwd, hsid⟩
  rcases frames_entries fs c he' with he' | ⟨-, f, hf, hframe⟩
  · exact hc sid hforwarded ⟨e', he', hans, hkind, hsid'⟩
  · rw [hframe] at hkind hsid'
    exact hfs f hf hkind (hsid' ▸ hforwarded)

theorem apart_moves {a : Act} {p' : Pipe} (hp : (client dec p.log).Apart)
    (hmoves : Moves lim cfg dec p a p') (hkeeps : KeepsApart cfg dec p a) :
    (client dec p'.log).Apart := by
  cases hmoves with
  | still _ hclient => rwa [hclient]
  | passed fs hacc _ hbytes _ hclient =>
    rw [hclient]
    have hkeeps := hkeeps hacc
    rw [hbytes, wholeFrames_whole] at hkeeps
    exact hp.forwarded hkeeps
  | answered fs n hpend hwhole hserves hbytes _ hclient =>
    rw [hclient]
    have hkeeps := (hkeeps hpend).2 hserves n hwhole
    rw [hbytes, wholeFrames_whole] at hkeeps
    exact hp.answered hkeeps
  | forwarded fs _ _ hpend _ hserves hbytes _ hclient =>
    rw [hclient]
    have hkeeps := (hkeeps hpend).1 hserves
    rw [hbytes, wholeFrames_whole] at hkeeps
    exact hp.forwarded hkeeps

/-- With the streams apart, what a forwarded frame follows was forwarded as well. -/
theorem HeadersFirst.of_apart {c : Codec} (hfirst : HeadersFirst (c.entries.map Entry.frame))
    (hc : c.Apart) : HeadersFirst ((c.entries.filter (·.forwarded)).map Entry.frame) := by
  rw [headersFirst_iff] at hfirst ⊢
  intro pre f post hsplit hon
  obtain ⟨fpre, frest, hfilter, rfl, hrest⟩ := List.map_eq_append_iff.mp hsplit
  obtain ⟨e, fpost, rfl, rfl, -⟩ := List.map_eq_cons_iff.mp hrest
  obtain ⟨front, back, hentries, rfl, hback⟩ := List.filter_eq_append_iff.mp hfilter
  obtain ⟨skipped, after, rfl, hskipped, hfwd, -⟩ := List.filter_eq_cons_iff.mp hback
  rw [← List.append_assoc] at hentries
  have hall : c.entries.map Entry.frame =
      (front ++ skipped).map Entry.frame ++ e.frame :: after.map Entry.frame := by
    rw [hentries, List.map_append, List.map_cons]
  obtain ⟨_, hframe, hopens⟩ := hfirst _ _ _ hall hon
  obtain ⟨g, hg, rfl⟩ := List.mem_map.mp hframe
  have hmem : g ∈ c.entries := by
    rw [hentries]
    exact List.mem_append_left _ hg
  -- an answered one would have its stream answered on
  cases hgfwd : g.forwarded with
  | false =>
    have he : e ∈ c.entries := by
      rw [hentries]
      simp
    exact absurd ⟨g, hmem, hgfwd, hopens.1, hopens.2⟩
      (hc (frameSid e.frame) ⟨e, he, hfwd, rfl⟩)
  | true =>
    refine ⟨g.frame, List.mem_map_of_mem (List.mem_filter.mpr ⟨?_, hgfwd⟩), hopens⟩
    exact (List.mem_append.mp hg).resolve_right fun hs ↦ hskipped g hs hgfwd

end HyperFastPath.EndToEnd
