import HyperFastPath.FastPath.Pipe
import HyperFastPath.Lib.Http1
import HyperFastPath.Lib.Http2
import HyperFastPath.Lib.Segments

/-!
# Where the program is run

The program takes whatever a message starts with for the start of a frame or a request.  Whether it
is one depends on how far its verdicts reach.
-/

namespace HyperFastPath.FastPath

open Segments

variable {lim : Limits} {cfg : Routes} {p : Pipe} {h : Helpers} {ans : Answers}

/-! ## 1. How far a verdict reaches -/

/-- Where in the client's stream the program is run next. -/
def Pipe.position (p : Pipe) : Nat := p.consumed.length + p.left

theorem parseContentLength_lt (h : Helpers) (value : List UInt8) :
    parseContentLength h value < 2 ^ 31 := by
  have hs (n : Nat) : s32 n < 2 ^ 31 := Int.bmod_lt (by decide)
  unfold parseContentLength
  split
  · split
    · split
      · exact hs _
      · decide
    · decide
  · decide

theorem announcedLen_nonneg (h : Helpers) (contentLength : Option (List UInt8)) :
    0 ≤ announcedLen h contentLength := by
  cases contentLength with
  | none => exact Int.le_refl 0
  | some value => exact Int.le_max_left _ _

theorem s32_cases {x : Int} (hlo : 0 ≤ x) (hhi : x < 2 ^ 32) :
    (x < 2 ^ 31 ∧ s32 x = x) ∨ s32 x < 0 := by
  by_cases hlt : x < 2 ^ 31
  · exact .inl ⟨hlt, s32_eq (by omega) hlt⟩
  · right
    rw [s32, Int.bmod_def, Int.emod_eq_of_lt hlo (by norm_num at *; omega)]
    norm_num at *
    omega

theorem addContentLength_cases (h : Helpers) {msgLen : Int} (contentLength : Option (List UInt8))
    (hpos : 0 ≤ msgLen) (hlt : msgLen < 2 ^ 31) :
    (msgLen + announcedLen h contentLength < 2 ^ 31 ∧
        addContentLength h msgLen contentLength = msgLen + announcedLen h contentLength) ∨
      addContentLength h msgLen contentLength < 0 := by
  cases contentLength with
  | none =>
    simp only [addContentLength, announcedLen]
    omega
  | some value =>
    have := parseContentLength_lt h value
    simp only [addContentLength, announcedLen]
    split
    · rw [Int.max_eq_right (by omega)]
      exact s32_cases (by omega) (by omega)
    · rw [Int.max_eq_left (by omega)]
      omega

/-- What is added to the length of the frame or the header block. -/
def announced (h : Helpers) (ans : Answers) (conn : Conn) : Int :=
  if conn.isH2 then h2Announced h ans else announcedLen h ans.contentLength

variable (h ans) in
theorem parse_len_cases (conn : Conn) (hret : 0 < ans.ret) (hlt : ans.ret < 2 ^ 31) :
    (ans.ret + announced h ans conn < 2 ^ 31 ∧
        (parse h ans conn).msgLen = ans.ret + announced h ans conn) ∨
      (parse h ans conn).msgLen < 0 := by
  cases hup : conn.upgraded with
  | none =>
    have hh2 : conn.isH2 = false := by rw [Conn.isH2, hup]; rfl
    simp only [parse, hup, parseH1, if_pos hret, announced, hh2]
    exact addContentLength_cases h _ hret.le hlt
  | some state =>
    have hh2 : conn.isH2 = true := by rw [Conn.isH2, hup]; rfl
    simp only [parse, hup, parseH2, if_neg (show ¬ ans.ret < 0 by omega), announced, hh2,
      if_true, h2Announced]
    split
    · exact addContentLength_cases h _ hret.le hlt
    · omega

/-- What could not be parsed is not answered. -/
theorem parse_failed {conn : Conn} (hret : ans.ret < 0 ∨ (conn.isH2 = false ∧ ans.ret = 0)) :
    (parse h ans conn).msgLen = ans.ret ∧ (parse h ans conn).path = none := by
  cases hup : conn.upgraded with
  | none =>
    simp only [parse, hup, parseH1, if_neg (show ¬ 0 < ans.ret by omega), and_self]
  | some state =>
    have hneg : ans.ret < 0 := by
      rcases hret with hneg | ⟨hh2, -⟩
      · exact hneg
      · rw [Conn.isH2, hup] at hh2
        cases hh2
    simp only [parse, hup, parseH2, if_pos hneg, and_self]

/-- Unless it turns negative on the way, `msg_len` grows along with the message. -/
theorem grown_len {conn : Conn} {msgLen : Int} {report : List UInt8} {q : Parsed}
    {table : List HeaderField} (hr : ReportedLen h conn report (syncedLen q table) msgLen)
    (hpull : conn.isH2 → 0 ≤ q.msgLen → h.ok .pullFcSync) (hpos : 0 < msgLen)
    (hlt : q.msgLen < 2 ^ 31) (hq : q.conn.isH2 = conn.isH2)
    (hsync : (syncPrefix q table).length < 2 ^ 13) :
    0 ≤ q.msgLen ∧ (conn.isH2 = false → 0 < q.msgLen) ∧
      msgLen = q.msgLen + (syncPrefix q table).length + report.length := by
  -- a sum that wraps around is negative, as both parts are small
  have hsynced : syncedLen q table < 0 ∨ (0 ≤ q.msgLen ∧
      (conn.isH2 = false → syncedLen q table = q.msgLen) ∧
      syncedLen q table = q.msgLen + (syncPrefix q table).length) := by
    rw [syncedLen]
    split
    · rename_i hc
      have := s32_cases (x := q.msgLen + (syncPrefix q table).length) (by omega) (by omega)
      simp only [← hq, hc.1, Bool.true_eq_false, false_implies, true_and]
      omega
    · rename_i hc
      rw [syncPrefix, if_neg hc, List.length_nil]
      omega
  have hbound : syncedLen q table < 2 ^ 31 := by
    rw [syncedLen]
    split
    · exact Int.bmod_lt (by decide)
    · exact hlt
  rcases hr with ⟨rfl, rfl⟩ | ⟨hlen, hreports, rfl⟩ | ⟨hh2, hfail, rfl⟩
  · obtain ⟨hnonneg, hsame, hlen⟩ := hsynced.resolve_left (by omega)
    exact ⟨hnonneg, fun hh1 ↦ hsame hh1 ▸ hpos, by simpa using hlen⟩
  · obtain ⟨hh2, hnonneg, -⟩ := dueReport_isSome hreports.1
    have := s32_cases (x := syncedLen q table + 13) (by omega) (by omega)
    simp only [hh2, Bool.true_eq_false, false_implies, true_and] at hsynced ⊢
    omega
  · rw [hpull hh2 (hsynced.resolve_left (by omega)).1] at hfail
    cases hfail

/-- Where a run leaves the program to be run next: where it was, nowhere, or behind what its
verdict applied to. -/
theorem RunEnds.position_cases {p' : Pipe} (hr : RunEnds lim cfg p h ans p') (hleft : p.left = 0)
    (hpull : p.conn.isH2 → 0 ≤ (parse h ans p.conn).msgLen → h.ok .pullFcSync)
    (hlt : ¬ SeesPreface ans p.conn → (parse h ans p.conn).msgLen < 2 ^ 31) :
    (p'.dropped = true ∧ p'.position = p.position) ∨ p'.forGood = true ∨
      (SeesPreface ans p.conn ∧ p'.conn = p.conn.upgrade h ∧ p'.position = p.position + 24) ∨
      (¬ SeesPreface ans p.conn ∧ p'.conn.isH2 = p.conn.isH2 ∧
        0 ≤ (parse h ans p.conn).msgLen ∧
        (p.conn.isH2 = false → 0 < (parse h ans p.conn).msgLen) ∧
        p'.position = p.position + if Serves cfg h ans p.conn p.buf then
          (parse h ans p.conn).msgLen.toNat
          else max p.buf.length (parse h ans p.conn).msgLen.toNat) := by
  have hh2 := (parse_conn h ans p.conn).1
  cases hr with
  | dropped => exact .inl ⟨rfl, rfl⟩
  | upgraded hnew =>
    refine .inr (.inr (.inl ⟨hnew, rfl, ?_⟩))
    simp only [Pipe.position, Pipe.consumed, List.flatMap_append, List.length_append,
      List.flatMap_cons, List.flatMap_nil, List.append_nil, List.length_take, hleft]
    omega
  | answered response flow hnew hserves hpos hfit =>
    refine .inr (.inr (.inr ⟨hnew, hh2, hpos.le, fun _ ↦ hpos, ?_⟩))
    rw [if_pos hserves]
    simp only [Pipe.position, Pipe.consumed, List.flatMap_append, List.length_append,
      List.flatMap_cons, List.flatMap_nil, List.append_nil, List.length_take, hleft]
    omega
  | forwarded report msgLen size n flow hnew hserves hreport hsync hlen hsize hn =>
    by_cases hle : msgLen ≤ 0
    · rw [if_pos hle] at hn
      exact .inr (.inl (by simp [hn]))
    · rw [if_neg hle] at hn
      have hfront := syncPrefix_length_le hsync
      have hbody := lim.maxSyncBody_le
      simp only [maxSyncBuf] at hbody
      obtain ⟨hnonneg, hpos, hgrown⟩ :=
        grown_len hlen hpull (by omega) (hlt hnew) hh2 (by omega)
      refine .inr (.inr (.inr ⟨hnew, hh2, hnonneg, hpos, ?_⟩))
      rw [if_neg hserves]
      simp only [Pipe.position, Pipe.consumed, List.flatMap_append, List.length_append,
        List.flatMap_cons, List.flatMap_nil, List.append_nil, hleft]
      omega

/-! ## 2. Runs that start where a segment does -/

/-- The client sends nothing but its stream. -/
def SendsFrom (stream : List UInt8) (p : Pipe) : Act → Prop
  | .send m => p.Accepts → p.sent ++ m.1 <+: stream
  | .run _ _ => True

/-- Unless the connection was handed over for good, a run starts where a segment of the client's
stream does. -/
def StartsSegment (us : List (List UInt8)) (p : Pipe) : Act → Prop
  | .send _ => True
  | .run _ _ => p.Pending → p.forGood = false → Starts us p.consumed.length

instance (stream : List UInt8) (p : Pipe) : (a : Act) → Decidable (SendsFrom stream p a)
  | .send _ => inferInstanceAs (Decidable (_ → _))
  | .run _ _ => isTrue trivial

instance (us : List (List UInt8)) (p : Pipe) : (a : Act) → Decidable (StartsSegment us p a)
  | .send _ => isTrue trivial
  | .run _ _ => inferInstanceAs (Decidable (_ → _))

/-- The bytes a verdict applies to end between two segments, given the length of what was parsed:
they reach to its end if it is answered, and otherwise to the end of the message at least.  They do
not where a content length, which counts the body alone, ends inside one of the frames that carry it,
nor where a message that is forwarded ends inside a later segment. -/
def EndsBetween (us : List (List UInt8)) (cfg : Routes) (p : Pipe) (h : Helpers) (ans : Answers)
    (n : Nat) : Prop :=
  Boundary us (p.consumed.length +
    if Serves cfg h ans p.conn p.buf then n + (announced h ans p.conn).toNat
    else max p.buf.length (n + (announced h ans p.conn).toNat))

instance (us : List (List UInt8)) (cfg : Routes) (p : Pipe) (h : Helpers) (ans : Answers)
    (n : Nat) : Decidable (EndsBetween us cfg p h ans n) :=
  inferInstanceAs (Decidable (Boundary _ _))

/-- The program is run next where no segment is cut in two. -/
structure Pipe.Aligned (us : List (List UInt8)) (p : Pipe) : Prop where
  bounded : p.buf.length < 2 ^ 31
  sent : p.sent <+: us.flatten
  left : p.buf ≠ [] → p.left = 0
  next : p.forGood = true ∨ Boundary us p.position

variable {us : List (List UInt8)}

theorem Pipe.Aligned.new (us : List (List UInt8)) : Pipe.new.Aligned us :=
  ⟨by decide, List.nil_prefix, fun _ ↦ rfl, .inr (boundary_zero us)⟩

variable (lim cfg) in
theorem position_send {m : Message} (hacc : p.Accepts) :
    (p.step lim cfg (.send m)).position = p.position := by
  simp only [Pipe.step, if_pos hacc]
  cases p.dir <;>
    simp only [Pipe.position, Pipe.consumed, List.flatMap_append, List.length_append,
      List.flatMap_cons, List.flatMap_nil, List.append_nil, List.length_take] <;> omega

variable (lim cfg) in
theorem Pipe.Aligned.send {m : Message} (hp : p.Aligned us) (hacc : p.Accepts)
    (hsend : p.sent ++ m.1 <+: us.flatten) : (p.step lim cfg (.send m)).Aligned us := by
  refine ⟨step_bounded lim cfg p (.send m) hp.bounded, ?_, ?_, ?_⟩
  · rwa [step_send_sent lim cfg hacc]
  · simp only [Pipe.step, if_pos hacc]
    intro hne
    have hpos := List.length_pos_iff.mpr hne
    rw [List.length_drop] at hpos
    omega
  · rw [position_send lim cfg hacc, (step_send_conn lim cfg hacc).2]
    exact hp.next

theorem RunEnds.forGood_of {p' : Pipe} (hr : RunEnds lim cfg p h ans p')
    (hgood : p.forGood = true) : p'.forGood = true := by
  cases hr with
  | dropped | upgraded | answered => exact hgood
  | forwarded => simp [hgood]

theorem RunEnds.not_forGood {p' : Pipe} (hr : RunEnds lim cfg p h ans p')
    (hgood : p'.forGood = false) : p.forGood = false :=
  eq_false_of_ne_true fun hp ↦ by simp [hr.forGood_of hp] at hgood

theorem RunEnds.aligned {p' : Pipe} (hr : RunEnds lim cfg p h ans p') (hp : p.Aligned us)
    (hpend : p.Pending) (hnext : p'.forGood = true ∨ Boundary us p'.position) :
    p'.Aligned us := by
  have hleft := hp.left hpend.2
  refine ⟨(hr.buf_suffix.length_le).trans_lt hp.bounded, by rw [hr.sent_eq]; exact hp.sent, ?_,
    hnext⟩
  cases hr with
  | dropped | answered => exact fun _ ↦ by simp only [hleft]
  | upgraded =>
    intro hne
    have hpos := List.length_pos_iff.mpr hne
    rw [List.length_drop] at hpos
    simp only
    omega
  | forwarded => exact fun hne ↦ absurd rfl hne

/-- What a run finds is what the client's stream goes on with, where a segment of it starts. -/
theorem Pipe.Aligned.pending (hp : p.Aligned us) (hpend : p.Pending) (hgood : p.forGood = false) :
    p.buf <+: us.flatten.drop p.consumed.length ∧ Starts us p.consumed.length ∧
      p.position = p.consumed.length := by
  obtain ⟨rest, hrest⟩ := hp.sent
  have hdrop : us.flatten.drop p.consumed.length = p.buf ++ rest := by
    rw [← hrest, Pipe.sent, List.append_assoc, List.drop_left]
  have hposition : p.position = p.consumed.length := by
    rw [Pipe.position, hp.left hpend.2, Nat.add_zero]
  -- there are bytes behind the position, so the boundary is not the end of the stream
  have hboundary := hp.next.resolve_left (by simp [hgood])
  rw [hposition] at hboundary
  refine ⟨⟨rest, hdrop.symm⟩, hboundary.starts ?_, hposition⟩
  have hpos := List.length_pos_iff.mpr hpend.2
  have hlen := congrArg List.length hdrop
  rw [List.length_drop, List.length_append] at hlen
  omega

theorem startsSegment_of_aligned (hp : p.Aligned us) (a : Act) : StartsSegment us p a := by
  cases a with
  | send m => trivial
  | run h ans => exact fun hpend hgood ↦ (hp.pending hpend hgood).2.1

/-! ## 3. The parsers -/

/-- The part of HTTP/2's preface that is a header block to an HTTP/1.1 parser. -/
def prefaceHead : List UInt8 := Http2.connectionPreface.take 18

/-- `parse_h1` answers with the length of the header block the message starts with if it is whole,
and with nothing positive otherwise. -/
structure ParsesH1 (bytes : List UInt8) (ans : Answers) : Prop where
  whole : ∀ n ∈ Http1.headLen bytes, ans.ret = n
  part : Http1.headLen bytes = none → ans.ret ≤ 0
  preface : ans.preface = prefaceHead.isPrefixOf bytes

/-- `parse_h2` answers with the length of the frame the message starts with if it is whole, and
with a negative number otherwise. -/
structure ParsesH2 (bytes : List UInt8) (ans : Answers) : Prop where
  whole : ∀ n ∈ Http2.frameLen bytes, ans.ret = n
  part : Http2.frameLen bytes = none → ans.ret < 0

/-- The parsers do what they are there for. -/
def ParsersHonest (p : Pipe) : Act → Prop
  | .send _ => True
  | .run _ ans => p.Pending → if p.conn.isH2 then ParsesH2 p.buf ans else ParsesH1 p.buf ans

instance (bytes : List UInt8) (ans : Answers) : Decidable (ParsesH1 bytes ans) :=
  decidable_of_iff ((∀ n ∈ Http1.headLen bytes, ans.ret = n) ∧
      (Http1.headLen bytes = none → ans.ret ≤ 0) ∧ ans.preface = prefaceHead.isPrefixOf bytes)
    ⟨fun ⟨h₁, h₂, h₃⟩ ↦ ⟨h₁, h₂, h₃⟩, fun ⟨h₁, h₂, h₃⟩ ↦ ⟨h₁, h₂, h₃⟩⟩

instance (bytes : List UInt8) (ans : Answers) : Decidable (ParsesH2 bytes ans) :=
  decidable_of_iff ((∀ n ∈ Http2.frameLen bytes, ans.ret = n) ∧
      (Http2.frameLen bytes = none → ans.ret < 0))
    ⟨fun ⟨h₁, h₂⟩ ↦ ⟨h₁, h₂⟩, fun ⟨h₁, h₂⟩ ↦ ⟨h₁, h₂⟩⟩

instance (p : Pipe) : (a : Act) → Decidable (ParsersHonest p a)
  | .send _ => isTrue trivial
  | .run _ _ => inferInstanceAs (Decidable (_ → _))

/-- What was parsed has the length that was found, and `msg_len` comes to that and what was
announced, unless it turns negative. -/
theorem parsed_len {bytes : List UInt8} {n : Nat} {conn : Conn} (hret : ans.ret = n) (hpos : 0 < n)
    (hle : n ≤ bytes.length) (hlen : bytes.length < 2 ^ 31) :
    (parse h ans conn).msgLen < 2 ^ 31 ∧ (0 ≤ (parse h ans conn).msgLen →
      (parse h ans conn).msgLen.toNat = n + (announced h ans conn).toNat) := by
  have hann : 0 ≤ announced h ans conn := by
    unfold announced
    split
    · exact h2Announced_nonneg h ans
    · exact announcedLen_nonneg h _
  rcases parse_len_cases h ans conn (by omega) (by omega) with ⟨hlt, heq⟩ | hneg
  · omega
  · omega

/-- The parser found nothing to go by. -/
def Unparsed (ans : Answers) (conn : Conn) : Prop :=
  ans.ret < 0 ∨ (conn.isH2 = false ∧ ans.ret = 0)

theorem ParsesH1.unparsed {bytes : List UInt8} (hp : ParsesH1 bytes ans) {conn : Conn}
    (hh1 : conn.isH2 = false) (hn : Http1.headLen bytes = none) : Unparsed ans conn := by
  rcases Int.lt_or_eq_of_le (hp.part hn) with hneg | hzero
  · exact .inl hneg
  · exact .inr ⟨hh1, hzero⟩

/-- What was parsed reaches to the end of a segment. -/
def ParsedWhole (us : List (List UInt8)) (cfg : Routes) (p : Pipe) (h : Helpers) (ans : Answers) :
    Prop :=
  ∃ n : Nat, ans.ret = n ∧ 0 < n ∧ n ≤ p.buf.length ∧ (p.conn.isH2 → h.ok .pullFcSync) ∧
    EndsBetween us cfg p h ans n

/-- The position after a run on what is either not parsed or reaches to the end of a segment. -/
theorem RunEnds.position_of_parsed {p' : Pipe} (hr : RunEnds lim cfg p h ans p')
    (hp : p.Aligned us) (hpend : p.Pending)
    (hparsed : ¬ SeesPreface ans p.conn → Unparsed ans p.conn ∨ ParsedWhole us cfg p h ans) :
    (p'.dropped = true ∧ p'.position = p.position) ∨ p'.forGood = true ∨
      (SeesPreface ans p.conn ∧ p'.conn = p.conn.upgrade h ∧ p'.position = p.position + 24) ∨
      (¬ SeesPreface ans p.conn ∧ ¬ Unparsed ans p.conn ∧ p'.conn.isH2 = p.conn.isH2 ∧
        Boundary us p'.position) := by
  have hleft := hp.left hpend.2
  have hcases := hr.position_cases hleft ?_ ?_
  · rcases hcases with hdrop | hgood | hup | ⟨hnew, hconn, hnonneg, hpos, hposition⟩
    · exact .inl hdrop
    · exact .inr (.inl hgood)
    · exact .inr (.inr (.inl hup))
    · have hfound : ¬ Unparsed ans p.conn := fun hfail ↦ by
        have hlen := (parse_failed (h := h) hfail).1
        rcases hfail with hneg | ⟨hh1, hzero⟩
        · omega
        · have := hpos hh1
          omega
      -- `msg_len` did not turn negative, so the verdict reaches as far as `hends` says
      obtain ⟨n, hret, hn, hle, -, hends⟩ := (hparsed hnew).resolve_left hfound
      refine .inr (.inr (.inr ⟨hnew, hfound, hconn, ?_⟩))
      rw [hposition, Pipe.position, hleft, (parsed_len hret hn hle hp.bounded).2 hnonneg]
      exact hends
  · intro hh2 hnonneg
    have hnew : ¬ SeesPreface ans p.conn := fun hnew ↦ by
      rw [Conn.isH2, hnew.1] at hh2
      cases hh2
    rcases hparsed hnew with hfail | ⟨n, -, -, -, hpull, -⟩
    · have hlen := (parse_failed (h := h) hfail).1
      rcases hfail with hneg | ⟨hh1, -⟩
      · omega
      · rw [hh2] at hh1
        cases hh1
    · exact hpull hh2
  · intro hnew
    rcases hparsed hnew with hfail | ⟨n, hret, hn, hle, -, -⟩
    · have hlen := (parse_failed (h := h) hfail).1
      rcases hfail with hneg | ⟨-, hzero⟩ <;> omega
    · exact (parsed_len hret hn hle hp.bounded).1

/-- A run keeps the program aligned, if what it finds is the preface, not parsed, or reaches to the
end of a segment. -/
theorem RunEnds.keeps_aligned {p' : Pipe} (hr : RunEnds lim cfg p h ans p') (hp : p.Aligned us)
    (hpend : p.Pending)
    (hpreface : p.forGood = false → SeesPreface ans p.conn → Boundary us (p.position + 24))
    (hparsed : p.forGood = false → ¬ SeesPreface ans p.conn →
      Unparsed ans p.conn ∨ ParsedWhole us cfg p h ans) :
    p'.Aligned us ∧ (p'.dropped = true ∨ p'.forGood = true ∨
      (SeesPreface ans p.conn ∧ p'.conn = p.conn.upgrade h) ∨
      (¬ SeesPreface ans p.conn ∧ ¬ Unparsed ans p.conn ∧ p'.conn.isH2 = p.conn.isH2)) := by
  by_cases hgood : p.forGood = true
  · have hgood' := hr.forGood_of hgood
    exact ⟨hr.aligned hp hpend (.inl hgood'), .inr (.inl hgood')⟩
  have hgood : p.forGood = false := eq_false_of_ne_true hgood
  rcases hr.position_of_parsed hp hpend (hparsed hgood) with
    ⟨hdrop, hsame⟩ | hgood' | ⟨hnew, hconn, hnext⟩ | ⟨hnew, hfound, hconn, hnext⟩
  · refine ⟨hr.aligned hp hpend ?_, .inl hdrop⟩
    rw [hsame]
    exact .inr (hp.next.resolve_left (by simp [hgood]))
  · exact ⟨hr.aligned hp hpend (.inl hgood'), .inr (.inl hgood')⟩
  · refine ⟨hr.aligned hp hpend (.inr ?_), .inr (.inr (.inl ⟨hnew, hconn⟩))⟩
    rw [hnext]
    exact hpreface hgood hnew
  · exact ⟨hr.aligned hp hpend (.inr hnext), .inr (.inr (.inr ⟨hnew, hfound, hconn⟩))⟩

/-! ## 4. HTTP/2 frames -/

open Http2 in
def frameSegments (fs : List Frame) : List (List UInt8) := connectionPreface :: fs.map Frame.encode

/-- The upgrade is recorded, and wherever the frame at the front of a message is whole, the verdict
ends between two frames. -/
def EndsBetweenFrames (fs : List Http2.Frame) (cfg : Routes) (p : Pipe) : Act → Prop
  | .send _ => True
  | .run h ans => p.Pending → p.forGood = false →
      (SeesPreface ans p.conn → h.ok .setUpgraded) ∧
      (p.conn.isH2 → ∀ n ∈ Http2.frameLen p.buf,
        h.ok .pullFcSync ∧ EndsBetween (frameSegments fs) cfg p h ans n)

instance (fs : List Http2.Frame) (cfg : Routes) (p : Pipe) :
    (a : Act) → Decidable (EndsBetweenFrames fs cfg p a)
  | .send _ => isTrue trivial
  | .run _ _ => inferInstanceAs (Decidable (_ → _))

/-- A connection that is not upgraded is at the start of its stream. -/
structure Pipe.Framed (fs : List Http2.Frame) (p : Pipe) : Prop extends
    Pipe.Aligned (frameSegments fs) p where
  start : p.dropped = false → p.forGood = false → p.conn.isH2 = false → p.position = 0

/-- At the start of the stream a header block is the preface. -/
theorem prefaceHead_of_headLen {bytes rest : List UInt8} {n : Nat}
    (hb : bytes <+: Http2.connectionPreface ++ rest) (hn : Http1.headLen bytes = some n) :
    prefaceHead.isPrefixOf bytes = true := by
  -- the preface has an empty line in it, so a parser finds a block of eighteen bytes
  have hhead : Http1.headLen Http2.connectionPreface = some 18 := by decide
  have heq := Http1.headLen_of_prefix hb hn
  rw [Http1.headLen_append hhead] at heq
  cases heq
  have hle := (Http1.headLen_bounds hn).2
  refine List.isPrefixOf_iff_prefix.mpr (List.prefix_of_prefix_length_le ?_ hb ?_)
  · exact (List.take_prefix 18 _).trans (List.prefix_append _ _)
  · simpa [prefaceHead, Http2.connectionPreface] using hle

theorem framed_step {fs : List Http2.Frame} {a : Act} (hp : p.Framed fs)
    (hclient : SendsFrom (frameSegments fs).flatten p a) (hhonest : ParsersHonest p a)
    (hends : EndsBetweenFrames fs cfg p a) : (p.step lim cfg a).Framed fs := by
  cases a with
  | send m =>
    by_cases hacc : p.Accepts
    swap
    · rwa [step_send_idle hacc]
    refine ⟨hp.toAligned.send lim cfg hacc (hclient hacc), ?_⟩
    rw [(step_send_conn lim cfg hacc).1, (step_send_conn lim cfg hacc).2, position_send lim cfg hacc]
    exact fun _ ↦ hp.start hacc.1
  | run h ans =>
    by_cases hpend : p.Pending
    swap
    · rwa [step_run_idle hpend]
    have hrun := run_ends lim cfg h ans hpend hp.bounded
    generalize p.step lim cfg (.run h ans) = p' at hrun
    have hhonest := hhonest hpend
    -- before the upgrade nothing but the preface is a header block
    have hpreface (hgood : p.forGood = false) (hh2 : p.conn.isH2 = false)
        (hnew : ¬ SeesPreface ans p.conn) : Unparsed ans p.conn := by
      rw [hh2, if_neg Bool.false_ne_true] at hhonest
      obtain ⟨hbuf, -, hposition⟩ := hp.toAligned.pending hpend hgood
      have hstart := hp.start hpend.1 hgood hh2
      rw [hposition] at hstart
      rw [hstart, List.drop_zero, frameSegments, List.flatten_cons] at hbuf
      cases hn : Http1.headLen p.buf with
      | none => exact hhonest.unparsed hh2 hn
      | some n =>
        have hret := hhonest.whole n hn
        have hpos := (Http1.headLen_bounds hn).1
        refine absurd ⟨?_, by omega, ?_⟩ hnew
        · simpa [Conn.isH2] using hh2
        · rw [hhonest.preface, prefaceHead_of_headLen hbuf hn]
    have hparsed (hgood : p.forGood = false) (hnew : ¬ SeesPreface ans p.conn) :
        Unparsed ans p.conn ∨ ParsedWhole (frameSegments fs) cfg p h ans := by
      cases hh2 : p.conn.isH2 with
      | false => exact .inl (hpreface hgood hh2 hnew)
      | true =>
        rw [hh2, if_pos rfl] at hhonest
        cases hn : Http2.frameLen p.buf with
        | none => exact .inl (.inl (hhonest.part hn))
        | some n =>
          obtain ⟨hpull, hends⟩ := (hends hpend hgood).2 hh2 n hn
          obtain ⟨hpos, hle⟩ := Http2.frameLen_bounds hn
          exact .inr ⟨n, hhonest.whole n hn, by omega, hle, fun _ ↦ hpull, hends⟩
    have hhead (hgood : p.forGood = false) (hnew : SeesPreface ans p.conn) :
        Boundary (frameSegments fs) (p.position + 24) := by
      rw [hp.start hpend.1 hgood (by rw [Conn.isH2, hnew.1]; rfl)]
      exact boundary_head _ _
    obtain ⟨haligned, hcases⟩ := hrun.keeps_aligned hp.toAligned hpend hhead hparsed
    refine ⟨haligned, fun hdropped hgood' hh2 ↦ ?_⟩
    have hgood := hrun.not_forGood hgood'
    rcases hcases with hdrop | hforGood | ⟨hnew, hconn⟩ | ⟨hnew, hfound, hconn⟩
    · rw [hdrop] at hdropped
      cases hdropped
    · rw [hforGood] at hgood'
      cases hgood'
    -- the preface has been seen: the connection is upgraded now
    · have hset := (hends hpend hgood).1 hnew
      rw [hconn, Conn.upgrade, Conn.isH2, update, if_pos hset] at hh2
      cases hh2
    -- something else was parsed, which takes an upgraded connection
    · rw [hconn] at hh2
      exact absurd (hpreface hgood hh2 hnew) hfound

/-- Along a run in which every verdict ends between two frames, every run of the program starts at
the first byte of a frame. -/
theorem startsFrame {fs : List Http2.Frame} {acts : List Act}
    (hclient : Runs.Along (Pipe.step lim cfg)
      (fun p a ↦ SendsFrom (frameSegments fs).flatten p a ∧ ParsersHonest p a) .new acts)
    (hends : Runs.Along (Pipe.step lim cfg) (EndsBetweenFrames fs cfg) .new acts) :
    Runs.Along (Pipe.step lim cfg) (StartsSegment (frameSegments fs)) .new acts :=
  ((Runs.Along.and _ _).mpr ⟨hclient, hends⟩).of_invariant
    (fun _ _ hp ⟨⟨hc, hh⟩, he⟩ ↦ framed_step hp hc hh he)
    (fun _ a hp _ ↦ startsSegment_of_aligned hp.toAligned a)
    ⟨.new _, fun _ _ _ ↦ rfl⟩

/-- An answered request, and one that is not, with its body in the same message. -/
theorem startsFrame_answered :
    let fs : List Http2.Frame := [⟨4, 1, 0, [], by decide⟩, ⟨1, 5, 1, [0x82], by decide⟩,
      ⟨1, 4, 3, [0x83], by decide⟩, ⟨0, 1, 3, [0x41, 0x42], by decide⟩]
    Runs.Along (Pipe.step exampleLimits exampleRoutes) (StartsSegment (frameSegments fs)) .new
      (handshake ++ answeredRequest ⟨[0x61], false, [0x62], false⟩ ++
        [.send ⟨[0, 0, 1, 1, 4, 0, 0, 0, 3, 0x83, 0, 0, 2, 0, 1, 0, 0, 0, 3, 0x41, 0x42], by decide⟩,
          .run allOk { parsedFrame 10 ⟨3, 1, 4, 1⟩ none [⟨[0x61], false, [0x62], false⟩] with
            contentLength := some [0x32] }]) :=
  startsFrame (by decide +kernel) (by decide +kernel)

/-- The body of a request with a content length of 16 arrives in a message of its own.  The header
of its DATA frame is counted in, so the program is run on the last nine bytes of the payload. -/
theorem startsInFrame :
    let fs : List Http2.Frame := [⟨4, 1, 0, [], by decide⟩, ⟨1, 4, 1, [0x83], by decide⟩,
      ⟨0, 1, 1, List.replicate 16 0x41, by decide⟩]
    let acts := handshake ++ [.send ⟨[0, 0, 1, 1, 4, 0, 0, 0, 1, 0x83], by decide⟩,
      .run allOk { parsedFrame 10 ⟨1, 1, 4, 0⟩ none [] with contentLength := some [0x31, 0x36] },
      .send ⟨[0, 0, 16, 0, 1, 0, 0, 0, 1] ++ List.replicate 16 0x41, by decide⟩,
      .run allOk (parsedFrame (-1) ⟨0, 0, 0, 0⟩ none [])]
    Runs.Along (Pipe.step exampleLimits exampleRoutes)
        (fun p a ↦ SendsFrom (frameSegments fs).flatten p a ∧ ParsersHonest p a) .new acts ∧
      ¬ Runs.Along (Pipe.step exampleLimits exampleRoutes) (StartsSegment (frameSegments fs)) .new
        acts := by
  decide +kernel

/-! ## 5. HTTP/1.1 requests -/

def requestSegments (rs : List Http1.Request) : List (List UInt8) := rs.map Http1.Request.encode

/-- Wherever the header block at the front of a message is whole, the verdict ends between two
requests. -/
def EndsBetweenRequests (rs : List Http1.Request) (cfg : Routes) (p : Pipe) : Act → Prop
  | .send _ => True
  | .run h ans => p.Pending → p.forGood = false →
      ∀ n ∈ Http1.headLen p.buf, EndsBetween (requestSegments rs) cfg p h ans n

instance (rs : List Http1.Request) (cfg : Routes) (p : Pipe) :
    (a : Act) → Decidable (EndsBetweenRequests rs cfg p a)
  | .send _ => isTrue trivial
  | .run _ _ => inferInstanceAs (Decidable (_ → _))

/-- The connection is never upgraded. -/
structure Pipe.Plain (rs : List Http1.Request) (p : Pipe) : Prop extends
    Pipe.Aligned (requestSegments rs) p where
  plain : p.dropped = false → p.forGood = false → p.conn.isH2 = false

/-- What starts with a request does not start with the preface. -/
theorem not_prefaceHead {rs : List Http1.Request} (hrs : ∀ r ∈ rs, r.head ≠ prefaceHead)
    {u rest : List UInt8} (hu : u ∈ requestSegments rs) (hrest : u <+: rest) {bytes : List UInt8}
    (hb : bytes <+: rest) : prefaceHead.isPrefixOf bytes = false := by
  refine eq_false_of_ne_true fun hpre ↦ ?_
  obtain ⟨r, hr, rfl⟩ := List.mem_map.mp hu
  -- both would be the header block of the same stream
  have hpreface := (List.isPrefixOf_iff_prefix.mp hpre).trans hb
  have hhead : r.head <+: rest := (List.prefix_append _ _).trans hrest
  have hlen := Http1.headLen_of_prefix hhead r.whole
  rw [Http1.headLen_of_prefix hpreface (show Http1.headLen prefaceHead = some 18 by decide)] at hlen
  have h18 : r.head.length = prefaceHead.length := (Option.some.inj hlen).symm
  exact hrs r hr ((List.prefix_of_prefix_length_le hhead hpreface h18.le).eq_of_length h18)

theorem plain_step {rs : List Http1.Request} (hrs : ∀ r ∈ rs, r.head ≠ prefaceHead) {a : Act}
    (hp : p.Plain rs) (hclient : SendsFrom (requestSegments rs).flatten p a)
    (hhonest : ParsersHonest p a) (hends : EndsBetweenRequests rs cfg p a) :
    (p.step lim cfg a).Plain rs := by
  cases a with
  | send m =>
    by_cases hacc : p.Accepts
    swap
    · rwa [step_send_idle hacc]
    refine ⟨hp.toAligned.send lim cfg hacc (hclient hacc), ?_⟩
    rw [(step_send_conn lim cfg hacc).1, (step_send_conn lim cfg hacc).2]
    exact fun _ ↦ hp.plain hacc.1
  | run h ans =>
    by_cases hpend : p.Pending
    swap
    · rwa [step_run_idle hpend]
    have hrun := run_ends lim cfg h ans hpend hp.bounded
    generalize p.step lim cfg (.run h ans) = p' at hrun
    have hhonest (hgood : p.forGood = false) : ParsesH1 p.buf ans := by
      have hparses := hhonest hpend
      rwa [hp.plain hpend.1 hgood, if_neg Bool.false_ne_true] at hparses
    -- where a request starts there is no preface
    have hnew (hgood : p.forGood = false) : ¬ SeesPreface ans p.conn := fun hnew ↦ by
      obtain ⟨hbuf, hstarts, -⟩ := hp.toAligned.pending hpend hgood
      obtain ⟨u, hu, hrest⟩ := hstarts.exists_prefix
      have hpre := hnew.2.2
      rw [(hhonest hgood).preface, not_prefaceHead hrs hu hrest hbuf] at hpre
      cases hpre
    have hparsed (hgood : p.forGood = false) :
        Unparsed ans p.conn ∨ ParsedWhole (requestSegments rs) cfg p h ans := by
      have hh1 := hp.plain hpend.1 hgood
      cases hn : Http1.headLen p.buf with
      | none => exact .inl ((hhonest hgood).unparsed hh1 hn)
      | some n =>
        obtain ⟨hpos, hle⟩ := Http1.headLen_bounds hn
        refine .inr ⟨n, (hhonest hgood).whole n hn, by omega, hle, fun hh2 ↦ ?_,
          hends hpend hgood n hn⟩
        rw [hh1] at hh2
        cases hh2
    obtain ⟨haligned, hcases⟩ := hrun.keeps_aligned hp.toAligned hpend
      (fun hgood hpre ↦ absurd hpre (hnew hgood)) fun hgood _ ↦ hparsed hgood
    refine ⟨haligned, fun hdropped hgood' ↦ ?_⟩
    have hgood := hrun.not_forGood hgood'
    rcases hcases with hdrop | hforGood | ⟨hpre, -⟩ | ⟨-, -, hconn⟩
    · rw [hdrop] at hdropped
      cases hdropped
    · rw [hforGood] at hgood'
      cases hgood'
    · exact absurd hpre (hnew hgood)
    · rw [hconn]
      exact hp.plain hpend.1 hgood

/-- Along a run in which every verdict ends between two requests, every run of the program starts at
the first byte of a request. -/
theorem startsRequest {rs : List Http1.Request} (hrs : ∀ r ∈ rs, r.head ≠ prefaceHead)
    {acts : List Act}
    (hclient : Runs.Along (Pipe.step lim cfg)
      (fun p a ↦ SendsFrom (requestSegments rs).flatten p a ∧ ParsersHonest p a) .new acts)
    (hends : Runs.Along (Pipe.step lim cfg) (EndsBetweenRequests rs cfg) .new acts) :
    Runs.Along (Pipe.step lim cfg) (StartsSegment (requestSegments rs)) .new acts :=
  ((Runs.Along.and _ _).mpr ⟨hclient, hends⟩).of_invariant
    (fun _ _ hp ⟨⟨hc, hh⟩, he⟩ ↦ plain_step hrs hp hc hh he)
    (fun _ a hp _ ↦ startsSegment_of_aligned hp.toAligned a)
    ⟨.new _, fun _ _ ↦ rfl⟩

/-- What the HTTP/1.1 parser answers for a header block of `len` bytes. -/
def parsedHead (len : Int) (contentLength path : Option (List UInt8)) : Answers :=
  { ret := len, preface := false, contentLength, path, frame := ⟨0, 0, 0, 0⟩, table := [] }

open Http1 in
/-- A body that has not all arrived with its request, and an answered request behind it. -/
theorem startsRequest_answered :
    let rs : List Request := [⟨ascii "POST / HTTP/1.1\r\nContent-Length: 5\r\n\r\n",
      .sized (ascii "hello"), by decide +kernel⟩,
      ⟨ascii "GET /a HTTP/1.1\r\n\r\n", .none, by decide +kernel⟩]
    Runs.Along (Pipe.step exampleLimits exampleRoutes) (StartsSegment (requestSegments rs)) .new
      [.send ⟨ascii "POST / HTTP/1.1\r\nContent-Length: 5\r\n\r\nhe", by decide +kernel⟩,
        .run allOk (parsedHead 38 (some (ascii "5")) none),
        .send ⟨ascii "lloGET /a HTTP/1.1\r\n\r\n", by decide +kernel⟩,
        .run allOk (parsedHead 19 none (some (ascii "/a")))] :=
  startsRequest (by decide +kernel) (by decide +kernel) (by decide +kernel)

open Http1 in
/-- A chunked body is not reserved: what its second message starts with is taken for a request, and
answered. -/
theorem startsInRequest :
    let rs : List Request := [⟨ascii "POST / HTTP/1.1\r\nTransfer-Encoding: chunked\r\n\r\n",
      .chunked [ascii "GET /a HTTP/1.1\r\n\r\n"], by decide +kernel⟩]
    let acts : List Act := [.send ⟨ascii "POST / HTTP/1.1\r\nTransfer-Encoding: chunked\r\n\r\n13\r\n",
        by decide +kernel⟩,
      .run allOk (parsedHead 47 none none),
      .send ⟨ascii "GET /a HTTP/1.1\r\n\r\n\r\n0\r\n\r\n", by decide +kernel⟩,
      .run allOk (parsedHead 19 none (some (ascii "/a")))]
    Runs.Along (Pipe.step exampleLimits exampleRoutes)
        (fun p a ↦ SendsFrom (requestSegments rs).flatten p a ∧ ParsersHonest p a) .new acts ∧
      (Runs.exec (Pipe.step exampleLimits exampleRoutes) .new acts).toClient = ascii "HTTP/" ∧
      ¬ Runs.Along (Pipe.step exampleLimits exampleRoutes) (StartsSegment (requestSegments rs)) .new
        acts := by
  decide +kernel

end HyperFastPath.FastPath
