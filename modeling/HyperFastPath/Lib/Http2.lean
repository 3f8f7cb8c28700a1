import HyperFastPath.Lib.Bytes

/-!
# HTTP/2 frames

The framing layer of RFC 7540: a nine byte header, which spells out the length of the payload behind
it, the frame's type, its flags and the stream it belongs to.
-/

namespace Http2

open Bytes

/-- A frame whose payload is short enough for the length field. -/
structure Frame where
  kind : UInt8
  flags : UInt8
  sid : UInt32
  payload : List UInt8
  fits : payload.length < 2 ^ 24
  deriving DecidableEq, Repr

def Frame.header (f : Frame) : List UInt8 :=
  toBe 3 f.payload.length ++ [f.kind, f.flags] ++ toBe 4 f.sid.toNat

def Frame.encode (f : Frame) : List UInt8 := f.header ++ f.payload

def encodeAll (fs : List Frame) : List UInt8 := fs.flatMap Frame.encode

/-- What a client opens a connection with (section 3.5). -/
def connectionPreface : List UInt8 :=
  [0x50, 0x52, 0x49, 0x20, 0x2A, 0x20, 0x48, 0x54, 0x54, 0x50, 0x2F, 0x32, 0x2E, 0x30, 0x0D, 0x0A,
    0x0D, 0x0A, 0x53, 0x4D, 0x0D, 0x0A, 0x0D, 0x0A]

/-- The length of the frame `bytes` start with, if it is whole. -/
def frameLen (bytes : List UInt8) : Option Nat :=
  if 9 ≤ bytes.length ∧ 9 + ofBe (bytes.take 3) ≤ bytes.length then
    some (9 + ofBe (bytes.take 3)) else none

theorem frameLen_bounds {bytes : List UInt8} {n : Nat} (h : frameLen bytes = some n) :
    9 ≤ n ∧ n ≤ bytes.length := by
  unfold frameLen at h
  split at h
  · simp only [Option.some.injEq] at h
    omega
  · cases h

@[simp] theorem header_length (f : Frame) : f.header.length = 9 := by
  simp [Frame.header]

@[simp] theorem encode_length (f : Frame) : f.encode.length = 9 + f.payload.length := by
  simp [Frame.encode]

theorem encode_ne_nil (f : Frame) : f.encode ≠ [] :=
  List.ne_nil_of_length_pos (by rw [encode_length]; omega)

@[simp] theorem encodeAll_nil : encodeAll [] = [] := rfl

@[simp] theorem encodeAll_cons (f : Frame) (fs : List Frame) :
    encodeAll (f :: fs) = f.encode ++ encodeAll fs := rfl

@[simp] theorem encodeAll_append (fs gs : List Frame) :
    encodeAll (fs ++ gs) = encodeAll fs ++ encodeAll gs := List.flatMap_append

theorem encodeAll_ne_nil {fs : List Frame} (h : fs ≠ []) : encodeAll fs ≠ [] := by
  cases fs with
  | nil => exact absurd rfl h
  | cons f fs => simp [encode_ne_nil]

theorem payloads_length_le (fs : List Frame) :
    (fs.map Frame.payload).flatten.length ≤ (encodeAll fs).length := by
  induction fs with
  | nil => exact Nat.le_refl 0
  | cons f fs ih =>
    simp only [List.map_cons, List.flatten_cons, encodeAll_cons, List.length_append, encode_length]
    omega

theorem header_len (f : Frame) : ofBe (f.header.take 3) = f.payload.length := by
  rw [Frame.header, List.append_assoc, List.take_append_of_le_length (by simp),
    List.take_of_length_le (by simp)]
  exact ofBe_toBe (by have := f.fits; omega)

theorem header_kind (f : Frame) : f.header.getD 3 0 = f.kind := rfl

/-! ## Reading frames -/

theorem frameLen_encode (f : Frame) (rest : List UInt8) :
    frameLen (f.encode ++ rest) = some f.encode.length := by
  have htake : (f.encode ++ rest).take 3 = f.header.take 3 := by
    rw [Frame.encode, List.append_assoc, List.take_append_of_le_length (by simp)]
  rw [frameLen, htake, header_len, if_pos (by simp only [List.length_append, encode_length]; omega),
    encode_length]

theorem frameLen_part {f : Frame} {part rest : List UInt8} (h : f.encode = part ++ rest)
    (hne : rest ≠ []) : frameLen part = none := by
  have hpos := List.length_pos_iff.mpr hne
  have hlen := congrArg List.length h
  rw [encode_length, List.length_append] at hlen
  -- the length field is there, and promises more than the part has
  refine if_neg fun ⟨h9, hle⟩ ↦ ?_
  have htake : part.take 3 = f.header.take 3 := by
    have happ : (part ++ rest).take 3 = part.take 3 := List.take_append_of_le_length (by omega)
    rw [← happ, ← h, Frame.encode, List.take_append_of_le_length (by simp)]
  rw [htake, header_len] at hle
  omega

/-- The frame `bytes` start with, if it is whole. -/
def firstFrame (bytes : List UInt8) : Option Frame :=
  if 9 ≤ bytes.length ∧ 9 + ofBe (bytes.take 3) ≤ bytes.length then
    some
      { kind := bytes.getD 3 0
        flags := bytes.getD 4 0
        sid := UInt32.ofNat (ofBe ((bytes.drop 5).take 4))
        payload := (bytes.drop 9).take (ofBe (bytes.take 3))
        fits := by
          have hlt := ofBe_lt (bytes.take 3)
          have hpow := Nat.pow_le_pow_right (show 0 < 256 by decide) (List.length_take_le 3 bytes)
          have hlen := List.length_take_le (ofBe (bytes.take 3)) (bytes.drop 9)
          omega }
  else none

/-- The whole frames `bytes` start with, `todo` of them at most. -/
def framesFrom : (todo : Nat) → List UInt8 → List Frame
  | 0, _ => []
  | todo + 1, bytes =>
    match firstFrame bytes with
    | none => []
    | some f => f :: framesFrom todo (bytes.drop f.encode.length)

def wholeFrames (bytes : List UInt8) : List Frame := framesFrom bytes.length bytes

theorem firstFrame_encode (f : Frame) (rest : List UInt8) :
    firstFrame (f.encode ++ rest) = some f := by
  obtain ⟨kind, flags, sid, payload, fits⟩ := f
  have hlen : ofBe (((⟨kind, flags, sid, payload, fits⟩ : Frame).encode ++ rest).take 3) =
      payload.length := by
    rw [Frame.encode, List.append_assoc, List.take_append_of_le_length (by simp), header_len]
  unfold firstFrame
  simp only [hlen]
  rw [if_pos (by simp only [List.length_append, encode_length]; omega)]
  -- the fields of the header lie one behind the other
  have hsid : ofBe (toBe 4 sid.toNat) = sid.toNat := ofBe_toBe sid.toNat_lt
  simp only [Frame.encode, Frame.header, toBe, List.cons_append, List.nil_append,
    List.drop_succ_cons, List.drop_zero, List.getD_cons_succ, List.getD_cons_zero,
    List.take_succ_cons, List.take_zero, List.take_left, Option.some.injEq, Frame.mk.injEq,
    true_and, and_true]
  rw [toBe, toBe, toBe, toBe, toBe] at hsid
  rw [hsid, UInt32.ofNat_toNat]

theorem encode_append_inj {f g : Frame} {u v : List UInt8} (h : f.encode ++ u = g.encode ++ v) :
    f = g ∧ u = v := by
  have hfirst := congrArg firstFrame h
  rw [firstFrame_encode, firstFrame_encode] at hfirst
  obtain rfl := Option.some.inj hfirst
  exact ⟨rfl, List.append_cancel_left h⟩

theorem firstFrame_eq {bytes : List UInt8} {f : Frame} (h : firstFrame bytes = some f) :
    bytes = f.encode ++ bytes.drop f.encode.length := by
  unfold firstFrame at h
  split at h
  swap
  · cases h
  rename_i hlen
  cases h
  have hpayload : ((bytes.drop 9).take (ofBe (bytes.take 3))).length = ofBe (bytes.take 3) := by
    rw [List.length_take, List.length_drop]
    omega
  rw [encode_length, Frame.encode, Frame.header, hpayload, ← List.drop_drop, List.append_assoc,
    List.take_append_drop]
  -- nine bytes of header, spelled out
  match bytes, hlen with
  | b₀ :: b₁ :: b₂ :: b₃ :: b₄ :: b₅ :: b₆ :: b₇ :: b₈ :: rest, _ =>
    have hlen3 := toBe_ofBe [b₀, b₁, b₂]
    have hsid := toBe_ofBe [b₅, b₆, b₇, b₈]
    have hlt : ofBe [b₅, b₆, b₇, b₈] < 2 ^ 32 :=
      Nat.lt_of_lt_of_le (ofBe_lt [b₅, b₆, b₇, b₈]) (show 256 ^ 4 ≤ 2 ^ 32 by decide)
    simp only [List.take_succ_cons, List.take_zero, List.drop_succ_cons, List.drop_zero,
      List.getD_cons_succ, List.getD_cons_zero, List.length_cons, List.length_nil] at hlen3 hsid ⊢
    rw [hlen3, UInt32.toNat_ofNat', Nat.mod_eq_of_lt hlt, hsid]
    rfl

theorem framesFrom_eq {todo : Nat} {bytes : List UInt8} (h : bytes.length ≤ todo) :
    framesFrom todo bytes = wholeFrames bytes := by
  suffices hsame : ∀ k l bs, bs.length ≤ k → bs.length ≤ l → framesFrom k bs = framesFrom l bs from
    hsame _ _ _ h (Nat.le_refl _)
  intro k
  induction k with
  | zero =>
    intro l bs hk _
    rw [List.eq_nil_of_length_eq_zero (Nat.le_zero.mp hk)]
    cases l <;> rfl
  | succ k ih =>
    intro l bs hk hl
    cases l with
    | zero =>
      rw [List.eq_nil_of_length_eq_zero (Nat.le_zero.mp hl)]
      rfl
    | succ l =>
      simp only [framesFrom]
      cases hf : firstFrame bs with
      | none => rfl
      | some f =>
        simp only [List.cons.injEq, true_and]
        have hpos := encode_length f
        exact ih _ _ (by rw [List.length_drop]; omega) (by rw [List.length_drop]; omega)

theorem wholeFrames_none {bytes : List UInt8} (h : firstFrame bytes = none) :
    wholeFrames bytes = [] := by
  unfold wholeFrames
  cases bytes with
  | nil => rfl
  | cons b bs => rw [List.length_cons, framesFrom, h]

theorem wholeFrames_encode (f : Frame) (rest : List UInt8) :
    wholeFrames (f.encode ++ rest) = f :: wholeFrames rest := by
  have hlen := encode_length f
  rw [wholeFrames, List.length_append,
    show f.encode.length + rest.length = (f.encode.length + rest.length - 1) + 1 by omega,
    framesFrom, firstFrame_encode]
  simp only [List.drop_left]
  rw [framesFrom_eq (by omega)]

theorem wholeFrames_encodeAll (fs : List Frame) (rest : List UInt8) :
    wholeFrames (encodeAll fs ++ rest) = fs ++ wholeFrames rest := by
  induction fs with
  | nil => rfl
  | cons f fs ih =>
    rw [encodeAll_cons, List.append_assoc, wholeFrames_encode, ih, List.cons_append]

theorem wholeFrames_whole (fs : List Frame) : wholeFrames (encodeAll fs) = fs := by
  have hwhole := wholeFrames_encodeAll fs []
  rwa [List.append_nil, show wholeFrames [] = [] from rfl, List.append_nil] at hwhole

/-- The bytes are a number of whole frames. -/
def IsWhole (bytes : List UInt8) : Prop := encodeAll (wholeFrames bytes) = bytes

instance (bytes : List UInt8) : Decidable (IsWhole bytes) := inferInstanceAs (Decidable (_ = _))

theorem IsWhole.wholeFrames_append {front : List UInt8} (h : IsWhole front) (back : List UInt8) :
    wholeFrames (front ++ back) = wholeFrames front ++ wholeFrames back := by
  have hall := wholeFrames_encodeAll (wholeFrames front) back
  rwa [show encodeAll (wholeFrames front) = front from h] at hall

theorem IsWhole.append_iff {front back : List UInt8} (h : IsWhole front) :
    IsWhole (front ++ back) ↔ IsWhole back := by
  unfold IsWhole
  rw [h.wholeFrames_append, encodeAll_append, show encodeAll (wholeFrames front) = front from h,
    List.append_cancel_left_eq]

/-- What is left of whole frames behind whole ones is whole. -/
theorem IsWhole.drop {bytes : List UInt8} {n : Nat} (h : IsWhole bytes)
    (hfront : IsWhole (bytes.take n)) : IsWhole (bytes.drop n) := by
  rwa [← List.take_append_drop n bytes, hfront.append_iff] at h

/-! ## Patching stream ids -/

/-- Where the stream ids of frames lie whose encoding starts at `start`. -/
def sidOffsets : Nat → List Frame → List Nat
  | _, [] => []
  | start, f :: fs => (start + 5) :: sidOffsets (start + f.encode.length) fs

theorem sidOffsets_append (start : Nat) (fs gs : List Frame) :
    sidOffsets start (fs ++ gs) =
      sidOffsets start fs ++ sidOffsets (start + (encodeAll fs).length) gs := by
  induction fs generalizing start with
  | nil => rfl
  | cons f fs ih =>
    rw [List.cons_append, sidOffsets, ih, sidOffsets, encodeAll_cons, List.length_append,
      List.cons_append, Nat.add_assoc]

/-- A stream id lies inside its frame. -/
theorem sidOffsets_lt {start : Nat} {fs : List Frame} {off : Nat} (h : off ∈ sidOffsets start fs) :
    off < start + (encodeAll fs).length := by
  induction fs generalizing start with
  | nil => cases h
  | cons f fs ih =>
    rw [encodeAll_cons, List.length_append, encode_length]
    rcases List.mem_cons.mp h with rfl | h
    · omega
    · have hlt := ih h
      rw [encode_length] at hlt
      omega

theorem overwrite_sid (f : Frame) (sid : UInt32) :
    overwrite f.encode 5 (toBe 4 sid.toNat) = ({ f with sid } : Frame).encode := by
  rw [Frame.encode, overwrite_append (by rw [header_length, toBe_length])]
  rfl

/-- Writing `sid` where the stream ids lie makes every frame one of that stream. -/
theorem patch_sidOffsets (sid : UInt32) (front : List UInt8) (fs : List Frame) :
    (sidOffsets front.length fs).foldl (fun l off ↦ overwrite l off (toBe 4 sid.toNat))
      (front ++ encodeAll fs) = front ++ encodeAll (fs.map ({ · with sid })) := by
  induction fs generalizing front with
  | nil => rfl
  | cons f fs ih =>
    -- the first id lies behind `front` and ahead of the frames to come
    have hfirst : overwrite (front ++ encodeAll (f :: fs)) (front.length + 5) (toBe 4 sid.toNat) =
        front ++ ({ f with sid } : Frame).encode ++ encodeAll fs := by
      rw [encodeAll_cons, overwrite_behind, overwrite_append (by simp), overwrite_sid,
        List.append_assoc]
    have hlen : front.length + f.encode.length =
        (front ++ ({ f with sid } : Frame).encode).length := by
      rw [List.length_append, encode_length, encode_length]
    rw [sidOffsets, List.foldl_cons, hfirst, hlen, ih, List.map_cons, encodeAll_cons,
      List.append_assoc]

end Http2
