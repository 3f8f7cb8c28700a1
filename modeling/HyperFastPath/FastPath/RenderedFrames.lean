import HyperFastPath.FastPath.Render
import HyperFastPath.Lib.Hpack
import Mathlib.Algebra.Order.BigOperators.Group.List

/-!
# The frames of a rendering

What a client makes of the HTTP/2 rendering of a file: the frames, what is in them, and where the
stream ids go.
-/

namespace HyperFastPath.FastPath

open Bytes Http2 Numerals

/-! ## 1. The header block -/

theorem hpackLiteral_eq {nameIdx : UInt8} (h : 15 ≤ nameIdx.toNat) (value : String) :
    hpackLiteral nameIdx value = Hpack.namedLiteral nameIdx.toNat ⟨false, asBytes value⟩ := by
  have hidx : UInt8.ofNat (nameIdx.toNat - 15) = nameIdx - 15 := by
    have hle : 15 ≤ nameIdx := UInt8.le_iff_toNat_le.mpr h
    rw [← UInt8.toNat_inj, UInt8.toNat_sub_of_le _ _ hle,
      UInt8.toNat_ofNat_of_lt' ((Nat.sub_le _ _).trans_lt nameIdx.toNat_lt)]
    rfl
  simp [hpackLiteral, Hpack.namedLiteral, Hpack.shortStr, hidx]

/-- The header block says that the file was found, how long it is and what it is, and leaves the
dynamic table as it was. -/
theorem headersPayload_decodes (file : File) {body : List UInt8} (h : body.length < 2 ^ 63)
    (len : Hpack.Str → Nat) (t : Hpack.Table) :
    Hpack.decodeBlock len Hpack.staticTable t (headersPayload file body) =
      some ([⟨.plain ":status", .plain "200"⟩,
        ⟨.plain "content-length", ⟨false, written body.length⟩⟩,
        ⟨.plain "content-type", .plain (contentType file)⟩], t) := by
  have hdigits := written_length_le (k := 20) (n := body.length) (h.trans (by decide)) (by decide)
  have htype := contentType_length file
  have hpayload : headersPayload file body = UInt8.ofNat (128 + 8) ::
      (Hpack.namedLiteral 28 ⟨false, written body.length⟩ ++
        (Hpack.namedLiteral 31 (.plain (contentType file)) ++ [])) := by
    rw [headersPayload, hpackLiteral_eq (by decide), hpackLiteral_eq (by decide), asBytes_toString,
      List.append_nil]
    rfl
  have hlength : ∃ k, (headersPayload file body).length = k + 3 :=
    ⟨(headersPayload file body).length - 3, by
      simp only [headersPayload, hpackLiteral, List.length_cons, List.length_append]
      omega⟩
  obtain ⟨k, hk⟩ := hlength
  rw [Hpack.decodeBlock, hk, hpayload]
  -- one representation after the other
  have hstatus := @Hpack.decodeRep_indexed len Hpack.staticTable t _
    (show 8 < 127 by decide) (Hpack.namedLiteral 28 ⟨false, written body.length⟩ ++
      (Hpack.namedLiteral 31 (.plain (contentType file)) ++ []))
  rw [show t.lookup Hpack.staticTable 8 = some ⟨.plain ":status", .plain "200"⟩ from rfl,
    Option.map_some] at hstatus
  rw [Hpack.decodeReps_succ _ t (List.cons_ne_nil _ _) hstatus]
  have hlength := @Hpack.decodeRep_namedLiteral len Hpack.staticTable t
    28 (by decide) (by decide) ⟨.plain "content-length", .plain ""⟩ rfl
    ⟨false, written body.length⟩ (by simp only; omega)
    (Hpack.namedLiteral 31 (.plain (contentType file)) ++ [])
  rw [Hpack.decodeReps_succ _ t (Hpack.namedLiteral_ne_nil _ _ _) hlength]
  have htype' := @Hpack.decodeRep_namedLiteral len Hpack.staticTable t
    31 (by decide) (by decide) ⟨.plain "content-type", .plain ""⟩ rfl
    (.plain (contentType file)) (htype.trans_lt (by decide)) []
  rw [Hpack.decodeReps_succ _ t (Hpack.namedLiteral_ne_nil _ _ _) htype']
  cases k <;> rfl

/-! ## 2. The frames -/

theorem dataFrames_ends {chunks : List (List UInt8)} (hc : ∀ c ∈ chunks, c.length < 2 ^ 24)
    (hne : chunks ≠ []) :
    ∃ front last, dataFrames chunks hc = front ++ [last] ∧ last.flags = 0x01 ∧
      ∀ f ∈ front, f.flags = 0x00 := by
  induction chunks with
  | nil => exact absurd rfl hne
  | cons chunk chunks ih =>
    rw [dataFrames]
    cases chunks with
    | nil => exact ⟨[], _, rfl, rfl, fun f hf ↦ by cases hf⟩
    | cons next chunks =>
      obtain ⟨front, last, heq, hlast, hfront⟩ :=
        ih (fun c h ↦ hc c (.tail _ h)) (List.cons_ne_nil _ _)
      refine ⟨_ :: front, last, by rw [heq]; rfl, hlast, fun f hf ↦ ?_⟩
      rcases List.mem_cons.mp hf with rfl | hf
      · rfl
      · exact hfront f hf

theorem responseChunks_ne_nil (body : List UInt8) : responseChunks body ≠ [] := by
  intro hnil
  have hflat := responseChunks_flatten body
  rw [hnil, List.flatten_nil] at hflat
  rw [responseChunks, ← hflat] at hnil
  cases hnil

/-- The client finds one HEADERS frame, which ends the header block but not the stream, and at least
one DATA frame.  These carry the file, are of a size any client accepts, and the last one alone ends
the stream. -/
structure H2Rendering.WellFormed (r : H2Rendering) (file : File) (body : List UInt8) (head : Frame)
    (data : List Frame) : Prop where
  parses : wholeFrames r.body = head :: data
  whole : r.body = encodeAll (head :: data)
  blank : ∀ f ∈ head :: data, f.sid = 0
  headers : head.kind = 0x01 ∧ head.flags = 0x04
  fields : ∃ length, (∀ c ∈ length, IsDigit c) ∧ decimal length = body.length ∧
    ∀ (len : Hpack.Str → Nat) (t : Hpack.Table),
      Hpack.decodeBlock len Hpack.staticTable t head.payload =
        some ([⟨.plain ":status", .plain "200"⟩, ⟨.plain "content-length", ⟨false, length⟩⟩,
          ⟨.plain "content-type", .plain (contentType file)⟩], t)
  sized : ∀ f ∈ data, f.kind = 0x00 ∧ f.payload.length ≤ maxFrameSize
  carries : (data.map Frame.payload).flatten = body
  counts : (data.map (·.payload.length)).sum = r.dataLen
  ends : ∃ front last, data = front ++ [last] ∧ last.flags = 0x01 ∧ ∀ f ∈ front, f.flags = 0x00

theorem dataFrames_counts {chunks : List (List UInt8)} (hc : ∀ c ∈ chunks, c.length < 2 ^ 24) :
    ((dataFrames chunks hc).map (·.payload.length)).sum = chunks.flatten.length := by
  rw [List.length_flatten]
  conv_rhs => rw [← (dataFrames_payloads hc).1, List.map_map]
  rfl

/-- Every file is rendered well formed, with the offsets of the stream ids as 32 bit numbers. -/
theorem wellFormed_of_render {file : File} {body : List UInt8} {r : H2Rendering}
    (hread : file.content = some body) (hlen : body.length < 2 ^ 63)
    (hr : renderH2Response file = .ok r) :
    ∃ head data, r.WellFormed file body head data ∧
      r.sidOffs = (sidOffsets 0 (head :: data)).map (· % 2 ^ 32) := by
  obtain ⟨body', hread', rfl⟩ := renderH2Response_ok hr
  cases hread.symm.trans hread'
  have hholds := renderChunks_response file hlen
  obtain ⟨hpayloads, hkind⟩ := dataFrames_payloads (@responseChunks_fit body)
  refine ⟨headersFrame file body hlen, dataFrames (responseChunks body) responseChunks_fit, ?_,
    hholds.sids⟩
  refine
    { parses := by rw [hholds.body, wholeFrames_whole]
      whole := hholds.body
      blank := hholds.blank
      headers := ⟨rfl, rfl⟩
      fields := ⟨written body.length, (written_spec _).1, (written_spec _).2,
        fun len t ↦ headersPayload_decodes file hlen len t⟩
      sized := fun f hf ↦ ⟨hkind f hf, ?_⟩
      carries := by rw [hpayloads, responseChunks_flatten]
      counts := ?_
      ends := dataFrames_ends _ (responseChunks_ne_nil body) }
  · have hmem : f.payload ∈ responseChunks body := by
      rw [← hpayloads]
      exact List.mem_map_of_mem hf
    exact length_le_of_mem_responseChunks hmem
  · rw [dataFrames_counts, responseChunks_flatten, renderChunks_dataLen]
    rfl

/-- Every file is rendered well formed.  The offsets of the stream ids are kept as 32 bit numbers,
so they are where the stream ids lie exactly as long as all of these lie below `2 ^ 32`. -/
theorem renderH2Response_wellFormed {file : File} {body : List UInt8} {r : H2Rendering}
    (hread : file.content = some body) (hlen : body.length < 2 ^ 63)
    (hr : renderH2Response file = .ok r) :
    ∃ head data, r.WellFormed file body head data ∧
      r.sidOffs = (sidOffsets 0 (head :: data)).map (· % 2 ^ 32) ∧
      (r.sidOffs = sidOffsets 0 (head :: data) ↔
        ∀ off ∈ sidOffsets 0 (head :: data), off < 2 ^ 32) := by
  obtain ⟨head, data, hwell, hsids⟩ := wellFormed_of_render hread hlen hr
  refine ⟨head, data, hwell, hsids, ?_⟩
  rw [hsids]
  constructor
  · intro heq off hoff
    rw [← heq] at hoff
    obtain ⟨off', -, rfl⟩ := List.mem_map.mp hoff
    exact Nat.mod_lt _ (Nat.two_pow_pos 32)
  · exact map_mod_eq

/-- A DATA frame only has room for so much of a file. -/
theorem H2Rendering.WellFormed.length_le {r : H2Rendering} {file : File} {body : List UInt8}
    {head : Frame} {data : List Frame} (h : r.WellFormed file body head data) :
    body.length ≤ data.length * maxFrameSize := by
  have hsum := List.sum_le_card_nsmul (data.map (·.payload.length)) maxFrameSize fun n hn ↦ by
    obtain ⟨f, hf, rfl⟩ := List.mem_map.mp hn
    exact (h.sized f hf).2
  rw [List.length_map, Nat.nsmul_eq_mul] at hsum
  rw [← h.carries, List.length_flatten, List.map_map]
  exact hsum

/-- A page that takes three DATA frames. -/
theorem renderH2Response_wellFormed_frames :
    let body := List.replicate 40000 (0x21 : UInt8)
    let page : File := ⟨some "html", some body⟩
    ∃ r head data, renderH2Response page = .ok r ∧ r.WellFormed page body head data ∧
      3 ≤ data.length ∧ r.sidOffs = (sidOffsets 0 (head :: data)).map (· % 2 ^ 32) := by
  intro body page
  have hlength : body.length = 40000 := List.length_replicate
  have hr : renderH2Response page = .ok (renderChunks (renderHeaders page body)
      (responseChunks body)) := rfl
  obtain ⟨head, data, hwell, hsids, -⟩ :=
    renderH2Response_wellFormed (show page.content = some body from rfl) (by omega) hr
  have hle := hwell.length_le
  rw [hlength, maxFrameSize] at hle
  exact ⟨_, head, data, hr, hwell, by omega, hsids⟩

/-! ## 3. Files that are too long -/

/-- The last frame of a long file starts where no 32 bit number points. -/
theorem H2Rendering.WellFormed.offsets_exceed {r : H2Rendering} {file : File} {body : List UInt8} {head : Frame}
    {data : List Frame} (h : r.WellFormed file body head data) (hlong : 2 ^ 33 ≤ body.length) :
    ∃ off ∈ sidOffsets 0 (head :: data), 2 ^ 32 ≤ off := by
  obtain ⟨front, last, hdata, -, -⟩ := h.ends
  have hlast := (h.sized last (by rw [hdata]; simp)).2
  have hpayloads := payloads_length_le data
  rw [h.carries, hdata, encodeAll_append, List.length_append, encodeAll_cons, encodeAll_nil,
    List.append_nil, encode_length] at hpayloads
  refine ⟨0 + (encodeAll (head :: front)).length + 5, ?_, ?_⟩
  · rw [hdata, ← List.cons_append, sidOffsets_append]
    simp [sidOffsets]
  · rw [encodeAll_cons, List.length_append]
    simp only [maxFrameSize] at hlast
    omega

/-- Not every stream id of it is where the offsets say. -/
theorem H2Rendering.WellFormed.offsets_wrap {r : H2Rendering} {file : File} {body : List UInt8}
    {head : Frame} {data : List Frame} (h : r.WellFormed file body head data)
    (hlong : 2 ^ 33 ≤ body.length) (hread : file.content = some body) (hshort : body.length < 2 ^ 63)
    (hr : renderH2Response file = .ok r) : r.sidOffs ≠ sidOffsets 0 (head :: data) := by
  intro hexact
  obtain ⟨off, hoff, hle⟩ := h.offsets_exceed hlong
  obtain ⟨head', data', -, hsids⟩ := wellFormed_of_render hread hshort hr
  rw [← hexact, hsids] at hoff
  obtain ⟨off', -, rfl⟩ := List.mem_map.mp hoff
  exact absurd (Nat.mod_lt off' (Nat.two_pow_pos 32)) (Nat.not_lt_of_le hle)

/-- A file of eight gigabytes. -/
theorem renderH2Response_wraps :
    let body := List.replicate (2 ^ 33) (0 : UInt8)
    let file : File := ⟨none, some body⟩
    body.length < 2 ^ 63 ∧ ∃ r, renderH2Response file = .ok r ∧
      ¬ ∃ head data, r.WellFormed file body head data ∧ r.sidOffs = sidOffsets 0 (head :: data) := by
  have hlength : (List.replicate (2 ^ 33) (0 : UInt8)).length = 2 ^ 33 := List.length_replicate
  generalize List.replicate (2 ^ 33) (0 : UInt8) = body at hlength
  have hr : renderH2Response ⟨none, some body⟩ =
      .ok (renderChunks (renderHeaders ⟨none, some body⟩ body) (responseChunks body)) := rfl
  have hshort : body.length < 2 ^ 63 := by rw [hlength]; decide
  refine ⟨hshort, _, hr, ?_⟩
  rintro ⟨head, data, hwell, hexact⟩
  exact hwell.offsets_wrap hlength.ge rfl hshort hr hexact

end HyperFastPath.FastPath
