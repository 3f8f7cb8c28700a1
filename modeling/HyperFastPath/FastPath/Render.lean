import HyperFastPath.FastPath.Serve
import HyperFastPath.Lib.Http2
import HyperFastPath.Lib.Layout
import HyperFastPath.Lib.Numerals

/-!
# Rendering the responses

`render_response` and `render_h2_response` of `fast_path.rs`.
-/

namespace HyperFastPath.FastPath

open Bytes Http2 Numerals

/-- The largest DATA frame that is safe to send without having seen the peer's settings. -/
def maxFrameSize : Nat := 16384

/-- The bytes of a string of ASCII characters. -/
def asBytes (s : String) : List UInt8 := s.toList.map fun c ↦ UInt8.ofNat c.toNat

theorem asBytes_append (s t : String) : asBytes (s ++ t) = asBytes s ++ asBytes t := by
  simp [asBytes]

theorem asBytes_toString (n : Nat) : asBytes (toString n) = written n := by
  rw [asBytes, Nat.toString_eq_repr, Nat.toList_repr, written]

/-- A file to serve: the extension of its name, and what reading it yields, if it can be read. -/
structure File where
  extension : Option String
  content : Option (List UInt8)
  deriving DecidableEq, Repr

/-- Why the fast path is not attached. -/
inductive AttachError where
  | dummies (requested : Nat)
  | tooManyRoutes (configured : Nat)
  | pathTooLong (path : List UInt8)
  | unreadable (file : File)
  deriving DecidableEq, Repr

def contentType (file : File) : String :=
  match file.extension with
  | some "html" => "text/html; charset=utf-8"
  | some "js" => "application/javascript"
  | some "css" => "text/css"
  | some "json" => "application/json"
  | _ => "application/octet-stream"

def File.read (file : File) : Except AttachError (List UInt8) :=
  match file.content with
  | some body => .ok body
  | none => .error (.unreadable file)

def renderResponse (file : File) : Except AttachError (List UInt8) :=
  file.read.map fun body ↦
    asBytes ("HTTP/1.1 200 OK\r\nContent-Length: " ++ toString body.length ++
      "\r\nContent-Type: " ++ contentType file ++ "\r\nConnection: keep-alive\r\n\r\n") ++ body

/-- A literal without indexing, which leaves the client's dynamic table alone. -/
def hpackLiteral (nameIdx : UInt8) (value : String) : List UInt8 :=
  [0x0F, nameIdx - 15, UInt8.ofNat (asBytes value).length] ++ asBytes value

/-- A frame whose stream id is still to be patched in. -/
def h2Frame (kind flags : UInt8) (payload : List UInt8) : List UInt8 :=
  toBe 3 payload.length ++ [kind, flags] ++ toBe 4 0 ++ payload

theorem h2Frame_length (kind flags : UInt8) (payload : List UInt8) :
    (h2Frame kind flags payload).length = 9 + payload.length := by
  simp [h2Frame]
  omega

/-- The response as frames, where their stream ids have to be patched in, and how much of it is flow
controlled. -/
structure H2Rendering where
  body : List UInt8
  sidOffs : List Nat
  dataLen : Nat
  sids_fit : ∀ off ∈ sidOffs, off + 4 ≤ body.length
  deriving DecidableEq, Repr

/-- One more DATA frame. -/
def H2Rendering.push (r : H2Rendering) (flags : UInt8) (chunk : List UInt8) : H2Rendering where
  body := r.body ++ h2Frame 0x00 flags chunk
  sidOffs := r.sidOffs ++ [(r.body.length + 5) % 2 ^ 32]
  dataLen := r.dataLen
  sids_fit off hoff := by
    have hmod := Nat.mod_le (r.body.length + 5) (2 ^ 32)
    rw [List.length_append, h2Frame_length]
    rcases List.mem_append.mp hoff with hoff | hoff
    · have := r.sids_fit off hoff
      omega
    · rw [List.mem_singleton] at hoff
      omega

/-- The loop over the chunks, the last of which ends the stream. -/
def renderChunks : H2Rendering → List (List UInt8) → H2Rendering
  | r, [] => r
  | r, chunk :: chunks =>
    renderChunks (r.push (if chunks.isEmpty then 0x01 else 0x00) chunk) chunks

/-- The payload of the HEADERS frame, which starts with `:status: 200`. -/
def headersPayload (file : File) (body : List UInt8) : List UInt8 :=
  0x88 :: (hpackLiteral 28 (toString body.length) ++ hpackLiteral 31 (contentType file))

def renderHeaders (file : File) (body : List UInt8) : H2Rendering where
  -- HEADERS, END_HEADERS
  body := h2Frame 0x01 0x04 (headersPayload file body)
  sidOffs := [5]
  dataLen := body.length
  sids_fit off hoff := by
    rw [List.mem_singleton.mp hoff, h2Frame_length]
    omega

def renderH2Response (file : File) : Except AttachError H2Rendering :=
  file.read.map fun body ↦
    -- an empty body still needs a frame of its own to carry END_STREAM
    let chunks := if body.isEmpty then [[]] else Layout.chunks maxFrameSize body
    renderChunks (renderHeaders file body) chunks

/-! ## 1. The frames of a rendering -/

/-- Writes `sid` over the stream id at every offset. -/
def patchSids (sid : UInt32) (body : List UInt8) (offs : List Nat) : List UInt8 :=
  offs.foldl (fun l off ↦ overwrite l off (toBe 4 sid.toNat)) body

/-- `r` consists of the frames `fs`, none of which belongs to a stream yet. -/
structure H2Rendering.Frames (r : H2Rendering) (fs : List Frame) : Prop where
  body : r.body = encodeAll fs
  sids : r.sidOffs = sidOffsets 0 fs
  blank : ∀ f ∈ fs, f.sid = 0

/-- The same, but for the offsets, which are kept as 32 bit numbers. -/
structure H2Rendering.Holds (r : H2Rendering) (fs : List Frame) : Prop where
  body : r.body = encodeAll fs
  sids : r.sidOffs = (sidOffsets 0 fs).map (· % 2 ^ 32)
  blank : ∀ f ∈ fs, f.sid = 0

theorem h2Frame_eq (f : Frame) (h : f.sid = 0) : h2Frame f.kind f.flags f.payload = f.encode := by
  rw [h2Frame, Frame.encode, Frame.header, h]
  rfl

variable {r : H2Rendering} {fs : List Frame}

theorem push_body (r : H2Rendering) (flags : UInt8) (chunk : List UInt8) :
    (r.push flags chunk).body = r.body ++ h2Frame 0x00 flags chunk := rfl

theorem push_sidOffs (r : H2Rendering) (flags : UInt8) (chunk : List UInt8) :
    (r.push flags chunk).sidOffs = r.sidOffs ++ [(r.body.length + 5) % 2 ^ 32] := rfl

/-- A DATA frame of no stream. -/
def dataFrame (flags : UInt8) (chunk : List UInt8) (h : chunk.length < 2 ^ 24) : Frame :=
  { kind := 0x00, flags, sid := 0, payload := chunk, fits := h }

theorem H2Rendering.Holds.push (hr : r.Holds fs) (flags : UInt8) {chunk : List UInt8}
    (hchunk : chunk.length < 2 ^ 24) :
    (r.push flags chunk).Holds (fs ++ [dataFrame flags chunk hchunk]) where
  body := by
    rw [push_body, hr.body, encodeAll_append, encodeAll_cons, encodeAll_nil, List.append_nil,
      ← h2Frame_eq (dataFrame flags chunk hchunk) rfl]
    rfl
  sids := by
    rw [push_sidOffs, hr.sids, sidOffsets_append, Nat.zero_add, ← hr.body, List.map_append]
    rfl
  blank g hg := by
    rcases List.mem_append.mp hg with hg | hg
    · exact hr.blank g hg
    · rw [List.mem_singleton.mp hg]
      rfl

theorem map_mod_eq {offs : List Nat} (h : ∀ off ∈ offs, off < 2 ^ 32) :
    offs.map (· % 2 ^ 32) = offs :=
  (List.map_congr_left fun off hoff ↦ Nat.mod_eq_of_lt (h off hoff)).trans (List.map_id offs)

/-- In a rendering that is short enough, every offset is where the stream id is. -/
theorem H2Rendering.Holds.frames (hr : r.Holds fs) (hlen : r.body.length < 2 ^ 32) :
    r.Frames fs where
  body := hr.body
  sids := by
    rw [hr.sids]
    refine map_mod_eq fun off hoff ↦ ?_
    have hlt := sidOffsets_lt hoff
    rw [Nat.zero_add, ← hr.body] at hlt
    exact hlt.trans hlen
  blank := hr.blank

/-- Once the stream ids are patched in, every frame of a rendering belongs to the stream. -/
theorem H2Rendering.Frames.patch (hr : r.Frames fs) (sid : UInt32) :
    patchSids sid r.body r.sidOffs = encodeAll (fs.map ({ · with sid })) := by
  rw [hr.body, hr.sids, patchSids]
  exact patch_sidOffsets sid [] fs

/-- The DATA frames a list of chunks is rendered as. -/
def dataFrames : (chunks : List (List UInt8)) → (∀ c ∈ chunks, c.length < 2 ^ 24) → List Frame
  | [], _ => []
  | chunk :: chunks, h =>
    dataFrame (if chunks.isEmpty then 0x01 else 0x00) chunk (h chunk (.head _)) ::
      dataFrames chunks fun c hc ↦ h c (.tail _ hc)

theorem renderChunks_holds (hr : r.Holds fs) {chunks : List (List UInt8)}
    (hc : ∀ c ∈ chunks, c.length < 2 ^ 24) :
    (renderChunks r chunks).Holds (fs ++ dataFrames chunks hc) := by
  induction chunks generalizing r fs with
  | nil => simpa [dataFrames, renderChunks] using hr
  | cons chunk chunks ih =>
    rw [dataFrames, List.append_cons]
    exact ih (hr.push _ (hc chunk (.head _))) fun c h ↦ hc c (.tail _ h)

theorem dataFrames_payloads {chunks : List (List UInt8)} (hc : ∀ c ∈ chunks, c.length < 2 ^ 24) :
    (dataFrames chunks hc).map Frame.payload = chunks ∧ ∀ f ∈ dataFrames chunks hc, f.kind = 0x00 := by
  induction chunks with
  | nil => exact ⟨rfl, by simp [dataFrames]⟩
  | cons chunk chunks ih =>
    obtain ⟨hpayloads, hkind⟩ := ih fun c h ↦ hc c (.tail _ h)
    refine ⟨?_, fun f hf ↦ ?_⟩
    · rw [dataFrames, List.map_cons, hpayloads]
      rfl
    · rcases List.mem_cons.mp hf with rfl | hf
      · rfl
      · exact hkind f hf

theorem renderChunks_dataLen (r : H2Rendering) (chunks : List (List UInt8)) :
    (renderChunks r chunks).dataLen = r.dataLen := by
  induction chunks generalizing r with
  | nil => rfl
  | cons chunk chunks ih => exact ih _

theorem contentType_length (file : File) : (asBytes (contentType file)).length ≤ 32 := by
  unfold contentType
  split <;> decide

theorem headersPayload_length (file : File) {body : List UInt8} (h : body.length < 2 ^ 63) :
    (headersPayload file body).length < 2 ^ 24 := by
  have hdigits := written_length_le (k := 20) (n := body.length) (h.trans (by decide)) (by decide)
  rw [← asBytes_toString] at hdigits
  have htype := contentType_length file
  simp only [headersPayload, hpackLiteral, List.length_cons, List.length_append, List.length_nil]
  omega

/-- The frame of the response's header. -/
def headersFrame (file : File) (body : List UInt8) (h : body.length < 2 ^ 63) : Frame :=
  { kind := 0x01, flags := 0x04, sid := 0, payload := headersPayload file body,
    fits := headersPayload_length file h }

/-- The pieces a file is sent in. -/
def responseChunks (body : List UInt8) : List (List UInt8) :=
  if body.isEmpty then [[]] else Layout.chunks maxFrameSize body

theorem responseChunks_flatten (body : List UInt8) : (responseChunks body).flatten = body := by
  unfold responseChunks
  split
  · rename_i hempty
    rw [List.isEmpty_iff.mp hempty]
    rfl
  · exact Layout.chunks_flatten (by decide) body

theorem length_le_of_mem_responseChunks {body c : List UInt8} (h : c ∈ responseChunks body) :
    c.length ≤ maxFrameSize := by
  unfold responseChunks at h
  split at h
  · rw [List.mem_singleton.mp h]
    exact Nat.zero_le _
  · exact Layout.length_le_of_mem_chunks h

theorem responseChunks_fit {body : List UInt8} : ∀ c ∈ responseChunks body, c.length < 2 ^ 24 :=
  fun c hc ↦ by
    have hle := length_le_of_mem_responseChunks hc
    simp only [maxFrameSize] at hle
    omega

theorem renderH2Response_ok {file : File} {rendering : H2Rendering}
    (h : renderH2Response file = .ok rendering) :
    ∃ body, file.content = some body ∧
      rendering = renderChunks (renderHeaders file body) (responseChunks body) := by
  unfold renderH2Response File.read at h
  cases hcontent : file.content with
  | none =>
    rw [hcontent] at h
    cases h
  | some body =>
    rw [hcontent] at h
    exact ⟨body, rfl, (Except.ok.inj h).symm⟩

/-- A rendering is a HEADERS frame and a DATA frame for each piece of the file. -/
theorem renderChunks_response (file : File) {body : List UInt8} (h : body.length < 2 ^ 63) :
    (renderChunks (renderHeaders file body) (responseChunks body)).Holds
      (headersFrame file body h :: dataFrames (responseChunks body) responseChunks_fit) := by
  have hheaders : (renderHeaders file body).Holds [headersFrame file body h] := by
    refine ⟨?_, rfl, fun f hf ↦ by rw [List.mem_singleton.mp hf]; rfl⟩
    rw [encodeAll_cons, encodeAll_nil, List.append_nil, ← h2Frame_eq (headersFrame file body h) rfl]
    rfl
  exact renderChunks_holds hheaders responseChunks_fit

theorem renderChunks_body_length (r : H2Rendering) (chunks : List (List UInt8)) :
    r.body.length + chunks.flatten.length ≤ (renderChunks r chunks).body.length := by
  induction chunks generalizing r with
  | nil => exact Nat.le_refl _
  | cons chunk chunks ih =>
    have hrest := ih (r.push (if chunks.isEmpty then 0x01 else 0x00) chunk)
    rw [push_body, List.length_append, h2Frame_length] at hrest
    rw [renderChunks, List.flatten_cons, List.length_append]
    omega

/-- The frames of a rendering that is short enough to be served, all of them of no stream yet. -/
theorem renderH2Response_frames {file : File} {rendering : H2Rendering}
    (h : renderH2Response file = .ok rendering) (hfits : rendering.body.length ≤ maxRouteBody) :
    ∃ head data, rendering.Frames (head :: data) ∧ head.kind = 0x01 ∧
      (∀ f ∈ data, f.kind = 0x00) ∧ (data.map Frame.payload).flatten.length = rendering.dataLen := by
  obtain ⟨body, -, rfl⟩ := renderH2Response_ok h
  simp only [maxRouteBody, maxChunks, chunk] at hfits
  -- the file is part of the rendering
  have hbody := renderChunks_body_length (renderHeaders file body) (responseChunks body)
  rw [responseChunks_flatten] at hbody
  have hholds := renderChunks_response file (show body.length < 2 ^ 63 by omega)
  obtain ⟨hpayloads, hkind⟩ := dataFrames_payloads (@responseChunks_fit body)
  refine ⟨_, _, hholds.frames (by omega), rfl, hkind, ?_⟩
  rw [hpayloads, responseChunks_flatten, renderChunks_dataLen]
  rfl

end HyperFastPath.FastPath
