import HyperFastPath.FastPath.FlowControl

/-!
# Answering a request

`serve_route` and `try_serve_route` of `fast_path.bpf.c`: the request at the front of a message is
resized to the pre-rendered response, the response is copied over it and the message is sent back.
-/

namespace HyperFastPath.FastPath

open Bytes

def maxRoutes : Nat := 16

def maxRoutePath : Nat := 64

/-- The most bytes added to or read from a message in one go. -/
def chunk : Nat := 32768

/-- The most chunks a response is built from. -/
def maxChunks : Nat := 14

def maxRouteBody : Nat := maxChunks * chunk

/-- The most stream ids a response carries. -/
def maxSidOffs : Nat := 32

/-- How many bytes one turn of the copy loop moves. -/
def copyBlock : Nat := 256

/-- `struct route`.  The stream ids of the HTTP/2 rendering lie inside it. -/
structure Route where
  bodyOff : Nat
  bodyLen : Nat
  h2BodyOff : Nat
  h2BodyLen : Nat
  h2SidOffs : List Nat
  h2SidCount : Nat
  h2DataLen : Nat
  sids_fit : ∀ i < h2SidCount, i < maxSidOffs → h2SidOffs.getD i 0 + 4 ≤ h2BodyLen

/-- The responses and how they are found: `routes`, the `route_idx` map and the arena. -/
structure Routes where
  routes : Fin maxRoutes → Route
  routeIdx : List UInt8 → Option UInt8
  arena : Nat → UInt8

/-- `write_sid`, for the `i`th stream id of a response. -/
def writeSid (h : Helpers) (i : Nat) (msg : SkMsg) (off : Nat) (sid : UInt32) : Option SkMsg :=
  if off + 4 > maxRouteBody then none
  else
    match msg.pull (h.ok (.pullSid i)) off (off + 4) with
    | none => none
    | some msg => if ¬ msg.Reaches 4 then none else some (msg.put 0 (toBe 4 sid.toNat))

/-- `copy_chunk`: `len` bytes of `src` into the window, whole blocks first. -/
def copyChunk (msg : SkMsg) (src : Nat → UInt8) (len : Nat) : Option SkMsg :=
  let blocks : Except Unit (Nat × SkMsg) := Loops.run (chunk / copyBlock) (fun b (done, msg) ↦
    let off := b * copyBlock
    if off + copyBlock > len then .stop (done, msg)
    else if ¬ msg.Reaches (off + copyBlock) then .ret ()
    else
      .next (off + copyBlock, msg.put off ((List.range copyBlock).map fun k ↦ src (off + k))))
    (0, msg)
  match blocks with
  | .error _ => none
  | .ok (done, msg) =>
    -- byte by byte from where the blocks end
    let rest : Except Unit SkMsg := Loops.run copyBlock (fun k msg ↦
      let off := done + k
      if len ≤ off then .stop msg
      else if ¬ msg.Reaches (off + 1) then .ret ()
      else .next (msg.put off [src off])) msg
    rest.toOption

/-- The part of `serve_route` that makes the request as long as the response.  The loop pushes at
the end of what the request has grown to. -/
def resizeRequest (h : Helpers) (msg : SkMsg) (bodyLen reqLen : Nat) : Except (Int × SkMsg) SkMsg :=
  let origSize := msg.size
  if bodyLen > reqLen then
    let target := origSize + (bodyLen - reqLen)
    let grown := Loops.run maxChunks (fun i msg ↦
      let size := msg.size
      if target ≤ size then .stop msg
      else
        let grow := if target - size > chunk then chunk else target - size
        let stop := reqLen + (size - origSize)
        match msg.push (h.ok (.pushRoute i)) (h.inserted (.pushRoute i)) stop grow with
        -- as long as nothing was pushed the message can still be forwarded
        | none => .ret (if i = 0 then -1 else -2, msg)
        | some msg => .next msg) msg
    match grown with
    | .error r => .error r
    | .ok msg => if msg.size ≠ target then .error (-2, msg) else .ok msg
  else if bodyLen < reqLen then
    match msg.pop (h.ok .popRoute) bodyLen (reqLen - bodyLen) with
    | none => .error (-1, msg)
    | some msg => .ok msg
  else .ok msg

/-- The part of `serve_route` that copies the response in, one window at a time. -/
def copyResponse (h : Helpers) (msg : SkMsg) (src : Nat → UInt8) (bodyLen : Nat) :
    Except (Int × SkMsg) SkMsg :=
  Loops.run maxChunks (fun c msg ↦
    let off := c * chunk
    if bodyLen ≤ off then .stop msg
    else
      let len := if bodyLen - off > chunk then chunk else bodyLen - off
      match msg.pull (h.ok (.pullRoute c)) off (off + len) with
      | none => .ret (-2, msg)
      | some msg =>
        match copyChunk msg (fun k ↦ src (off + k)) len with
        | none => .ret (-2, msg)
        | some msg => .next msg) msg

/-- The part of `serve_route` that fills in the stream ids. -/
def writeSids (h : Helpers) (msg : SkMsg) (r : Route) (sid : UInt32) :
    Except (Int × SkMsg) SkMsg :=
  Loops.run maxSidOffs (fun i msg ↦
    if r.h2SidCount ≤ i then .stop msg
    else
      match writeSid h i msg (r.h2SidOffs.getD (clamp i 0 (maxSidOffs - 1)) 0) sid with
      | none => .ret (-2, msg)
      | some msg => .next msg) msg

/-- Whether the client's windows have room for a response. -/
def H2Flow.HasRoom (fc : H2Flow) (dataLen : Nat) : Prop :=
  ¬ (fc.connWindow < 0 ∨ fc.connWindow.toNat < dataLen ∨ fc.streamWindow < dataLen)

instance (fc : H2Flow) (dataLen : Nat) : Decidable (fc.HasRoom dataLen) :=
  inferInstanceAs (Decidable (¬ _))

def H2Flow.spend (fc : H2Flow) (dataLen : Nat) : H2Flow :=
  { fc with
    connWindow := fc.connWindow - dataLen
    unreported := fc.unreported + UInt32.ofNat dataLen }

/-- What `serve_route` does once it has decided to serve. -/
def rewriteRequest (h : Helpers) (arena : Nat → UInt8) (msg : SkMsg) (r : Route) (sid : UInt32)
    (reqLen : Nat) : Except (Int × SkMsg) SkMsg :=
  let isH2 := sid ≠ 0
  let bodyLen := if isH2 then r.h2BodyLen else r.bodyLen
  let bodyOff := if isH2 then r.h2BodyOff else r.bodyOff
  (resizeRequest h msg bodyLen reqLen).bind fun msg ↦
  (copyResponse h msg (fun k ↦ arena (bodyOff + k)) bodyLen).bind fun msg ↦
  (if isH2 then writeSids h msg r sid else .ok msg).bind fun msg ↦
  match msg.redirectTo (h.ok .redirectEgress) .egress with
  | none => .error (-2, msg)
  | some msg => .ok (msg.apply bodyLen)

/-- `serve_route`: what it returns, the message and the connection's flow control after it. -/
def serveRoute (h : Helpers) (arena : Nat → UInt8) (flow : Option H2Flow) (msg : SkMsg) (r : Route)
    (sid : UInt32) (reqLen : Nat) : Int × SkMsg × Option H2Flow :=
  let isH2 := sid ≠ 0
  let bodyLen := if isH2 then r.h2BodyLen else r.bodyLen
  if bodyLen = 0 ∨ bodyLen > maxRouteBody then (-1, msg, flow)
  else if isH2 ∧ ¬ flow.any (fun fc ↦ fc.HasRoom r.h2DataLen) then (-1, msg, flow)
  else if reqLen = 0 ∨ reqLen > msg.size then (-1, msg, flow)
  else
    match rewriteRequest h arena msg r sid reqLen with
    | .error (res, msg) => (res, msg, flow)
    | .ok msg => (0, msg, if isH2 then flow.map (·.spend r.h2DataLen) else flow)

/-- The path, zero padded so that it can be looked up. -/
def routeKey (path : List UInt8) : List UInt8 :=
  path ++ List.replicate (maxRoutePath - path.length) 0

/-- `try_serve_route`. -/
def tryServeRoute (h : Helpers) (cfg : Routes) (flow : Option H2Flow) (msg : SkMsg)
    (path : List UInt8) (sid : UInt32) (reqLen : Nat) : Int × SkMsg × Option H2Flow :=
  if path.length = 0 ∨ path.length > maxRoutePath then (-1, msg, flow)
  else if h.ok .readPath = false then (-1, msg, flow)
  else
    match cfg.routeIdx (routeKey path) with
    | none => (-1, msg, flow)
    | some idx =>
      let i : Fin maxRoutes := ⟨min idx.toNat (maxRoutes - 1), by
        have := Nat.min_le_right idx.toNat (maxRoutes - 1)
        simp only [maxRoutes] at *
        omega⟩
      serveRoute h cfg.arena flow msg (cfg.routes i) sid reqLen

/-! ## 1. Copying -/

private theorem map_range_add (f : Nat → UInt8) (a b : Nat) :
    (List.range (a + b)).map f = (List.range a).map f ++ (List.range b).map fun k ↦ f (a + k) := by
  rw [List.range_add, List.map_append, List.map_map]
  rfl

/-- A store that goes on where the last one ended. -/
private theorem put_range {m : SkMsg} (f : Nat → UInt8) {a : Nat} (b : Nat)
    (h : m.data + a ≤ m.size) :
    (m.put 0 ((List.range a).map f)).put a ((List.range b).map fun k ↦ f (a + k)) =
      m.put 0 ((List.range (a + b)).map f) := by
  have hput := put_put (m := m) (a := (List.range a).map f)
    (b := (List.range b).map fun k ↦ f (a + k)) (by simpa using h)
  rw [List.length_map, List.length_range] at hput
  rw [hput, map_range_add]

theorem copyChunk_eq {msg : SkMsg} {len : Nat} (hend : msg.dataEnd = msg.data + len)
    (hlen : len ≤ chunk) (hsize : msg.data + len ≤ msg.size) (src : Nat → UInt8) :
    copyChunk msg src len = some (msg.put 0 ((List.range len).map src)) := by
  have hreaches (n k : Nat) (new : List UInt8) (h : n ≤ len) : (msg.put k new).Reaches n := by
    simp only [SkMsg.Reaches, SkMsg.put_data, SkMsg.put_dataEnd]
    omega
  unfold copyChunk
  simp only
  generalize hblocks : Loops.run (chunk / copyBlock) _ (0, msg) = blocks
  -- the whole blocks
  have hwhole : Loops.Ends
      (fun t : Nat × SkMsg ↦ t.1 ≤ len ∧ len < t.1 + copyBlock ∧
        t.2 = msg.put 0 ((List.range t.1).map src)) (fun _ ↦ False) blocks := by
    rw [← hblocks]
    refine Loops.run_rule (I := fun b t ↦ t.1 = b * copyBlock ∧ t.1 ≤ len ∧
      t.2 = msg.put 0 ((List.range t.1).map src)) ⟨by simp, Nat.zero_le _, ?_⟩ ?_ ?_
    · simp [SkMsg.put]
    · rintro b ⟨done, m⟩ _ ⟨hdone, hle, hm⟩
      simp only at hdone hle hm
      subst hdone hm
      simp only
      split
      · exact ⟨hle, by omega, rfl⟩
      · rw [if_neg (not_not.mpr (hreaches _ _ _ (by omega)))]
        refine ⟨by simp only; ring, by simp only; omega, ?_⟩
        exact put_range src copyBlock (by omega)
    · rintro ⟨done, m⟩ ⟨hdone, hle, hm⟩
      refine ⟨hle, ?_, hm⟩
      simp only [chunk, copyBlock] at hdone hlen ⊢
      omega
  cases blocks with
  | error _ => exact hwhole.elim
  | ok t =>
    obtain ⟨done, m⟩ := t
    obtain ⟨hle, hlt, hm⟩ := hwhole
    simp only at hle hlt hm ⊢
    subst hm
    -- what they leave behind
    rw [Loops.run_eq_ok (t := msg.put 0 ((List.range len).map src))]
    · rfl
    · refine Loops.run_rule (I := fun k m ↦ done + k ≤ len ∧
        m = msg.put 0 ((List.range (done + k)).map src)) ⟨hle, rfl⟩ ?_ ?_
      · rintro k m _ ⟨hk, rfl⟩
        split
        · rw [show done + k = len by omega]
          rfl
        · rw [if_neg (not_not.mpr (hreaches _ _ _ (by omega)))]
          exact ⟨by omega, by simpa [← Nat.add_assoc] using put_range src 1 (by omega)⟩
      · rintro m ⟨hk, -⟩
        omega

/-! ## 2. The response -/

/-- `m'` is `m` with its first `n` bytes replaced. -/
def SkMsg.Replaced (m m' : SkMsg) (n : Nat) (front : List UInt8) : Prop :=
  m'.bytes = front ++ m.bytes.drop n ∧ m'.applyBytes = m.applyBytes ∧ m'.redirect = m.redirect

/-- The stream ids filled in. -/
def Route.withSid (r : Route) (sid : UInt32) (body : List UInt8) (n : Nat) : List UInt8 :=
  (List.range n).foldl (fun l i ↦ overwrite l (r.h2SidOffs.getD i 0) (toBe 4 sid.toNat)) body

/-- What a route answers with. -/
def Route.response (r : Route) (arena : Nat → UInt8) (sid : UInt32) : List UInt8 :=
  if sid ≠ 0 then
    r.withSid sid ((List.range r.h2BodyLen).map fun k ↦ arena (r.h2BodyOff + k))
      (min r.h2SidCount maxSidOffs)
  else (List.range r.bodyLen).map fun k ↦ arena (r.bodyOff + k)

theorem withSid_succ (r : Route) (sid : UInt32) (body : List UInt8) (n : Nat) :
    r.withSid sid body (n + 1) =
      overwrite (r.withSid sid body n) (r.h2SidOffs.getD n 0) (toBe 4 sid.toNat) := by
  rw [Route.withSid, List.range_succ, List.foldl_append]
  rfl

theorem withSid_length (r : Route) (sid : UInt32) {body : List UInt8}
    (hb : body.length = r.h2BodyLen) {n : Nat} (hn : n ≤ r.h2SidCount) (hm : n ≤ maxSidOffs) :
    (r.withSid sid body n).length = r.h2BodyLen := by
  induction n with
  | zero => exact hb
  | succ n ih =>
    have hl := ih (by omega) (by omega)
    have hfit := r.sids_fit n (by omega) (by omega)
    rw [withSid_succ, overwrite_length (by rw [toBe_length]; omega), hl]

theorem response_length (r : Route) (arena : Nat → UInt8) (sid : UInt32) :
    (r.response arena sid).length = if sid ≠ 0 then r.h2BodyLen else r.bodyLen := by
  rw [Route.response]
  split
  · exact withSid_length r sid (by simp) (Nat.min_le_left _ _) (Nat.min_le_right _ _)
  · simp

/-! ## 3. Rewriting the request -/

private theorem piece_eq (a c : Nat) : (if a > c then c else a) = min a c := by
  split <;> omega

/-- One more piece of at most `c` bytes on the way to `n`. -/
private theorem min_succ_mul (i c n : Nat) :
    min (i * c) n + min (n - min (i * c) n) c = min ((i + 1) * c) n := by
  rw [Nat.succ_mul]
  omega

variable {h : Helpers} {msg : SkMsg} {bodyLen reqLen : Nat}

/-- A step of `serve_route` that gives up, which takes a helper that fails: it has not touched the
message yet, or it is past saving. -/
def GivesUp (h : Helpers) (msg : SkMsg) (t : Int × SkMsg) : Prop :=
  (t = (-1, msg) ∨ t.1 = -2) ∧ ¬ h.AllOk

/-- The message with `added` behind its first `reqLen` bytes. -/
def SkMsg.grown (msg : SkMsg) (reqLen : Nat) (added : List UInt8) : SkMsg :=
  msg.withBytes (msg.bytes.take reqLen ++ added ++ msg.bytes.drop reqLen)

@[simp] theorem grown_nil (msg : SkMsg) (reqLen : Nat) : msg.grown reqLen [] = msg := by
  simp [SkMsg.grown, SkMsg.withBytes]

theorem front_length (hreq : reqLen ≤ msg.size) (added : List UInt8) :
    (msg.bytes.take reqLen ++ added).length = reqLen + added.length := by
  simp only [List.length_append, List.length_take, SkMsg.size] at hreq ⊢
  omega

theorem grown_size (hreq : reqLen ≤ msg.size) (added : List UInt8) :
    (msg.grown reqLen added).size = msg.size + added.length := by
  rw [SkMsg.grown, SkMsg.size_withBytes, List.length_append, front_length hreq, List.length_drop]
  simp only [SkMsg.size] at hreq ⊢
  omega

/-- What is pushed at the end of what was added is added to it. -/
theorem grown_push (hreq : reqLen ≤ msg.size) (added : List UInt8) (inserted : Nat → UInt8)
    (len : Nat) :
    (msg.grown reqLen added).push true inserted (reqLen + added.length) len =
      some (msg.grown reqLen (added ++ (List.range len).map inserted)) := by
  rw [SkMsg.push, if_pos ⟨rfl, by rw [grown_size hreq]; omega⟩]
  simp only [SkMsg.grown, SkMsg.bytes_withBytes]
  rw [← front_length hreq added, List.take_left, List.drop_left]
  simp only [SkMsg.withBytes, List.append_assoc]

theorem resizeRequest_ends (hreq : reqLen ≤ msg.size) (hbody : bodyLen ≤ maxRouteBody) :
    Loops.Ends (fun m ↦ ∃ front, front.length = bodyLen ∧ msg.Replaced m reqLen front)
      (GivesUp h msg) (resizeRequest h msg bodyLen reqLen) := by
  unfold resizeRequest
  simp only
  split
  · rename_i hgt
    generalize hgrown : Loops.run maxChunks _ msg = grown
    -- after `i` turns `added` bytes stand between the request and the rest
    have hgrow : Loops.Ends
        (fun m ↦ ∃ added, added.length = bodyLen - reqLen ∧ m = msg.grown reqLen added)
        (GivesUp h msg) grown := by
      rw [← hgrown]
      refine Loops.run_rule (I := fun i m ↦ ∃ added : List UInt8,
        added.length = min (i * chunk) (bodyLen - reqLen) ∧ m = msg.grown reqLen added)
        ⟨[], by simp, (grown_nil _ _).symm⟩ ?_ ?_
      · rintro i m - ⟨added, hadded, rfl⟩
        split
        · rename_i hdone
          rw [grown_size hreq] at hdone
          exact ⟨added, by omega, rfl⟩
        · simp only [grown_size hreq, Nat.add_sub_cancel_left, piece_eq, Nat.add_sub_add_left]
          cases hok : h.ok (.pushRoute i) with
          | false =>
            simp only [SkMsg.push, Bool.false_eq_true, false_and, if_false]
            refine ⟨?_, not_allOk hok⟩
            by_cases hi : i = 0
            · subst hi
              have hnil : added = [] := List.eq_nil_of_length_eq_zero (by omega)
              simp [hnil]
            · exact .inr (if_neg hi)
          | true =>
            rw [grown_push hreq]
            refine ⟨_, ?_, rfl⟩
            simp only [List.length_append, List.length_map, List.length_range]
            rw [hadded, min_succ_mul]
      · rintro m ⟨added, hadded, rfl⟩
        refine ⟨added, ?_, rfl⟩
        rw [maxRouteBody] at hbody
        omega
    cases grown with
    | error r => exact hgrow
    | ok m =>
      obtain ⟨added, hadded, rfl⟩ := hgrow
      simp only
      rw [if_neg (by rw [grown_size hreq]; omega)]
      exact ⟨_, by rw [front_length hreq]; omega, rfl, rfl, rfl⟩
  -- the request is longer than the response, or as long
  · split
    · cases hok : h.ok .popRoute with
      | false =>
        simp only [SkMsg.pop, Bool.false_eq_true, false_and, if_false]
        exact ⟨.inl rfl, not_allOk hok⟩
      | true =>
        rw [SkMsg.pop, if_pos ⟨rfl, by omega⟩]
        refine ⟨msg.bytes.take bodyLen, ?_, ?_, rfl, rfl⟩
        · simp only [SkMsg.size, List.length_take] at hreq ⊢
          omega
        · rw [SkMsg.bytes_withBytes, show bodyLen + (reqLen - bodyLen) = reqLen by omega]
    · have heq : bodyLen = reqLen := by omega
      subst heq
      refine ⟨msg.bytes.take bodyLen, ?_, (List.take_append_drop _ _).symm, rfl, rfl⟩
      simp only [SkMsg.size, List.length_take] at hreq ⊢
      omega

theorem copyResponse_ends {front tail : List UInt8} (hbytes : msg.bytes = front ++ tail)
    (hfront : front.length = bodyLen) (hbody : bodyLen ≤ maxRouteBody) (src : Nat → UInt8) :
    Loops.Ends (fun m ↦ m.bytes = (List.range bodyLen).map src ++ tail ∧
        m.applyBytes = msg.applyBytes ∧ m.redirect = msg.redirect)
      (fun t ↦ t.1 = -2 ∧ ¬ h.AllOk) (copyResponse h msg src bodyLen) := by
  have hsize : bodyLen ≤ msg.size := by
    rw [SkMsg.size, hbytes, List.length_append]
    omega
  unfold copyResponse
  -- after `c` turns the first `c` chunks are in place
  refine Loops.run_rule (I := fun c m ↦
    m.bytes = overwrite msg.bytes 0 ((List.range (min (c * chunk) bodyLen)).map src) ∧
      m.applyBytes = msg.applyBytes ∧ m.redirect = msg.redirect) ⟨by simp, rfl, rfl⟩ ?_ ?_
  · rintro c m - ⟨hm, happly, hredir⟩
    have hall (k : Nat) (hk : bodyLen ≤ k * chunk) :
        overwrite msg.bytes 0 ((List.range (min (k * chunk) bodyLen)).map src) =
          (List.range bodyLen).map src ++ tail := by
      rw [Nat.min_eq_right hk, overwrite_zero, List.length_map, List.length_range, hbytes,
        ← hfront, List.drop_left]
    simp only
    split
    · rename_i hdone
      exact ⟨hm.trans (hall c hdone), happly, hredir⟩
    · rename_i hlt
      have hmsize : m.size = msg.size := by
        rw [SkMsg.size, hm, overwrite_length]
        · rfl
        · rw [List.length_map, List.length_range, ← SkMsg.size]
          omega
      have hlen := min_succ_mul c chunk bodyLen
      rw [Nat.min_eq_left (by omega)] at hlen
      have hpos : 0 < min (bodyLen - c * chunk) chunk := Nat.lt_min.mpr ⟨by omega, by decide⟩
      have hchunk := Nat.min_le_right (bodyLen - c * chunk) chunk
      have hleft := Nat.min_le_left (bodyLen - c * chunk) chunk
      rw [piece_eq]
      generalize min (bodyLen - c * chunk) chunk = len at *
      generalize c * chunk = off at *
      have hend : off + len ≤ m.size := by
        rw [hmsize, hlen]
        exact (Nat.min_le_right _ _).trans hsize
      rw [pull_eq _ (Nat.lt_add_of_pos_right hpos) hend]
      cases hok : h.ok (.pullRoute c) with
      | false => exact ⟨rfl, not_allOk hok⟩
      | true =>
        simp only [if_true]
        rw [copyChunk_eq (by rfl) hchunk hend]
        refine ⟨?_, happly, hredir⟩
        simp only [SkMsg.put, hm, Nat.add_zero]
        -- the chunk goes on where the copy so far ends
        have hadj := overwrite_adjacent (l := msg.bytes) (p := 0)
          (a := (List.range off).map src) (b := (List.range len).map fun k ↦ src (off + k)) (by
            rw [List.length_map, List.length_range, Nat.zero_add, ← SkMsg.size, ← hmsize]
            exact (Nat.le_add_right _ _).trans hend)
        rw [List.length_map, List.length_range, Nat.zero_add, ← map_range_add] at hadj
        rw [Nat.min_eq_left (by omega), hadj, hlen]
  · rintro m ⟨hm, happly, hredir⟩
    refine ⟨?_, happly, hredir⟩
    rw [hm, Nat.min_eq_right (by simpa only [maxRouteBody] using hbody), overwrite_zero,
      List.length_map, List.length_range, hbytes, ← hfront, List.drop_left]

variable (h) in
theorem writeSid_eq (i : Nat) {off : Nat} (sid : UInt32) (hsize : off + 4 ≤ msg.size)
    (hbody : off + 4 ≤ maxRouteBody) :
    (h.ok (.pullSid i) = false ∧ writeSid h i msg off sid = none) ∨
      ∃ m, writeSid h i msg off sid = some m ∧
        m.bytes = overwrite msg.bytes off (toBe 4 sid.toNat) ∧ m.applyBytes = msg.applyBytes ∧
        m.redirect = msg.redirect := by
  rw [writeSid, pull_eq _ (by omega) hsize, if_neg (by omega)]
  cases h.ok (.pullSid i) with
  | false => exact .inl ⟨rfl, rfl⟩
  | true => exact .inr ⟨_, if_neg (by simp [SkMsg.Reaches]), rfl, rfl, rfl⟩

theorem writeSids_ends {r : Route} {body tail : List UInt8} (hbytes : msg.bytes = body ++ tail)
    (hlen : body.length = r.h2BodyLen) (hbody : r.h2BodyLen ≤ maxRouteBody) (sid : UInt32) :
    Loops.Ends (fun m ↦
        m.bytes = r.withSid sid body (min r.h2SidCount maxSidOffs) ++ tail ∧
          m.applyBytes = msg.applyBytes ∧ m.redirect = msg.redirect)
      (fun t ↦ t.1 = -2 ∧ ¬ h.AllOk) (writeSids h msg r sid) := by
  unfold writeSids
  refine Loops.run_rule (I := fun i m ↦ i ≤ r.h2SidCount ∧
    m.bytes = r.withSid sid body i ++ tail ∧
      m.applyBytes = msg.applyBytes ∧ m.redirect = msg.redirect)
    ⟨Nat.zero_le _, hbytes, rfl, rfl⟩ ?_ ?_
  · rintro i m hi ⟨hle, hm, happly, hredir⟩
    split
    · rw [Nat.min_eq_left (by omega), show r.h2SidCount = i by omega]
      exact ⟨hm, happly, hredir⟩
    -- the response keeps its length, so the stream id's place is still inside it
    · have hfit := r.sids_fit i (by omega) hi
      have hwritten := withSid_length r sid hlen hle (by omega)
      have hsize : r.h2BodyLen ≤ m.size := by
        rw [SkMsg.size, hm, List.length_append]
        omega
      rw [clamp_eq (by omega)]
      rcases writeSid_eq h i sid (hfit.trans hsize) (hfit.trans hbody) with
        ⟨hok, hnone⟩ | ⟨m', hsome, hm', happly', hredir'⟩
      · simp only [hnone]
        exact ⟨rfl, not_allOk hok⟩
      · simp only [hsome]
        refine ⟨by omega, ?_, happly'.trans happly, hredir'.trans hredir⟩
        rw [hm', hm, overwrite_append (by rw [toBe_length]; omega), withSid_succ]
  · rintro m ⟨hle, hm, happly, hredir⟩
    rw [Nat.min_eq_right hle]
    exact ⟨hm, happly, hredir⟩

/-! ## 4. Serving -/

variable (h) in
theorem rewriteRequest_ends (r : Route) (sid : UInt32) (hreq : reqLen ≤ msg.size)
    (hbody : (if sid ≠ 0 then r.h2BodyLen else r.bodyLen) ≤ maxRouteBody) (arena : Nat → UInt8) :
    Loops.Ends (fun m ↦ m.bytes = r.response arena sid ++ msg.bytes.drop reqLen ∧
        m.applyBytes = (r.response arena sid).length ∧ m.redirect = some .egress)
      (GivesUp h msg) (rewriteRequest h arena msg r sid reqLen) := by
  have hfail (t : Int × SkMsg) (ht : t.1 = -2 ∧ ¬ h.AllOk) : GivesUp h msg t := ⟨.inr ht.1, ht.2⟩
  unfold rewriteRequest
  apply (resizeRequest_ends hreq hbody).bind
  rintro m₁ ⟨front, hfront, hm₁, -, -⟩
  refine ((copyResponse_ends hm₁ hfront hbody _).mono (fun _ ↦ id) hfail).bind ?_
  rintro m₂ ⟨hm₂, -, -⟩
  have hsids : Loops.Ends (fun m : SkMsg ↦ m.bytes = r.response arena sid ++ msg.bytes.drop reqLen)
      (GivesUp h msg) (if sid ≠ 0 then writeSids h m₂ r sid else .ok m₂) := by
    rw [Route.response]
    split
    · rename_i hsid
      -- over HTTP/2 the copy still has the stream ids of the route
      simp only [if_pos hsid] at hm₂ hbody
      exact (writeSids_ends hm₂ (by simp) hbody sid).mono (fun _ hm ↦ hm.1) hfail
    · rename_i hsid
      simp only [if_neg hsid] at hm₂
      exact hm₂
  apply hsids.bind
  intro m₃ hm₃
  cases hok : h.ok .redirectEgress with
  | false => exact ⟨.inr rfl, not_allOk hok⟩
  | true => exact ⟨hm₃, (response_length r arena sid).symm, rfl⟩

/-- What `serve_route` and its caller check of a route before they touch the message. -/
def Route.Suits (r : Route) (flow : Option H2Flow) (sid : UInt32) (reqLen size : Nat) : Prop :=
  (if sid ≠ 0 then r.h2BodyLen else r.bodyLen) ≠ 0 ∧
    (if sid ≠ 0 then r.h2BodyLen else r.bodyLen) ≤ maxRouteBody ∧
    (sid ≠ 0 → flow.any (fun fc ↦ fc.HasRoom r.h2DataLen)) ∧ reqLen ≠ 0 ∧ reqLen ≤ size

instance (r : Route) (flow : Option H2Flow) (sid : UInt32) (reqLen size : Nat) :
    Decidable (r.Suits flow sid reqLen size) := inferInstanceAs (Decidable (_ ∧ _))

/-- The flow control after an answer. -/
def Route.spent (r : Route) (sid : UInt32) (flow : Option H2Flow) : Option H2Flow :=
  if sid ≠ 0 then flow.map (·.spend r.h2DataLen) else flow

/-- What `serve_route` comes to: it gives the message up, leaves everything as it was, or has put
the response in the place of the request. -/
theorem serveRoute_cases (h : Helpers) (arena : Nat → UInt8) (flow : Option H2Flow) (msg : SkMsg)
    (r : Route) (sid : UInt32) (reqLen : Nat) :
    ((serveRoute h arena flow msg r sid reqLen).1 = -2 ∧
        (serveRoute h arena flow msg r sid reqLen).2.2 = flow ∧ ¬ h.AllOk) ∨
      (serveRoute h arena flow msg r sid reqLen = (-1, msg, flow) ∧
        (h.AllOk → ¬ r.Suits flow sid reqLen msg.size)) ∨
      ∃ msg', serveRoute h arena flow msg r sid reqLen = (0, msg', r.spent sid flow) ∧
        r.Suits flow sid reqLen msg.size ∧
        msg'.bytes = r.response arena sid ++ msg.bytes.drop reqLen ∧
        msg'.applyBytes = (r.response arena sid).length ∧ msg'.redirect = some .egress := by
  unfold serveRoute Route.Suits Route.spent
  simp only
  have hlen := response_length r arena sid
  generalize (if sid ≠ 0 then r.h2BodyLen else r.bodyLen) = bodyLen at hlen
  by_cases hbody : bodyLen = 0 ∨ bodyLen > maxRouteBody
  · rw [if_pos hbody]
    exact .inr (.inl ⟨rfl, fun _ hs ↦ by omega⟩)
  rw [if_neg hbody]
  -- the window has no room for the response
  by_cases hroom : sid ≠ 0 ∧ ¬ flow.any (fun fc ↦ fc.HasRoom r.h2DataLen)
  · rw [if_pos hroom]
    exact .inr (.inl ⟨rfl, fun _ hs ↦ hroom.2 (hs.2.2.1 hroom.1)⟩)
  rw [if_neg hroom]
  by_cases hreq : reqLen = 0 ∨ reqLen > msg.size
  · rw [if_pos hreq]
    exact .inr (.inl ⟨rfl, fun _ hs ↦ by omega⟩)
  rw [if_neg hreq]
  have hends := rewriteRequest_ends h r sid (show reqLen ≤ msg.size by omega)
    (by rw [← response_length r arena sid]; omega) arena
  cases hrun : rewriteRequest h arena msg r sid reqLen with
  | error t =>
    rw [hrun] at hends
    obtain ⟨rfl | ht, hfail⟩ := hends
    · exact .inr (.inl ⟨rfl, fun hall ↦ absurd hall hfail⟩)
    · exact .inl ⟨ht, rfl, hfail⟩
  | ok m =>
    rw [hrun] at hends
    obtain ⟨hm, happly, hredir⟩ := hends
    have hsuits : bodyLen ≠ 0 ∧ bodyLen ≤ maxRouteBody ∧
        (sid ≠ 0 → flow.any (fun fc ↦ fc.HasRoom r.h2DataLen)) ∧ reqLen ≠ 0 ∧ reqLen ≤ msg.size :=
      ⟨by omega, by omega, fun hsid ↦ not_not.mp fun hno ↦ hroom ⟨hsid, hno⟩, by omega, by omega⟩
    exact .inr (.inr ⟨m, rfl, hsuits, hm, happly, hredir⟩)

/-- The route a request for `path` leads to. -/
def Routes.find (cfg : Routes) (path : List UInt8) : Option (Fin maxRoutes) :=
  if path.length = 0 ∨ path.length > maxRoutePath then none
  else (cfg.routeIdx (routeKey path)).map fun idx ↦ ⟨min idx.toNat (maxRoutes - 1), by
    have := Nat.min_le_right idx.toNat (maxRoutes - 1)
    simp only [maxRoutes] at *
    omega⟩

/-- The route that answers a request for `path`, if one does. -/
def Routes.suited (cfg : Routes) (flow : Option H2Flow) (path : List UInt8) (sid : UInt32)
    (reqLen size : Nat) : Option (Fin maxRoutes) :=
  (cfg.find path).filter fun i ↦ (cfg.routes i).Suits flow sid reqLen size

theorem tryServeRoute_cases (h : Helpers) (cfg : Routes) (flow : Option H2Flow) (msg : SkMsg)
    (path : List UInt8) (sid : UInt32) (reqLen : Nat) :
    ((tryServeRoute h cfg flow msg path sid reqLen).1 = -2 ∧
        (tryServeRoute h cfg flow msg path sid reqLen).2.2 = flow ∧ ¬ h.AllOk) ∨
      (tryServeRoute h cfg flow msg path sid reqLen = (-1, msg, flow) ∧
        (h.AllOk → cfg.suited flow path sid reqLen msg.size = none)) ∨
      ∃ i msg', cfg.suited flow path sid reqLen msg.size = some i ∧
        tryServeRoute h cfg flow msg path sid reqLen = (0, msg', (cfg.routes i).spent sid flow) ∧
        msg'.bytes = (cfg.routes i).response cfg.arena sid ++ msg.bytes.drop reqLen ∧
        msg'.applyBytes = ((cfg.routes i).response cfg.arena sid).length ∧
        msg'.redirect = some .egress := by
  unfold tryServeRoute Routes.suited Routes.find
  split
  · exact .inr (.inl ⟨rfl, fun _ ↦ rfl⟩)
  split
  · rename_i hread
    exact .inr (.inl ⟨rfl, fun hall ↦ absurd hall (not_allOk hread)⟩)
  cases cfg.routeIdx (routeKey path) with
  | none => exact .inr (.inl ⟨rfl, fun _ ↦ rfl⟩)
  | some idx =>
    simp only [Option.map_some]
    generalize hi : (⟨_, _⟩ : Fin maxRoutes) = i
    rcases serveRoute_cases h cfg.arena flow msg (cfg.routes i) sid reqLen with
      hspoilt | ⟨hsame, hno⟩ | ⟨msg', hserved, hsuits, hm⟩
    · exact .inl hspoilt
    · refine .inr (.inl ⟨hsame, fun hall ↦ ?_⟩)
      rw [Option.filter_some, if_neg (by simpa using hno hall)]
    · refine .inr (.inr ⟨i, msg', ?_, hserved, hm⟩)
      rw [Option.filter_some, if_pos (by simpa using hsuits)]

end HyperFastPath.FastPath
