import HyperFastPath.FastPath.Render

/-!
# Loading the responses

`FastPath::attach` of `fast_path.rs`: the responses are laid out in the arena, and the routing table
and the index are filled in with where they are found.
-/

namespace HyperFastPath.FastPath

open Bytes Http2 Layout

def maxDummies : Nat := 16384

def pageSize : Nat := 4096

/-- `usize as u32`. -/
def u32 (n : Nat) : Nat := n % 2 ^ 32

/-- The HTTP/2 rendering of a response, and where it is placed in the arena. -/
structure H2Response extends H2Rendering where
  off : Nat
  body_fits : body.length ≤ maxRouteBody
  sids_few : sidOffs.length ≤ maxSidOffs
  deriving DecidableEq, Repr

/-- A response rendered for every protocol it can be answered on. -/
structure PreparedRoute where
  keys : List (List UInt8)
  body : List UInt8
  bodyOff : Nat
  h2 : Option H2Response
  deriving DecidableEq, Repr

section

variable (huffman : List UInt8 → List UInt8)

/-- A turn of the loop over the configured routes.  A response that is too large is left to the
server. -/
def prepareRoute (path : List UInt8) (file : File) (arenaLen : Nat) :
    Except AttachError (Option PreparedRoute × Nat) :=
  let keys := [path, huffman path]
  if keys.any (·.length > maxRoutePath) then .error (.pathTooLong path)
  else
    match renderResponse file, renderH2Response file with
    | .error e, _ => .error e
    | .ok body, rendering =>
      if body.length > maxRouteBody then .ok (none, arenaLen)
      else
        match rendering with
        | .error e => .error e
        | .ok r =>
          let off := arenaLen + body.length
          -- the frame headers can make it too large
          if hfits : r.body.length ≤ maxRouteBody ∧ r.sidOffs.length ≤ maxSidOffs then
            let h2 : H2Response := { r with off, body_fits := hfits.1, sids_few := hfits.2 }
            .ok (some { keys, body, bodyOff := arenaLen, h2 := some h2 }, off + r.body.length)
          else .ok (some { keys, body, bodyOff := arenaLen, h2 := none }, off)

/-- The loop over the configured routes, which come in any order. -/
def prepareRoutes : List (List UInt8 × File) → Nat → Except AttachError (List PreparedRoute × Nat)
  | [], arenaLen => .ok ([], arenaLen)
  | (path, file) :: routes, arenaLen =>
    (prepareRoute huffman path file arenaLen).bind fun (route, arenaLen) ↦
    (prepareRoutes routes arenaLen).map fun (prepared, arenaLen) ↦
    (route.toList ++ prepared, arenaLen)

/-- What has been prepared, and how many pages of the arena it takes up. -/
structure Attached where
  prepared : List PreparedRoute
  arenaLen : Nat
  pages : Nat
  deriving DecidableEq, Repr

def attach (routes : List (List UInt8 × File)) (dummies : Nat) : Except AttachError Attached :=
  if dummies = 0 ∨ dummies > maxDummies then .error (.dummies dummies)
  else if routes.length > maxRoutes then .error (.tooManyRoutes routes.length)
  else
    (prepareRoutes huffman routes 0).map fun (prepared, arenaLen) ↦
      { prepared, arenaLen, pages := max ((arenaLen + pageSize - 1) / pageSize) 1 }

end

/-- An entry of the routing table that was never filled in. -/
def Route.empty : Route where
  bodyOff := 0
  bodyLen := 0
  h2BodyOff := 0
  h2BodyLen := 0
  h2SidOffs := List.replicate maxSidOffs 0
  h2SidCount := 0
  h2DataLen := 0
  sids_fit _ h := absurd h (Nat.not_lt_zero _)

theorem u32_eq {n : Nat} (h : n ≤ maxRouteBody) : u32 n = n :=
  Nat.mod_eq_of_lt (by
    simp only [maxRouteBody, maxChunks, chunk] at h
    omega)

/-- The entry of the routing table. -/
def PreparedRoute.toRoute (r : PreparedRoute) : Route :=
  match r.h2 with
  | none => { Route.empty with bodyOff := u32 r.bodyOff, bodyLen := u32 r.body.length }
  | some h2 =>
    { bodyOff := u32 r.bodyOff
      bodyLen := u32 r.body.length
      h2BodyOff := u32 h2.off
      h2BodyLen := u32 h2.body.length
      h2SidOffs := h2.sidOffs ++ List.replicate (maxSidOffs - h2.sidOffs.length) 0
      h2SidCount := h2.sidOffs.length
      h2DataLen := u32 h2.dataLen
      sids_fit := fun i hi _ ↦ by
        rw [u32_eq h2.body_fits, List.getD_eq_getElem?_getD, List.getElem?_append_left hi,
          List.getElem?_eq_getElem hi]
        exact h2.sids_fit _ (List.getElem_mem hi) }

/-- What the arena is filled with. -/
def PreparedRoute.blocks (r : PreparedRoute) : List (Block UInt8) :=
  { off := r.bodyOff, data := r.body } ::
    r.h2.elim [] fun h2 ↦ [{ off := h2.off, data := h2.body }]

def Attached.blocks (a : Attached) : List (Block UInt8) := a.prepared.flatMap PreparedRoute.blocks

/-- The updates of `route_idx` for one route. -/
def insertKeys (i : Nat) (names : List (List UInt8)) (idx : List UInt8 → Option UInt8) :
    List UInt8 → Option UInt8 :=
  names.foldl (fun idx name ↦ Function.update idx (routeKey name) (some (UInt8.ofNat i))) idx

/-- The updates of `route_idx`, each of which replaces what was there. -/
def indexRoutes : List PreparedRoute → Nat → (List UInt8 → Option UInt8) →
    List UInt8 → Option UInt8
  | [], _, idx => idx
  | r :: rs, i, idx => indexRoutes rs (i + 1) (insertKeys i r.keys idx)

/-- What the program is loaded with. -/
def Attached.cfg (a : Attached) : Routes where
  routes i := a.prepared[i.val]?.elim Route.empty PreparedRoute.toRoute
  routeIdx := indexRoutes a.prepared 0 fun _ ↦ none
  arena := load (fun _ ↦ 0) a.blocks

variable {huffman : List UInt8 → List UInt8}

/-! ## 1. The layout -/

/-- `r` is the route for `path` prepared from `file`. -/
structure PreparedRoute.From (huffman : List UInt8 → List UInt8) (r : PreparedRoute)
    (path : List UInt8) (file : File) : Prop where
  keys : r.keys = [path, huffman path]
  body : renderResponse file = .ok r.body
  body_fits : r.body.length ≤ maxRouteBody
  h2 : ∀ h2 ∈ r.h2, renderH2Response file = .ok h2.toH2Rendering

theorem prepareRoute_spec {path : List UInt8} {file : File} {start stop : Nat}
    {route : Option PreparedRoute}
    (h : prepareRoute huffman path file start = .ok (route, stop)) :
    (∀ r ∈ route, r.From huffman path file) ∧
      Packed start (route.toList.flatMap PreparedRoute.blocks) stop ∧
      stop ≤ start + 2 * maxRouteBody := by
  unfold prepareRoute at h
  simp only at h
  split at h
  · cases h
  cases hbody : renderResponse file with
  | error e =>
    rw [hbody] at h
    cases h
  | ok body =>
  rw [hbody] at h
  simp only at h
  split at h
  · cases h
    exact ⟨by simp, rfl, Nat.le_add_right _ _⟩
  rename_i hle
  cases hh2 : renderH2Response file with
  | error e =>
    rw [hh2] at h
    cases h
  | ok r =>
  rw [hh2] at h
  simp only at h
  split at h
  -- both renderings, one behind the other
  · rename_i hfits
    cases h
    refine ⟨?_, ⟨rfl, rfl, rfl⟩, by omega⟩
    intro q hq
    cases hq
    exact ⟨rfl, hbody, Nat.le_of_not_gt hle, fun h2 hmem ↦ by cases hmem; exact hh2⟩
  · cases h
    refine ⟨?_, ⟨rfl, rfl⟩, by omega⟩
    intro q hq
    cases hq
    exact ⟨rfl, hbody, Nat.le_of_not_gt hle, fun h2 hmem ↦ by cases hmem⟩

theorem prepareRoutes_spec {routes : List (List UInt8 × File)} {start stop : Nat}
    {prepared : List PreparedRoute}
    (h : prepareRoutes huffman routes start = .ok (prepared, stop)) :
    (∀ r ∈ prepared, ∃ route ∈ routes, r.From huffman route.1 route.2) ∧
      Packed start (prepared.flatMap PreparedRoute.blocks) stop ∧
      stop ≤ start + routes.length * (2 * maxRouteBody) ∧ prepared.length ≤ routes.length := by
  induction routes generalizing start prepared stop with
  | nil =>
    cases h
    exact ⟨by simp, rfl, by simp, Nat.le_refl 0⟩
  | cons route routes ih =>
    unfold prepareRoutes at h
    cases hone : prepareRoute huffman route.1 route.2 start with
    | error e =>
      rw [hone] at h
      cases h
    | ok t =>
    obtain ⟨first, mid⟩ := t
    obtain ⟨hfrom, hpacked, hmid⟩ := prepareRoute_spec hone
    rw [hone] at h
    simp only [Except.bind] at h
    cases hrest : prepareRoutes huffman routes mid with
    | error e =>
      rw [hrest] at h
      cases h
    | ok t =>
    obtain ⟨rest, stop'⟩ := t
    obtain ⟨hfrom', hpacked', hstop, hcount⟩ := ih hrest
    rw [hrest] at h
    cases h
    refine ⟨?_, ?_, ?_, ?_⟩
    · intro r hr
      rcases List.mem_append.mp hr with hr | hr
      · exact ⟨route, .head _, hfrom r (by simpa using hr)⟩
      · obtain ⟨other, hmem, hother⟩ := hfrom' r hr
        exact ⟨other, .tail _ hmem, hother⟩
    · rw [List.flatMap_append]
      exact hpacked.append hpacked'
    · rw [List.length_cons, Nat.succ_mul]
      omega
    · rw [List.length_append, List.length_cons]
      cases first <;> simp <;> omega

variable {routes : List (List UInt8 × File)} {dummies : Nat} {a : Attached}

/-- What is accepted: a bounded number of routes, prepared in order and packed into the pages. -/
structure Attached.Of (huffman : List UInt8 → List UInt8) (routes : List (List UInt8 × File))
    (a : Attached) : Prop where
  prepared : ∀ r ∈ a.prepared, ∃ route ∈ routes, r.From huffman route.1 route.2
  packed : Packed 0 a.blocks a.arenaLen
  few : a.prepared.length ≤ maxRoutes
  small : a.arenaLen ≤ maxRoutes * (2 * maxRouteBody)
  mapped : a.arenaLen ≤ a.pages * pageSize

theorem attach_of (h : attach huffman routes dummies = .ok a) : a.Of huffman routes := by
  unfold attach at h
  split at h
  · cases h
  split at h
  · cases h
  rename_i hcount
  cases hprep : prepareRoutes huffman routes 0 with
  | error e =>
    rw [hprep] at h
    cases h
  | ok t =>
  obtain ⟨prepared, stop⟩ := t
  obtain ⟨hfrom, hpacked, hstop, hfew⟩ := prepareRoutes_spec hprep
  rw [hprep] at h
  cases h
  have hsmall : routes.length * (2 * maxRouteBody) ≤ maxRoutes * (2 * maxRouteBody) :=
    Nat.mul_le_mul_right _ (by omega)
  refine ⟨hfrom, hpacked, by simp only; omega, by simp only; omega, ?_⟩
  -- the pages are rounded up
  have hdiv := Nat.lt_mul_div_succ (stop + pageSize - 1) (show 0 < pageSize by decide)
  have hmax : (stop + pageSize - 1) / pageSize ≤ max ((stop + pageSize - 1) / pageSize) 1 :=
    Nat.le_max_left _ _
  have hle := Nat.mul_le_mul_right pageSize hmax
  simp only [pageSize] at hdiv hle ⊢
  omega

/-! ## 2. The index -/

theorem insertKeys_cases {i : Nat} {names : List (List UInt8)} {idx : List UInt8 → Option UInt8}
    {key : List UInt8} {k : UInt8} (h : insertKeys i names idx key = some k) :
    idx key = some k ∨ k = UInt8.ofNat i ∧ ∃ name ∈ names, key = routeKey name := by
  induction names generalizing idx with
  | nil => exact .inl h
  | cons name names ih =>
    rcases ih h with hupd | ⟨hk, other, hmem, hother⟩
    · simp only at hupd
      by_cases hkey : key = routeKey name
      · rw [hkey, Function.update_self] at hupd
        exact .inr ⟨(Option.some.inj hupd).symm, name, .head _, hkey⟩
      · rw [Function.update_of_ne hkey] at hupd
        exact .inl hupd
    · exact .inr ⟨hk, other, .tail _ hmem, hother⟩

/-- Whatever is found was put there under one of its keys. -/
theorem routeIdx_cases {rs : List PreparedRoute} {i : Nat} {idx : List UInt8 → Option UInt8}
    {key : List UInt8} {k : UInt8} (h : indexRoutes rs i idx key = some k) :
    idx key = some k ∨ ∃ j r, rs[j]? = some r ∧ k = UInt8.ofNat (i + j) ∧
      ∃ name ∈ r.keys, key = routeKey name := by
  induction rs generalizing i idx with
  | nil => exact .inl h
  | cons r rs ih =>
    rcases ih h with hkeys | ⟨j, q, hq, hk, hname⟩
    · rcases insertKeys_cases hkeys with hold | ⟨hk, hname⟩
      · exact .inl hold
      · exact .inr ⟨0, r, rfl, hk, hname⟩
    · exact .inr ⟨j + 1, q, hq, by rw [hk, Nat.add_assoc, Nat.add_comm 1], hname⟩

/-! ## 3. What is answered -/

/-- `bytes` is the rendering of `file` for the stream `sid`, or over HTTP/1.1. -/
def RendersAs (file : File) (sid : UInt32) (bytes : List UInt8) : Prop :=
  if sid = 0 then renderResponse file = .ok bytes
  else ∃ r, renderH2Response file = .ok r ∧ bytes = patchSids sid r.body r.sidOffs

theorem withSid_eq (r : Route) (sid : UInt32) (body : List UInt8) (offs : List Nat) {n : Nat}
    (hoffs : ∀ i < n, r.h2SidOffs.getD i 0 = offs.getD i 0) (hn : n ≤ offs.length) :
    r.withSid sid body n = patchSids sid body (offs.take n) := by
  induction n with
  | zero => rfl
  | succ n ih =>
    rw [withSid_succ, ih (fun i hi ↦ hoffs i (by omega)) (by omega), take_succ_getD (by omega) 0,
      hoffs n (by omega), patchSids, patchSids, List.foldl_append]
    rfl

variable {r : PreparedRoute} {path : List UInt8} {file : File}

/-- The arena holds what was placed in it, and the routing table says where. -/
theorem Attached.Of.read (ha : a.Of huffman routes) (hr : r ∈ a.prepared) {b : Block UInt8}
    (hb : b ∈ r.blocks) :
    u32 b.off = b.off ∧
      (List.range b.data.length).map (fun k ↦ a.cfg.arena (b.off + k)) = b.data := by
  have hmem : b ∈ a.blocks := List.mem_flatMap.mpr ⟨r, hr, hb⟩
  have hstop := (ha.packed.within hmem).2
  have hsmall := ha.small
  have hoff : b.off ≤ b.stop := Nat.le_add_right _ _
  refine ⟨Nat.mod_eq_of_lt ?_, ha.packed.read_load hmem _⟩
  simp only [maxRoutes, maxRouteBody, maxChunks, chunk] at hsmall
  omega

/-- What a prepared route answers with, over HTTP/2 if it has a rendering for that. -/
theorem response_renders (ha : a.Of huffman routes) (hr : r ∈ a.prepared)
    (hfrom : r.From huffman path file) (sid : UInt32) (hh2 : sid ≠ 0 → r.h2.isSome) :
    RendersAs file sid (r.toRoute.response a.cfg.arena sid) := by
  have hplain := ha.read hr (b := { off := r.bodyOff, data := r.body }) (.head _)
  unfold RendersAs Route.response
  split
  · rename_i hsid
    rw [if_neg (not_not.mpr hsid), hfrom.body]
    have hlen := u32_eq hfrom.body_fits
    -- both entries name the same place for the HTTP/1.1 rendering
    have hbody : (List.range r.toRoute.bodyLen).map (fun k ↦ a.cfg.arena (r.toRoute.bodyOff + k)) =
        r.body := by
      unfold PreparedRoute.toRoute
      cases r.h2 with
      | none => simpa only [hlen, hplain.1] using hplain.2
      | some h2 => simpa only [hlen, hplain.1] using hplain.2
    rw [hbody]
  · rename_i hsid
    obtain ⟨h2, hsome⟩ := Option.isSome_iff_exists.mp (hh2 hsid)
    refine ⟨h2.toH2Rendering, hfrom.h2 h2 hsome, ?_⟩
    have hb : { off := h2.off, data := h2.body } ∈ r.blocks := by
      rw [PreparedRoute.blocks, hsome]
      exact .tail _ (.head _)
    have hplaced := ha.read hr hb
    have hlen := u32_eq h2.body_fits
    simp only [PreparedRoute.toRoute, hsome, hlen, hplaced.1, hplaced.2,
      Nat.min_eq_left h2.sids_few]
    rw [withSid_eq _ sid h2.body h2.sidOffs ?_ (Nat.le_refl _), List.take_length]
    intro i hi
    simp only [List.getD_eq_getElem?_getD, List.getElem?_append_left hi]

theorem toRoute_h2 (hlen : r.toRoute.h2BodyLen ≠ 0) : r.h2.isSome := by
  unfold PreparedRoute.toRoute at hlen
  cases hh2 : r.h2 with
  | none =>
    rw [hh2] at hlen
    exact absurd rfl hlen
  | some h2 => rfl

theorem routes_cases (a : Attached) (i : Fin maxRoutes) :
    a.cfg.routes i = Route.empty ∨ ∃ r ∈ a.prepared, a.cfg.routes i = r.toRoute := by
  unfold Attached.cfg
  simp only
  cases hr : a.prepared[i.val]? with
  | none => exact .inl rfl
  | some r => exact .inr ⟨r, List.mem_of_getElem? hr, rfl⟩

/-- Over HTTP/2 a route answers with a HEADERS frame and as much in DATA frames as the routing table
says, all of them of the stream. -/
theorem response_frames (ha : a.Of huffman routes) {i : Fin maxRoutes}
    (hlen : (a.cfg.routes i).h2BodyLen ≠ 0) {sid : UInt32} (hsid : sid ≠ 0) :
    ∃ head data, (a.cfg.routes i).response a.cfg.arena sid = encodeAll (head :: data) ∧
      head.kind = 0x01 ∧ (∀ f ∈ data, f.kind = 0x00) ∧ (∀ f ∈ head :: data, f.sid = sid) ∧
      (data.map (·.payload.length)).sum = (a.cfg.routes i).h2DataLen := by
  rcases routes_cases a i with hempty | ⟨r, hr, hroute⟩
  · rw [hempty] at hlen
    exact absurd rfl hlen
  rw [hroute] at hlen ⊢
  obtain ⟨⟨path, file⟩, -, hfrom⟩ := ha.prepared r hr
  have hh2 := toRoute_h2 hlen
  obtain ⟨h2, hsome⟩ := Option.isSome_iff_exists.mp hh2
  have hrenders := response_renders ha hr hfrom sid fun _ ↦ hh2
  rw [RendersAs, if_neg hsid] at hrenders
  obtain ⟨rendering, hrendering, hresponse⟩ := hrenders
  have hsame := hfrom.h2 h2 hsome
  rw [hrendering] at hsame
  cases hsame
  obtain ⟨head, data, hframes, hhead, hdata, hpayload⟩ :=
    renderH2Response_frames hrendering h2.body_fits
  have hsum : (data.map (·.payload.length)).sum = h2.dataLen := by
    rw [← hpayload, List.length_flatten, List.map_map]
    rfl
  have hfits : h2.dataLen ≤ maxRouteBody := by
    have hle := payloads_length_le (head :: data)
    rw [← hframes.body, List.map_cons, List.flatten_cons, List.length_append, hpayload] at hle
    exact (Nat.le_add_left _ _).trans (hle.trans h2.body_fits)
  have hdataLen : r.toRoute.h2DataLen = h2.dataLen := by
    simp only [PreparedRoute.toRoute, hsome]
    exact u32_eq hfits
  refine ⟨{ head with sid }, data.map ({ · with sid }), ?_, hhead, ?_, ?_, ?_⟩
  · rw [hresponse, hframes.patch sid]
    rfl
  · intro f hf
    obtain ⟨g, hg, rfl⟩ := List.mem_map.mp hf
    exact hdata g hg
  · intro f hf
    obtain ⟨g, -, rfl⟩ := List.mem_map.mp (show f ∈ (head :: data).map ({ · with sid }) from hf)
    rfl
  · rw [hdataLen, ← hsum, List.map_map]
    rfl

/-- The entry of the routing table an index stands for. -/
theorem routeAt_lt (idx : UInt8) : min idx.toNat (maxRoutes - 1) < maxRoutes := by
  have hle := Nat.min_le_right idx.toNat (maxRoutes - 1)
  simp only [maxRoutes] at *
  omega

def routeAt (idx : UInt8) : Fin maxRoutes := ⟨min idx.toNat (maxRoutes - 1), routeAt_lt idx⟩

/-- What the index leads to was prepared from a configured route. -/
theorem Attached.Of.indexed (ha : a.Of huffman routes) {key : List UInt8} {idx : UInt8}
    (hkey : a.cfg.routeIdx key = some idx) :
    ∃ r ∈ a.prepared, ∃ path file, (path, file) ∈ routes ∧ r.From huffman path file ∧
      (key = routeKey path ∨ key = routeKey (huffman path)) ∧
      a.cfg.routes (routeAt idx) = r.toRoute := by
  rcases routeIdx_cases hkey with hnone | ⟨j, r, hr, hidx, name, hname, hkey⟩
  · cases hnone
  obtain ⟨hj, -⟩ := List.getElem?_eq_some_iff.mp hr
  have hmem : r ∈ a.prepared := List.mem_of_getElem? hr
  obtain ⟨⟨path, file⟩, hroute, hfrom⟩ := ha.prepared r hmem
  refine ⟨r, hmem, path, file, hroute, hfrom, ?_, ?_⟩
  · rw [hfrom.keys] at hname
    rcases List.mem_cons.mp hname with rfl | hname
    · exact .inl hkey
    · rw [List.mem_singleton.mp hname] at hkey
      exact .inr hkey
  · have hfew := ha.few
    -- an index is small enough not to be cut off
    have hat : (routeAt idx).val = j := by
      simp only [maxRoutes] at hfew
      show min idx.toNat (maxRoutes - 1) = j
      rw [hidx, Nat.zero_add, UInt8.toNat_ofNat', Nat.mod_eq_of_lt (by omega)]
      simp only [maxRoutes]
      omega
    rw [Attached.cfg]
    simp only
    rw [hat, hr]
    rfl

/-- The responses lie in the mapped pages and none of them overlap, and a request that is answered
is replaced by the rendering of the file its path was configured with. -/
theorem answers_rendering (h : attach huffman routes dummies = .ok a) :
    (a.blocks.Pairwise fun b c ↦ b.stop ≤ c.off) ∧ (∀ b ∈ a.blocks, b.stop ≤ a.pages * pageSize) ∧
      ∀ key idx, a.cfg.routeIdx key = some idx → ∃ path file, (path, file) ∈ routes ∧
        (key = routeKey path ∨ key = routeKey (huffman path)) ∧
        ∀ hlp flow msg sid reqLen msg' flow', reqLen ≤ msg.size →
          serveRoute hlp a.cfg.arena flow msg (a.cfg.routes (routeAt idx)) sid reqLen =
            (0, msg', flow') →
          ∃ bytes, RendersAs file sid bytes ∧ msg'.bytes = bytes ++ msg.bytes.drop reqLen ∧
            msg'.size + reqLen = msg.size + bytes.length := by
  have ha := attach_of h
  refine ⟨ha.packed.pairwise, fun b hb ↦ (ha.packed.within hb).2.trans ha.mapped,
    fun key idx hkey ↦ ?_⟩
  obtain ⟨r, hr, path, file, hroute, hfrom, hname, hat⟩ := ha.indexed hkey
  refine ⟨path, file, hroute, hname, fun hlp flow msg sid reqLen msg' flow' hle hserve ↦ ?_⟩
  rw [hat] at hserve
  rcases serveRoute_cases hlp a.cfg.arena flow msg r.toRoute sid reqLen with
    ⟨hneg, -⟩ | ⟨hsame, -⟩ | ⟨msg'', heq, hsuits, hbytes, -⟩
  · rw [hserve] at hneg
    cases hneg
  · rw [hserve] at hsame
    cases hsame
  rw [hserve] at heq
  cases heq
  have hrenders := response_renders ha hr hfrom sid fun hsid ↦ by
    have hne := hsuits.1
    rw [if_pos hsid] at hne
    exact toRoute_h2 hne
  refine ⟨_, hrenders, hbytes, ?_⟩
  rw [SkMsg.size, hbytes, List.length_append, List.length_drop, ← SkMsg.size]
  omega

/-- Four bytes, under the path `/a`. -/
def exampleFiles : List (List UInt8 × File) :=
  [([0x2F, 0x61], { extension := some "html", content := some [0x21, 0x21, 0x21, 0x21] })]

def exampleAttached : Attached :=
  match attach id exampleFiles 1 with
  | .ok a => a
  | .error _ => { prepared := [], arenaLen := 0, pages := 0 }

theorem attach_exampleFiles : attach id exampleFiles 1 = .ok exampleAttached := by
  have hok : (attach id exampleFiles 1).isOk = true := by decide +kernel
  unfold exampleAttached
  cases ha : attach id exampleFiles 1 with
  | error e =>
    rw [ha] at hok
    cases hok
  | ok a => rfl

theorem result_of_zero {t : Int × SkMsg × Option H2Flow} (h : t.1 = 0) :
    ∃ msg flow, t = (0, msg, flow) := ⟨t.2.1, t.2.2, Prod.ext h rfl⟩

/-- A request for the page over HTTP/1.1 and one over HTTP/2, each with bytes behind it. -/
theorem answers_rendering_page :
    let a := exampleAttached
    let page : File := { extension := some "html", content := some [0x21, 0x21, 0x21, 0x21] }
    let plain := SkMsg.ofBytes (asBytes "GET /a HTTP/1.1\r\n\r\nGET /b")
    let framed := SkMsg.ofBytes [0, 0, 1, 1, 5, 0, 0, 0, 5, 0x82, 0, 0, 4, 8]
    let route := a.cfg.routes (routeAt 0)
    (∃ msg flow bytes, serveRoute allOk a.cfg.arena none plain route 0 19 = (0, msg, flow) ∧
      renderResponse page = .ok bytes ∧ msg.bytes = bytes ++ asBytes "GET /b") ∧
    ∃ msg flow r, serveRoute allOk a.cfg.arena (some .initial) framed route 5 10 = (0, msg, flow) ∧
      renderH2Response page = .ok r ∧ msg.bytes = patchSids 5 r.body r.sidOffs ++ [0, 0, 4, 8] := by
  intro a page plain framed route
  obtain ⟨path, file, hmem, -, hserves⟩ := (answers_rendering attach_exampleFiles).2.2
    (routeKey [0x2F, 0x61]) 0 (by decide +kernel)
  obtain rfl : file = page := congrArg Prod.snd (List.mem_singleton.mp hmem)
  obtain ⟨msg, flow, hplain⟩ : ∃ msg flow,
      serveRoute allOk a.cfg.arena none plain route 0 19 = (0, msg, flow) :=
    result_of_zero (by decide +kernel)
  obtain ⟨msg', flow', hframed⟩ : ∃ msg flow,
      serveRoute allOk a.cfg.arena (some .initial) framed route 5 10 = (0, msg, flow) :=
    result_of_zero (by decide +kernel)
  constructor
  · obtain ⟨bytes, hrenders, hbytes, -⟩ := hserves allOk none plain 0 19 _ _ (by decide) hplain
    exact ⟨msg, flow, bytes, hplain, hrenders, hbytes⟩
  · obtain ⟨bytes, hrenders, hbytes, -⟩ :=
      hserves allOk (some .initial) framed 5 10 _ _ (by decide) hframed
    rw [RendersAs, if_neg (by decide)] at hrenders
    obtain ⟨r, hr, rfl⟩ := hrenders
    exact ⟨msg', flow', r, hframed, hr, hbytes⟩

end HyperFastPath.FastPath
