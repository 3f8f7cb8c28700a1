import HyperFastPath.FastPath.Lookup

/-!
# What the routes answer

From the routes `FastPath::attach` is given to the bytes a request for one is answered with.  The
routes come out of a hash map, in an order that changes from run to run.
-/

namespace HyperFastPath.FastPath

variable {huffman : List UInt8 → List UInt8} {routes routes' : List (List UInt8 × File)}
  {dummies : Nat} {a : Attached} {r : PreparedRoute} {path : List UInt8} {file : File}

/-- What a file is served as from the fast path: a rendering of it that is not too large, and over
HTTP/2 only where the other one is not either. -/
def served (file : File) (sid : UInt32) : Option (List UInt8) :=
  match renderResponse file, renderH2Response file with
  | .ok body, .ok r =>
    if maxRouteBody < body.length then none
    else if sid = 0 then some body
    else if r.body.length ≤ maxRouteBody then some (patchSids sid r.body r.sidOffs)
    else none
  | _, _ => none

/-! ## 1. Every route is prepared -/

/-- A rendering that is short enough has few enough frames. -/
theorem sidOffs_few {rendering : H2Rendering} (h : renderH2Response file = .ok rendering)
    (hfits : rendering.body.length ≤ maxRouteBody) : rendering.sidOffs.length ≤ maxSidOffs := by
  obtain ⟨body, -, rfl⟩ := renderH2Response_ok h
  have hlen := renderChunks_body_length (renderHeaders file body) (responseChunks body)
  rw [responseChunks_flatten] at hlen
  -- each frame has one stream id, that of the HEADERS frame included
  have hoffs (r : H2Rendering) (chunks : List (List UInt8)) :
      (renderChunks r chunks).sidOffs.length = r.sidOffs.length + chunks.length := by
    induction chunks generalizing r with
    | nil => rfl
    | cons chunk chunks ih =>
      rw [renderChunks, ih, push_sidOffs, List.length_append, List.length_cons, List.length_cons,
        List.length_nil]
      omega
  -- an empty body is one frame of its own
  have hcount : (responseChunks body).length ≤ body.length / maxFrameSize + 1 := by
    unfold responseChunks
    split
    · exact Nat.le_add_left _ _
    · exact Layout.chunks_length_le (by decide) body
  have hone : (renderHeaders file body).sidOffs.length = 1 := rfl
  rw [hoffs, hone]
  simp only [maxRouteBody, maxChunks, chunk, maxSidOffs, maxFrameSize] at *
  omega

theorem served_eq_some {sid : UInt32} {bytes : List UInt8} (h : served file sid = some bytes) :
    ∃ body r, renderResponse file = .ok body ∧ renderH2Response file = .ok r ∧
      body.length ≤ maxRouteBody ∧ RendersAs file sid bytes ∧
      (sid ≠ 0 → r.body.length ≤ maxRouteBody) := by
  unfold served at h
  split at h
  · rename_i body r hbody hr
    split at h
    · cases h
    rename_i hle
    refine ⟨body, r, hbody, hr, Nat.le_of_not_lt hle, ?_⟩
    unfold RendersAs
    split at h
    · rename_i hsid
      cases h
      exact ⟨by rw [if_pos hsid, hbody], fun hne ↦ absurd hsid hne⟩
    · rename_i hsid
      split at h
      · rename_i hfits
        cases h
        exact ⟨by rw [if_neg hsid]; exact ⟨r, hr, rfl⟩, fun _ ↦ hfits⟩
      · cases h
  · cases h

theorem prepareRoute_serves {start stop : Nat} {route : Option PreparedRoute} {sid : UInt32}
    {bytes : List UInt8} (h : prepareRoute huffman path file start = .ok (route, stop))
    (hserved : served file sid = some bytes) :
    ∃ r ∈ route, r.From huffman path file ∧ (sid ≠ 0 → r.h2.isSome) := by
  have hfrom := (prepareRoute_spec h).1
  obtain ⟨body, rendering, hbody, hr, hle, -, hfits⟩ := served_eq_some hserved
  unfold prepareRoute at h
  simp only [hbody, hr] at h
  split at h
  · cases h
  -- the file is not too large, so it is not left out
  rw [if_neg (Nat.not_lt_of_le hle)] at h
  split at h
  · cases h
    exact ⟨_, rfl, hfrom _ rfl, fun _ ↦ rfl⟩
  · -- then it is not served over HTTP/2
    rename_i hno
    cases h
    refine ⟨_, rfl, hfrom _ rfl, fun hsid ↦ absurd ⟨hfits hsid, ?_⟩ hno⟩
    exact sidOffs_few hr (hfits hsid)

theorem prepareRoutes_serves {start stop : Nat} {prepared : List PreparedRoute} {sid : UInt32}
    {bytes : List UInt8} (h : prepareRoutes huffman routes start = .ok (prepared, stop))
    (hroute : (path, file) ∈ routes) (hserved : served file sid = some bytes) :
    ∃ r ∈ prepared, r.From huffman path file ∧ (sid ≠ 0 → r.h2.isSome) := by
  induction routes generalizing start prepared stop with
  | nil => cases hroute
  | cons route routes ih =>
    unfold prepareRoutes at h
    -- each route starts where the one ahead of it ends
    cases hone : prepareRoute huffman route.1 route.2 start with
    | error e =>
      rw [hone] at h
      cases h
    | ok t =>
    obtain ⟨first, mid⟩ := t
    rw [hone] at h
    simp only [Except.bind] at h
    cases hrest : prepareRoutes huffman routes mid with
    | error e =>
      rw [hrest] at h
      cases h
    | ok t =>
    obtain ⟨rest, stop'⟩ := t
    rw [hrest] at h
    cases h
    rcases List.mem_cons.mp hroute with rfl | hroute
    · obtain ⟨r, hr, hfrom⟩ := prepareRoute_serves hone hserved
      exact ⟨r, List.mem_append_left _ (by simpa using hr), hfrom⟩
    · obtain ⟨r, hr, hfrom⟩ := ih hrest hroute
      exact ⟨r, List.mem_append_right _ hr, hfrom⟩

theorem attach_serves {sid : UInt32} {bytes : List UInt8}
    (h : attach huffman routes dummies = .ok a) (hroute : (path, file) ∈ routes)
    (hserved : served file sid = some bytes) :
    ∃ r ∈ a.prepared, r.From huffman path file ∧ (sid ≠ 0 → r.h2.isSome) := by
  unfold attach at h
  split at h
  · cases h
  split at h
  · cases h
  cases hprep : prepareRoutes huffman routes 0 with
  | error e =>
    rw [hprep] at h
    cases h
  | ok t =>
    rw [hprep] at h
    cases h
    exact prepareRoutes_serves hprep hroute hserved

/-! ## 2. What is answered -/

theorem RendersAs.unique {sid : UInt32} {b c : List UInt8} (hb : RendersAs file sid b)
    (hc : RendersAs file sid c) : b = c := by
  unfold RendersAs at hb hc
  split at hb
  · rename_i hsid
    rw [if_pos hsid, hb] at hc
    exact Except.ok.inj hc
  · rename_i hsid
    rw [if_neg hsid] at hc
    obtain ⟨r, hr, rfl⟩ := hb
    obtain ⟨r', hr', rfl⟩ := hc
    rw [hr] at hr'
    cases hr'
    rfl

/-- The length of what a prepared route answers with is that of a rendering. -/
theorem toRoute_len (hfrom : r.From huffman path file) {sid : UInt32}
    (hh2 : sid ≠ 0 → r.h2.isSome) :
    let len := if sid ≠ 0 then r.toRoute.h2BodyLen else r.toRoute.bodyLen
    len ≠ 0 ∧ len ≤ maxRouteBody := by
  by_cases hsid : sid = 0
  · have hlen : r.toRoute.bodyLen = r.body.length := by
      unfold PreparedRoute.toRoute
      cases r.h2 <;> exact u32_eq hfrom.body_fits
    have hbody := hfrom.body
    unfold renderResponse File.read at hbody
    have hpos : 0 < r.body.length := by
      cases hcontent : file.content with
      | none =>
        rw [hcontent] at hbody
        cases hbody
      | some content =>
        -- the status line is never empty
        rw [hcontent] at hbody
        rw [← Except.ok.inj hbody]
        simp only [asBytes_append, List.length_append]
        have hstatus : 0 < (asBytes "HTTP/1.1 200 OK\r\nContent-Length: ").length := by decide
        omega
    have hfits := hfrom.body_fits
    simp only [hsid, ne_eq, not_true_eq_false, if_false, hlen]
    omega
  · obtain ⟨h2, hsome⟩ := Option.isSome_iff_exists.mp (hh2 hsid)
    have hlen : r.toRoute.h2BodyLen = h2.body.length := by
      simp only [PreparedRoute.toRoute, hsome]
      exact u32_eq h2.body_fits
    obtain ⟨content, -, hrendering⟩ := renderH2Response_ok (hfrom.h2 h2 hsome)
    -- and over HTTP/2 neither is the HEADERS frame
    have hpos := renderChunks_body_length (renderHeaders file content) (responseChunks content)
    rw [← hrendering] at hpos
    have hheaders : (renderHeaders file content).body.length =
        9 + (headersPayload file content).length := h2Frame_length _ _ _
    have hfits := h2.body_fits
    simp only [ne_eq, hsid, not_false_eq_true, if_true, hlen]
    omega

theorem served_of_from (hfrom : r.From huffman path file) {sid : UInt32} {bytes : List UInt8}
    (hh2 : sid ≠ 0 → r.h2.isSome) (hbytes : RendersAs file sid bytes) :
    served file sid = some bytes := by
  have hfits := hfrom.body_fits
  unfold RendersAs at hbytes
  unfold served
  rw [hfrom.body] at hbytes ⊢
  cases hr : renderH2Response file with
  | error e =>
    -- both are read off the same file
    have hbody := hfrom.body
    unfold renderResponse at hbody
    unfold renderH2Response at hr
    cases hread : file.read with
    | error e => rw [hread] at hbody; cases hbody
    | ok content => rw [hread] at hr; cases hr
  | ok rendering =>
    simp only [if_neg (Nat.not_lt_of_le hfits)]
    by_cases hsid : sid = 0
    · rw [if_pos hsid] at hbytes ⊢
      cases hbytes
      rfl
    · rw [if_neg hsid] at hbytes ⊢
      obtain ⟨h2, hsome⟩ := Option.isSome_iff_exists.mp (hh2 hsid)
      have hsame := hfrom.h2 h2 hsome
      obtain ⟨r', hr', rfl⟩ := hbytes
      rw [hr] at hr' hsame
      cases hr'
      cases hsame
      rw [if_pos h2.body_fits]

/-- How much of a response over HTTP/2 is flow controlled. -/
theorem toRoute_dataLen (hfrom : r.From huffman path file) (hh2 : r.h2.isSome) :
    r.toRoute.h2DataLen = (file.content.getD []).length := by
  obtain ⟨h2, hsome⟩ := Option.isSome_iff_exists.mp hh2
  obtain ⟨content, hcontent, hrendering⟩ := renderH2Response_ok (hfrom.h2 h2 hsome)
  have hbody := renderChunks_body_length (renderHeaders file content) (responseChunks content)
  rw [← hrendering, responseChunks_flatten] at hbody
  have hdata : h2.dataLen = content.length := by
    show h2.toH2Rendering.dataLen = content.length
    rw [hrendering, renderChunks_dataLen]
    rfl
  have hfits := h2.body_fits
  simp only [PreparedRoute.toRoute, hsome, hdata, hcontent, Option.getD_some]
  exact u32_eq (by omega)

theorem PreparedRoute.From.path_eq (hfrom : r.From huffman path file) : r.path = path := by
  rw [PreparedRoute.path, hfrom.keys, List.headD_cons]

/-- What a path leads to was prepared from the file it was configured with, and any file that is
served is led to. -/
theorem Attached.Exact.leads (h : attach huffman routes dummies = .ok a) {q : List UInt8}
    {coded : Bool} (hexact : a.Exact coded q) :
    (∀ i, a.cfg.find (onWire coded q) = some i → ∃ r ∈ a.prepared, ∃ file, (q, file) ∈ routes ∧
      r.From huffman q file ∧ a.cfg.routes i = r.toRoute) ∧
    ∀ file sid bytes, (q, file) ∈ routes → served file sid = some bytes →
      ∃ i, a.cfg.find (onWire coded q) = some i ∧ ∃ r ∈ a.prepared, r.From huffman q file ∧
        a.cfg.routes i = r.toRoute ∧ (sid ≠ 0 → r.h2.isSome) := by
  have hof := attach_of h
  have hat {i : Fin maxRoutes} {r : PreparedRoute} (hr : a.prepared[i.val]? = some r) :
      a.cfg.routes i = r.toRoute := by
    simp only [Attached.cfg, hr, Option.elim_some]
  constructor
  · intro i hfind
    obtain ⟨r, hr, hq⟩ := Option.map_eq_some_iff.mp ((hexact.finds i).mp hfind)
    have hmem := List.mem_of_getElem? hr
    obtain ⟨⟨p, file⟩, hroute, hfrom⟩ := hof.prepared r hmem
    rw [hfrom.path_eq] at hq
    subst hq
    exact ⟨r, hmem, file, hroute, hfrom, hat hr⟩
  · intro file sid bytes hroute hserved
    obtain ⟨r, hmem, hfrom, hh2⟩ := attach_serves h hroute hserved
    -- its place in the routing table is its place among those prepared
    obtain ⟨j, hj⟩ := List.mem_iff_getElem?.mp hmem
    have hlt : j < maxRoutes := (List.getElem?_eq_some_iff.mp hj).1.trans_le hof.few
    have hfind := (hexact.finds ⟨j, hlt⟩).mpr (by rw [hj, Option.map_some, hfrom.path_eq])
    exact ⟨⟨j, hlt⟩, hfind, r, hmem, hfrom, hat hj, hh2⟩

/-- What has to hold for the file of a path to be answered with `bytes`: they are a rendering that
is not too large, the request is all there, and the client's windows have room for the file. -/
structure PageDue (routes : List (List UInt8 × File)) (flow : Option H2Flow) (size : Nat)
    (q : List UInt8) (sid : UInt32) (reqLen : Nat) (bytes : List UInt8) : Prop where
  file : ∃ file, (q, file) ∈ routes ∧ served file sid = some bytes ∧
    (sid ≠ 0 → flow.any fun fc ↦ fc.HasRoom (file.content.getD []).length)
  whole : 0 < reqLen ∧ reqLen ≤ size

theorem suited_due (h : attach huffman routes dummies = .ok a) {q : List UInt8} {coded : Bool}
    (hexact : a.Exact coded q) (flow : Option H2Flow) (size : Nat) (sid : UInt32) (reqLen : Nat) :
    (∀ i, a.cfg.suited flow (onWire coded q) sid reqLen size = some i →
      PageDue routes flow size q sid reqLen ((a.cfg.routes i).response a.cfg.arena sid)) ∧
    ∀ bytes, PageDue routes flow size q sid reqLen bytes →
      ∃ i, a.cfg.suited flow (onWire coded q) sid reqLen size = some i ∧
        (a.cfg.routes i).response a.cfg.arena sid = bytes := by
  have hof := attach_of h
  obtain ⟨hleads, hled⟩ := hexact.leads h
  constructor
  · intro i hsuited
    obtain ⟨hfind, hsuits⟩ := Option.filter_eq_some_iff.mp hsuited
    obtain ⟨r, hmem, file, hroute, hfrom, hat⟩ := hleads i hfind
    obtain ⟨hne, -, hroom, hpos, hfit⟩ := of_decide_eq_true hsuits
    rw [hat] at hne hroom ⊢
    have hh2 : sid ≠ 0 → r.h2.isSome := fun hsid ↦ by
      rw [if_pos hsid] at hne
      exact toRoute_h2 hne
    refine ⟨⟨file, hroute, served_of_from hfrom hh2 ?_, fun hsid ↦ ?_⟩, by omega, hfit⟩
    · exact response_renders hof hmem hfrom sid hh2
    · rw [← toRoute_dataLen hfrom (hh2 hsid)]
      exact hroom hsid
  · rintro bytes ⟨⟨file, hroute, hserved, hroom⟩, hpos, hfit⟩
    obtain ⟨i, hfind, r, hmem, hfrom, hat, hh2⟩ := hled file sid bytes hroute hserved
    have hlen := toRoute_len hfrom hh2
    have hsuits : (a.cfg.routes i).Suits flow sid reqLen size := by
      rw [hat]
      refine ⟨hlen.1, hlen.2, fun hsid ↦ ?_, by omega, hfit⟩
      rw [toRoute_dataLen hfrom (hh2 hsid)]
      exact hroom hsid
    refine ⟨i, Option.filter_eq_some_iff.mpr ⟨hfind, decide_eq_true hsuits⟩, ?_⟩
    obtain ⟨-, -, -, -, -, hrenders, -⟩ := served_eq_some hserved
    rw [hat]
    exact (response_renders hof hmem hfrom sid hh2).unique hrenders

theorem tryServeRoute_due (h : attach huffman routes dummies = .ok a) {q : List UInt8}
    {coded : Bool} (hexact : a.Exact coded q) {hlp : Helpers} (hall : hlp.AllOk)
    (flow : Option H2Flow) (msg : SkMsg) (sid : UInt32) (reqLen : Nat) :
    let res := tryServeRoute hlp a.cfg flow msg (onWire coded q) sid reqLen
    (res.1 = 0 → ∃ bytes, PageDue routes flow msg.size q sid reqLen bytes) ∧
      ∀ bytes, PageDue routes flow msg.size q sid reqLen bytes →
        res.1 = 0 ∧ res.2.1.bytes = bytes ++ msg.bytes.drop reqLen := by
  intro res
  obtain ⟨hsuited, hdue⟩ := suited_due h hexact flow msg.size sid reqLen
  rcases tryServeRoute_cases hlp a.cfg flow msg (onWire coded q) sid reqLen with
    ⟨-, -, hfail⟩ | ⟨hsame, hnone⟩ | ⟨i, msg', hsome, hserved, hbytes, -⟩
  · exact absurd hall hfail
  · have hres : res = (-1, msg, flow) := hsame
    refine ⟨fun h0 ↦ ?_, fun bytes hbytes ↦ ?_⟩
    · rw [hres] at h0
      cases h0
    · obtain ⟨i, hi, -⟩ := hdue bytes hbytes
      rw [hnone hall] at hi
      cases hi
  · have hres : res = (0, msg', (a.cfg.routes i).spent sid flow) := hserved
    refine ⟨fun _ ↦ ⟨_, hsuited i hsome⟩, fun bytes hb ↦ ?_⟩
    -- two responses that are due for one request are the same
    obtain ⟨j, hj, rfl⟩ := hdue bytes hb
    rw [hsome] at hj
    cases hj
    rw [hres]
    exact ⟨rfl, hbytes⟩

/-- A request is answered exactly where its path was configured, a rendering of the file is not too
large, and the windows have room for the file, and then it is replaced by that rendering.  A path
that is Huffman coded takes a route that is not found in place of another. -/
theorem answers_configured (hrfc : ∀ path, huffman path = Huffman.encode path)
    (h : attach huffman routes dummies = .ok a) (hdistinct : (routes.map Prod.fst).Nodup)
    (hpaths : ∀ path ∈ routes.map Prod.fst, IsPath path) {q : List UInt8} (hq : IsPath q)
    {coded : Bool} (hrep : coded = true → a.Replaces q) {hlp : Helpers} (hall : hlp.AllOk)
    (flow : Option H2Flow) (msg : SkMsg) (sid : UInt32) (reqLen : Nat) :
    let res := tryServeRoute hlp a.cfg flow msg (onWire coded q) sid reqLen
    (res.1 = 0 → ∃ bytes, PageDue routes flow msg.size q sid reqLen bytes) ∧
      ∀ bytes, PageDue routes flow msg.size q sid reqLen bytes →
        res.1 = 0 ∧ res.2.1.bytes = bytes ++ msg.bytes.drop reqLen := by
  have hkeyed := attach_keyed hrfc h hdistinct hpaths
  exact tryServeRoute_due h (hkeyed.exact_of_replaces hq hrep) hall flow msg sid reqLen

theorem onePage_paths : ∀ path ∈ onePage.map Prod.fst, IsPath path := by
  intro path hpath
  rw [List.mem_singleton.mp hpath]
  exact ⟨rfl, by decide⟩

/-- `/a` is configured. -/
theorem answers_configured_onePage :
    ∃ a, attach Huffman.encode onePage 1 = .ok a ∧ (tryServeRoute allOk a.cfg none
      (.ofBytes (asBytes "GET /a HTTP/1.1\r\n\r\n")) [0x2F, 0x61] 0 19).1 = 0 := by
  have hok : (attach Huffman.encode onePage 1).isOk = true := by decide +kernel
  cases ha : attach Huffman.encode onePage 1 with
  | error e =>
    rw [ha] at hok
    cases hok
  | ok a =>
    have hq : IsPath [0x2F, 0x61] := ⟨rfl, by decide⟩
    have hserved : (served { extension := some "html", content := some [0x21] } 0).isSome := by
      decide +kernel
    obtain ⟨bytes, hbytes⟩ := Option.isSome_iff_exists.mp hserved
    refine ⟨a, rfl, ((answers_configured (fun _ ↦ rfl) ha (by decide) onePage_paths hq
      (show false = true → a.Replaces [0x2F, 0x61] from Bool.noConfusion) (show allOk.AllOk from
        fun _ ↦ rfl) none _ 0 19).2 bytes ?_).1⟩
    exact ⟨⟨_, .head _, hbytes, fun hne ↦ absurd rfl hne⟩, by decide⟩

/-! ## 3. The order of the routes -/

/-- Where in the arena a route ends up has no say in whether it is refused. -/
theorem prepareRoute_isOk (huffman : List UInt8 → List UInt8) (path : List UInt8) (file : File)
    (start : Nat) : (prepareRoute huffman path file start).isOk =
      (prepareRoute huffman path file 0).isOk := by
  unfold prepareRoute
  simp only
  split
  · rfl
  cases renderResponse file with
  | error e => rfl
  | ok body =>
    simp only
    split
    · rfl
    cases renderH2Response file with
    | error e => rfl
    | ok r =>
      simp only
      split <;> rfl

theorem prepareRoutes_isOk (huffman : List UInt8 → List UInt8) (routes : List (List UInt8 × File))
    (start : Nat) : (prepareRoutes huffman routes start).isOk =
      routes.all fun route ↦ (prepareRoute huffman route.1 route.2 0).isOk := by
  induction routes generalizing start with
  | nil => rfl
  | cons route routes ih =>
    rw [List.all_cons, ← prepareRoute_isOk huffman route.1 route.2 start, prepareRoutes]
    cases prepareRoute huffman route.1 route.2 start with
    | error e => rfl
    | ok t =>
      have hrest := ih t.2
      simp only [Except.bind]
      cases hprep : prepareRoutes huffman routes t.2 with
      | error e =>
        rw [hprep] at hrest
        exact hrest
      | ok t' =>
        rw [hprep] at hrest
        exact hrest

theorem attach_isOk (huffman : List UInt8 → List UInt8) (routes : List (List UInt8 × File))
    (dummies : Nat) : (attach huffman routes dummies).isOk =
      decide (¬ (dummies = 0 ∨ dummies > maxDummies) ∧ routes.length ≤ maxRoutes ∧
        routes.all fun route ↦ (prepareRoute huffman route.1 route.2 0).isOk) := by
  rw [← prepareRoutes_isOk huffman routes 0]
  unfold attach
  split
  · rename_i hd
    simp [hd, Except.isOk, Except.toBool]
  split
  · rename_i hd hmany
    simp [Nat.not_le_of_lt hmany, Except.isOk, Except.toBool]
  · rename_i hd hmany
    cases prepareRoutes huffman routes 0 with
    | error e => simp [Except.isOk, Except.toBool, Except.map]
    | ok t => simp [hd, Nat.le_of_not_lt hmany, Except.isOk, Except.toBool, Except.map]

theorem attach_perm (hperm : routes.Perm routes') :
    (attach huffman routes' dummies).isOk = (attach huffman routes dummies).isOk := by
  rw [attach_isOk, attach_isOk, hperm.length_eq, hperm.all_eq]

/-- Where no path is coded like another one, none is found in the place of another. -/
theorem replaces_of_not_alike (h : attach huffman routes dummies = .ok a) {q : List UInt8}
    (halike : ∀ p ∈ routes.map Prod.fst, p ≠ q → ¬ Alike p q) : a.Replaces q := by
  intro _ j r hr hne hsame
  obtain ⟨route, hroute, hfrom⟩ := (attach_of h).prepared r (List.mem_of_getElem? hr)
  -- the path is the first of the keys of a route
  have hpath : r.path = route.1 := by rw [PreparedRoute.path, hfrom.keys, List.headD_cons]
  rw [hpath] at hne hsame
  exact absurd hsame (halike route.1 (List.mem_map_of_mem hroute) hne)

/-- The order of the routes, which decides on the places in the arena and in the routing table,
makes no difference: if they are accepted in one order they are in any, and the same requests are
answered with the same bytes. Huffman coded, this is so for paths that none of the routes is coded
like. -/
theorem answers_perm (hrfc : ∀ path, huffman path = Huffman.encode path)
    (h : attach huffman routes dummies = .ok a) (hperm : routes.Perm routes')
    (hdistinct : (routes.map Prod.fst).Nodup) (hpaths : ∀ path ∈ routes.map Prod.fst, IsPath path) :
    ∃ a', attach huffman routes' dummies = .ok a' ∧ ∀ q, IsPath q → ∀ coded : Bool,
      (coded = true → ∀ p ∈ routes.map Prod.fst, p ≠ q → ¬ Alike p q) →
      ∀ hlp : Helpers, hlp.AllOk → ∀ flow msg sid reqLen,
        let res := tryServeRoute hlp a.cfg flow msg (onWire coded q) sid reqLen
        let res' := tryServeRoute hlp a'.cfg flow msg (onWire coded q) sid reqLen
        (res.1 = 0 ↔ res'.1 = 0) ∧ (res.1 = 0 → res.2.1.bytes = res'.2.1.bytes) := by
  have hok : (attach huffman routes' dummies).isOk = true := by rw [attach_perm hperm, h]; rfl
  cases h' : attach huffman routes' dummies with
  | error e =>
    rw [h'] at hok
    cases hok
  | ok a' =>
    refine ⟨a', rfl, fun q hq coded halike hlp hall flow msg sid reqLen ↦ ?_⟩
    -- both orders find a route under its keys, wherever it is
    have hmap : (routes.map Prod.fst).Perm (routes'.map Prod.fst) := hperm.map _
    have hkeyed := attach_keyed hrfc h hdistinct hpaths
    have hkeyed' := attach_keyed hrfc h' (hmap.nodup_iff.mp hdistinct)
      fun path hmem ↦ hpaths path (hmap.mem_iff.mpr hmem)
    have hexact := hkeyed.exact_of_replaces hq fun hc ↦ replaces_of_not_alike h (halike hc)
    have hexact' := hkeyed'.exact_of_replaces hq fun hc ↦
      replaces_of_not_alike h' fun p hp ↦ halike hc p (hmap.mem_iff.mpr hp)
    obtain ⟨hserved, hdue⟩ := tryServeRoute_due h hexact hall flow msg sid reqLen
    obtain ⟨hserved', hdue'⟩ := tryServeRoute_due h' hexact' hall flow msg sid reqLen
    -- what is due does not depend on the order
    have hsame (bytes : List UInt8) : PageDue routes flow msg.size q sid reqLen bytes ↔
        PageDue routes' flow msg.size q sid reqLen bytes := by
      constructor
      · rintro ⟨⟨file, hroute, hfile⟩, hwhole⟩
        exact ⟨⟨file, hperm.mem_iff.mp hroute, hfile⟩, hwhole⟩
      · rintro ⟨⟨file, hroute, hfile⟩, hwhole⟩
        exact ⟨⟨file, hperm.mem_iff.mpr hroute, hfile⟩, hwhole⟩
    refine ⟨⟨fun h0 ↦ ?_, fun h0 ↦ ?_⟩, fun h0 ↦ ?_⟩
    · obtain ⟨bytes, hbytes⟩ := hserved h0
      exact (hdue' bytes ((hsame bytes).mp hbytes)).1
    · obtain ⟨bytes, hbytes⟩ := hserved' h0
      exact (hdue bytes ((hsame bytes).mpr hbytes)).1
    · obtain ⟨bytes, hbytes⟩ := hserved h0
      rw [(hdue bytes hbytes).2, (hdue' bytes ((hsame bytes).mp hbytes)).2]

/-- Two pages, in both orders. -/
theorem answers_perm_twoPages :
    let page (b : UInt8) : File := { extension := some "html", content := some [b] }
    let routes := [([0x2F, 0x61], page 0x21), ([0x2F, 0x62], page 0x3F)]
    ∃ a a', attach Huffman.encode routes 1 = .ok a ∧
      attach Huffman.encode routes.reverse 1 = .ok a' ∧
      ∀ msg reqLen,
        let res := tryServeRoute allOk a.cfg none msg [0x2F, 0x62] 0 reqLen
        let res' := tryServeRoute allOk a'.cfg none msg [0x2F, 0x62] 0 reqLen
        (res.1 = 0 ↔ res'.1 = 0) ∧ (res.1 = 0 → res.2.1.bytes = res'.2.1.bytes) := by
  intro page routes
  have hok : (attach Huffman.encode routes 1).isOk = true := by decide +kernel
  cases ha : attach Huffman.encode routes 1 with
  | error e =>
    rw [ha] at hok
    cases hok
  | ok a =>
    have hpaths : ∀ path ∈ routes.map Prod.fst, IsPath path := by
      intro path hpath
      rcases List.mem_cons.mp hpath with rfl | hpath
      · exact ⟨rfl, by decide⟩
      · rw [List.mem_singleton.mp hpath]
        exact ⟨rfl, by decide⟩
    obtain ⟨a', ha', hsame⟩ := answers_perm (fun _ ↦ rfl) ha (List.Perm.swap _ _ []) (by decide)
      hpaths
    have hq : IsPath [0x2F, 0x62] := ⟨rfl, by decide⟩
    exact ⟨a, a', rfl, ha', fun msg reqLen ↦
      hsame _ hq false Bool.noConfusion allOk (fun _ ↦ rfl) none msg 0 reqLen⟩

end HyperFastPath.FastPath
