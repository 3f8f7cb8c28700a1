import HyperFastPath.FastPath.Attach
import HyperFastPath.Lib.Huffman

/-!
# Which route a path leads to

A route is indexed under its path as it is and as it is Huffman coded, both zero padded to one
size, without their lengths.  Plain paths are told apart by that.  A coded path can end in zero
octets itself, which are then taken for padding.
-/

namespace HyperFastPath.FastPath

/-! ## 1. Keys -/

/-- What the path of a route, and of a request, is to be. -/
structure IsPath (path : List UInt8) : Prop where
  slash : path.head? = some 0x2F
  nonzero : 0 ∉ path

/-- The path as a request has it, Huffman coded or not. -/
def onWire (coded : Bool) (path : List UInt8) : List UInt8 :=
  if coded then Huffman.encode path else path

/-- Coded, one path is the other with zeros behind it. -/
def Alike (p q : List UInt8) : Prop := Huffman.Extends p q ∨ Huffman.Extends q p

instance (p q : List UInt8) : Decidable (Alike p q) :=
  inferInstanceAs (Decidable (Huffman.Extends p q ∨ Huffman.Extends q p))

/-- Only zeros behind it can be taken for padding. -/
theorem routeKey_eq_iff {x y : List UInt8} (hx : x.length ≤ maxRoutePath)
    (hy : y.length ≤ maxRoutePath) :
    routeKey x = routeKey y ↔
      (∃ k, x = y ++ List.replicate k 0) ∨ ∃ k, y = x ++ List.replicate k 0 := by
  have hcut {x y : List UInt8} (hle : x.length ≤ y.length) (hy : y.length ≤ maxRoutePath)
      (h : routeKey x = routeKey y) : ∃ k, y = x ++ List.replicate k 0 := by
    refine ⟨y.length - x.length, ?_⟩
    have htake := congrArg (List.take y.length) h
    rw [routeKey, routeKey, List.take_left, List.take_append, List.take_of_length_le hle,
      List.take_replicate, Nat.min_eq_left (by omega)] at htake
    exact htake.symm
  have hpad {x : List UInt8} {k : Nat} (h : (x ++ List.replicate k 0).length ≤ maxRoutePath) :
      routeKey (x ++ List.replicate k 0) = routeKey x := by
    rw [List.length_append, List.length_replicate] at h
    rw [routeKey, routeKey, List.append_assoc, ← List.replicate_add, List.length_append,
      List.length_replicate]
    congr 2
    omega
  constructor
  · intro h
    rcases Nat.le_total x.length y.length with hle | hle
    · exact .inr (hcut hle hy h)
    · exact .inl (hcut hle hx h.symm)
  · rintro (⟨k, rfl⟩ | ⟨k, rfl⟩)
    · exact hpad hx
    · exact (hpad hy).symm

theorem IsPath.ne_nil {p : List UInt8} (hp : IsPath p) : p ≠ [] := by
  rintro rfl
  cases hp.slash

/-- No octet of a plain path is taken for padding. -/
theorem IsPath.eq_of_zeros {p q : List UInt8} (hp : IsPath p) {k : Nat}
    (h : p = q ++ List.replicate k 0) : p = q := by
  cases k with
  | zero => rw [h, List.replicate_zero, List.append_nil]
  | succ k =>
    refine absurd ?_ hp.nonzero
    rw [h]
    exact List.mem_append_right _ (List.mem_replicate.mpr ⟨Nat.succ_ne_zero k, rfl⟩)

/-- A coded path does not start with a slash. -/
theorem IsPath.coded_head {p : List UInt8} (hp : IsPath p) :
    ∃ b, (Huffman.encode p).head? = some b ∧ b ≠ 0x2F := by
  obtain ⟨rest, rfl⟩ : ∃ rest, p = 0x2F :: rest := List.head?_eq_some_iff.mp hp.slash
  have hbits := Huffman.bits_encode (0x2F :: rest)
  have hword : Huffman.code.word 0x2F = [false, true, true, false, false, false] := by
    decide +kernel
  rw [PrefixCode.Code.encode_cons, hword] at hbits
  -- the second bit of the word is set, that of a slash is not
  cases hcoded : Huffman.encode (0x2F :: rest) with
  | nil =>
    rw [hcoded] at hbits
    cases hbits
  | cons b octets =>
    refine ⟨b, rfl, fun hb ↦ ?_⟩
    have hslash : PrefixCode.byteCode.word 0x2F =
        [false, false, true, false, true, true, true, true] := by decide
    rw [hcoded, hb, PrefixCode.Code.encode_cons, hslash] at hbits
    exact Bool.noConfusion (List.cons.inj (List.cons.inj hbits).2).1

/-- The keys of two paths coincide for one of the codings only, and then if the paths are the same
or they are coded alike. -/
theorem routeKey_onWire {p q : List UInt8} (hp : IsPath p) (hq : IsPath q) {b c : Bool}
    (hpfits : (onWire b p).length ≤ maxRoutePath) (hqfits : (onWire c q).length ≤ maxRoutePath) :
    routeKey (onWire b p) = routeKey (onWire c q) ↔ b = c ∧ (p = q ∨ c = true ∧ Alike p q) := by
  rw [routeKey_eq_iff hpfits hqfits]
  have hapart {p q : List UInt8} (hp : IsPath p) (hq : IsPath q)
      (h : (∃ k, p = Huffman.encode q ++ List.replicate k 0) ∨
        ∃ k, Huffman.encode q = p ++ List.replicate k 0) : False := by
    obtain ⟨b, hb, hne⟩ := hq.coded_head
    refine hne (Option.some.inj (hb.symm.trans (Eq.trans ?_ hp.slash)))
    rcases h with ⟨k, h⟩ | ⟨k, h⟩
    · rw [h, List.head?_append, hb]
      rfl
    · rw [h, List.head?_append, hp.slash]
      rfl
  cases b with
  | false =>
    cases c with
    | false =>
      constructor
      · rintro (⟨k, h⟩ | ⟨k, h⟩)
        · exact ⟨rfl, .inl (hp.eq_of_zeros h)⟩
        · exact ⟨rfl, .inl (hq.eq_of_zeros h).symm⟩
      · rintro ⟨-, rfl | ⟨hcoded, -⟩⟩
        · exact .inl ⟨0, (List.append_nil _).symm⟩
        · cases hcoded
    | true => exact ⟨fun h ↦ (hapart hp hq h).elim, fun h ↦ Bool.noConfusion h.1⟩
  | true =>
    cases c with
    | false => exact ⟨fun h ↦ (hapart hq hp h.symm).elim, fun h ↦ Bool.noConfusion h.1⟩
    | true =>
      show (∃ k, Huffman.encode p = Huffman.encode q ++ List.replicate k 0) ∨
        (∃ k, Huffman.encode q = Huffman.encode p ++ List.replicate k 0) ↔ _
      rw [Huffman.encode_append_zeros, Huffman.encode_append_zeros]
      constructor
      · rintro ((h | h) | h | h)
        · exact ⟨rfl, .inl h⟩
        · exact ⟨rfl, .inr ⟨rfl, .inr h⟩⟩
        · exact ⟨rfl, .inl h.symm⟩
        · exact ⟨rfl, .inr ⟨rfl, .inl h⟩⟩
      · rintro ⟨-, h | ⟨-, h | h⟩⟩
        · exact .inl (.inl h)
        · exact .inr (.inr h)
        · exact .inl (.inr h)

/-! ## 2. The index -/

def PreparedRoute.path (r : PreparedRoute) : List UInt8 := r.keys.headD []

/-- The route is indexed under `key`. -/
def PreparedRoute.Indexes (r : PreparedRoute) (key : List UInt8) : Prop :=
  ∃ name ∈ r.keys, routeKey name = key

variable {rs : List PreparedRoute} {key : List UInt8}

theorem insertKeys_eq (i : Nat) (names : List (List UInt8)) (idx : List UInt8 → Option UInt8)
    (key : List UInt8) : insertKeys i names idx key =
      if ∃ name ∈ names, routeKey name = key then some (UInt8.ofNat i) else idx key := by
  induction names generalizing idx with
  | nil => simp [insertKeys]
  | cons name names ih =>
    show insertKeys i names (Function.update idx (routeKey name) (some (UInt8.ofNat i))) key = _
    rw [ih]
    by_cases hname : routeKey name = key
    · have hsome : ∃ other ∈ name :: names, routeKey other = key := ⟨name, .head _, hname⟩
      rw [if_pos hsome, ← hname, Function.update_self, ite_self]
    · rw [Function.update_of_ne (Ne.symm hname)]
      simp only [List.exists_mem_cons_iff, hname, false_or]

theorem indexRoutes_append (rs : List PreparedRoute) (r : PreparedRoute) (i : Nat)
    (idx : List UInt8 → Option UInt8) : indexRoutes (rs ++ [r]) i idx =
      insertKeys (i + rs.length) r.keys (indexRoutes rs i idx) := by
  induction rs generalizing i idx with
  | nil => rfl
  | cons q rs ih =>
    rw [List.cons_append, indexRoutes, indexRoutes, ih, List.length_cons, Nat.add_assoc,
      Nat.add_comm 1]

/-- Of the routes that are indexed under a key, the last one is found. -/
theorem indexRoutes_eq_some_iff {k : UInt8} : indexRoutes rs 0 (fun _ ↦ none) key = some k ↔
    ∃ j r, rs[j]? = some r ∧ r.Indexes key ∧ k = UInt8.ofNat j ∧
      ∀ j' r', j < j' → rs[j']? = some r' → ¬ r'.Indexes key := by
  induction rs using List.reverseRecOn with
  | nil => simp [indexRoutes]
  | append_singleton rs r ih =>
    rw [indexRoutes_append, insertKeys_eq, Nat.zero_add]
    have hlast : (rs ++ [r])[rs.length]? = some r := by simp
    by_cases hr : ∃ name ∈ r.keys, routeKey name = key
    · rw [if_pos hr]
      constructor
      · intro h
        refine ⟨rs.length, r, hlast, hr, (Option.some.inj h).symm, fun j' r' hj hr' ↦ ?_⟩
        rw [List.getElem?_eq_none (by simp; omega)] at hr'
        cases hr'
      · rintro ⟨j, q, hq, -, rfl, hno⟩
        obtain ⟨hj, -⟩ := List.getElem?_eq_some_iff.mp hq
        rw [List.length_append, List.length_singleton] at hj
        rcases Nat.lt_or_ge j rs.length with hlt | hge
        · exact absurd hr (hno _ r hlt hlast)
        · rw [show j = rs.length by omega]
    · rw [if_neg hr, ih]
      constructor
      · rintro ⟨j, q, hq, hkey, hk, hno⟩
        have hj := (List.getElem?_eq_some_iff.mp hq).1
        refine ⟨j, q, by rw [List.getElem?_append_left hj, hq], hkey, hk, fun j' r' hlt hr' ↦ ?_⟩
        rcases Nat.lt_or_ge j' rs.length with hlt' | hge
        · exact hno j' r' hlt (by rwa [List.getElem?_append_left hlt'] at hr')
        · rw [List.getElem?_append_right hge] at hr'
          rw [List.mem_singleton.mp (List.mem_of_getElem? hr')]
          exact hr
      · rintro ⟨j, q, hq, hkey, hk, hno⟩
        have hlt : j < rs.length := by
          by_contra hge
          rw [List.getElem?_append_right (by omega)] at hq
          rw [List.mem_singleton.mp (List.mem_of_getElem? hq)] at hkey
          exact hr hkey
        rw [List.getElem?_append_left hlt] at hq
        refine ⟨j, q, hq, hkey, hk, fun j' r' hjj hr' ↦ hno j' r' hjj ?_⟩
        rw [List.getElem?_append_left (List.getElem?_eq_some_iff.mp hr').1, hr']

theorem indexRoutes_isSome {r : PreparedRoute} (hr : r ∈ rs) (hkey : r.Indexes key) :
    ∃ k, indexRoutes rs 0 (fun _ ↦ none) key = some k := by
  induction rs using List.reverseRecOn with
  | nil => cases hr
  | append_singleton rs q ih =>
    rw [indexRoutes_append, insertKeys_eq]
    by_cases hq : ∃ name ∈ q.keys, routeKey name = key
    · exact ⟨_, if_pos hq⟩
    · rw [if_neg hq]
      rcases List.mem_append.mp hr with hr | hr
      · exact ih hr
      · exact absurd (List.mem_singleton.mp hr ▸ hkey) hq

variable {huffman : List UInt8 → List UInt8} {routes : List (List UInt8 × File)} {dummies : Nat}
  {a : Attached}

/-- The paths are kept in order, and no key was too long. -/
theorem prepareRoutes_keys {start stop : Nat} {prepared : List PreparedRoute}
    (h : prepareRoutes huffman routes start = .ok (prepared, stop)) :
    (prepared.map PreparedRoute.path).Sublist (routes.map Prod.fst) ∧
      ∀ r ∈ prepared, r.keys = [r.path, huffman r.path] ∧ ∀ key ∈ r.keys,
        key.length ≤ maxRoutePath := by
  induction routes generalizing start prepared stop with
  | nil =>
    cases h
    exact ⟨List.Sublist.slnil, by simp⟩
  | cons route routes ih =>
    unfold prepareRoutes at h
    cases hone : prepareRoute huffman route.1 route.2 start with
    | error e =>
      rw [hone] at h
      cases h
    | ok t =>
    obtain ⟨first, mid⟩ := t
    have hfrom := (prepareRoute_spec hone).1
    rw [hone] at h
    simp only [Except.bind] at h
    cases hrest : prepareRoutes huffman routes mid with
    | error e =>
      rw [hrest] at h
      cases h
    | ok t =>
    obtain ⟨rest, stop'⟩ := t
    obtain ⟨hsub, hkeys⟩ := ih hrest
    rw [hrest] at h
    cases h
    cases first with
    | none => exact ⟨hsub.trans (List.sublist_cons_self _ _), hkeys⟩
    | some r =>
      have hr := (hfrom r rfl).keys
      have hpath : r.path = route.1 := by rw [PreparedRoute.path, hr, List.headD_cons]
      -- the check was passed
      have hfits : ∀ key ∈ r.keys, key.length ≤ maxRoutePath := by
        unfold prepareRoute at hone
        simp only at hone
        split at hone
        · cases hone
        · rename_i hany
          intro key hmem
          rw [hr] at hmem
          exact Nat.le_of_not_gt fun hlong ↦
            hany (List.any_eq_true.mpr ⟨key, hmem, decide_eq_true hlong⟩)
      refine ⟨?_, fun q hq ↦ ?_⟩
      · show (r.path :: rest.map PreparedRoute.path).Sublist _
        rw [hpath]
        exact hsub.cons_cons _
      · rcases List.mem_cons.mp hq with rfl | hq
        · exact ⟨by rw [hr, hpath], hfits⟩
        · exact hkeys q hq

/-- The routes are told apart by their paths, and every one has both of its keys. -/
structure Attached.Keyed (a : Attached) : Prop where
  few : a.prepared.length ≤ maxRoutes
  distinct : (a.prepared.map PreparedRoute.path).Nodup
  paths : ∀ r ∈ a.prepared, IsPath r.path
  keys : ∀ r ∈ a.prepared, r.keys = [onWire false r.path, onWire true r.path]
  fit : ∀ r ∈ a.prepared, ∀ key ∈ r.keys, key.length ≤ maxRoutePath

theorem attach_keyed (hrfc : ∀ path, huffman path = Huffman.encode path)
    (h : attach huffman routes dummies = .ok a) (hdistinct : (routes.map Prod.fst).Nodup)
    (hpaths : ∀ path ∈ routes.map Prod.fst, IsPath path) : a.Keyed := by
  have hfew := (attach_of h).few
  unfold attach at h
  split at h
  · cases h
  split at h
  · cases h
  cases hprep : prepareRoutes huffman routes 0 with
  | error e =>
    rw [hprep] at h
    cases h
  | ok t =>
  obtain ⟨prepared, stop⟩ := t
  obtain ⟨hsub, hkeys⟩ := prepareRoutes_keys hprep
  rw [hprep] at h
  cases h
  exact
    { few := hfew
      distinct := hsub.nodup hdistinct
      paths := fun r hr ↦ hpaths _ (hsub.subset (List.mem_map_of_mem hr))
      keys := fun r hr ↦ by rw [(hkeys r hr).1, hrfc]; rfl
      fit := fun r hr ↦ (hkeys r hr).2 }

/-! ## 3. What is found -/

theorem tryServeRoute_find {h : Helpers} (hread : h.ok .readPath = true) (cfg : Routes)
    (flow : Option H2Flow) (msg : SkMsg) (name : List UInt8) (sid : UInt32) (reqLen : Nat) :
    tryServeRoute h cfg flow msg name sid reqLen =
      match cfg.find name with
      | none => (-1, msg, flow)
      | some i => serveRoute h cfg.arena flow msg (cfg.routes i) sid reqLen := by
  unfold tryServeRoute Routes.find
  split
  · rfl
  rw [if_neg (by rw [hread]; exact Bool.noConfusion)]
  cases cfg.routeIdx (routeKey name) <;> rfl

theorem Attached.Keyed.indexes_iff (ha : a.Keyed) {r : PreparedRoute} (hr : r ∈ a.prepared)
    {q : List UInt8} (hq : IsPath q) {c : Bool} (hfits : (onWire c q).length ≤ maxRoutePath) :
    r.Indexes (routeKey (onWire c q)) ↔ r.path = q ∨ c = true ∧ Alike r.path q := by
  have hkeys := ha.keys r hr
  have hfit := ha.fit r hr
  rw [hkeys, List.forall_mem_cons, List.forall_mem_singleton] at hfit
  unfold PreparedRoute.Indexes
  rw [hkeys, List.exists_mem_cons_iff]
  simp only [List.mem_singleton, exists_eq_left]
  rw [routeKey_onWire (ha.paths r hr) hq hfit.1 hfits, routeKey_onWire (ha.paths r hr) hq hfit.2 hfits]
  cases c with
  | false => simp
  | true => simp

/-- The last of the routes that are indexed under the key of a path. -/
theorem Attached.Keyed.find_eq_some_iff (ha : a.Keyed) {name : List UInt8} {i : Fin maxRoutes} :
    a.cfg.find name = some i ↔ (name.length ≠ 0 ∧ name.length ≤ maxRoutePath) ∧
      ∃ r, a.prepared[i.val]? = some r ∧ r.Indexes (routeKey name) ∧
        ∀ j r', i.val < j → a.prepared[j]? = some r' → ¬ r'.Indexes (routeKey name) := by
  have hat {j : Nat} {r : PreparedRoute} (hr : a.prepared[j]? = some r) :
      min (UInt8.ofNat j).toNat (maxRoutes - 1) = j := by
    have hj := (List.getElem?_eq_some_iff.mp hr).1
    have hfew := ha.few
    simp only [maxRoutes] at hfew ⊢
    rw [UInt8.toNat_ofNat', Nat.mod_eq_of_lt (by omega)]
    omega
  unfold Routes.find
  by_cases hlen : name.length = 0 ∨ name.length > maxRoutePath
  · rw [if_pos hlen]
    refine ⟨fun h ↦ ?_, fun h ↦ ?_⟩
    · cases h
    · omega
  rw [if_neg hlen, Option.map_eq_some_iff]
  constructor
  · rintro ⟨k, hk, hi⟩
    obtain ⟨j, r, hr, hkey, rfl, hno⟩ := indexRoutes_eq_some_iff.mp hk
    have hij : i.val = j := by rw [← hi]; exact hat hr
    exact ⟨by omega, r, by rw [hij, hr], hkey, fun j' r' hlt ↦ hno j' r' (by omega)⟩
  · rintro ⟨-, r, hr, hkey, hno⟩
    exact ⟨UInt8.ofNat i.val, indexRoutes_eq_some_iff.mpr ⟨i.val, r, hr, hkey, rfl, hno⟩,
      Fin.ext (hat hr)⟩

/-- The routes with the path are found, and no others. -/
structure Attached.Exact (a : Attached) (coded : Bool) (q : List UInt8) : Prop where
  finds : ∀ i : Fin maxRoutes, a.cfg.find (onWire coded q) = some i ↔
    a.prepared[i.val]?.map PreparedRoute.path = some q
  unknown : q ∉ a.prepared.map PreparedRoute.path → ∀ h flow msg sid reqLen,
    tryServeRoute h a.cfg flow msg (onWire coded q) sid reqLen = (-1, msg, flow)

/-- Whatever is coded like the path comes before the route with the path, which replaces it. -/
def Attached.Replaces (a : Attached) (q : List UInt8) : Prop :=
  (onWire true q).length ≤ maxRoutePath → ∀ (j : Nat) (r : PreparedRoute),
    a.prepared[j]? = some r → r.path ≠ q → Alike r.path q →
    ∃ (i : Nat) (r' : PreparedRoute), j < i ∧ a.prepared[i]? = some r' ∧ r'.path = q

theorem Attached.Keyed.unique (ha : a.Keyed) {i j : Nat} {r r' : PreparedRoute}
    (hr : a.prepared[i]? = some r) (hr' : a.prepared[j]? = some r') (h : r.path = r'.path) :
    i = j := by
  have hpaths (k : Nat) : (a.prepared.map PreparedRoute.path)[k]? =
      a.prepared[k]?.map PreparedRoute.path := List.getElem?_map
  have hlt := (List.getElem?_eq_some_iff.mp hr).1
  exact (List.getElem?_inj (by rwa [List.length_map]) ha.distinct).mp
    (by rw [hpaths, hpaths, hr, hr', Option.map_some, Option.map_some, h])

theorem onWire_length {q : List UInt8} (hq : IsPath q) (coded : Bool) :
    (onWire coded q).length ≠ 0 := by
  cases coded with
  | false => exact fun h ↦ hq.ne_nil (List.length_eq_zero_iff.mp h)
  | true =>
    intro h
    obtain ⟨b, hb, -⟩ := hq.coded_head
    rw [List.length_eq_zero_iff.mp (show (Huffman.encode q).length = 0 from h)] at hb
    cases hb

theorem Attached.Keyed.fits (ha : a.Keyed) {r : PreparedRoute} (hr : r ∈ a.prepared) (coded : Bool) :
    (onWire coded r.path).length ≤ maxRoutePath := by
  apply ha.fit r hr
  rw [ha.keys r hr]
  cases coded <;> simp

/-- Something is found under the keys of every route. -/
theorem find_isSome {r : PreparedRoute} (hr : r ∈ a.prepared)
    {q : List UInt8} (hq : IsPath q) {coded : Bool}
    (hfits : (onWire coded q).length ≤ maxRoutePath)
    (hkey : r.Indexes (routeKey (onWire coded q))) : ∃ i, a.cfg.find (onWire coded q) = some i := by
  obtain ⟨k, hk⟩ := indexRoutes_isSome hr hkey
  have hne := onWire_length hq coded
  unfold Routes.find
  rw [if_neg (by omega), show a.cfg.routeIdx (routeKey (onWire coded q)) = some k from hk]
  exact ⟨_, rfl⟩

theorem Attached.Keyed.exact_of_replaces (ha : a.Keyed) {q : List UInt8} (hq : IsPath q)
    {coded : Bool} (hrep : coded = true → a.Replaces q) : a.Exact coded q := by
  have hfinds (i : Fin maxRoutes) : a.cfg.find (onWire coded q) = some i ↔
      a.prepared[i.val]?.map PreparedRoute.path = some q := by
    rw [ha.find_eq_some_iff, Option.map_eq_some_iff]
    constructor
    · rintro ⟨⟨-, hfits⟩, r, hr, hkey, hno⟩
      refine ⟨r, hr, by_contra fun hne ↦ ?_⟩
      obtain ⟨hcoded, halike⟩ :=
        ((ha.indexes_iff (List.mem_of_getElem? hr) hq hfits).mp hkey).resolve_left hne
      obtain ⟨j, r', hj, hr', hpath⟩ := hrep hcoded (hcoded ▸ hfits) i r hr hne halike
      exact hno j r' hj hr' ((ha.indexes_iff (List.mem_of_getElem? hr') hq hfits).mpr (.inl hpath))
    · rintro ⟨r, hr, rfl⟩
      have hmem := List.mem_of_getElem? hr
      have hfits := ha.fits hmem coded
      refine ⟨⟨onWire_length hq coded, hfits⟩, r, hr, (ha.indexes_iff hmem hq hfits).mpr (.inl rfl),
        fun j r' hj hr' hkey ↦ ?_⟩
      have hother : r'.path ≠ r.path := fun hsame ↦ hj.ne (ha.unique hr hr' hsame.symm)
      obtain ⟨hcoded, halike⟩ :=
        ((ha.indexes_iff (List.mem_of_getElem? hr') hq hfits).mp hkey).resolve_left hother
      -- the route with the path would come after that one as well
      obtain ⟨k, r'', hk, hr'', hpath⟩ := hrep hcoded (hcoded ▸ hfits) j r' hr' hother halike
      have hsame := ha.unique hr hr'' hpath.symm
      omega
  refine ⟨hfinds, fun hunknown h flow msg sid reqLen ↦ ?_⟩
  have hnone : a.cfg.find (onWire coded q) = none := by
    by_contra hne
    obtain ⟨i, hi⟩ := Option.ne_none_iff_exists'.mp hne
    obtain ⟨r, hr, hpath⟩ := Option.map_eq_some_iff.mp ((hfinds i).mp hi)
    exact hunknown (hpath ▸ List.mem_map_of_mem (List.mem_of_getElem? hr))
  cases hread : h.ok .readPath with
  | true => rw [tryServeRoute_find hread, hnone]
  | false =>
    unfold tryServeRoute
    rw [if_pos hread, ite_self]

/-- The route with a path is found, and no other, for every path that is not Huffman coded, and for
one that is exactly if no other route that is coded alike is found in its place. -/
theorem exact_iff (hrfc : ∀ path, huffman path = Huffman.encode path)
    (h : attach huffman routes dummies = .ok a) (hdistinct : (routes.map Prod.fst).Nodup)
    (hpaths : ∀ path ∈ routes.map Prod.fst, IsPath path) {q : List UInt8} (hq : IsPath q)
    (coded : Bool) :
    (a.Exact coded q ↔ (coded = true → a.Replaces q)) ∧
      ∀ r ∈ a.prepared, ∀ r' ∈ a.prepared, r.path ≠ r'.path →
        ((∃ name ∈ r'.keys, r.Indexes (routeKey name)) ↔ Alike r.path r'.path) := by
  have ha := attach_keyed hrfc h hdistinct hpaths
  refine ⟨⟨?_, ha.exact_of_replaces hq⟩, fun r hr r' hr' hne ↦ ?_⟩
  · rintro hexact rfl hfits j r hr hne halike
    have hkey := (ha.indexes_iff (List.mem_of_getElem? hr) hq hfits).mpr (.inr ⟨rfl, halike⟩)
    obtain ⟨i, hi⟩ := find_isSome (List.mem_of_getElem? hr) hq hfits hkey
    obtain ⟨r', hr', hpath⟩ := Option.map_eq_some_iff.mp ((hexact.finds i).mp hi)
    -- it is the last one
    obtain ⟨-, -, -, -, hno⟩ := ha.find_eq_some_iff.mp hi
    refine ⟨i, r', Nat.lt_of_le_of_ne ?_ ?_, hr', hpath⟩
    · exact Nat.le_of_not_gt fun hlt ↦ hno j r hlt hr hkey
    · rintro rfl
      rw [hr] at hr'
      cases hr'
      exact hne hpath
  · have hq' := ha.paths r' hr'
    rw [ha.keys r' hr', List.exists_mem_cons_iff]
    simp only [List.mem_singleton, exists_eq_left]
    rw [ha.indexes_iff hr hq' (ha.fits hr' false), ha.indexes_iff hr hq' (ha.fits hr' true)]
    simp [hne]

/-- A single page under `/a`. -/
def onePage : List (List UInt8 × File) :=
  [([0x2F, 0x61], { extension := some "html", content := some [0x21] })]

/-- `/a` is found. -/
theorem exact_iff_onePage :
    ∃ a, attach Huffman.encode onePage 1 = .ok a ∧ a.Exact true [0x2F, 0x61] := by
  have hok : (attach Huffman.encode onePage 1).isOk = true := by decide +kernel
  have hpaths : ∀ path ∈ onePage.map Prod.fst, IsPath path := by
    intro path hpath
    rw [List.mem_singleton.mp hpath]
    exact ⟨rfl, by decide⟩
  cases ha : attach Huffman.encode onePage 1 with
  | error e =>
    rw [ha] at hok
    cases hok
  | ok a =>
    refine ⟨a, rfl, (exact_iff (fun _ ↦ rfl) ha (by decide) hpaths ⟨rfl, by decide⟩ true).1.mpr ?_⟩
    intro _ _ j r hr hne
    obtain ⟨route, hroute, hfrom⟩ := (attach_of ha).prepared r (List.mem_of_getElem? hr)
    refine absurd ?_ hne
    rw [PreparedRoute.path, hfrom.keys, List.mem_singleton.mp hroute]
    rfl

/-- A request for `/a&0`, Huffman coded, on the stream 1. -/
def unknownRequest : List UInt8 :=
  [0, 0, 7, 1, 5, 0, 0, 0, 1, 0x82, 0x44, 0x83, 0x60, 0x7F, 0x00, 0x86]

/-- `/a&0` is not a route, and what `/a` leads to is served in its place. -/
theorem unknown_served :
    ∃ a, attach Huffman.encode onePage 1 = .ok a ∧ onWire true [0x2F, 0x61, 0x26, 0x30] =
        [0x60, 0x7F, 0x00] ∧ [0x2F, 0x61, 0x26, 0x30] ∉ onePage.map Prod.fst ∧
      ¬ a.Exact true [0x2F, 0x61, 0x26, 0x30] ∧
      ∃ msg flow, tryServeRoute allOk a.cfg (some .initial) (.ofBytes unknownRequest)
          [0x60, 0x7F, 0x00] 1 unknownRequest.length = (0, msg, flow) ∧
        msg.bytes = (a.cfg.routes (routeAt 0)).response a.cfg.arena 1 := by
  have hwire : onWire true [0x2F, 0x61, 0x26, 0x30] = [0x60, 0x7F, 0x00] := by decide +kernel
  have hok : (attach Huffman.encode onePage 1).toOption.any (fun a ↦
      a.cfg.find [0x60, 0x7F, 0x00] == some (routeAt 0) &&
        (a.prepared.map PreparedRoute.path == [[0x2F, 0x61]] &&
          a.cfg.suited (some .initial) [0x60, 0x7F, 0x00] 1 unknownRequest.length
            unknownRequest.length == some (routeAt 0))) = true := by decide +kernel
  cases ha : attach Huffman.encode onePage 1 with
  | error e =>
    rw [ha] at hok
    cases hok
  | ok a =>
    rw [ha] at hok
    simp only [Except.toOption, Option.any_some, Bool.and_eq_true, beq_iff_eq] at hok
    obtain ⟨hfind, hpaths, hsuited⟩ := hok
    refine ⟨a, rfl, hwire, by decide, fun hexact ↦ ?_, ?_⟩
    · rw [← hwire] at hfind
      obtain ⟨r, hr, hpath⟩ := Option.map_eq_some_iff.mp ((hexact.finds _).mp hfind)
      have hmem : r.path ∈ a.prepared.map PreparedRoute.path :=
        List.mem_map_of_mem (List.mem_of_getElem? hr)
      rw [hpath, hpaths] at hmem
      exact absurd hmem (by decide)
    · have hall : allOk.AllOk := fun _ ↦ rfl
      rcases tryServeRoute_cases allOk a.cfg (some .initial) (.ofBytes unknownRequest)
        [0x60, 0x7F, 0x00] 1 unknownRequest.length with
        ⟨-, -, hfails⟩ | ⟨-, hno⟩ | ⟨i, msg, hi, hserved, hbytes, -⟩
      · exact absurd hall hfails
      · exact absurd (hsuited.symm.trans (hno hall)) (Option.some_ne_none _)
      · cases hsuited.symm.trans hi
        exact ⟨msg, _, hserved, hbytes.trans (List.append_nil _)⟩

end HyperFastPath.FastPath
