import Mathlib.Data.List.Induction
import Mathlib.Data.List.TakeWhile

/-!
# Front ends

A front end takes messages ahead of a server.  It answers the requests at the front of a message
itself, and hands the rest of the message over along with as much of what follows as belongs to it.
Once something else is spoken it stops.
-/

variable {α ρ : Type*}

/-- What a front end does about what there is of a message: it answers the first `len` of it, hands
all of it over with what is to come up to a length of `span`, or stops. -/
inductive Reaction (α : Type*) where
  | answers (len : Nat) (response : List α)
  | handsOver (span : Nat)
  | switches
  deriving DecidableEq, Repr

structure FrontEnd (α : Type*) where
  react : List α → Reaction α
  consumes : ∀ buf len response, react buf = .answers len response → 0 < len

/-- What has come of the messages so far, and how much of those to come belongs to the server. -/
structure Tally (α : Type*) where
  toClient : List α
  toServer : List α
  left : Nat
  switched : Bool
  deriving DecidableEq, Repr

namespace FrontEnd

def start : Tally α := { toClient := [], toServer := [], left := 0, switched := false }

theorem rest_lt (f : FrontEnd α) {buf : List α} {len : Nat} {response : List α} (hne : buf ≠ [])
    (h : f.react buf = .answers len response) : buf.length - len < buf.length := by
  have hlen := f.consumes buf len response h
  have hpos := List.length_pos_iff.mpr hne
  omega

/-- The tally once `buf`, the rest of a message, is done with. -/
def finish (f : FrontEnd α) (t : Tally α) (buf : List α) : Tally α :=
  if hnil : buf = [] then t
  else
    match h : f.react buf with
    -- the requests behind this one are in the rest of the message
    | .answers len response =>
      have := f.rest_lt hnil h
      f.finish { t with toClient := t.toClient ++ response } (buf.drop len)
    | .handsOver span =>
      { t with toServer := t.toServer ++ buf, left := span - buf.length }
    | .switches => { t with switched := true }
termination_by buf.length

/-- One more message. -/
def take (f : FrontEnd α) (t : Tally α) (m : List α) : Tally α :=
  if t.switched then t
  -- what belongs to the server goes there unseen
  else f.finish { t with toServer := t.toServer ++ m.take t.left, left := t.left - m.length }
    (m.drop t.left)

/-- What comes of a stream of messages. -/
def serve (f : FrontEnd α) (ms : List (List α)) : Tally α := ms.foldl f.take start

/-! ## 1. One step at a time -/

variable {f : FrontEnd α} {t : Tally α} {buf : List α}

@[simp] theorem finish_nil (f : FrontEnd α) (t : Tally α) : f.finish t [] = t := by
  rw [finish, dif_pos rfl]

theorem finish_answers {len : Nat} {response : List α} (hne : buf ≠ [])
    (h : f.react buf = .answers len response) :
    f.finish t buf = f.finish { t with toClient := t.toClient ++ response } (buf.drop len) := by
  rw [finish, dif_neg hne]
  split <;> simp_all

theorem finish_handsOver {span : Nat} (hne : buf ≠ []) (h : f.react buf = .handsOver span) :
    f.finish t buf = { t with toServer := t.toServer ++ buf, left := span - buf.length } := by
  rw [finish, dif_neg hne]
  split <;> simp_all

theorem finish_switches (hne : buf ≠ []) (h : f.react buf = .switches) :
    f.finish t buf = { t with switched := true } := by
  rw [finish, dif_neg hne]
  split <;> simp_all

theorem serve_concat (f : FrontEnd α) (ms : List (List α)) (m : List α) :
    f.serve (ms ++ [m]) = f.take (f.serve ms) m := by
  rw [serve, List.foldl_append]
  rfl

/-! ## 2. Nothing is taken back -/

/-- `t'` has come of `t`. -/
structure Extends (t t' : Tally α) : Prop where
  client : t.toClient <+: t'.toClient
  server : t.toServer <+: t'.toServer

theorem Extends.refl (t : Tally α) : Extends t t := ⟨List.prefix_refl _, List.prefix_refl _⟩

theorem Extends.trans {t t' t'' : Tally α} (h : Extends t t') (h' : Extends t' t'') :
    Extends t t'' := ⟨h.client.trans h'.client, h.server.trans h'.server⟩

theorem finish_extends (f : FrontEnd α) (t : Tally α) (buf : List α) :
    Extends t (f.finish t buf) := by
  -- along the reactions to what there is of the message
  fun_induction finish f t buf with
  | case1 t => exact .refl t
  | case2 t buf hne len response h hlt ih =>
    have hanswer : Extends t { t with toClient := t.toClient ++ response } :=
      ⟨List.prefix_append _ _, List.prefix_refl _⟩
    exact hanswer.trans ih
  | case3 t buf hne span h => exact ⟨List.prefix_refl _, List.prefix_append _ _⟩
  | case4 t buf hne h => exact ⟨List.prefix_refl _, List.prefix_refl _⟩

theorem take_switched {t : Tally α} (h : t.switched = true) (m : List α) : f.take t m = t := by
  rw [take, if_pos h]

/-! ## 3. Whole requests -/

/-- Whatever follows the request `r` in a message, the front end sees it: it gives the reply, if it
has one, or hands over this message and nothing of the next. -/
structure Sees (f : FrontEnd α) (wire : ρ → List α) (reply : ρ → Option (List α)) (r : ρ) :
    Prop where
  ne_nil : wire r ≠ []
  answers : ∀ response, reply r = some response → ∀ rest,
    f.react (wire r ++ rest) = .answers (wire r).length response
  handsOver : reply r = none → ∀ rest, ∃ span,
    f.react (wire r ++ rest) = .handsOver span ∧ span ≤ (wire r ++ rest).length

variable {wire : ρ → List α} {reply : ρ → Option (List α)}

variable (reply) in
/-- The replies to the requests of a message, up to the first that has none. -/
def replies (rs : List ρ) : List α :=
  (rs.takeWhile fun r ↦ (reply r).isSome).flatMap fun r ↦ (reply r).getD []

variable (wire reply) in
/-- The rest of the message. -/
def remainder (rs : List ρ) : List α :=
  (rs.dropWhile fun r ↦ (reply r).isSome).flatMap wire

theorem finish_requests {rs : List ρ} (hrs : ∀ r ∈ rs, f.Sees wire reply r) {t : Tally α}
    (hleft : t.left = 0) :
    f.finish t (rs.flatMap wire) = { t with
      toClient := t.toClient ++ replies reply rs
      toServer := t.toServer ++ remainder wire reply rs } := by
  induction rs generalizing t with
  | nil => simp [replies, remainder]
  | cons r rs ih =>
    obtain ⟨hne, hanswers, hhands⟩ := hrs r List.mem_cons_self
    have hne' : wire r ++ rs.flatMap wire ≠ [] := List.append_ne_nil_of_left_ne_nil hne _
    rw [List.flatMap_cons]
    cases hreply : reply r with
    | some response =>
      have hrest := ih (fun r' hr' ↦ hrs r' (List.mem_cons_of_mem r hr'))
        (t := { t with toClient := t.toClient ++ response }) hleft
      rw [finish_answers hne' (hanswers response hreply _), List.drop_left, hrest]
      simp [replies, remainder, hreply]
    | none =>
      -- the requests behind it go along with it
      obtain ⟨span, hreact, hspan⟩ := hhands hreply (rs.flatMap wire)
      rw [finish_handsOver hne' hreact, Nat.sub_eq_zero_of_le hspan]
      simp [replies, remainder, hreply, hleft]

/-- Of messages that hold whole requests, the client gets the replies to those that stand ahead of
the first without one, and the server gets the rest. -/
theorem serve_requests {mss : List (List ρ)}
    (hmss : ∀ rs ∈ mss, ∀ r ∈ rs, f.Sees wire reply r) :
    f.serve (mss.map fun rs ↦ rs.flatMap wire) = {
      toClient := mss.flatMap (replies reply)
      toServer := mss.flatMap (remainder wire reply)
      left := 0
      switched := false } := by
  induction mss using List.reverseRecOn with
  | nil => rfl
  | append_singleton mss rs ih =>
    rw [List.map_append, List.map_singleton, serve_concat,
      ih fun rs' hrs' ↦ hmss rs' (List.mem_append_left _ hrs')]
    have hlast := hmss rs (by simp)
    simp only [take, Bool.false_eq_true, if_false, List.take_zero, List.append_nil, List.drop_zero,
      Nat.zero_sub]
    rw [finish_requests hlast rfl]
    simp

end FrontEnd
