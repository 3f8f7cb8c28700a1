import HyperFastPath.Dummies.System
import HyperFastPath.FastPath.Alignment

/-!
# Connections do not see each other

Whatever else goes on, a connection that was lent a dummy is treated as it would be on a dummy of its
own that nothing has ever been sent on.
-/

namespace HyperFastPath.Dummies

open FastPath

/-- What connection `key` sends. -/
def messagesOf (key : Ip4Conn) : SystemEvent → List Message
  | .message k m => if k = key then [m] else []
  | _ => []

/-- What comes of what connection `key` sends. -/
def System.rulings (lim : Limits) (cfg : Routes) (ps : Parsers) (key : Ip4Conn) (s : System) :
    SystemEvent → List Ruling
  | .backlog i =>
    if s.pool.connDummy key = some i ∧ ¬ (s.dummies i).psock.Busy then
      match (s.dummies i).queue with
      | [] => []
      | m :: _ => (s.pipe key i).rulings lim cfg (.send m)
    else []
  | .run i h =>
    if s.pool.connDummy key = some i then
      let p := s.pipe key i
      p.rulings lim cfg (.run h (ps.answers p))
    else []
  | _ => []

/-- No helper fails in a run on the dummy of connection `key`. -/
def SucceedsFor (key : Ip4Conn) (s : System) : SystemEvent → Prop
  | .run i h => s.pool.connDummy key = some i → h.AllOk
  | _ => True

def Closes (key : Ip4Conn) : SystemEvent → Prop
  | .pool (.close k _) => k = key
  | _ => False

instance (key : Ip4Conn) : (e : SystemEvent) → Decidable (Closes key e)
  | .pool (.close _ _) => inferInstanceAs (Decidable (_ = _))
  | .pool (.accept _ _) | .pool .deliver | .pool (.reset _) => isFalse id
  | .message _ _ | .backlog _ | .run _ _ => isFalse id

variable {lim : Limits} {cfg : Routes} {ps : Parsers} {n i : Nat} {s : System} {key : Ip4Conn}

/-! ## 1. What the others do -/

/-- What matters to connection `key` and its dummy `i`. -/
structure SameFor (key : Ip4Conn) (i : Nat) (s s' : System) : Prop where
  held : s'.pool.connDummy key = s.pool.connDummy key
  conn : s'.conns key = s.conns key
  dummy : s'.dummies i = s.dummies i
  delivered : s'.delivered key = s.delivered key

theorem SameFor.refl (key : Ip4Conn) (i : Nat) (s : System) : SameFor key i s s :=
  ⟨rfl, rfl, rfl, rfl⟩

theorem SameFor.pipe {s' : System} (h : SameFor key i s s') : s'.pipe key i = s.pipe key i := by
  rw [System.pipe, System.pipe, h.conn, h.dummy, h.delivered]

/-- What happens to a connection's pipe. -/
def Concerns (key : Ip4Conn) (i : Nat) : SystemEvent → Prop
  | .message k _ => k = key
  | .backlog j | .run j _ => j = i
  | .pool _ => False

theorem setDummy_same {j : Nat} (s : System) (d : Dummy) (hj : j ≠ i) :
    SameFor key i s (s.setDummy j d) :=
  ⟨rfl, rfl, setDummy_of_ne s d hj.symm, rfl⟩

theorem setPipe_same {j : Nat} {key' : Ip4Conn} (s : System) (p : Pipe) (queue : List Message)
    (table : Option (List HeaderField)) (hj : j ≠ i) (hkey : key' ≠ key) :
    SameFor key i s (s.setPipe key' j p queue table) where
  held := rfl
  conn := Function.update_of_ne hkey.symm _ _
  dummy := Function.update_of_ne hj.symm _ _
  delivered := Function.update_of_ne hkey.symm _ _

theorem others_keep {e : SystemEvent} (hs : s.Fresh n) (hc : s.pool.connDummy key = some i)
    (hsane : Sane s e) (hclose : ¬ Closes key e) (hother : ¬ Concerns key i e) :
    SameFor key i s (s.step lim cfg ps e) := by
  -- the dummy of another connection is another one
  have howner (j : Nat) (hj : j ≠ i) (hactive : (s.pool.dummyOwners j).active = true) :
      (s.pool.dummyOwners j).conn ≠ key := fun hkey ↦ by
    have hlent := hs.sound.lent hactive
    rw [hkey, hc] at hlent
    exact hj (Option.some.inj hlent).symm
  cases e with
  | pool e =>
    cases e with
    | accept key' ok =>
      have hnew : key' ∉ s.pool.opened := hsane
      have hkey : key ≠ key' := fun hkk ↦ hnew (hkk ▸ hs.sound.opened key i hc)
      obtain ⟨hkeys, -, -⟩ := addConn_keeps hs.sound hnew ok
      exact ⟨hkeys key hkey, rfl, rfl, Function.update_of_ne hkey _ _⟩
    | close key' output =>
      have hkey : key ≠ key' := fun hkk ↦ hclose hkk.symm
      obtain ⟨-, hkeys, -⟩ := removeConn_keeps s.pool key' output
      simp only [System.step, System.removeConn]
      cases s.pool.connDummy key' with
      | none => exact ⟨hkeys key hkey, rfl, rfl, rfl⟩
      | some j => exact ⟨hkeys key hkey, Function.update_of_ne hkey _ _, rfl, rfl⟩
    | deliver =>
      have hpool : s.pool.deliver.connDummy = s.pool.connDummy := by
        unfold Pool.deliver
        split <;> rfl
      exact ⟨congrFun hpool key, rfl, rfl, rfl⟩
    | reset ok =>
      obtain ⟨hkeys, -⟩ := reset_keeps s.pool ok
      unfold System.step
      simp only
      cases hq : s.pool.quarantine with
      | nil => exact .refl key i s
      | cons j rest =>
        have hj : j ≠ i := fun hji ↦
          hs.sound.not_quarantined hc (by rw [hq, hji]; exact List.mem_cons_self)
        simp only
        split
        · exact ⟨congrFun hkeys key, rfl, setDummy_of_ne s _ hj.symm, rfl⟩
        · exact ⟨congrFun hkeys key, rfl, rfl, rfl⟩
  | message key' m =>
    unfold System.step
    simp only
    cases hc' : s.pool.connDummy key' with
    | none => exact .refl key i s
    | some j => exact setDummy_same s _ fun hji ↦ hother (hs.sound.same_key (hji ▸ hc') hc)
  | backlog j =>
    unfold System.step System.send
    simp only
    split
    · exact .refl key i s
    · cases (s.dummies j).queue with
      | nil => exact .refl key i s
      | cons m queue =>
        simp only
        split
        · exact setPipe_same s _ _ _ hother (howner j hother ‹_›)
        · exact setDummy_same s _ hother
  | run j h =>
    unfold System.step System.run
    simp only
    split
    · exact .refl key i s
    · split
      · exact setPipe_same s _ _ _ hother (howner j hother ‹_›)
      · exact setDummy_same s _ hother

variable (lim cfg ps) in
theorem others_rule {e : SystemEvent} (hc : s.pool.connDummy key = some i)
    (hother : ¬ Concerns key i e) :
    messagesOf key e = [] ∧ s.rulings lim cfg ps key e = [] := by
  cases e with
  | pool e => exact ⟨rfl, rfl⟩
  | message k m => exact ⟨if_neg hother, rfl⟩
  | backlog j =>
    refine ⟨rfl, if_neg fun hj ↦ hother ?_⟩
    rw [hc] at hj
    exact (Option.some.inj hj.1).symm
  | run j h =>
    refine ⟨rfl, if_neg fun hj ↦ hother ?_⟩
    rw [hc] at hj
    exact (Option.some.inj hj).symm

/-! ## 2. What its own dummy does -/

theorem send_mirror (p : Pipe) (m : Message) : (p.step lim cfg (.send m)).mirror = p.mirror := by
  simp only [Pipe.step]
  split
  · cases p.dir <;> rfl
  · rfl

/-- The HTTP/1.1 parser keeps no table. -/
theorem run_mirror {p : Pipe} (hh1 : p.conn.isH2 = false) (h : Helpers) (ans : Answers) :
    (p.step lim cfg (.run h ans)).mirror = p.mirror := by
  have hmirror : p.mirrorAfter ans = p.mirror := by
    rw [Pipe.mirrorAfter, hh1]
    rfl
  simp only [Pipe.step]
  split
  · split
    · rename_i dir _ _
      cases dir <;> exact hmirror
    · exact hmirror
  · rfl

theorem pipe_setPipe (s : System) (key : Ip4Conn) (i : Nat) (p : Pipe) (queue : List Message)
    {table : Option (List HeaderField)} (ht : table.getD [] = p.mirror) :
    (s.setPipe key i p queue table).pipe key i = p ∧
      ((s.setPipe key i p queue table).dummies i).queue = queue := by
  simp [System.pipe, System.setPipe, ht]

/-- Connection `key` holds dummy `i`, and having sent `ms` it has come as far as on a dummy of its
own, by way of `rs`. -/
structure Follows (lim : Limits) (cfg : Routes) (ps : Parsers) (n : Nat) (key : Ip4Conn) (i : Nat)
    (s : System) (ms : List Message) (rs : List Ruling) : Prop where
  fresh : s.Fresh n
  held : s.pool.connDummy key = some i
  solo : ∃ k, ∀ later,
    (Solo.next lim cfg ps)^[k] ⟨.new, ms ++ later⟩ =
      ⟨s.pipe key i, (s.dummies i).queue ++ later⟩ ∧
    Runs.trace (Solo.next lim cfg ps) (Solo.rulings lim cfg ps) k ⟨.new, ms ++ later⟩ = rs

variable {ms : List Message} {rs : List Ruling}

/-- One more step on a dummy of its own. -/
theorem Follows.advance (hf : Follows lim cfg ps n key i s ms rs) {s' : System} {r : List Ruling}
    (hfresh : s'.Fresh n) (hheld : s'.pool.connDummy key = some i)
    (hnext : ∀ later, Solo.next lim cfg ps ⟨s.pipe key i, (s.dummies i).queue ++ later⟩ =
        ⟨s'.pipe key i, (s'.dummies i).queue ++ later⟩ ∧
      Solo.rulings lim cfg ps ⟨s.pipe key i, (s.dummies i).queue ++ later⟩ = r) :
    Follows lim cfg ps n key i s' ms (rs ++ r) := by
  obtain ⟨k, hk⟩ := hf.solo
  refine ⟨hfresh, hheld, k + 1, fun later ↦ ?_⟩
  obtain ⟨hstate, htrace⟩ := hk later
  obtain ⟨hstep, hrulings⟩ := hnext later
  rw [Function.iterate_succ_apply', Runs.trace_succ, hstate, htrace, hstep, hrulings]
  exact ⟨rfl, rfl⟩

theorem Follows.same (hf : Follows lim cfg ps n key i s ms rs) {s' : System} (hfresh : s'.Fresh n)
    (hsame : SameFor key i s s') : Follows lim cfg ps n key i s' ms rs := by
  refine ⟨hfresh, hsame.held.trans hf.held, ?_⟩
  rw [hsame.pipe, hsame.dummy]
  exact hf.solo

theorem Follows.message (hf : Follows lim cfg ps n key i s ms rs) (m : Message)
    (hfresh : (s.step lim cfg ps (.message key m)).Fresh n) :
    Follows lim cfg ps n key i (s.step lim cfg ps (.message key m)) (ms ++ [m]) rs := by
  have hstep : s.step lim cfg ps (.message key m) =
      s.setDummy i { s.dummies i with queue := (s.dummies i).queue ++ [m] } := by
    simp only [System.step, hf.held]
  rw [hstep] at hfresh ⊢
  obtain ⟨k, hk⟩ := hf.solo
  refine ⟨hfresh, hf.held, k, fun later ↦ ?_⟩
  -- the message is one of those that were still to come
  have hlater := hk (m :: later)
  simpa [System.pipe, System.setDummy] using hlater

theorem Follows.backlog (hf : Follows lim cfg ps n key i s ms rs)
    (hfresh : (s.step lim cfg ps (.backlog i)).Fresh n) :
    Follows lim cfg ps n key i (s.step lim cfg ps (.backlog i)) ms
      (rs ++ s.rulings lim cfg ps key (.backlog i)) := by
  have howner := (hf.fresh.sound.owner key i).mp hf.held
  by_cases hbusy : (s.dummies i).psock.Busy
  · have hstep : s.step lim cfg ps (.backlog i) = s := if_pos hbusy
    rw [hstep, System.rulings, if_neg fun hc ↦ hc.2 hbusy, List.append_nil]
    exact hf
  have hpend : ¬ (s.pipe key i).Pending := hbusy
  have hrulings : s.rulings lim cfg ps key (.backlog i) = match (s.dummies i).queue with
      | [] => []
      | m :: _ => (s.pipe key i).rulings lim cfg (.send m) := if_pos ⟨hf.held, hbusy⟩
  cases hq : (s.dummies i).queue with
  | nil =>
    have hstep : s.step lim cfg ps (.backlog i) = s := by
      simp only [System.step, if_neg hbusy, hq]
    rw [hstep, hrulings, hq, List.append_nil]
    exact hf
  | cons m queue =>
    have hstep : s.step lim cfg ps (.backlog i) =
        s.setPipe key i ((s.pipe key i).step lim cfg (.send m)) queue (s.dummies i).table := by
      simp only [System.step, if_neg hbusy, hq, System.send, howner, if_true]
    have htable : (s.dummies i).table.getD [] = ((s.pipe key i).step lim cfg (.send m)).mirror :=
      (send_mirror (s.pipe key i) m).symm
    obtain ⟨hpipe, hqueue⟩ := pipe_setPipe s key i _ queue htable
    rw [hq] at hrulings
    rw [hstep] at hfresh ⊢
    apply hf.advance hfresh hf.held
    intro later
    obtain ⟨hnext, hsolo⟩ := solo_send lim cfg ps (queue ++ later) hpend m
    rw [hq, List.cons_append, hnext, hsolo, hpipe, hqueue, hrulings]
    exact ⟨rfl, rfl⟩

theorem Follows.run (hf : Follows lim cfg ps n key i s ms rs) {h : Helpers} (hall : h.AllOk)
    (hfresh : (s.step lim cfg ps (.run i h)).Fresh n) :
    Follows lim cfg ps n key i (s.step lim cfg ps (.run i h)) ms
      (rs ++ s.rulings lim cfg ps key (.run i h)) := by
  have howner := (hf.fresh.sound.owner key i).mp hf.held
  have hrulings : s.rulings lim cfg ps key (.run i h) =
      (s.pipe key i).rulings lim cfg (.run h (ps.answers (s.pipe key i))) := if_pos hf.held
  by_cases hbusy : (s.dummies i).psock.Busy
  swap
  · have hstep : s.step lim cfg ps (.run i h) = s := if_pos hbusy
    have hnone : (s.pipe key i).rulings lim cfg (.run h (ps.answers (s.pipe key i))) = [] :=
      if_neg hbusy
    rw [hstep, hrulings, hnone, List.append_nil]
    exact hf
  have hpend : (s.pipe key i).Pending := hbusy
  generalize hp' : (s.pipe key i).step lim cfg (.run h (ps.answers (s.pipe key i))) = p'
  have hstep : s.step lim cfg ps (.run i h) = s.setPipe key i p' (s.dummies i).queue
      (if (s.pipe key i).conn.isH2 then some p'.mirror else (s.dummies i).table) := by
    simp only [System.step, System.run, hbusy, not_true_eq_false, if_false, howner, if_true, hp']
  have htable : (if (s.pipe key i).conn.isH2 then some p'.mirror
      else (s.dummies i).table).getD [] = p'.mirror := by
    split
    · rfl
    · rw [← hp', run_mirror (eq_false_of_ne_true ‹_›)]
      rfl
  obtain ⟨hpipe, hqueue⟩ := pipe_setPipe s key i p' (s.dummies i).queue htable
  rw [hstep] at hfresh ⊢
  apply hf.advance hfresh hf.held
  intro later
  obtain ⟨hnext, hsolo⟩ := solo_run lim cfg ps ((s.dummies i).queue ++ later) hall hpend
  rw [hnext, hsolo, hpipe, hqueue, hrulings, hp']
  exact ⟨rfl, rfl⟩

theorem Follows.step (hf : Follows lim cfg ps n key i s ms rs) {e : SystemEvent} (hsane : Sane s e)
    (hclose : ¬ Closes key e) (hok : SucceedsFor key s e) :
    Follows lim cfg ps n key i (s.step lim cfg ps e) (ms ++ messagesOf key e)
      (rs ++ s.rulings lim cfg ps key e) := by
  have hfresh := fresh_step lim cfg ps hf.fresh hsane
  by_cases hother : Concerns key i e
  swap
  · obtain ⟨hms, hrs⟩ := others_rule lim cfg ps hf.held hother
    rw [hms, hrs, List.append_nil, List.append_nil]
    exact hf.same hfresh (others_keep hf.fresh hf.held hsane hclose hother)
  cases e with
  | pool e => exact hother.elim
  | message k m =>
    have hkey : k = key := hother
    have hms : messagesOf key (.message k m) = [m] := if_pos hkey
    have hrs : s.rulings lim cfg ps key (.message k m) = [] := rfl
    rw [hms, hrs, List.append_nil]
    subst hkey
    exact hf.message m hfresh
  | backlog j =>
    have hms : messagesOf key (.backlog j) = [] := rfl
    have hdummy : j = i := hother
    rw [hms, List.append_nil]
    subst hdummy
    exact hf.backlog hfresh
  | run j h =>
    have hms : messagesOf key (.run j h) = [] := rfl
    have hdummy : j = i := hother
    rw [hms, List.append_nil]
    subst hdummy
    exact hf.run (hok hf.held) hfresh

theorem Follows.exec (hf : Follows lim cfg ps n key i s ms rs) {events : List SystemEvent}
    (hsane : Runs.Along (System.step lim cfg ps) Sane s events)
    (hok : Runs.Along (System.step lim cfg ps) (SucceedsFor key) s events)
    (hopened : ∀ e ∈ events, ¬ Closes key e) :
    Follows lim cfg ps n key i (Runs.exec (System.step lim cfg ps) s events)
      (ms ++ events.flatMap (messagesOf key))
      (rs ++ Runs.record (System.step lim cfg ps) (System.rulings lim cfg ps key) s events) := by
  induction events generalizing s ms rs with
  | nil => simpa using hf
  | cons e events ih =>
    have hstep := hf.step hsane.1 (hopened e List.mem_cons_self) hok.1
    have hrest := ih hstep hsane.2 hok.2 fun e' he' ↦ hopened e' (List.mem_cons_of_mem e he')
    rw [List.append_assoc, List.append_assoc] at hrest
    exact hrest

/-! ## 3. Two runs -/

/-- The state once a connection is established. -/
def established (lim : Limits) (cfg : Routes) (ps : Parsers) (n : Nat) (before : List SystemEvent)
    (key : Ip4Conn) (ok : AddStep → Bool) : System :=
  Runs.exec (System.step lim cfg ps) (.new n) (before ++ [.pool (.accept key ok)])

/-- Connection `key` is established after `before` and lent a dummy, and is open during `after`. -/
structure Tenancy (lim : Limits) (cfg : Routes) (ps : Parsers) (n : Nat) (key : Ip4Conn)
    (ok : AddStep → Bool) (before after : List SystemEvent) : Prop where
  sane : Runs.Along (System.step lim cfg ps) Sane (.new n)
    (before ++ [.pool (.accept key ok)] ++ after)
  lent : (established lim cfg ps n before key ok).pool.connDummy key ≠ none
  succeeds : Runs.Along (System.step lim cfg ps) (SucceedsFor key)
    (established lim cfg ps n before key ok) after
  opened : ∀ e ∈ after, ¬ Closes key e

/-- All that the connection has sent is worked off. -/
def System.Idle (key : Ip4Conn) (s : System) : Prop :=
  ∀ i ∈ s.pool.connDummy key, ¬ (s.dummies i).psock.Busy ∧ (s.dummies i).queue = []

instance (key : Ip4Conn) (s : System) : Decidable (s.Idle key) :=
  inferInstanceAs (Decidable (∀ i ∈ _, _ ∧ _))

theorem fresh_established {ok : AddStep → Bool} {before : List SystemEvent}
    (hsane : Runs.Along (System.step lim cfg ps) Sane (.new n)
      (before ++ [.pool (.accept key ok)]))
    (hi : (established lim cfg ps n before key ok).pool.connDummy key = some i) :
    Follows lim cfg ps n key i (established lim cfg ps n before key ok) [] [] := by
  obtain ⟨hbefore, haccept⟩ := (Runs.Along.concat_iff _ _ _).mp hsane
  have hs : (Runs.exec (System.step lim cfg ps) (.new n) before).Fresh n :=
    hbefore.preserves (I := fun s ↦ s.Fresh n) (fun _ _ ↦ fresh_step lim cfg ps) (.new n)
  have hfresh := fresh_step lim cfg ps hs haccept
  rw [established, Runs.exec_concat] at hi ⊢
  generalize Runs.exec (System.step lim cfg ps) (.new n) before = s at hs haccept hfresh hi ⊢
  have hnew : key ∉ s.pool.opened := haccept
  obtain ⟨-, -, hfree⟩ := addConn_keeps hs.sound hnew ok
  have hconn := hs.conns key (hs.sound.not_held hnew)
  have hdummy := hs.free i (hfree i hi)
  have hpipe : (s.step lim cfg ps (.pool (.accept key ok))).pipe key i = .new := by
    simp [System.pipe, System.step, hconn, hdummy, Dummy.new, Psock.new, Delivered.new, Pipe.new]
  have hqueue : ((s.step lim cfg ps (.pool (.accept key ok))).dummies i).queue = [] := by
    simp [System.step, hdummy, Dummy.new]
  refine ⟨hfresh, hi, 0, fun later ↦ ?_⟩
  rw [hpipe, hqueue]
  exact ⟨rfl, rfl⟩

variable {n₁ n₂ : Nat} {ok₁ ok₂ : AddStep → Bool} {before before₁ before₂ after after₁ after₂ :
  List SystemEvent} {ok : AddStep → Bool} {key₁ key₂ : Ip4Conn}

theorem Tenancy.follows (h : Tenancy lim cfg ps n key ok before after) :
    ∃ i, Follows lim cfg ps n key i
      (Runs.exec (System.step lim cfg ps) (established lim cfg ps n before key ok) after)
      (after.flatMap (messagesOf key))
      (Runs.record (System.step lim cfg ps) (System.rulings lim cfg ps key)
        (established lim cfg ps n before key ok) after) := by
  obtain ⟨i, hi⟩ := Option.ne_none_iff_exists'.mp h.lent
  obtain ⟨hbefore, hafter⟩ := (Runs.Along.append_iff _ _ _).mp h.sane
  exact ⟨i, (fresh_established hbefore hi).exec hafter h.succeeds h.opened⟩

/-- What comes of what a connection sends does not depend on its dummy, on its address pair or on
anything another connection does or has done. -/
theorem connection_isolated (h₁ : Tenancy lim cfg ps n₁ key₁ ok₁ before₁ after₁)
    (h₂ : Tenancy lim cfg ps n₂ key₂ ok₂ before₂ after₂)
    (hsame : after₁.flatMap (messagesOf key₁) = after₂.flatMap (messagesOf key₂)) :
    let s₁ := established lim cfg ps n₁ before₁ key₁ ok₁
    let s₂ := established lim cfg ps n₂ before₂ key₂ ok₂
    let rs₁ := Runs.record (System.step lim cfg ps) (System.rulings lim cfg ps key₁) s₁ after₁
    let rs₂ := Runs.record (System.step lim cfg ps) (System.rulings lim cfg ps key₂) s₂ after₂
    (rs₁ <+: rs₂ ∨ rs₂ <+: rs₁) ∧
      ((Runs.exec (System.step lim cfg ps) s₁ after₁).Idle key₁ →
        (Runs.exec (System.step lim cfg ps) s₂ after₂).Idle key₂ → rs₁ = rs₂) := by
  intro s₁ s₂ rs₁ rs₂
  obtain ⟨i, hf₁⟩ := h₁.follows
  obtain ⟨j, hf₂⟩ := h₂.follows
  obtain ⟨k, hk⟩ := hf₁.solo
  obtain ⟨l, hl⟩ := hf₂.solo
  obtain ⟨hstate₁, htrace₁⟩ := hk []
  obtain ⟨hstate₂, htrace₂⟩ := hl []
  -- both are runs of one dummy that the same messages are sent on
  rw [← hsame] at hstate₂ htrace₂
  have hrs₁ : _ = rs₁ := htrace₁
  have hrs₂ : _ = rs₂ := htrace₂
  rw [← hrs₁, ← hrs₂]
  refine ⟨Runs.trace_prefix_or _ _ k l _, fun hidle₁ hidle₂ ↦ ?_⟩
  obtain ⟨hbusy₁, hqueue₁⟩ := hidle₁ i hf₁.held
  obtain ⟨hbusy₂, hqueue₂⟩ := hidle₂ j hf₂.held
  rw [hqueue₁, List.nil_append] at hstate₁
  rw [hqueue₂, List.nil_append] at hstate₂
  refine (Runs.Halted.unique ?_ ?_).2
  · rw [hstate₁]
    exact solo_halted lim cfg ps hbusy₁
  · rw [hstate₂]
    exact solo_halted lim cfg ps hbusy₂

/-- Parsers that measure header blocks and frames, and capture the path `/a`. -/
def exampleParsers : Parsers where
  h1 bytes :=
    match Http1.headLen bytes with
    | none => parsedHead (-1) none none
    | some n =>
      { parsedHead n none
          (if (Http1.ascii "GET /a ").isPrefixOf bytes then some (Http1.ascii "/a") else none) with
        preface := prefaceHead.isPrefixOf bytes }
  h2 table bytes :=
    match Http2.frameLen bytes with
    | none => parsedFrame (-1) ⟨0, 0, 0, table.length⟩ none table
    | some n => parsedFrame n ⟨0, bytes.getD 3 0, bytes.getD 4 0, table.length⟩ none table

def exampleKey (port : UInt32) : Ip4Conn :=
  { localIp4 := 1, localPort := 443, remoteIp4 := 2, remotePort := port }

theorem exampleGet_sent :
    Http1.ascii "GET /a HTTP/1.1\r\n\r\n" ≠ [] ∧
      (Http1.ascii "GET /a HTTP/1.1\r\n\r\n").length < 2 ^ 31 := by
  decide

def exampleGet : Message := ⟨Http1.ascii "GET /a HTTP/1.1\r\n\r\n", exampleGet_sent⟩

/-- A connection is lent the second of two dummies.  Another one is lent the only one there is, which
a connection of the same address pair has left with half of the preface.  The request of either is
answered. -/
theorem connection_isolated_reused :
    let key := exampleKey 1
    let preface : Message := ⟨Http2.connectionPreface.take 20, by decide +kernel⟩
    let before₁ : List SystemEvent := [.pool (.accept (exampleKey 2) fun _ ↦ true)]
    let before₂ : List SystemEvent := [.pool (.accept key fun _ ↦ true), .message key preface,
      .backlog 0, .run 0 allOk, .pool (.close key true), .pool .deliver,
      .pool (.reset fun _ ↦ true)]
    let after₁ : List SystemEvent := [.message key exampleGet, .message (exampleKey 2) preface,
      .backlog 0, .backlog 1, .run 1 allOk]
    let after₂ : List SystemEvent := [.message key exampleGet, .backlog 0, .run 0 allOk]
    let step := System.step exampleLimits exampleRoutes exampleParsers
    let rulings := System.rulings exampleLimits exampleRoutes exampleParsers key
    let answered : Ruling := ⟨.pass, [], Http1.ascii "HTTP/"⟩
    Runs.record step rulings (established exampleLimits exampleRoutes exampleParsers 2 before₁ key
        fun _ ↦ true) after₁ = [answered] ∧
      Runs.record step rulings (established exampleLimits exampleRoutes exampleParsers 1 before₂ key
        fun _ ↦ true) after₂ = [answered] := by
  intro key preface before₁ before₂ after₁ after₂ step rulings answered
  have h₁ : Tenancy exampleLimits exampleRoutes exampleParsers 2 key (fun _ ↦ true) before₁ after₁ :=
    { sane := by decide +kernel
      lent := by decide +kernel
      succeeds := ⟨trivial, trivial, trivial, trivial, fun _ _ ↦ rfl, trivial⟩
      opened := by decide +kernel }
  have h₂ : Tenancy exampleLimits exampleRoutes exampleParsers 1 key (fun _ ↦ true) before₂ after₂ :=
    { sane := by decide +kernel
      lent := by decide +kernel
      succeeds := ⟨trivial, trivial, fun _ _ ↦ rfl, trivial⟩
      opened := by decide +kernel }
  have hsame := (connection_isolated h₁ h₂ rfl).2 (by decide +kernel) (by decide +kernel)
  have hfirst : Runs.record step rulings (established exampleLimits exampleRoutes exampleParsers 2
      before₁ key fun _ ↦ true) after₁ = [answered] := by decide +kernel
  exact ⟨hfirst, hsame.symm.trans hfirst⟩

end HyperFastPath.Dummies
