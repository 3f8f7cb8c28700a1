import Mathlib.Algebra.GroupWithZero.Nat
import Mathlib.Data.List.Induction
import Mathlib.Logic.Function.Iterate

/-!
# Runs of a deterministic labelled system

A system is a total step function over states and labels.  `exec` folds it over a sequence of
labels, `Along` says that a condition holds of every step on the way, and `Along.preserves` is the
invariant rule: what one admissible step preserves, a whole admissible run preserves.
-/

namespace Runs

variable {σ α : Type*} (step : σ → α → σ)

/-- The state a run over `as` ends in. -/
def exec (s : σ) (as : List α) : σ := as.foldl step s

/-- `P` holds of the state before and the label of every step of the run. -/
def Along (P : σ → α → Prop) : σ → List α → Prop
  | _, [] => True
  | s, a :: as => P s a ∧ Along P (step s a) as

instance Along.instDecidable (P : σ → α → Prop) [∀ s a, Decidable (P s a)] :
    (s : σ) → (as : List α) → Decidable (Along step P s as)
  | _, [] => inferInstanceAs (Decidable True)
  | s, a :: as =>
    have := Along.instDecidable P (step s a) as
    inferInstanceAs (Decidable (P s a ∧ Along step P (step s a) as))

@[simp] theorem exec_nil (s : σ) : exec step s [] = s := rfl

@[simp] theorem exec_cons (s : σ) (a : α) (as : List α) :
    exec step s (a :: as) = exec step (step s a) as := rfl

theorem exec_append (s : σ) (as bs : List α) :
    exec step s (as ++ bs) = exec step (exec step s as) bs := List.foldl_append

theorem exec_concat (s : σ) (as : List α) (a : α) :
    exec step s (as ++ [a]) = step (exec step s as) a := exec_append step s as [a]

variable {step} {P Q : σ → α → Prop} {I : σ → Prop}

theorem Along.append_iff (s : σ) (as bs : List α) :
    Along step P s (as ++ bs) ↔ Along step P s as ∧ Along step P (exec step s as) bs := by
  induction as generalizing s with
  | nil => simp [Along]
  | cons a as ih => simp only [List.cons_append, Along, ih, exec_cons, and_assoc]

theorem Along.concat_iff (s : σ) (as : List α) (a : α) :
    Along step P s (as ++ [a]) ↔ Along step P s as ∧ P (exec step s as) a := by
  rw [Along.append_iff]
  simp [Along]

theorem Along.and (s : σ) (as : List α) :
    Along step (fun s a ↦ P s a ∧ Q s a) s as ↔ Along step P s as ∧ Along step Q s as := by
  induction as generalizing s with
  | nil => simp [Along]
  | cons a as ih => simp only [Along, ih]; tauto

/-- The invariant rule. -/
theorem Along.preserves (hstep : ∀ s a, I s → P s a → I (step s a)) {s : σ} {as : List α}
    (hi : I s) (h : Along step P s as) : I (exec step s as) := by
  induction as generalizing s with
  | nil => exact hi
  | cons a as ih => exact ih (hstep s a hi h.1) h.2

/-- What an invariant makes true of one admissible step is true of every step of the run. -/
theorem Along.of_invariant (hstep : ∀ s a, I s → P s a → I (step s a))
    (hq : ∀ s a, I s → P s a → Q s a) {s : σ} {as : List α}
    (hi : I s) (h : Along step P s as) : Along step Q s as := by
  induction as generalizing s with
  | nil => trivial
  | cons a as ih => exact ⟨hq s a hi h.1, ih (hstep s a hi h.1) h.2⟩

theorem Along.imp (h : ∀ s a, P s a → Q s a) {s : σ} {as : List α} (hp : Along step P s as) :
    Along step Q s as :=
  hp.of_invariant (I := fun _ ↦ True) (fun _ _ _ _ ↦ trivial) (fun s a _ ↦ h s a) trivial

/-- Conditions that come to the same at every step of a run come to the same for the run. -/
theorem Along.congr {s : σ} {as : List α} (h : Along step (fun s a ↦ P s a ↔ Q s a) s as) :
    Along step P s as ↔ Along step Q s as := by
  induction as generalizing s with
  | nil => exact Iff.rfl
  | cons a as ih => exact and_congr h.1 (ih h.2)

/-- A condition that no step can break holds along every run. -/
theorem Along.of_forall (h : ∀ s a, P s a) (s : σ) (as : List α) : Along step P s as := by
  induction as generalizing s with
  | nil => trivial
  | cons a as ih => exact ⟨h s a, ih _⟩

theorem Along.of_forall_mem {as : List α} (h : ∀ a ∈ as, ∀ s, P s a) (s : σ) :
    Along step P s as := by
  induction as generalizing s with
  | nil => trivial
  | cons a as ih =>
    exact ⟨h a List.mem_cons_self s, ih (fun b hb ↦ h b (List.mem_cons_of_mem a hb)) _⟩

/-- The invariant rule for a system in which every step is admissible. -/
theorem exec_preserves (hstep : ∀ s a, I s → I (step s a)) {s : σ} (hi : I s) (as : List α) :
    I (exec step s as) :=
  (Along.of_forall (P := fun _ _ ↦ True) (fun _ _ ↦ trivial) s as).preserves
    (fun s a h _ ↦ hstep s a h) hi

/-- A property of states that each step keeps exactly when it meets `P` holds at the end of a run
exactly when `P` held all along. -/
theorem Along.iff_of_step {Q : σ → Prop} (hstep : ∀ s a, I s → I (step s a))
    (hq : ∀ s a, I s → (Q (step s a) ↔ Q s ∧ P s a)) {s : σ} (hi : I s) (hs : Q s)
    (as : List α) : Q (exec step s as) ↔ Along step P s as := by
  -- from the end, as `hq` speaks of the state ahead of the last step
  induction as using List.reverseRecOn with
  | nil => exact ⟨fun _ ↦ trivial, fun _ ↦ hs⟩
  | append_singleton as a ih =>
    rw [exec_concat, concat_iff, hq _ _ (exec_preserves hstep hi as)]
    exact and_congr_left' ih

/-! ## What a run puts out -/

variable {β γ : Type*} {out : σ → α → List β}

variable (step out) in
/-- What the steps of a run put out, one after the other. -/
def record : σ → List α → List β
  | _, [] => []
  | s, a :: as => out s a ++ record (step s a) as

@[simp] theorem record_nil (s : σ) : record step out s [] = [] := rfl

@[simp] theorem record_cons (s : σ) (a : α) (as : List α) :
    record step out s (a :: as) = out s a ++ record step out (step s a) as := rfl

theorem record_append (s : σ) (as bs : List α) :
    record step out s (as ++ bs) = record step out s as ++ record step out (exec step s as) bs := by
  induction as generalizing s with
  | nil => rfl
  | cons a as ih => rw [List.cons_append, record_cons, ih, exec_cons, record_cons, List.append_assoc]

theorem record_map (f : β → γ) (s : σ) (as : List α) :
    record step (fun s a ↦ (out s a).map f) s as = (record step out s as).map f := by
  induction as generalizing s with
  | nil => rfl
  | cons a as ih => rw [record_cons, record_cons, ih, List.map_append]

/-- What a run puts out, one of its steps does. -/
theorem exists_of_mem_record {b : β} {s : σ} {as : List α} (h : b ∈ record step out s as) :
    ∃ t a, b ∈ out t a := by
  induction as generalizing s with
  | nil => cases h
  | cons a as ih =>
    rcases List.mem_append.mp h with h | h
    · exact ⟨s, a, h⟩
    · exact ih h

variable (step) in
/-- What the steps of a run add up to. -/
def total (f : σ → α → Nat) : σ → List α → Nat
  | _, [] => 0
  | s, a :: as => f s a + total f (step s a) as

theorem total_concat (f : σ → α → Nat) (s : σ) (as : List α) (a : α) :
    total step f s (as ++ [a]) = total step f s as + f (exec step s as) a := by
  induction as generalizing s with
  | nil => simp [total]
  | cons b as ih => rw [List.cons_append, total, ih, total, exec_cons, Nat.add_assoc]

/-- The rule for what a run accumulates: each step adds what it puts out. -/
theorem Along.accumulates (acc : σ → List γ) (f : β → List γ)
    (hstep : ∀ s a, I s → P s a → I (step s a))
    (hacc : ∀ s a, I s → P s a → acc (step s a) = acc s ++ (out s a).flatMap f) {s : σ}
    {as : List α} (hi : I s) (h : Along step P s as) :
    acc (exec step s as) = acc s ++ (record step out s as).flatMap f := by
  induction as generalizing s with
  | nil => simp
  | cons a as ih =>
    rw [exec_cons, ih (hstep s a hi h.1) h.2, hacc s a hi h.1, record_cons, List.flatMap_append,
      List.append_assoc]

/-- The rule for queues: where each step takes what it puts out from the front of a queue and adds
what it brings to the end of it, what was waiting and what came comes out in order. -/
theorem Along.queues {w : σ → List β} {inp : σ → α → List β}
    (hstep : ∀ s a, I s → P s a → I (step s a))
    (hqueue : ∀ s a, I s → P s a → out s a ++ w (step s a) = w s ++ inp s a) {s : σ} {as : List α}
    (hi : I s) (h : Along step P s as) :
    record step out s as ++ w (exec step s as) = w s ++ record step inp s as := by
  induction as generalizing s with
  | nil => simp
  | cons a as ih =>
    have hrest := ih (hstep s a hi h.1) h.2
    rw [record_cons, record_cons, exec_cons, List.append_assoc, hrest, ← List.append_assoc,
      hqueue s a hi h.1, List.append_assoc]

/-- What can be told of a step by all that it puts out can be told of a run. -/
theorem Along.of_record (q : β → Prop) (hstep : ∀ s a, I s → P s a → I (step s a))
    (hq : ∀ s a, I s → P s a → (∀ b ∈ out s a, q b) → Q s a) {s : σ} {as : List α} (hi : I s)
    (h : Along step P s as) (hall : ∀ b ∈ record step out s as, q b) : Along step Q s as := by
  induction as generalizing s with
  | nil => trivial
  | cons a as ih =>
    rw [record_cons, List.forall_mem_append] at hall
    exact ⟨hq s a hi h.1 hall.1, ih (hstep s a hi h.1) h.2 hall.2⟩

/-- The invariant rule for a state along with what has been put out so far. -/
theorem Along.preserves_record {J : σ → List β → Prop}
    (hstep : ∀ s a bs, J s bs → P s a → J (step s a) (bs ++ out s a)) {s : σ} {as : List α}
    (hi : J s []) (h : Along step P s as) : J (exec step s as) (record step out s as) := by
  induction as using List.reverseRecOn with
  | nil => exact hi
  | append_singleton as a ih =>
    obtain ⟨has, ha⟩ := (concat_iff s as a).mp h
    have hlast := hstep _ a _ (ih has) ha
    rw [exec_concat, record_append, record_cons, record_nil, List.append_nil]
    exact hlast

/-- The invariant rule for a state along with two sums over the steps so far. -/
theorem Along.preserves_totals {f g : σ → α → Nat} {J : σ → Nat → Nat → Prop}
    (hstep : ∀ s a m n, J s m n → P s a → J (step s a) (m + f s a) (n + g s a)) {s : σ}
    {as : List α} (hi : J s 0 0) (h : Along step P s as) :
    J (exec step s as) (total step f s as) (total step g s as) := by
  induction as using List.reverseRecOn with
  | nil => exact hi
  | append_singleton as a ih =>
    obtain ⟨has, ha⟩ := (concat_iff s as a).mp h
    rw [exec_concat, total_concat, total_concat]
    exact hstep _ a _ _ (ih has) ha

/-! ## Progress -/

/-- The rule for progress: where each step that is not the last makes a measure smaller, a run that
is longer than the measure gets there. -/
theorem Along.reaches {μ : σ → Nat} {D : σ → Prop} (hstep : ∀ s a, I s → P s a → I (step s a))
    (hdone : ∀ s a, I s → P s a → D s → D (step s a))
    (hless : ∀ s a, I s → P s a → D (step s a) ∨ μ (step s a) < μ s) {s : σ} {as : List α}
    (hi : I s) (h : Along step P s as) (hmany : μ s < as.length) : D (exec step s as) := by
  have hstays {s : σ} {as : List α} (hi : I s) (h : Along step P s as) (hd : D s) :
      D (exec step s as) := by
    induction as generalizing s with
    | nil => exact hd
    | cons a as ih => exact ih (hstep s a hi h.1) h.2 (hdone s a hi h.1 hd)
  induction as generalizing s with
  | nil => cases hmany
  | cons a as ih =>
    rw [exec_cons]
    rcases hless s a hi h.1 with hd | hlt
    · exact hstays (hstep s a hi h.1) h.2 hd
    · apply ih (hstep s a hi h.1) h.2
      rw [List.length_cons] at hmany
      omega

/-- The rule for costs: where what a step costs and the potential it leaves are covered by the
potential it finds and what it brings, so it is for a run. -/
theorem Along.amortizes {w : σ → Nat} {f g : σ → α → Nat}
    (hstep : ∀ s a, I s → P s a → I (step s a))
    (hcost : ∀ s a, I s → P s a → f s a + w (step s a) ≤ w s + g s a) {s : σ} {as : List α}
    (hi : I s) (h : Along step P s as) :
    total step f s as + w (exec step s as) ≤ w s + total step g s as := by
  induction as generalizing s with
  | nil => simp [total]
  | cons a as ih =>
    have hfirst := hcost s a hi h.1
    have hrest := ih (hstep s a hi h.1) h.2
    rw [total, total, exec_cons]
    omega

theorem total_eq_sum (g : α → Nat) (s : σ) (as : List α) :
    total step (fun _ ↦ g) s as = (as.map g).sum := by
  induction as generalizing s with
  | nil => rfl
  | cons a as ih => rw [total, ih, List.map_cons, List.sum_cons]

/-! ## Simulations -/

variable {τ δ : Type*} {step' : τ → δ → τ} {R : τ → δ → Prop}

/-- The rule for simulations: where each step of a system is, seen through `view`, an admissible run
`does` of another one, so is each run. -/
theorem Along.simulates {view : σ → τ} {does : σ → α → List δ}
    (hstep : ∀ s a, I s → P s a → I (step s a))
    (hview : ∀ s a, I s → P s a → view (step s a) = exec step' (view s) (does s a))
    (hdoes : ∀ s a, I s → P s a → Along step' R (view s) (does s a)) {s : σ} {as : List α}
    (hi : I s) (h : Along step P s as) :
    view (exec step s as) = exec step' (view s) (record step does s as) ∧
      Along step' R (view s) (record step does s as) := by
  induction as generalizing s with
  | nil => exact ⟨rfl, trivial⟩
  | cons a as ih =>
    have hrest := ih (hstep s a hi h.1) h.2
    rw [hview s a hi h.1] at hrest
    rw [exec_cons, record_cons, exec_append, append_iff]
    exact ⟨hrest.1, hdoes s a hi h.1, hrest.2⟩

/-- Where each step comes to a run of another system, so that it is a part of that system's state
which moves, a condition on that system's steps is one on these. -/
theorem Along.view_iff (view : σ → τ) (does : α → List δ)
    (hview : ∀ s a, view (step s a) = exec step' (view s) (does a)) (s : σ) (as : List α) :
    Along step' R (view s) (as.flatMap does) ↔
      Along step (fun s a ↦ Along step' R (view s) (does a)) s as := by
  induction as generalizing s with
  | nil => exact Iff.rfl
  | cons a as ih => rw [List.flatMap_cons, append_iff, ← hview, ih, Along]

/-! ## Systems that take their steps by themselves -/

variable (next : σ → σ) (puts : σ → List β)

/-- What the first `n` steps put out. -/
def trace : Nat → σ → List β
  | 0, _ => []
  | n + 1, s => puts s ++ trace n (next s)

theorem trace_add (m n : Nat) (s : σ) :
    trace next puts (m + n) s = trace next puts m s ++ trace next puts n (next^[m] s) := by
  induction m generalizing s with
  | zero => simp [trace]
  | succ m ih => rw [Nat.succ_add, trace, ih, trace, List.append_assoc, Function.iterate_succ_apply]

theorem trace_succ (n : Nat) (s : σ) :
    trace next puts (n + 1) s = trace next puts n s ++ puts (next^[n] s) := by
  rw [trace_add, trace, trace, List.append_nil]

/-- Two runs of one system differ in how far they have come. -/
theorem trace_prefix_or (m n : Nat) (s : σ) :
    trace next puts m s <+: trace next puts n s ∨ trace next puts n s <+: trace next puts m s := by
  rcases Nat.le_total m n with h | h
  · left
    rw [← Nat.add_sub_cancel' h, trace_add]
    exact List.prefix_append _ _
  · right
    rw [← Nat.add_sub_cancel' h, trace_add]
    exact List.prefix_append _ _

/-- There is nothing more to come. -/
def Halted (s : σ) : Prop := next s = s ∧ puts s = []

variable {next puts}

theorem Halted.iterate {s : σ} (h : Halted next puts s) (n : Nat) :
    next^[n] s = s ∧ trace next puts n s = [] := by
  induction n with
  | zero => exact ⟨rfl, rfl⟩
  | succ n ih => rw [Function.iterate_succ_apply, trace, h.1, h.2, List.nil_append]; exact ih

theorem Halted.of_le {s : σ} {m n : Nat} (hle : m ≤ n) (h : Halted next puts (next^[m] s)) :
    next^[n] s = next^[m] s ∧ trace next puts n s = trace next puts m s := by
  obtain ⟨hstate, htrace⟩ := h.iterate (n - m)
  rw [← Nat.sub_add_cancel hle, Function.iterate_add_apply, hstate, Nat.add_comm, trace_add, htrace,
    List.append_nil]
  exact ⟨rfl, rfl⟩

/-- Runs to the end end alike. -/
theorem Halted.unique {s : σ} {m n : Nat} (hm : Halted next puts (next^[m] s))
    (hn : Halted next puts (next^[n] s)) :
    next^[m] s = next^[n] s ∧ trace next puts m s = trace next puts n s := by
  rcases Nat.le_total m n with h | h
  · obtain ⟨hstate, htrace⟩ := hm.of_le h
    exact ⟨hstate.symm, htrace.symm⟩
  · exact hn.of_le h

end Runs
