import Mathlib.Data.List.Basic

/-!
# Bounded loops

A loop over a counter with a fixed bound, each turn of which may go on, break out of the loop or
return from the function around it.  `run_rule` is the rule for its invariants: what a turn
preserves, the loop preserves.
-/

namespace Loops

/-- What a turn comes to. -/
inductive Turn (σ ρ : Type*) where
  | next (s : σ)
  | stop (s : σ)
  | ret (r : ρ)

variable {σ ρ : Type*}

/-- The turns for the counter from `i` on, `todo` of them at most. -/
def runFrom (body : Nat → σ → Turn σ ρ) : (todo i : Nat) → σ → Except ρ σ
  | 0, _, s => .ok s
  | todo + 1, i, s =>
    match body i s with
    | .next s => runFrom body todo (i + 1) s
    | .stop s => .ok s
    | .ret r => .error r

/-- The loop for the counter from `0` up to `n`. -/
def run (n : Nat) (body : Nat → σ → Turn σ ρ) (s : σ) : Except ρ σ := runFrom body n 0 s

/-- A turn of a loop on more state, seen from the part of it that `π` shows. -/
def Turn.map {τ : Type*} (π : σ → τ) : Turn σ ρ → Turn τ ρ
  | .next s => .next (π s)
  | .stop s => .stop (π s)
  | .ret r => .ret r

/-- A turn leads on to `N`, out of the loop to `Q`, or out of the function with `R`. -/
def Turn.Leads (N Q : σ → Prop) (R : ρ → Prop) : Turn σ ρ → Prop
  | .next s => N s
  | .stop s => Q s
  | .ret r => R r

/-- The loop ends with `Q`, or the function has returned with `R`. -/
def Ends (Q : σ → Prop) (R : ρ → Prop) : Except ρ σ → Prop
  | .ok s => Q s
  | .error r => R r

variable {body : Nat → σ → Turn σ ρ} {I : Nat → σ → Prop} {Q : σ → Prop} {R : ρ → Prop}

theorem runFrom_rule {todo i : Nat} {s : σ} (h0 : I i s)
    (hturn : ∀ j t, i ≤ j → j < i + todo → I j t → (body j t).Leads (I (j + 1)) Q R)
    (hend : ∀ t, I (i + todo) t → Q t) : Ends Q R (runFrom body todo i s) := by
  induction todo generalizing i s with
  | zero => exact hend s h0
  | succ todo ih =>
    have hs := hturn i s (Nat.le_refl i) (by omega) h0
    unfold runFrom
    cases hb : body i s with
    | next t =>
      rw [hb] at hs
      refine ih hs (fun j u hj hlt hu ↦ hturn j u (by omega) (by omega) hu) fun u hu ↦ hend u ?_
      rwa [show i + (todo + 1) = i + 1 + todo by omega]
    | stop t => rwa [hb] at hs
    | ret r => rwa [hb] at hs

/-- The invariant rule. -/
theorem run_rule {n : Nat} {s : σ} (h0 : I 0 s)
    (hturn : ∀ i t, i < n → I i t → (body i t).Leads (I (i + 1)) Q R)
    (hend : ∀ t, I n t → Q t) : Ends Q R (run n body s) :=
  runFrom_rule h0 (fun i t _ hlt ht ↦ hturn i t (by omega) ht)
    fun t ht ↦ hend t (by rwa [Nat.zero_add] at ht)

/-- A loop that never leaves the function ends as its invariant says. -/
theorem run_eq_ok {n : Nat} {s t : σ} (h : Ends (· = t) (fun _ ↦ False) (run n body s)) :
    run n body s = .ok t := by
  cases hr : run n body s with
  | ok u => rw [hr] at h; exact congrArg Except.ok h
  | error r => rw [hr] at h; exact h.elim

private theorem runFrom_map {τ : Type*} {π : σ → τ} {body' : Nat → τ → Turn τ ρ}
    (h : ∀ i s, body' i (π s) = (body i s).map π) (todo i : Nat) (s : σ) :
    runFrom body' todo i (π s) = (runFrom body todo i s).map π := by
  induction todo generalizing i s with
  | zero => rfl
  | succ todo ih =>
    unfold runFrom
    rw [h i s]
    cases body i s with
    | next t => exact ih (i + 1) t
    | stop t => rfl
    | ret r => rfl

/-- A loop does the same on more state as long as each of its turns does. -/
theorem run_map {τ : Type*} {π : σ → τ} (body : Nat → σ → Turn σ ρ) {body' : Nat → τ → Turn τ ρ}
    (h : ∀ i s, body' i (π s) = (body i s).map π) (n : Nat) (s : σ) :
    run n body' (π s) = (run n body s).map π :=
  runFrom_map h n 0 s

theorem Ends.mono {Q' : σ → Prop} {R' : ρ → Prop} {r : Except ρ σ} (h : Ends Q R r)
    (hq : ∀ s, Q s → Q' s) (hr : ∀ t, R t → R' t) : Ends Q' R' r := by
  cases r with
  | ok s => exact hq s h
  | error t => exact hr t h

/-- The rule for what follows a loop. -/
theorem Ends.bind {τ : Type*} {r : Except ρ σ} {f : σ → Except ρ τ} {Q' : τ → Prop}
    (h : Ends Q R r) (hf : ∀ s, Q s → Ends Q' R (f s)) : Ends Q' R (Except.bind r f) := by
  cases r with
  | ok s => exact hf s h
  | error t => exact h

end Loops
