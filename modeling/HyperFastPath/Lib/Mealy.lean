import Mathlib.Data.List.Basic

/-!
# Mealy machines

A machine reads one symbol at a time and answers each with a list of outputs.  `run` feeds it a
whole word; `fold_eq_run` is the rule for a consumer that is fed in pieces: if each piece moves it
as the machine moves, then any way of cutting the word gives the machine's run.
-/

namespace Mealy

variable {σ α β ι γ : Type*} (δ : σ → α → σ × List β)

/-- The state after a word, and what was put out on the way. -/
def run : σ → List α → σ × List β
  | s, [] => (s, [])
  | s, a :: as => ((run (δ s a).1 as).1, (δ s a).2 ++ (run (δ s a).1 as).2)

@[simp] theorem run_nil (s : σ) : run δ s [] = (s, []) := rfl

theorem run_cons (s : σ) (a : α) (as : List α) :
    run δ s (a :: as) = ((run δ (δ s a).1 as).1, (δ s a).2 ++ (run δ (δ s a).1 as).2) := rfl

theorem run_append (s : σ) (as bs : List α) :
    run δ s (as ++ bs) =
      ((run δ (run δ s as).1 bs).1, (run δ s as).2 ++ (run δ (run δ s as).1 bs).2) := by
  induction as generalizing s with
  | nil => rfl
  | cons a as ih => simp only [List.cons_append, run_cons, ih, List.append_assoc]

variable {δ}

/-- A consumer fed in pieces, each of which stands for a word, computes the machine's run of the
whole.  `R i t` says that `i` stands where the machine stands after having put out what `t` lists. -/
theorem fold_eq_run {feed : ι → γ → ι} {word : γ → List α} {R : ι → σ × List β → Prop}
    (hfeed : ∀ i s es c, R i (s, es) →
      R (feed i c) ((run δ s (word c)).1, es ++ (run δ s (word c)).2))
    {i : ι} {s : σ} {es : List β} (hi : R i (s, es)) (cs : List γ) :
    R (cs.foldl feed i) ((run δ s (cs.flatMap word)).1, es ++ (run δ s (cs.flatMap word)).2) := by
  induction cs generalizing i s es with
  | nil => simpa using hi
  | cons c cs ih =>
    rw [List.foldl_cons, List.flatMap_cons, run_append]
    simpa only [List.append_assoc] using ih (hfeed i s es c hi)

end Mealy
