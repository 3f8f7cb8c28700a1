import Mathlib.Data.List.Basic

/-!
# Computations that keep a log

A computation logs what it does and comes to a result, unless it fails; what it has logged up to
then stays.  The log does not bear on the result (`result_bind`), and `Ensures.bind` is the rule for
what the logs and the results of computations one after another come to.
-/

universe u v

structure Logged (ε : Type u) (α : Type v) where
  log : List ε
  result : Option α

namespace Logged

variable {ε : Type u} {α β : Type v}

def fail (log : List ε) : Logged ε α := ⟨log, none⟩

instance : Monad (Logged ε) where
  pure a := ⟨[], some a⟩
  bind o f :=
    match o.result with
    | some a => ⟨o.log ++ (f a).log, (f a).result⟩
    | none => ⟨o.log, none⟩

@[simp] theorem result_bind (o : Logged ε α) (f : α → Logged ε β) :
    (o >>= f).result = o.result >>= fun a ↦ (f a).result := by
  obtain ⟨log, result⟩ := o
  cases result with
  | some a => rfl
  | none => rfl

/-- The log and the result are in `P`, or the computation has failed and the log is in `F`. -/
def Ensures (P : List ε → α → Prop) (F : List ε → Prop) (o : Logged ε α) : Prop :=
  match o.result with
  | some a => P o.log a
  | none => F o.log

variable {P : List ε → α → Prop} {Q : List ε → β → Prop} {F : List ε → Prop} {o : Logged ε α}

theorem Ensures.of_some (h : Ensures P F o) {a : α} (ha : o.result = some a) : P o.log a := by
  rwa [Ensures, ha] at h

theorem Ensures.mono {P' : List ε → α → Prop} {F' : List ε → Prop} (h : Ensures P F o)
    (hp : ∀ log a, P log a → P' log a) (hf : ∀ log, F log → F' log) : Ensures P' F' o := by
  unfold Ensures at h ⊢
  split at h
  · exact hp _ _ h
  · exact hf _ h

/-- Where it does not matter whether a computation fails. -/
theorem Ensures.always (h : Ensures P F o) (hp : ∀ log a, P log a → F log) : F o.log := by
  unfold Ensures at h
  split at h
  · exact hp _ _ h
  · exact h

/-- The rule for one computation after another: the second one continues the log of the first. -/
theorem Ensures.bind {f : α → Logged ε β} (h : Ensures P F o)
    (hf : ∀ log a, P log a →
      Ensures (fun more b ↦ Q (log ++ more) b) (fun more ↦ F (log ++ more)) (f a)) :
    Ensures Q F (o >>= f) := by
  obtain ⟨log, result⟩ := o
  cases result with
  | some a => exact hf log a h
  | none => exact h

end Logged
