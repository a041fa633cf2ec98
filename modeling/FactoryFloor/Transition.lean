import Mathlib.Logic.Function.Basic
import Mathlib.Tactic.TypeStar

/-!
# Transition systems and their runs

A labelled transition system, its reachable states, and the states later than a state.
`Reachable.invariant` is the induction every safety result uses, and `Later.preserves`
the one every "from then on" result uses.

`restrict ok` keeps the runs whose steps all meet the condition `ok` on the state before
the step and the label. A property that fails in some runs is stated over those.
-/

namespace Transition

variable {σ lab : Type*}

/-- A labelled transition system. -/
structure System (σ lab : Type*) where
  init : σ → Prop
  step : σ → lab → σ → Prop

namespace System

variable (S : System σ lab)

/-- The states some run reaches. -/
inductive Reachable : σ → Prop
  | start {s : σ} : S.init s → Reachable s
  | next {s t : σ} {l : lab} : Reachable s → S.step s l t → Reachable t

/-- `t` is `s` or a state some run reaches from `s`. -/
inductive Later (s : σ) : σ → Prop
  | refl : Later s s
  | next {t u : σ} {l : lab} : Later s t → S.step t l u → Later s u

/-- The runs whose steps meet `ok`. -/
def restrict (ok : σ → lab → Prop) : System σ lab :=
  ⟨S.init, fun s l t => S.step s l t ∧ ok s l⟩

variable {S}

/-- An invariant holds at the start and is kept by every step. -/
theorem Reachable.invariant {I : σ → Prop} (hinit : ∀ s, S.init s → I s)
    (hstep : ∀ s l t, I s → S.step s l t → I t) {s : σ} (h : S.Reachable s) : I s := by
  induction h with
  | start h0 => exact hinit _ h0
  | next _ hs ih => exact hstep _ _ _ ih hs

/-- An invariant whose steps may use what is already known of reachable states. -/
theorem Reachable.invariant_of {I : σ → Prop} (hinit : ∀ s, S.init s → I s)
    (hstep : ∀ s l t, S.Reachable s → I s → S.step s l t → I t) {s : σ} (h : S.Reachable s) :
    I s := by
  induction h with
  | start h0 => exact hinit _ h0
  | next hr hs ih => exact hstep _ _ _ hr ih hs

theorem Reachable.later {s t : σ} (h : S.Reachable s) (hst : S.Later s t) : S.Reachable t := by
  induction hst with
  | refl => exact h
  | next _ hs ih => exact ih.next hs

/-- What every step from a reachable state keeps holds from then on. -/
theorem Later.preserves {P : σ → Prop} (hstep : ∀ s l t, S.Reachable s → P s → S.step s l t → P t)
    {s t : σ} (hr : S.Reachable s) (h : P s) (hst : S.Later s t) : P t := by
  induction hst with
  | refl => exact h
  | next hl hs ih => exact hstep _ _ _ (hr.later hl) ih hs

theorem Later.trans {s t u : σ} (hst : S.Later s t) (htu : S.Later t u) : S.Later s u := by
  induction htu with
  | refl => exact hst
  | next _ hs ih => exact ih.next hs

/-- A run that meets a condition is a run. -/
theorem Reachable.of_restrict {ok : σ → lab → Prop} {s : σ} (h : (S.restrict ok).Reachable s) :
    S.Reachable s := by
  induction h with
  | start h0 => exact .start h0
  | next _ hs ih => exact ih.next hs.1

theorem Later.of_restrict {ok : σ → lab → Prop} {s t : σ} (h : (S.restrict ok).Later s t) :
    S.Later s t := by
  induction h with
  | refl => exact .refl
  | next _ hs ih => exact ih.next hs.1

end System

/-! ## Calls -/

/-- What goes on after one call of many has moved to `v`. -/
theorem update_eq_some {κ γ : Type*} [DecidableEq κ] {calls : κ → Option γ} {m n : κ} {v : Option γ}
    {c : γ} (h : Function.update calls m v n = some c) :
    n = m ∧ v = some c ∨ n ≠ m ∧ calls n = some c := by
  by_cases hn : n = m
  · subst hn
    exact Or.inl ⟨rfl, by simpa using h⟩
  · exact Or.inr ⟨hn, by simpa [hn] using h⟩

end Transition
