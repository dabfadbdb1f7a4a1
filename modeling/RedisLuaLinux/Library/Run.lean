import Mathlib.Logic.Basic

/-!
# Runs of a labelled step function

A system is a partial step function `step : σ → ε → Option σ`: the label says which
event happens and how the environment answers, and `none` means that the event cannot
happen in that state. `Run step Admits start es s` says that the events `es`, each one
allowed by `Admits` in the state it happens in, lead from `start` to `s`.

* `Run.invariant`: what one step preserves, every run preserves.
* `Run.strengthen`: an invariant may be used to show that each step of a run meets a
  stronger condition.
* `Run.simulate`: runs map to runs of an abstract system.
* `replay`: the executable form, for runs on fixed events (`Run.of_replay`).
-/

namespace RedisLuaLinux.Library

variable {σ ε : Type}

/-- The events `es` lead from `start` to the last state, and each is allowed by `Admits`
in the state it happens in. -/
inductive Run (step : σ → ε → Option σ) (Admits : σ → ε → Prop) (start : σ) :
    List ε → σ → Prop
  | nil : Run step Admits start [] start
  | snoc {es : List ε} {s s' : σ} {e : ε} : Run step Admits start es s → Admits s e →
      step s e = some s' → Run step Admits start (es ++ [e]) s'

/-- No condition on the steps of a run. -/
def AnyStep (_ : σ) (_ : ε) : Prop := True

namespace Run

variable {step : σ → ε → Option σ} {Admits : σ → ε → Prop} {start s : σ} {es : List ε}

theorem invariant {I : σ → Prop} (h0 : I start)
    (hstep : ∀ s e s', I s → Admits s e → step s e = some s' → I s')
    (h : Run step Admits start es s) : I s := by
  induction h with
  | nil => exact h0
  | snoc _ ha hs ih => exact hstep _ _ _ ih ha hs

/-- An invariant of a run, used to strengthen the condition its steps meet. -/
theorem strengthen {I : σ → Prop} {Admits' : σ → ε → Prop} (h0 : I start)
    (hstep : ∀ s e s', I s → Admits s e → step s e = some s' → I s')
    (himp : ∀ s e, I s → Admits s e → Admits' s e)
    (h : Run step Admits start es s) : Run step Admits' start es s := by
  induction h with
  | nil => exact .nil
  | snoc hr ha hs ih => exact .snoc ih (himp _ _ (invariant h0 hstep hr) ha) hs

theorem trans {es' : List ε} {s' : σ} (h : Run step Admits start es s)
    (h' : Run step Admits s es' s') : Run step Admits start (es ++ es') s' := by
  induction h' with
  | nil => simpa using h
  | snoc _ ha hs ih => rw [← List.append_assoc]; exact .snoc ih ha hs

/-- Forward simulation along `abs`: each step is a step of the abstract system or leaves
its state alone. -/
theorem simulate {τ α : Type} {absStep : τ → α → Option τ} {abs : σ → τ}
    (hsim : ∀ s e s', Admits s e → step s e = some s' →
      abs s' = abs s ∨ ∃ a, absStep (abs s) a = some (abs s'))
    (h : Run step Admits start es s) : ∃ as, Run absStep AnyStep (abs start) as (abs s) := by
  induction h with
  | nil => exact ⟨[], .nil⟩
  | snoc _ ha hs ih =>
    obtain ⟨as, has⟩ := ih
    rcases hsim _ _ _ ha hs with hstay | ⟨a, hmove⟩
    · exact ⟨as, hstay ▸ has⟩
    · exact ⟨as ++ [a], .snoc has trivial hmove⟩

end Run

/-- Run the events of a list in order. -/
def replay (step : σ → ε → Option σ) : σ → List ε → Option σ
  | s, [] => some s
  | s, e :: es => (step s e).bind (replay step · es)

theorem Run.of_replay_admits {step : σ → ε → Option σ} {Admits : σ → ε → Prop} {start s : σ}
    {es : List ε} (hall : ∀ e ∈ es, ∀ s, Admits s e) (h : replay step start es = some s) :
    Run step Admits start es s := by
  induction es generalizing start with
  | nil => cases h; exact .nil
  | cons e es ih =>
    obtain ⟨mid, hmid, hrest⟩ := Option.bind_eq_some_iff.mp h
    have hfirst : Run step Admits start [e] mid := .snoc .nil (hall e List.mem_cons_self start) hmid
    exact Run.trans hfirst (ih (fun e' he' => hall e' (List.mem_cons_of_mem e he')) hrest)

theorem Run.of_replay {step : σ → ε → Option σ} {start s : σ} {es : List ε}
    (h : replay step start es = some s) : Run step AnyStep start es s :=
  Run.of_replay_admits (fun _ _ _ => trivial) h

/-- The steps that `Admits` allows, where that can be decided. -/
def guarded (step : σ → ε → Option σ) (Admits : σ → ε → Prop) [∀ s e, Decidable (Admits s e)]
    (s : σ) (e : ε) : Option σ :=
  if Admits s e then step s e else none

theorem Run.of_replay_guarded {step : σ → ε → Option σ} {Admits : σ → ε → Prop}
    [∀ s e, Decidable (Admits s e)] {start s : σ} {es : List ε}
    (h : replay (guarded step Admits) start es = some s) : Run step Admits start es s := by
  induction es generalizing start with
  | nil => cases h; exact .nil
  | cons e es ih =>
    obtain ⟨mid, hmid, hrest⟩ := Option.bind_eq_some_iff.mp h
    unfold guarded at hmid
    split at hmid
    · rename_i hadmits
      have hfirst : Run step Admits start [e] mid := .snoc .nil hadmits hmid
      exact Run.trans hfirst (ih hrest)
    · cases hmid

end RedisLuaLinux.Library
