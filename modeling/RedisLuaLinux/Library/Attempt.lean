import Mathlib.Logic.Basic

/-!
# Blocks that an exception ends

An `Attempt` is a block of statements on a state. Where a statement raises an exception, the
rest of the block is left out, and what was done before stays done.

* `bind_run`: the rest of a block goes on with the result and the state of its first part.
* `orElse_bind`: a handler, and the rest of the block after it.
-/

namespace RedisLuaLinux.Library

/-- The result and the state after a block; `none` in the place of a result is an exception. -/
structure Attempt (σ α : Type) where
  run : σ → Option α × σ

namespace Attempt

variable {σ α β γ : Type}

instance : Monad (Attempt σ) where
  pure a := ⟨fun s => (some a, s)⟩
  bind x f := ⟨fun s => (x.run s).1.elim (none, (x.run s).2) fun a => (f a).run (x.run s).2⟩

theorem bind_run (x : Attempt σ α) (f : α → Attempt σ β) (s : σ) :
    (x >>= f).run s = (x.run s).1.elim (none, (x.run s).2) fun a => (f a).run (x.run s).2 := rfl

theorem bind_pure_self (x : Attempt σ α) : (x >>= fun a => pure a) = x := by
  apply congrArg Attempt.mk
  funext s
  rcases x.run s with ⟨_ | a, s'⟩
  · rfl
  · rfl

theorem bind_bind (x : Attempt σ α) (f : α → Attempt σ β) (g : β → Attempt σ γ) :
    x >>= f >>= g = x >>= fun a => f a >>= g := by
  apply congrArg Attempt.mk
  funext s
  rw [bind_run]
  rcases x.run s with ⟨_ | a, s'⟩
  · rfl
  · rfl

instance : LawfulMonad (Attempt σ) :=
  LawfulMonad.mk' _ bind_pure_self (fun _ _ => rfl) bind_bind

/-- An expression that raises an exception where it has no value. -/
def ofOption (o : Option α) : Attempt σ α := ⟨fun s => (o, s)⟩

/-- The value of a variable; reading one that was never assigned raises an exception. -/
def value (f : σ → Option α) : Attempt σ α := ⟨fun s => (f s, s)⟩

def modify (f : σ → σ) : Attempt σ Unit := ⟨fun s => (some (), f s)⟩

/-- `try x except: y`; the handler goes on in the state in which the exception was raised. -/
def orElse (x y : Attempt σ α) : Attempt σ α :=
  ⟨fun s => (x.run s).1.elim (y.run (x.run s).2) fun a => (some a, (x.run s).2)⟩

section

variable (s : σ)

theorem ofOption_bind (o : Option α) (f : α → Attempt σ β) :
    (ofOption o >>= f).run s = o.elim (none, s) fun a => (f a).run s := rfl

theorem value_bind (g : σ → Option α) (f : α → Attempt σ β) :
    (value g >>= f).run s = (g s).elim (none, s) fun a => (f a).run s := rfl

theorem modify_bind (g : σ → σ) (f : Unit → Attempt σ β) :
    (modify g >>= f).run s = (f ()).run (g s) := rfl

theorem orElse_run (x y : Attempt σ α) :
    (orElse x y).run s = (x.run s).1.elim (y.run (x.run s).2) fun a => (some a, (x.run s).2) := rfl

/-- The handler goes on with the rest of the block. -/
theorem orElse_bind (x y : Attempt σ α) (f : α → Attempt σ β) :
    (orElse x y >>= f).run s =
      (x.run s).1.elim ((y >>= f).run (x.run s).2) fun a => (f a).run (x.run s).2 := by
  rw [bind_run, orElse_run]
  rcases x.run s with ⟨_ | a, s'⟩
  · rfl
  · rfl

end

end Attempt

end RedisLuaLinux.Library
