/-! Rust's `Result` as the model writes it: a fallible call returns `Except`, and a call that may
also panic returns `Except (Stop ε)`. `?` converts the `Err` it passes on; `unwrap` turns an `Err`
into a panic. -/

namespace SigmaRust

/-- How a call ends short: an `Err`, or a panic. -/
inductive Stop (ε : Type) where
  | err (e : ε)
  | panic (msg : String)

/-- The same panic, or the `Err` converted. -/
def Stop.map {ε ε' : Type} (f : ε → ε') : Stop ε → Stop ε'
  | .err e => .err (f e)
  | .panic msg => .panic msg

/-- `?` on a `Result`, converting its `Err`. -/
def liftErr {ε ε' α : Type} (f : ε → ε') (r : Except ε α) : Except (Stop ε') α :=
  r.mapError (.err ∘ f)

/-- `?` on a call that may panic, converting its `Err`. -/
def mapStop {ε ε' α : Type} (f : ε → ε') (r : Except (Stop ε) α) : Except (Stop ε') α :=
  r.mapError (Stop.map f)

/-- `Result::unwrap`. -/
def unwrap {ε ε' α : Type} : Except ε α → Except (Stop ε') α
  | .ok a => .ok a
  | .error _ => .error (.panic "called `Result::unwrap()` on an `Err` value")

/-- `Option::unwrap`. -/
def unwrapOption {ε α : Type} : Option α → Except (Stop ε) α
  | some a => .ok a
  | none => .error (.panic "called `Option::unwrap()` on a `None` value")

/-- A call's `Result` kept in a variable before its `?`: the `Err` waits there, a panic unwinds at
once. -/
def holdErr {ε α : Type} : Except (Stop ε) α → Except (Stop ε) (Except ε α)
  | .ok a => .ok (.ok a)
  | .error (.err e) => .ok (.error e)
  | .error (.panic msg) => .error (.panic msg)

theorem except_bind_eq_ok {ε α β : Type} {x : Except ε α} {f : α → Except ε β} {b : β} :
    x >>= f = .ok b ↔ ∃ a, x = .ok a ∧ f a = .ok b := by
  cases x <;> simp [bind, Except.bind]

@[simp]
theorem liftErr_eq_ok {ε ε' α : Type} {f : ε → ε'} {r : Except ε α} {a : α} :
    liftErr f r = .ok a ↔ r = .ok a := by
  cases r <;> simp [liftErr, Except.mapError]

@[simp]
theorem mapStop_eq_ok {ε ε' α : Type} {f : ε → ε'} {r : Except (Stop ε) α} {a : α} :
    mapStop f r = .ok a ↔ r = .ok a := by
  cases r <;> simp [mapStop, Except.mapError]

theorem mapStop_eq_err {ε ε' α : Type} {f : ε → ε'} {r : Except (Stop ε) α} {e' : ε'} :
    mapStop f r = .error (.err e') ↔ ∃ e, r = .error (.err e) ∧ f e = e' := by
  rcases r with (_ | _) | _ <;> simp [mapStop, Except.mapError, Stop.map]

end SigmaRust
