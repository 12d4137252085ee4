/-
Computations that print lines before they end.
-/

import JazzGrammar.Fault

namespace JazzGrammar

/-- What a computation has printed, and its value or the fault that it ended with. -/
structure Printed (α : Type) where
  text : Text
  result : Except Fault α

namespace Printed

variable {α β : Type}

/-- A line ends with a line feed. -/
def line (text : Text) : Printed Unit :=
  ⟨text ++ ['\n'], .ok ()⟩

/-- A computation that prints nothing. -/
def silent (computation : Except Fault α) : Printed α :=
  ⟨[], computation⟩

/-- What was printed stays printed when a later part fails. -/
def andThen (first : Printed α) (next : α → Printed β) : Printed β :=
  match first.result with
  | .ok value =>
    let later := next value
    ⟨first.text ++ later.text, later.result⟩
  | .error fault => ⟨first.text, .error fault⟩

instance : Monad Printed where
  pure value := silent (.ok value)
  bind := andThen

instance : MonadLift (Except Fault) Printed where
  monadLift := silent

end Printed

end JazzGrammar
