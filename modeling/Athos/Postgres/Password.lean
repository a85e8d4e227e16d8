import Athos.Kube.Server

/-!
# Password generation

The generator of `src/internal/password/password.go`.
-/

namespace Athos.Postgres

open Base Kube

/-- `Generator`; `password.go:44-47`. -/
structure Generator where
  alphabet : GoString
  length : Nat
  deriving DecidableEq

/-- `DefaultPasswordLength`; `password.go:30`. -/
def defaultPasswordLength : Nat := 32

/-- `DefaultAlphabet`; `password.go:34`. -/
def defaultAlphabet : GoString :=
  lit "abcdefghijklmnopqrstuvwxyzABCDEFGHIJKLMNOPQRSTUVWXYZ0123456789"

/-- `DefaultGenerator`; `password.go:63-65`. -/
def defaultGenerator : Generator := ⟨defaultAlphabet, defaultPasswordLength⟩

/-- The remaining bytes of `Generate`, one random index each. -/
def generateBytes (alphabet : GoString) : Nat → Action (Except GoError GoString)
  | 0 => return .ok []
  | n + 1 => do
    match ← Client.randInt alphabet.length with
    | .error e => return .error (.wrapped (lit "generating random byte") (.message e))
    | .ok i =>
      match ← generateBytes alphabet n with
      | .error e => return .error e
      | .ok rest => return .ok (alphabet.getD i 0 :: rest)

/-- `Generator.Generate`; `password.go:68-79`. -/
def Generator.generate (g : Generator) : Action (Except GoError GoString) :=
  generateBytes g.alphabet g.length

end Athos.Postgres
