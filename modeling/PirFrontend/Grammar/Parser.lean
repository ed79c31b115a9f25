import PirFrontend.Build.Frame
import PirFrontend.Token.Stream

/-!
Parsers. A parser reads tokens and acts on a builder as it goes; no tree is kept. When a rule of
the grammar is broken, the rest of the line is skipped and reading goes on behind it, so a parser
either fails with a broken rule or has to stop for good.

Loops and nested rules end because each round reads something: what is left of the tokens bounds
them all.
-/
namespace PirFrontend

/-- The tokens that are left and the builder that they feed. -/
structure Session where
  tokens : TokenStream
  builder : Builder

/-- The characters and tokens that are left. -/
def Session.size (s : Session) : Nat := s.tokens.size

/-- Why a rule came to no end. -/
inductive Failure where
  /-- A rule was broken; the next line can be read. -/
  | broken (e : ParseError)
  /-- Building has to stop. -/
  | fatal (f : Fatal)
  deriving DecidableEq, Repr

/-- An action on a session. What it read and built before it failed stays. -/
abbrev Act (ε : Type) := ExceptT ε (StateM Session)

/-- A rule of the grammar. -/
abbrev Parser := Act Failure

/-- An action that mends what is broken and fails only for good. -/
abbrev Mended := Act Fatal

/-- Failures among which are those that stop the build. -/
class OfFatal (ε : Type) where
  ofFatal : Fatal → ε

instance : OfFatal Fatal := ⟨id⟩

instance : OfFatal Failure := ⟨.fatal⟩

/-- The failure of a loop that reads nothing. No loop of the grammar does. -/
def stuck {ε : Type} [OfFatal ε] : ε := OfFatal.ofFatal (.internal "no progress")

namespace Act

variable {ε α β : Type}

/-- Acts on the builder alone. -/
def build [OfFatal ε] (x : Build α) : Act ε α := fun s =>
  match x.run s.builder with
  | (.ok a, b) => (.ok a, { s with builder := b })
  | (.error f, b) => (.error (OfFatal.ofFatal f), { s with builder := b })

instance [OfFatal ε] : MonadLift Build (Act ε) := ⟨build⟩

/-- Changes the builder. -/
def change (f : Builder → Builder) : Act ε Unit :=
  modifyThe Session fun s => { s with builder := f s.builder }

/-- Repeats a step that says whether to go on. Each round has to read something. -/
def iterate [OfFatal ε] (step : β → Act ε (β × Bool)) (b : β) : Act ε β := fun s =>
  match step b s with
  -- Going on is allowed only with less to read than before.
  | (.ok (b', true), s') =>
    if s'.size < s.size then iterate step b' s' else (.error stuck, s')
  | (.ok (b', false), s') => (.ok b', s')
  | (.error e, s') => (.error e, s')
termination_by s => s.size

/-- Repeats a step until it says to stop. -/
def repeatWhile [OfFatal ε] (step : Act ε Bool) : Act ε Unit :=
  iterate (fun _ => do return ((), ← step)) ()

/-- A rule that contains itself. The rule inside has to come after something was read. -/
def nest [OfFatal ε] (rule : Act ε α → Act ε α) : Act ε α := fun s =>
  rule (fun s' => if s'.size < s.size then nest rule s' else (.error stuck, s')) s
termination_by s => s.size

end Act

namespace Parser

variable {α : Type}

/-- Acts on the tokens alone. -/
def read (x : Reading α) : Parser α := fun s =>
  match x.run s.tokens with
  | (.ok a, t) => (.ok a, { s with tokens := t })
  | (.error e, t) => (.error (.broken e), { s with tokens := t })

instance : MonadLift Reading Parser := ⟨read⟩

/-- Runs an action that mends what is broken. -/
def ofMended (x : Mended α) : Parser α := fun s =>
  match x.run s with
  | (.ok a, s) => (.ok a, s)
  | (.error f, s) => (.error (.fatal f), s)

instance : MonadLift Mended Parser := ⟨ofMended⟩

/-- Fails at the next token without taking it, so that what follows still sees it. -/
def unexpected (expected : List String) : Parser α := do
  match ← TokenStream.peek 0 with
  | some t => throw (.broken (.unexpected t expected))
  | none => throw (.broken (.endOfInput expected))

/-- Fails at a token that was taken. -/
def unexpectedToken (t : Token) (expected : List String) : Parser α :=
  throw (.broken (.unexpected t expected))

end Parser

namespace Mended

variable {α : Type}

/-- Reports a broken rule on its line, skips the rest of the line, and drops what was begun
there. -/
def resynchronize (e : ParseError) : Mended Unit := do
  match e.line? with
  | some line => Act.change (·.setLine line)
  | none => pure ()
  Build.malformed e.message
  modifyThe Session fun s => { s with tokens := s.tokens.skipLine.2 }
  Act.change Builder.dropInstruction

/-- Reads by a rule; if it is broken, mends and goes on with another answer. -/
def attempt (rule : Parser α) (otherwise : α) : Mended α := fun s =>
  match rule.run s with
  | (.ok a, s) => (.ok a, s)
  | (.error (.fatal f), s) => (.error f, s)
  -- What the rule read and built before it broke stays.
  | (.error (.broken e), s) => (do resynchronize e; pure otherwise : Mended α) s

end Mended
end PirFrontend
