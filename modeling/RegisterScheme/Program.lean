import RegisterScheme.Expr.Resolve
import RegisterScheme.Sexpr.Reader
import RegisterScheme.Template.Generator

/-! Programs from their text: tokens, data, a resolved procedure without parameters, and its
template. The first step that fails decides the error. -/

namespace RegisterScheme

def malformedFailure {α : Type} (r : Except Malformed α) : Except Failure α :=
  r.mapError fun m => .error (.malformed m)

/-- The data of a text. -/
def Sexpr.ofText (options : ReadOptions) (origin text : String) : Except Failure (List Sexpr) :=
  malformedFailure (tokenize options origin text >>= Sexpr.readAll options.maxDepth)

/-- The only datum of a text. -/
def Sexpr.oneOfText (options : ReadOptions) (origin text : String) : Except Failure Sexpr :=
  malformedFailure (tokenize options origin text >>= Sexpr.readOne)

/-- The resolved program of a text, and the identity of the next quoted object after it. -/
def Function.ofText (options : ReadOptions) (primitives : Primitives) (nextObject : Nat)
    (origin text : String) : Except Failure (Function × Nat) :=
  Sexpr.ofText options origin text >>= Function.ofProgram primitives nextObject

structure Program where
  template : Template
  /-- The primitives that definitions of the program have made globals. -/
  shadowed : List String
  /-- The identity of the next object after those that the program quotes. -/
  nextObject : Nat

def Program.ofText (options : ReadOptions) (primitives : Primitives) (nextObject : Nat)
    (origin text : String) : Except Failure Program := do
  let (f, nextObject) ← Function.ofText options primitives nextObject origin text
  return ⟨← f.template, f.scope.shadowed, nextObject⟩

end RegisterScheme
