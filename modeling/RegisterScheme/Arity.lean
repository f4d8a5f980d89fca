/-! How many operands or arguments a form or a procedure takes. -/

namespace RegisterScheme

inductive Arity where
  | exactly (n : Nat)
  | atLeast (n : Nat)
  | between (least most : Nat)
  | any
deriving DecidableEq, Repr

namespace Arity

def accepts : Arity → Nat → Bool
  | exactly n, count => count == n
  | atLeast n, count => n ≤ count
  | between least most, count => least ≤ count && count ≤ most
  | any, _ => true

def text : Arity → String
  | exactly n => s!"exactly {n}"
  | atLeast n => s!"at least {n}"
  | between least most => s!"between {least} and {most}"
  | any => "any number of"

end Arity

end RegisterScheme
