import RegisterScheme.Expr.Procedure

/-! Quasiquotation: a template becomes an expression that builds its datum. Parts without
anything to evaluate stay quotations. -/

namespace RegisterScheme.Resolving

/-- The level mark that heads a form of two items. -/
def levelMark? (c : ScopeChain) (head : Sexpr) : Option QuoteMark :=
  match head with
  | .identifier name _ =>
    match c.primitive? name with
    | some (.form .quasiquote) => some .quasiquote
    | some (.form .unquote) => some .unquote
    | some (.form .unquoteSplicing) => some .unquoteSplicing
    | _ => none
  | _ => none

/-- Whether a list ends in an unquotation that was written behind a dot. -/
def endsInUnquote (mark? : Sexpr → Option QuoteMark) (items : List Sexpr) : Bool :=
  match items.reverse with
  | _ :: marker :: _ => mark? marker == some .unquote
  | _ => false

mutual

/-- Whether a template has something to evaluate at a level of quasiquotation. -/
def hasUnquote (mark? : Sexpr → Option QuoteMark) : Sexpr → (level : Nat) → Bool
  | .list [head, arg] _, level =>
    match mark? head with
    | some .quasiquote => hasUnquote mark? arg (level + 1)
    | some _ => level == 1 || hasUnquote mark? arg (level - 1)
    | none => hasUnquote mark? head level || hasUnquote mark? arg level
  | .list items _, level =>
    (level == 1 && endsInUnquote mark? items) || anyUnquote mark? items level
  | .dotted items tail _, level =>
    anyUnquote mark? items level || hasUnquote mark? tail level
  | .vector items _, level => anyUnquote mark? items level
  | _, _ => false

def anyUnquote (mark? : Sexpr → Option QuoteMark) : List Sexpr → (level : Nat) → Bool
  | [], _ => false
  | s :: ss, level => hasUnquote mark? s level || anyUnquote mark? ss level

end

def consExpr (car cdr : Expr) (s : Sexpr) : Expr :=
  .operation .cons [car, cdr] s.location

/-- A call of a global procedure. -/
def callGlobal (name : String) (arguments : List Expr) (s : Sexpr) : Resolving Expr := do
  let callee ← global name s
  return .call (.reference callee s.location) arguments s.location

/-- The expression spliced in by an item of a list at level one. -/
def spliced? (c : ScopeChain) (level : Nat) (item : Sexpr) : Option Sexpr :=
  match item with
  | .list [head, arg] _ =>
    if level == 1 && levelMark? c head == some .unquoteSplicing then some arg else none
  | _ => none

mutual

/-- The expression for a template at a level of quasiquotation. -/
def quasi (expand : Expand) : Sexpr → (level : Nat) → Resolving Expr
  | template, level => do
    if !hasUnquote (levelMark? (← get)) template level then
      literal template.toDatum template
    else
      match template with
      | .list [head, arg] _ =>
        match levelMark? (← get) head, level with
        | some .unquote, 1 => expand arg
        | some .unquoteSplicing, 1 => invalid .splicingOutsideList template
        | some mark, level =>
          let inner ← quasi expand arg (if mark = .quasiquote then level + 1 else level - 1)
          let keyword ← literal head.toDatum head
          let nil ← literal .nil template
          return consExpr keyword (consExpr inner nil template) template
        | none, level => quasiItems expand true (literal .nil template) [head, arg] level
      | .list items _ => quasiItems expand true (literal .nil template) items level
      | .dotted items tail _ => quasiItems expand false (quasi expand tail level) items level
      | .vector items _ =>
        let list ← quasiItems expand true (literal .nil template) items level
        callGlobal "list->vector" [list] template
      | template => literal template.toDatum template

/-- Items in front of what `last` builds, from the last item on. If `dotted` is allowed, an
unquotation as the last two items is the tail itself. -/
def quasiItems (expand : Expand) (dotted : Bool) (last : Resolving Expr) :
    List Sexpr → (level : Nat) → Resolving Expr
  | [], _ => last
  | item :: rest, level => do
    let isTail := dotted && level == 1 && levelMark? (← get) item == some .unquote
    match isTail, rest with
    | true, [e] => expand e
    | _, _ =>
      let cdr ← quasiItems expand dotted last rest level
      match spliced? (← get) level item with
      | some e => callGlobal "append" [← expand e, cdr] item
      | none => return consExpr (← quasi expand item level) cdr item

end

end RegisterScheme.Resolving
