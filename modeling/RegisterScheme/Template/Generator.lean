import RegisterScheme.Template.Builder

/-! Code for expressions. Arguments and locals of a procedure stay in their registers;
temporaries above them are taken and freed as on a stack. A test or comparison skips the jump
behind it. -/

namespace RegisterScheme

/-- Where the value of an expression goes. -/
inductive Destination where
  | register (r : Register)
  | nowhere

/-- How an operator becomes instructions. -/
inductive Operator.Plan where
  /-- From the left; alone after `identity`, and without operands `identity` itself. -/
  | fold (opcode : Opcode) (identity : Int64)
  /-- From the left; a single operand is inverted, by an instruction or after `identity`. -/
  | invert (opcode : Opcode) (alone : Option Opcode) (identity : Int64)
  | binary (opcode : Opcode)
  /-- Each operand with the next, in the other order if `swap`. -/
  | chain (opcode : Opcode) (swap : Bool)
  | unary (opcode : Opcode)
  | isNull
  /-- Up to the first operand of the given truth. -/
  | junction (stop : Bool)

def Operator.plan : Operator → Operator.Plan
  | add => .fold .add 0
  | multiply => .fold .multiply 1
  | subtract => .invert .subtract (some .negate) 0
  | divide => .invert .divide none 1
  | modulo => .binary .modulo
  | remainder => .binary .remainder
  | cons => .binary .cons
  | equalNumbers => .chain .equalNumbers false
  | equivalent => .chain .equivalent false
  | less => .chain .less false
  | lessOrEqual => .chain .lessOrEqual false
  | greater => .chain .less true
  | greaterOrEqual => .chain .lessOrEqual true
  | car => .unary .car
  | cdr => .unary .cdr
  | not => .unary .not
  | isNull => .isNull
  | and => .junction false
  | or => .junction true

/-- Code for the expressions and the procedures inside others. -/
structure Lowering where
  expr : Scope → Destination → Expr → Generating Code
  function : Function → Except Failure Template

namespace Lowering

open Generating

variable (inner : Lowering) (scope : Scope)

def into (r : Register) (e : Expr) : Generating Code := inner.expr scope (.register r) e

def effect (e : Expr) : Generating Code := inner.expr scope .nowhere e

/-- The value in a new temporary. -/
def toTemporary (e : Expr) : Generating (Code × Register) := do
  let r ← allocate
  let code ← inner.into scope r e
  freeFrom scope (r + 1)
  return (code, r)

/-- The value in some register: a local stays where it is. -/
def toRegister (e : Expr) : Generating (Code × Register) :=
  match e with
  | .reference (.localVariable r) _ => return ([], r)
  | e => inner.toTemporary scope e

/-- The value as an operand: a literal stays in the pool if its index fits. -/
def toOperand (e : Expr) : Generating (Code × Operand) := do
  let constant? ← match e with
    | .literal q _ => Operand.constant? <$> literal q
    | _ => pure none
  match constant? with
  | some operand => return ([], operand)
  | none =>
    let (code, r) ← inner.toRegister scope e
    return (code, .register r)

/-- An atom as an operand. -/
def atomOperand (a : Atom) (location : Option Location) : Generating (Code × Operand) := do
  let index ← atom a
  match Operand.constant? index with
  | some operand => return ([], operand)
  | none =>
    let r ← allocate
    return (← emit location (Instruction.abx .loadConstant r index), .register r)

/-- Operands from left to right. A local that a later one could change is copied first. -/
def operands : List Expr → Generating (Code × List Operand)
  | [] => return ([], [])
  | e :: es => do
    let (code, operand) ← match e with
      | .reference (.localVariable _) _ =>
        if es.all Expr.isSimple then inner.toOperand scope e
        else do
          let (code, r) ← inner.toTemporary scope e
          pure (code, .register r)
      | e => inner.toOperand scope e
    let (more, rest) ← operands es
    return (code ++ more, operand :: rest)

def loadNil (r : Register) (location : Option Location) : Generating Code :=
  emit location (Instruction.ab .loadNil r r)

def loadBoolean (r : Register) (b : Bool) (skip : Nat) (location : Option Location) :
    Generating Code :=
  emit location (Instruction.abc .loadBoolean r b.toNat skip)

def loadQuotation (r : Register) (q : Quotation) (location : Option Location) :
    Generating Code := do
  match q.datum with
  | .atom .nil => loadNil r location
  | .atom (.boolean b) => loadBoolean r b 0 location
  | _ => emit location (Instruction.abx .loadConstant r (← literal q))

def loadUnspecified (r : Register) (location : Option Location) : Generating Code := do
  emit location (Instruction.abx .loadConstant r (← unspecified))

def loadVariable (r : Register) (v : VariableRef) (location : Option Location) :
    Generating Code := do
  match v with
  | .localVariable source =>
    if source = r then return [] else emit location (Instruction.ab .move r source)
  | .captured slot => emit location (slotOperand slot >>= Instruction.ab .getCaptured r)
  | .global slot => emit location (Instruction.abx .getGlobal r (← globalName scope slot))

/-- A value goes to its variable. That of a local is built beside it if it may read it. -/
def assign (target : VariableRef) (value : Expr) (location : Option Location) :
    Generating Code := do
  let mark := (← get).free
  let code ← match target with
    | .localVariable r =>
      match value with
      | .literal _ _ | .reference _ _ | .lambda _ _ => inner.into scope r value
      | value => do
        let scratch ← allocate
        let code ← inner.into scope scratch value
        pure (code ++ (← emit location (Instruction.ab .move r scratch)))
    | .captured slot => do
      let (code, source) ← inner.toRegister scope value
      pure (code ++ (← emit location (slotOperand slot >>= Instruction.ab .setCaptured source)))
    | .global slot => do
      let (code, source) ← inner.toRegister scope value
      pure (code ++ (← emit location (Instruction.abx .setGlobal source (← globalName scope slot))))
  freeFrom scope mark
  return code

/-- The value in a register that is free again, for a test of it. -/
def tested (e : Expr) (test : Register → Except Overrun Instruction)
    (location : Option Location) : Generating Code := do
  let mark := (← get).free
  let (code, r) ← inner.toRegister scope e
  let line ← emit location (test r)
  freeFrom scope mark
  return code ++ line

/-- Code for a missing alternative is that for nil. -/
def alternative (r : Register) (e : Option Expr) (location : Option Location) :
    Generating Code :=
  match e with
  | some e => inner.into scope r e
  | none => loadNil r location

def branch (r : Register) (test consequent : Expr) (otherwise : Option Expr)
    (location : Option Location) : Generating Code := do
  let test ← inner.tested scope test (Instruction.abc .test · 0 0) location
  let consequent ← inner.into scope r consequent
  let toElse ← jump location (consequent.length + 1)
  let otherwise ← inner.alternative scope r otherwise location
  return test ++ toElse ++ consequent ++ (← jump location otherwise.length) ++ otherwise

/-- A clause up to the jump behind all clauses. -/
def clause (r : Register) (c : Clause Expr) (location : Option Location) : Generating Code := do
  match c.body with
  | none => inner.tested scope c.test (Instruction.abc .testSet r · 1) location
  | some body =>
    let test ← inner.tested scope c.test (Instruction.abc .test · 0 0) location
    let body ← inner.into scope r body
    return test ++ (← jump location (body.length + 1)) ++ body

def cond (r : Register) (clauses : List (Clause Expr)) (otherwise : Option Expr)
    (location : Option Location) : Generating Code := do
  let pieces ← clauses.mapM fun c => inner.clause scope r c location
  joined location pieces (← inner.alternative scope r otherwise location)

/-- Each operand is compared with the next. The first comparison that fails jumps to the end,
where false is loaded. -/
def chain (r : Register) (opcode : Opcode) (swap : Bool) (operands : List Operand)
    (location : Option Location) : Generating Code := do
  let pieces ← (operands.zip (operands.drop 1)).mapM fun (x, y) =>
    let (x, y) := if swap then (y, x) else (x, y)
    emit location (Instruction.abc opcode .zero x.half y.half)
  let code ← joined location pieces (← loadBoolean r true 1 location)
  return code ++ (← loadBoolean r false 0 location)

def junction (r : Register) (stop : Bool) (operands : List Expr) (location : Option Location) :
    Generating Code := do
  match operands.getLast? with
  | none => loadBoolean r (!stop) 0 location
  | some last =>
    let pieces ← operands.dropLast.mapM fun e =>
      inner.tested scope e (Instruction.abc .testSet r · stop.toNat) location
    joined location pieces (← inner.into scope r last)

/-- An instruction for the first two operands, and one more for each of the others. -/
def folded (r : Register) (opcode : Opcode) (es : List Expr) (location : Option Location) :
    Generating Code := do
  match ← inner.operands scope es with
  | (code, x :: y :: rest) =>
    let first ← emit location (Instruction.abc opcode r x.half y.half)
    let more ← rest.mapM fun z => emit location (Instruction.abc opcode r r z.half)
    return code ++ first ++ more.flatten
  | _ => fault (.noSuchOperand opcode.mnemonic)

/-- One operand after an atom. -/
def afterAtom (r : Register) (opcode : Opcode) (a : Atom) (e : Expr)
    (location : Option Location) : Generating Code := do
  let (load, x) ← atomOperand a location
  let (code, y) ← inner.toOperand scope e
  return load ++ code ++ (← emit location (Instruction.abc opcode r x.half y.half))

def unary (r : Register) (opcode : Opcode) (es : List Expr) (location : Option Location) :
    Generating Code := do
  match es with
  | e :: _ =>
    let (code, x) ← inner.toRegister scope e
    return code ++ (← emit location (Instruction.ab opcode r x))
  | [] => fault (.noSuchOperand opcode.mnemonic)

def operation (r : Register) (op : Operator) (es : List Expr) (location : Option Location) :
    Generating Code := do
  let mark := (← get).free
  let code ← match op.plan, es with
    | .fold _ identity, [] => loadQuotation r ⟨0, .atom (.integer identity)⟩ location
    | .fold opcode identity, [e] | .invert opcode none identity, [e] =>
      inner.afterAtom scope r opcode (.integer identity) e location
    | .invert _ (some opcode) _, [e] => inner.unary scope r opcode [e] location
    | .fold opcode _, es | .invert opcode _ _, es | .binary opcode, es =>
      inner.folded scope r opcode es location
    | .chain opcode swap, es => do
      let (code, operands) ← inner.operands scope es
      pure (code ++ (← chain r opcode swap operands location))
    | .isNull, es => do
      let (code, operands) ← inner.operands scope es
      let (load, nil) ← atomOperand .nil location
      pure (code ++ load ++ (← chain r .equivalent false (operands ++ [nil]) location))
    | .unary opcode, es => inner.unary scope r opcode es location
    | .junction stop, es => inner.junction scope r stop es location
  freeFrom scope mark
  return code

/-- Each argument in the next temporary. -/
def arguments : List Expr → Generating Code
  | [] => return []
  | e :: es => do
    let (code, _) ← inner.toTemporary scope e
    return code ++ (← arguments es)

/-- The procedure and its arguments are laid out in a row, from the destination on if it is the
last temporary. -/
def call (r : Register) (callee : Expr) (es : List Expr) (location : Option Location) :
    Generating Code := do
  let mark := (← get).free
  let base ← if r + 1 = mark ∧ scope.registers ≤ r then pure r else allocate
  let callee ← inner.into scope base callee
  let arguments ← inner.arguments scope es
  let call ← emit location (Instruction.abc .call base (es.length + 1) 2)
  let move ← if base = r then pure [] else emit location (Instruction.ab .move r base)
  freeFrom scope mark
  return callee ++ arguments ++ call ++ move

def lambda (r : Register) (f : Function) (location : Option Location) : Generating Code := do
  match inner.function f with
  | .ok t => emit location (Instruction.abx .closure r (← pushLiteral (.template t)))
  | .error e => throw e

/-- Code that leaves the value of an expression in a register. -/
def lowerInto (r : Register) (e : Expr) : Generating Code := do
  match e with
  | .literal q location => loadQuotation r q location
  | .reference v location => loadVariable scope r v location
  | .assignment target value location =>
    let code ← inner.assign scope target value location
    return code ++ (← loadUnspecified r location)
  | .branch test consequent otherwise location =>
    inner.branch scope r test consequent otherwise location
  | .cond clauses otherwise location => inner.cond scope r clauses otherwise location
  | .operation op es location => inner.operation scope r op es location
  | .call callee es location => inner.call scope r callee es location
  | .lambda f location => inner.lambda r f location
  | .sequence items location =>
    match items.getLast? with
    | none => loadUnspecified r location
    | some last =>
      let pieces ← items.dropLast.mapM (inner.effect scope)
      return pieces.flatten ++ (← inner.into scope r last)

/-- Code for the effect of an expression alone. -/
def lowerEffect (e : Expr) : Generating Code := do
  match e with
  | .literal _ _ | .reference _ _ | .lambda _ _ => return []
  | .sequence items _ => return (← items.mapM (inner.effect scope)).flatten
  | .assignment target value location => inner.assign scope target value location
  | e =>
    let mark := (← get).free
    let scratch ← allocate
    let code ← inner.lowerInto scope scratch e
    freeFrom scope mark
    return code

def lowerExpr (d : Destination) (e : Expr) : Generating Code :=
  match d with
  | .register r => inner.lowerInto scope r e
  | .nowhere => inner.lowerEffect scope e

/-- The description of a binding. -/
def describe (b : Binding) : Generating Variable :=
  match b.kind with
  | .variable kind => return ⟨b.name, kind, none⟩
  | .primitive _ => fault (.boundPrimitive b.name)

/-- The templates of the defaults enter the pool first. -/
def initializer (slots : List Variable) (p : OptionalParameter Function) :
    Generating (List Variable) := do
  match p.default with
  | none => return slots
  | some f =>
    match inner.function f with
    | .error e => throw e
    | .ok t =>
      let index ← pushLiteral (.template t)
      if p.slot < slots.length then
        return slots.modify p.slot fun v => { v with initializer := some index }
      else fault (.noSuchVariable p.slot "<scope>")

/-- The body and the return from it. -/
def procedureBody (f : Function) : Generating Code := do
  if f.body.endsInAssignment then
    let code ← inner.effect scope f.body
    return code ++ (← emit f.location (Instruction.ab .return .zero 1))
  else
    let (code, r) ← inner.toRegister scope f.body
    return code ++ (← emit f.location (Instruction.ab .return r 2))

def lowerFunction (f : Function) : Except Failure Template :=
  let build : Generating (List Variable × Code) := do
    let slots ← f.scope.bindings.mapM describe
    let slots ← (f.parameters.optional ++ f.parameters.keys).foldlM inner.initializer slots
    return (slots, ← inner.procedureBody f.scope f)
  match build (.start f.scope.registers) with
  | .error e _ => .error e
  | .ok (slots, code) b =>
    .ok {
      name := f.name
      code := code
      literals := b.literals.toList
      slots := slots
      required := f.parameters.required
      optional := f.parameters.optional.length
      keys := f.parameters.keys.length
      rest := f.parameters.rest
      frameSize := b.used
      tempBase := f.scope.registers }

/-- Code for expressions of at most a given height. -/
def within : Nat → Lowering
  | 0 => ⟨fun _ _ _ => fault .nesting, fun _ => .error (.fault .nesting)⟩
  | height + 1 => ⟨lowerExpr (within height), lowerFunction (within height)⟩

end Lowering

/-- The template of a procedure, with those of the procedures inside it. -/
def Function.template (f : Function) : Except Failure Template :=
  (Lowering.within f.height).function f

end RegisterScheme
