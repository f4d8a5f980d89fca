import RegisterScheme.Template.Basic

/-! Templates as text: instructions, literals and variables, with the templates of the pool
below, each indented more. -/

namespace RegisterScheme

def VariableKind.listing : VariableKind → String
  | argument r p => s!"argument R{r.val} {p.text}"
  | localVariable r => s!"local R{r.val}"
  | global => "global"
  | captured distance r => s!"upvalue R{r.val} at distance {distance}"

namespace Template

def padding (n : Nat) : String := String.ofList (List.replicate n ' ')

def header (t : Template) : String :=
  let rest := if t.rest.isSome then ", rest" else ""
  s!"template {t.displayName} ({t.required} required, {t.optional} optional, " ++
    s!"{t.keys} keys{rest}) frame {t.frameSize} temps from {t.tempBase}\n"

/-- An instruction with its number, right-aligned in four columns, and its place. -/
def codeLine (pad : String) (l : Line) (pc : Nat) : String :=
  let number := Nat.repr pc
  let place := match l.location with
    | some p => s!"  ; {p.line}:{p.column}"
    | none => ""
  s!"{pad}  {padding (4 - number.length)}{number}  {l.instruction.text}{place}\n"

def literalLine (pad : String) (l : Literal Template) (index : Nat) : String :=
  s!"{pad}    K{index} = {l.text}\n"

def variableLine (pad : String) (v : Variable) (slot : Nat) : String :=
  let default := match v.initializer with
    | some index => s!" default K{index}"
    | none => ""
  s!"{pad}    V{slot} {v.name} {v.kind.listing}{default}\n"

/-- A titled section, left out if it has no lines. -/
def titled (title : String) (lines : List String) : List String :=
  if lines.isEmpty then [] else title :: lines

/-- The lines of a template without the templates nested in it. -/
def ownLines (indent : Nat) (t : Template) : List String :=
  let pad := padding (2 * indent)
  (pad ++ t.header) :: t.code.mapIdx (fun pc l => codeLine pad l pc) ++
    titled s!"{pad}  literals:\n" (t.literals.mapIdx fun i l => literalLine pad l i) ++
    titled s!"{pad}  variables:\n" (t.slots.mapIdx fun i v => variableLine pad v i)

mutual

/-- A template with those nested in it, in the order of the pools, each with its depth. -/
def nestedFrom (depth : Nat) : Template → List (Nat × Template)
  | t@⟨_, _, literals, _, _, _, _, _, _, _⟩ => (depth, t) :: nestedInPool (depth + 1) literals

def nestedInPool (depth : Nat) : List (Literal Template) → List (Nat × Template)
  | [] => []
  | .template t :: ls => nestedFrom depth t ++ nestedInPool depth ls
  | .quotation _ :: ls => nestedInPool depth ls
  | .unspecified :: ls => nestedInPool depth ls

end

def all (t : Template) : List Template := (nestedFrom 0 t).map (·.2)

def listing (t : Template) : String :=
  String.join ((nestedFrom 0 t).flatMap fun (depth, t) => ownLines depth t)

end Template

end RegisterScheme
