/-! Where the variables of a procedure live while it runs. -/

namespace RegisterScheme

/-- A register of a frame. -/
abbrev Register := Fin 256

/-- What stands where an instruction needs no register, and for false. -/
def Register.zero : Register := ⟨0, by decide⟩

/-- Arguments and locals of a frame have registers below this one. -/
def maxRegisters : Nat := 255

inductive ParameterKind where
  | required
  | optional
  | key
  | rest
deriving DecidableEq, Repr

def ParameterKind.text : ParameterKind → String
  | required => "Required"
  | optional => "Optional"
  | key => "Key"
  | rest => "Rest"

inductive VariableKind where
  | argument (register : Register) (parameter : ParameterKind)
  | localVariable (register : Register)
  | global
  /-- A register of the frame so many closures further out. -/
  | captured (distance : Nat) (register : Register)
deriving DecidableEq, Repr

/-- The register of this frame that holds the variable. -/
def VariableKind.register? : VariableKind → Option Register
  | argument r _ | localVariable r => some r
  | global | captured _ _ => none

end RegisterScheme
