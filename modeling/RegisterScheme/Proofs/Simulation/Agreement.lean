import RegisterScheme.Machine.Run
import RegisterScheme.Proofs.Simulation.Worlds

/-! When a store of the machine agrees with a world of evaluation: the same activations with the
same variables, the same globals, and closures of the templates of the same procedures. Temporaries
and caches have no counterpart; what caches remember must be true. -/

namespace RegisterScheme

namespace Store

/-- What a register of a frame holds. -/
def register? (s : Store) (address register : Nat) : Option Value :=
  s.frames[address]?.bind fun f => f.registers[register]?

end Store

/-- What a closure remembers about its variables is true: the cells of globals by the literals that
name them, and the activations of captured variables by their slots. -/
structure Cache.True (k : Cache) (t : Template) (parent : Option Nat) (g : Globals) (w : World) :
    Prop where
  cells : ∀ index address, k.cells.lookup index = some address → ∃ first name,
    t.literals[index]? = some (.quotation ⟨first, .atom (.symbol name)⟩) ∧
      g.address? name = some address
  owners : ∀ slot address, k.owners.lookup slot = some address → ∃ v distance r,
    t.slots[slot]? = some v ∧ v.kind = .captured distance r ∧
      w.ancestor (distance - 1) parent = some address

/-- A frame and an activation of the same closure, with the same variables. -/
structure Frame.Agrees (fr : Frame) (e : Environment) : Prop where
  closure : fr.closure = e.closure
  size : fr.registers.size = e.closure.template.frameSize
  values : ∀ r : Register, r.val < e.closure.template.tempBase →
    fr.registers[r.val]? = some (e.values r)

/-- A store of the machine that stands for a world. -/
structure Store.Agrees (N : Nat → Prop) (s : Store) (w : World) : Prop where
  valid : w.Valid N
  frames_size : s.frames.size = w.environments.size
  frames : ∀ (i : Nat) e, w.environments[i]? = some e →
    ∃ fr, s.frames[i]? = some fr ∧ fr.Agrees e
  globals : ∀ name, s.globals.find? name = w.globals name
  caches_size : s.caches.size = w.procedures.size
  caches : ∀ (i : Nat) k f parent t, s.caches[i]? = some k → w.procedures[i]? = some (f, parent) →
    f.template = .ok t → k.True t parent s.globals w
  nextObject : s.nextObject = w.nextObject

end RegisterScheme
