import WordMachine.Memory
import WordMachine.Register

/-!
The machine: its settings, a register file and a memory.
-/

namespace WordMachine

/-- What to do about a funct to which its opcode binds no operation: nothing at all, or a fault. -/
inductive FunctPolicy where
  | ignore
  | fault
  deriving DecidableEq, Repr

def defaultMemoryWords : Nat := 1000

structure Config where
  memoryWords : Nat := defaultMemoryWords
  unboundFunct : FunctPolicy := .ignore
  deriving DecidableEq, Repr

inductive Status where
  | running
  | halted
  deriving DecidableEq, Repr

def Status.text : Status → String
  | .running => "Running"
  | .halted => "Halted"

structure Machine where
  config : Config
  registers : RegisterFile
  memory : Memory
  deriving DecidableEq, Repr

namespace Machine

def fresh (config : Config) : Machine := ⟨config, .zeros, .zeros config.memoryWords⟩

def register (m : Machine) (r : Register) : Word := m.registers.read r

def pc (m : Machine) : Word := m.registers.pc

def readWord (m : Machine) (address : Word) : Except Fault Word := m.memory.read address

def load (m : Machine) (offset : Word) (words : List Word) : Machine × Except Fault Unit :=
  let (memory, result) := m.memory.load offset words
  (⟨m.config, m.registers, memory⟩, result)

/-- Halted where the word at the program counter can be read and holds a `hlt`. -/
def status (m : Machine) : Status :=
  match m.readWord m.pc with
  | .ok word =>
    match Opcode.ofWord word with
    | .ok .hlt => .halted
    | _ => .running
  | .error _ => .running

def setRegister (m : Machine) (r : Register) (value : Word) : Machine :=
  { m with registers := m.registers.write r value }

def advance (m : Machine) : Machine := m.setRegister .pc (m.pc + BitVec.ofNat 32 wordBytes)

def storeWord (m : Machine) (address value : Word) : Machine × Except Fault Unit :=
  let (memory, result) := m.memory.write address value
  (⟨m.config, m.registers, memory⟩, result)

def loadWord (m : Machine) (r : Register) (address : Word) : Machine × Except Fault Unit :=
  match m.readWord address with
  | .ok word => (m.setRegister r word, .ok ())
  | .error fault => (m, .error fault)

end Machine

end WordMachine
