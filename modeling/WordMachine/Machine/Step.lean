import WordMachine.Encoding.Layout
import WordMachine.Machine.Basic

/-!
One step of the machine: the word at the program counter is fetched, its opcode says how its
operands are laid out and what happens to them, and the program counter moves on by one word. It
moves on after a jump or a taken branch as well, so control lands one word past the sum of the
program counter and the offset. The operations are named for their opcodes. A run is made of steps
until the machine halts, faults or has used up its budget.
-/

namespace WordMachine

namespace Machine

def missFunct (m : Machine) (opcode : Opcode) (funct : Funct) : Machine × Except Fault Unit :=
  match m.config.unboundFunct with
  | .ignore => (m, .ok ())
  | .fault => (m, .error (.unboundFunct m.pc opcode funct.code))

def put (m : Machine) (f : LegacyFields) : Machine × Except Fault Unit :=
  m.storeWord (m.register f.base + m.register f.offset) (m.register f.value)

def get (m : Machine) (f : LegacyFields) : Machine × Except Fault Unit :=
  m.loadWord f.value (m.register f.base + m.register f.offset)

def op (m : Machine) (f : RFields) : Machine × Except Fault Unit :=
  match OpFunct.ofCode? f.funct.code with
  | some .add => (m.setRegister f.rd (m.register f.rs1 + m.register f.rs2), .ok ())
  | none => m.missFunct .op f.funct

def mlt (m : Machine) (f : RFields) : Machine × Except Fault Unit :=
  (m.setRegister f.rd (m.register f.rs1 * m.register f.rs2), .ok ())

def imm (m : Machine) (f : IFields) : Machine × Except Fault Unit :=
  match ImmFunct.ofCode? f.funct.code with
  | some .addi => (m.setRegister f.rd (m.register f.rs1 + f.imm.toWord), .ok ())
  | some .slti =>
    let less := (m.register f.rs1).slt f.imm.toWord
    (m.setRegister f.rd (if less then 1 else 0), .ok ())
  | none => m.missFunct .imm f.funct

def branch (m : Machine) (f : SBFields) : Machine × Except Fault Unit :=
  match BranchFunct.ofCode? f.funct.code with
  | some .bne =>
    if m.register f.rs1 = m.register f.rs2 then (m, .ok ())
    else (m.setRegister .pc (m.pc + f.imm.toWord), .ok ())
  | none => m.missFunct .branch f.funct

/-- The address of the next word goes to `rd` before the jump. -/
def jal (m : Machine) (f : UJFields) : Machine × Except Fault Unit :=
  let pc := m.pc
  let linked := m.setRegister f.rd (pc + BitVec.ofNat 32 wordBytes)
  (linked.setRegister .pc (pc + f.imm.toWord), .ok ())

def lui (m : Machine) (f : UJFields) : Machine × Except Fault Unit :=
  (m.setRegister f.rd (f.imm.toWord <<< 12), .ok ())

def lw (m : Machine) (f : IFields) : Machine × Except Fault Unit :=
  m.loadWord f.rd (m.register f.rs1 + f.imm.toWord)

def sw (m : Machine) (f : SBFields) : Machine × Except Fault Unit :=
  m.storeWord (m.register f.rs1 + f.imm.toWord) (m.register f.rs2)

/-- Carries out the operation of a word, without moving on from it. -/
def execute (m : Machine) (opcode : Opcode) (word : Word) : Machine × Except Fault Unit :=
  match opcode with
  | .hlt => (m, .ok ())
  | .put => m.put (.ofWord word)
  | .get => m.get (.ofWord word)
  | .op => m.op (.ofWord word)
  | .mlt => m.mlt (.ofWord word)
  | .imm => m.imm (.ofWord word)
  | .branch => m.branch (.ofWord word)
  | .jal => m.jal (.ofWord word)
  | .lui => m.lui (.ofWord word)
  | .lw => m.lw (.ofWord word)
  | .sw => m.sw (.ofWord word)

def step (m : Machine) : Machine × Except Fault Status :=
  match m.readWord m.pc with
  | .error fault => (m, .error fault)
  | .ok word =>
    match Opcode.ofWord word with
    | .error code => (m, .error (.illegalOpcode m.pc code))
    | .ok .hlt => (m, .ok .halted)
    | .ok opcode =>
      match m.execute opcode word with
      | (next, .ok ()) => (next.advance, .ok .running)
      | (next, .error fault) => (next, .error fault)

/-- At most `budget` steps after one that ended in `last`. -/
def runOn (last : Status) : Nat → Machine → Machine × Except Fault Status
  | 0, m => (m, .ok last)
  | budget + 1, m =>
    match m.step with
    | (next, .ok .running) => runOn .running budget next
    | (next, .ok .halted) => (next, .ok .halted)
    | (next, .error fault) => (next, .error fault)

/-- A run without any budget answers with the status of the machine; any other with that of its
    last step. -/
def run (m : Machine) (budget : Nat) : Machine × Except Fault Status := runOn m.status budget m

/-- The result of each of up to `budget` steps, with the program counter after it. The first step
    that does not leave the machine running is the last. -/
def trace : Nat → Machine → Machine × List (Except Fault Status × Word)
  | 0, m => (m, [])
  | budget + 1, m =>
    match m.step with
    | (next, .ok .running) =>
      let (final, entries) := trace budget next
      (final, (.ok .running, next.pc) :: entries)
    | (next, result) => (next, [(result, next.pc)])

end Machine

end WordMachine
