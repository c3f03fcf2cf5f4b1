import Mathlib.Algebra.Group.Int.Defs
import WordMachine.Machine.Step
import WordMachine.Proofs.Encoding.Immediate
import WordMachine.Proofs.Instruction.Code
import WordMachine.Proofs.Memory

/-!
The meaning of instructions as arithmetic on integers, and the machine against it. A step looks up
the opcode and the layout of the word by itself and never builds an instruction; what it does is
nevertheless what the instruction that the word decodes to says.
-/

namespace WordMachine

namespace Machine

theorem stored_setRegister (m : Machine) (r s : Register) (value : Word) :
    (m.setRegister r value).registers.stored s =
      if r = s ∧ r ≠ .zero then value else m.registers.stored s :=
  RegisterFile.stored_write m.registers r s value

theorem register_setRegister (m : Machine) (r s : Register) (value : Word) :
    (m.setRegister r value).register s = if r = s ∧ r ≠ .zero then value else m.register s :=
  RegisterFile.read_write m.registers r s value

theorem setRegister_zero (m : Machine) (value : Word) : m.setRegister .zero value = m := rfl

theorem pc_congr {m n : Machine} (registers : n.registers = m.registers) : n.pc = m.pc :=
  congrArg RegisterFile.pc registers

theorem pc_eq_stored (m : Machine) : m.pc = m.registers.stored .pc := rfl

@[simp] theorem pc_setRegister_pc (m : Machine) (value : Word) :
    (m.setRegister .pc value).pc = value := rfl

@[simp] theorem pc_setRegister_x (m : Machine) (n : Fin 32) (value : Word) :
    (m.setRegister (.x n) value).pc = m.pc := by
  simp [pc_eq_stored, stored_setRegister]

@[simp] theorem pc_advance (m : Machine) : m.advance.pc = m.pc + 4 := rfl

@[simp] theorem stored_advance (m : Machine) (n : Fin 32) :
    m.advance.registers.stored (.x n) = m.registers.stored (.x n) := rfl

end Machine

/-- What an instruction changes: at most one register, at most one word of memory, and always the
    program counter. Whatever goes into a register or the program counter wraps around there. -/
structure Effect where
  result : Option (Register × Int) := none
  store : Option (Word × Word) := none
  next : Int
  deriving DecidableEq, Repr

/-- What instructions go by: the value of each register, and the word at each address or why there
    is none. -/
structure Contents where
  register : Register → Word
  word : Word → Except Fault Word

namespace Contents

def unsigned (c : Contents) (r : Register) : Int := (c.register r).toNat

def following (c : Contents) : Int := c.unsigned .pc + 4

def resultEffect (c : Contents) (rd : Register) (value : Int) : Except Fault Effect :=
  .ok { result := some (rd, value), next := c.following }

def loadEffect (c : Contents) (rd : Register) (address : Int) : Except Fault Effect :=
  match c.word (BitVec.ofInt 32 address) with
  | .ok word => c.resultEffect rd word.toNat
  | .error fault => .error fault

def storeEffect (c : Contents) (address : Int) (value : Word) : Except Fault Effect :=
  match c.word (BitVec.ofInt 32 address) with
  | .ok _ => .ok { store := some (BitVec.ofInt 32 address, value), next := c.following }
  | .error fault => .error fault

end Contents

namespace Instruction

/-- The program counter after a jump is one word past the sum of the old one and the offset. -/
def effect (c : Contents) : Instruction → Except Fault Effect
  | .halt => .ok { next := c.unsigned .pc }
  | .put value base offset =>
    c.storeEffect (c.unsigned base + c.unsigned offset) (c.register value)
  | .get value base offset => c.loadEffect value (c.unsigned base + c.unsigned offset)
  | .add rd rs1 rs2 => c.resultEffect rd (c.unsigned rs1 + c.unsigned rs2)
  | .mlt rd rs1 rs2 => c.resultEffect rd (c.unsigned rs1 * c.unsigned rs2)
  | .addi rd rs1 imm => c.resultEffect rd (c.unsigned rs1 + imm.value)
  | .slti rd rs1 imm => c.resultEffect rd (if (c.register rs1).toInt < imm.value then 1 else 0)
  | .lw rd base offset => c.loadEffect rd (c.unsigned base + offset.value)
  | .sw base offset value => c.storeEffect (c.unsigned base + offset.value) (c.register value)
  | .bne rs1 rs2 offset =>
    .ok { next := if c.register rs1 = c.register rs2 then c.following
                  else c.following + offset.value }
  | .jal rd offset => .ok { result := some (rd, c.following), next := c.following + offset.value }
  | .lui rd imm => c.resultEffect rd (imm.value * 2 ^ 12)

end Instruction

namespace Machine

/-- The contents as the machine reads them. -/
def seen (m : Machine) : Contents := ⟨m.register, m.readWord⟩

theorem register_seen (m : Machine) (r : Register) : m.seen.register r = m.register r := rfl

theorem word_seen (m : Machine) (address : Word) : m.seen.word address = m.readWord address := rfl

/-- The contents as they lie in the slots and in memory. -/
def held (m : Machine) : Contents where
  register := m.registers.stored
  word address :=
    if address.toNat % 4 ≠ 0 then .error (.misaligned address)
    else match m.memory.words[address.toNat / 4]? with
      | some value => .ok value
      | none => .error (.outOfBounds address)

theorem register_eq_stored {m : Machine} (zero : m.registers.stored .zero = 0) (r : Register) :
    m.register r = m.registers.stored r := by
  rw [register, RegisterFile.read]
  split
  · rename_i same
    rw [same, zero]
  · rfl

theorem seen_eq_held {m : Machine} (zero : m.registers.stored .zero = 0) : m.seen = m.held := by
  have registers : m.register = m.registers.stored := funext (register_eq_stored zero)
  have words : m.readWord = m.held.word := funext m.memory.read_eq
  rw [seen, registers, words]
  rfl

/-- The machine `next` is `m` with the changes of `e` and no others. -/
structure Becomes (m next : Machine) (e : Effect) : Prop where
  config : next.config = m.config
  pc : next.pc = BitVec.ofInt 32 e.next
  general : ∀ n : Fin 32, next.registers.stored (.x n) =
    match e.result with
    | some (rd, value) =>
      if rd = .x n ∧ n ≠ 0 then BitVec.ofInt 32 value else m.registers.stored (.x n)
    | none => m.registers.stored (.x n)
  words : ∀ k, next.memory.words[k]? =
    match e.store with
    | some (address, value) =>
      if address.toNat = 4 * k then some value else m.memory.words[k]?
    | none => m.memory.words[k]?

/-- An operation carried out at `m`, before control moves on, is the effect given. -/
def Performs (m : Machine) (outcome : Machine × Except Fault Unit) : Except Fault Effect → Prop
  | .ok e => ∃ next, outcome = (next, .ok ()) ∧ m.Becomes next.advance e
  | .error fault => outcome = (m, .error fault)

theorem ofInt_toNat (word : Word) : BitVec.ofInt 32 word.toNat = word := by
  rw [BitVec.ofInt_natCast, BitVec.ofNat_toNat, BitVec.setWidth_eq]

theorem ofInt_unsigned (m : Machine) (r : Register) :
    BitVec.ofInt 32 (m.seen.unsigned r) = m.register r := ofInt_toNat _

theorem ofInt_following (m : Machine) : BitVec.ofInt 32 m.seen.following = m.pc + 4 := by
  rw [Contents.following, BitVec.ofInt_add, ofInt_unsigned]
  rfl

theorem performs_nothing (m : Machine) :
    m.Performs (m, .ok ()) (.ok { next := m.seen.following }) := by
  refine ⟨m, rfl, rfl, ?_, fun _ => rfl, fun _ => rfl⟩
  rw [ofInt_following, pc_advance]

theorem performs_result (m : Machine) (n : Fin 32) {word : Word} {value : Int}
    (wraps : word = BitVec.ofInt 32 value) :
    m.Performs (m.setRegister (.x n) word, .ok ()) (m.seen.resultEffect (.x n) value) := by
  refine ⟨_, rfl, rfl, ?_, fun k => ?_, fun _ => rfl⟩
  · rw [ofInt_following, pc_advance, pc_setRegister_x]
  · rw [stored_advance, stored_setRegister, wraps]
    by_cases same : n = k
    · subst same
      simp [Register.zero]
    · simp [same]

theorem performs_jump (m : Machine) {target : Word} {next : Int}
    (lands : target + 4 = BitVec.ofInt 32 next) :
    m.Performs (m.setRegister .pc target, .ok ()) (.ok { next }) := by
  refine ⟨_, rfl, rfl, ?_, fun _ => rfl, fun _ => rfl⟩
  rw [pc_advance, pc_setRegister_pc, lands]

theorem performs_link (m : Machine) (n : Fin 32) {word target : Word} {value next : Int}
    (wraps : word = BitVec.ofInt 32 value) (lands : target + 4 = BitVec.ofInt 32 next) :
    m.Performs ((m.setRegister (.x n) word).setRegister .pc target, .ok ())
      (.ok { result := some (.x n, value), next }) := by
  obtain ⟨_, same, linked⟩ := m.performs_result n wraps
  cases same
  refine ⟨_, rfl, rfl, ?_, linked.general, linked.words⟩
  rw [pc_advance, pc_setRegister_pc, lands]

theorem performs_load (m : Machine) (n : Fin 32) {word : Word} {address : Int}
    (wraps : word = BitVec.ofInt 32 address) :
    m.Performs (m.loadWord (.x n) word) (m.seen.loadEffect (.x n) address) := by
  subst wraps
  simp only [loadWord, Contents.loadEffect, word_seen]
  cases m.readWord (BitVec.ofInt 32 address) with
  | error fault => exact rfl
  | ok word => exact m.performs_result n (ofInt_toNat word).symm

theorem performs_store (m : Machine) {word : Word} {address : Int} (value : Word)
    (wraps : word = BitVec.ofInt 32 address) :
    m.Performs (m.storeWord word value) (m.seen.storeEffect address value) := by
  subst wraps
  simp only [storeWord, Contents.storeEffect, word_seen, readWord]
  cases known : m.memory.read (BitVec.ofInt 32 address) with
  | error fault => rw [Memory.write_of_read_error known]; exact rfl
  | ok old =>
    obtain ⟨after, written, words⟩ := Memory.write_of_read_ok known value
    rw [written]
    refine ⟨_, rfl, rfl, ?_, fun _ => rfl, words⟩
    rw [ofInt_following]
    rfl

theorem add_wraps (m : Machine) (r : Register) {word : Word} {value : Int}
    (wraps : word = BitVec.ofInt 32 value) :
    m.register r + word = BitVec.ofInt 32 (m.seen.unsigned r + value) := by
  rw [BitVec.ofInt_add, ofInt_unsigned, wraps]

theorem jump_lands (m : Machine) {width : Nat} (imm : Imm width) :
    m.pc + imm.toWord + 4 = BitVec.ofInt 32 (m.seen.following + imm.value) := by
  rw [BitVec.ofInt_add, ofInt_following, ← Imm.toWord_eq]
  ac_rfl

theorem performs_branch (m : Machine) (r s : Register) {width : Nat} (imm : Imm width) :
    m.Performs
      (if m.register r = m.register s then (m, .ok ())
        else (m.setRegister .pc (m.pc + imm.toWord), .ok ()))
      (.ok { next := if m.register r = m.register s then m.seen.following
                     else m.seen.following + imm.value }) := by
  split
  · exact m.performs_nothing
  · exact m.performs_jump (m.jump_lands imm)

theorem slt_wraps (m : Machine) (r : Register) (imm : Imm 12) :
    (if (m.register r).slt imm.toWord then (1 : Word) else 0) =
      BitVec.ofInt 32 (if (m.register r).toInt < imm.value then 1 else 0) := by
  rw [BitVec.slt_eq_decide, imm.toInt_toWord (by decide)]
  split
  · rename_i less
    rw [if_pos (of_decide_eq_true less)]
    rfl
  · rename_i less
    rw [if_neg fun below => less (decide_eq_true below)]
    rfl

theorem lui_wraps (imm : Imm 20) :
    imm.toWord <<< 12 = BitVec.ofInt 32 (imm.value * 2 ^ 12) := by
  rw [BitVec.shiftLeft_eq_mul_twoPow, BitVec.ofInt_mul, Imm.toWord_eq]
  rfl

/-- The two ways of reading a word agree: the layout of its opcode gives the machine the operands
    of the instruction. -/
theorem execute_performs (m : Machine) {opcode : Opcode} {word : Word} {i : Instruction}
    (known : Instruction.ofOperands opcode word = .ok i) (running : opcode ≠ .hlt) :
    m.Performs (m.execute opcode word) (i.effect m.seen) := by
  cases opcode with
  | hlt => exact absurd rfl running
  | put =>
    cases known
    exact m.performs_store _ (m.add_wraps _ (m.ofInt_unsigned _).symm)
  | get =>
    cases known
    exact m.performs_load _ (m.add_wraps _ (m.ofInt_unsigned _).symm)
  | op =>
    -- Decoding and executing look up the same funct, so one case split has to serve both.
    revert known
    simp only [Instruction.ofOperands, execute, op]
    rcases OpFunct.ofCode? (RFields.ofWord word).funct.code with _ | ⟨⟨⟩⟩ <;> intro known
    · cases known
    · cases known
      exact m.performs_result _ (m.add_wraps _ (m.ofInt_unsigned _).symm)
  | mlt =>
    cases known
    refine m.performs_result _ ?_
    rw [BitVec.ofInt_mul, ofInt_unsigned, ofInt_unsigned]
  | imm =>
    revert known
    simp only [Instruction.ofOperands, execute, imm]
    rcases ImmFunct.ofCode? (IFields.ofWord word).funct.code with _ | _ | _ <;> intro known
    · cases known
    · cases known
      exact m.performs_result _ (m.add_wraps _ (Imm.toWord_eq _))
    · cases known
      exact m.performs_result _ (m.slt_wraps _ _)
  | branch =>
    revert known
    simp only [Instruction.ofOperands, execute, branch]
    rcases BranchFunct.ofCode? (SBFields.ofWord word).funct.code with _ | ⟨⟨⟩⟩ <;> intro known
    · cases known
    · cases known
      exact m.performs_branch _ _ _
  | jal =>
    cases known
    exact m.performs_link _ m.ofInt_following.symm (m.jump_lands _)
  | lui =>
    cases known
    exact m.performs_result _ (lui_wraps _)
  | lw =>
    cases known
    exact m.performs_load _ (m.add_wraps _ (Imm.toWord_eq _))
  | sw =>
    cases known
    exact m.performs_store _ (m.add_wraps _ (Imm.toWord_eq _))

theorem execute_unbound (m : Machine) {opcode : Opcode} {word : Word} {error : DecodeError}
    (missing : Instruction.ofOperands opcode word = .error error) :
    ∃ funct, error = .unboundFunct opcode funct ∧
      m.execute opcode word = m.missFunct opcode ⟨funct⟩ := by
  cases opcode with
  | op =>
    revert missing
    simp only [Instruction.ofOperands, execute, op]
    rcases OpFunct.ofCode? (RFields.ofWord word).funct.code with _ | ⟨⟨⟩⟩ <;> intro missing
    · cases missing
      exact ⟨_, rfl, rfl⟩
    · cases missing
  | imm =>
    revert missing
    simp only [Instruction.ofOperands, execute, imm]
    rcases ImmFunct.ofCode? (IFields.ofWord word).funct.code with _ | _ | _ <;> intro missing
    · cases missing
      exact ⟨_, rfl, rfl⟩
    · cases missing
    · cases missing
  | branch =>
    revert missing
    simp only [Instruction.ofOperands, execute, branch]
    rcases BranchFunct.ofCode? (SBFields.ofWord word).funct.code with _ | ⟨⟨⟩⟩ <;> intro missing
    · cases missing
      exact ⟨_, rfl, rfl⟩
    · cases missing
  | _ => cases missing

end Machine

end WordMachine
