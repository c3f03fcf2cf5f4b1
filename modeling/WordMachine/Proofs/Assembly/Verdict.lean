import Mathlib.Data.List.Forall2
import WordMachine.Assembly.Program
import WordMachine.Proofs.Assembly.OperandVerdict

/-!
The verdict on a name with operands, told by rules that leave no two ways: the instruction, or the
one thing among all that may be wrong which is reported.
-/

namespace WordMachine

/-- A name in small letters, the operands that the name takes, in order, and the instruction that it
    makes of them. -/
inductive Mnemonic.Row : String → Mnemonic → (kinds : List OperandKind) →
    (Operands kinds → Instruction) → Prop where
  | hlt : Row "hlt" .hlt [] fun _ => .halt
  | halt : Row "halt" .hlt [] fun _ => .halt
  | put : Row "put" .put [.register, .register, .register]
      fun (value, base, offset, _) => .put value base offset
  | get : Row "get" .get [.register, .register, .register]
      fun (value, base, offset, _) => .get value base offset
  | add : Row "add" .add [.register, .register, .register]
      fun (rd, rs1, rs2, _) => .add rd rs1 rs2
  | mlt : Row "mlt" .mlt [.register, .register, .register]
      fun (rd, rs1, rs2, _) => .mlt rd rs1 rs2
  | addi : Row "addi" .addi [.register, .register, .imm12]
      fun (rd, rs1, imm, _) => .addi rd rs1 imm
  | slti : Row "slti" .slti [.register, .register, .imm12]
      fun (rd, rs1, imm, _) => .slti rd rs1 imm
  | lw : Row "lw" .lw [.register, .register, .imm12]
      fun (rd, base, offset, _) => .lw rd base offset
  | sw : Row "sw" .sw [.register, .imm12, .register]
      fun (base, offset, value, _) => .sw base offset value
  | bne : Row "bne" .bne [.register, .register, .imm12]
      fun (rs1, rs2, offset, _) => .bne rs1 rs2 offset
  | jal : Row "jal" .jal [.register, .imm20] fun (rd, offset, _) => .jal rd offset
  | lui : Row "lui" .lui [.register, .imm20] fun (rd, imm, _) => .lui rd imm
  | set : Row "set" .set [.register, .imm12] fun (rd, imm, _) => .addi rd .zero imm
  | nop : Row "nop" .nop [] fun _ => .addi .zero .zero ⟨0⟩

namespace Mnemonic

theorem Row.lookup {text : String} {mnemonic : Mnemonic} {kinds : List OperandKind}
    {make : Operands kinds → Instruction} (row : Row text mnemonic kinds make) :
    spellings.lookup text.toList = some mnemonic := by
  cases row <;> rfl

theorem row_text (mnemonic : Mnemonic) :
    Row mnemonic.text mnemonic mnemonic.operandKinds mnemonic.instruction := by
  cases mnemonic <;> constructor

theorem row_of_lookup {letters : List Char} {mnemonic : Mnemonic}
    (found : spellings.lookup letters = some mnemonic) :
    Row (String.ofList letters) mnemonic mnemonic.operandKinds mnemonic.instruction := by
  obtain ⟨before, after, table, _⟩ := List.lookup_eq_some_iff.mp found
  have listed : (letters, mnemonic) ∈ spellings := by
    rw [table]
    exact List.mem_append_right _ (List.mem_cons_self ..)
  rcases List.mem_cons.mp listed with besides | member
  · cases besides
    exact .halt
  · obtain ⟨_, _, same⟩ := List.mem_map.mp member
    cases same
    rw [String.ofList_toList]
    exact row_text mnemonic

theorem Row.settled {motive : (kinds : List OperandKind) → (Operands kinds → Instruction) → Prop}
    {text : String} {mnemonic : Mnemonic} {kinds : List OperandKind}
    {make : Operands kinds → Instruction} (row : Row text mnemonic kinds make)
    (known : motive mnemonic.operandKinds mnemonic.instruction) : motive kinds make := by
  cases row <;> exact known

theorem ofToken?_of_row {name : String} {mnemonic : Mnemonic} {kinds : List OperandKind}
    {make : Operands kinds → Instruction} (row : Row name.toLower mnemonic kinds make) :
    ofToken? name = some mnemonic := by
  rw [ofToken?, ← String.toList_map]
  exact row.lookup

theorem row_of_ofToken? {name : String} {mnemonic : Mnemonic}
    (known : ofToken? name = some mnemonic) :
    Row name.toLower mnemonic mnemonic.operandKinds mnemonic.instruction := by
  rw [ofToken?, ← String.toList_map] at known
  have row := row_of_lookup known
  rwa [String.ofList_toList] at row

end Mnemonic

namespace OperandKind

def AllFound : (kinds : List OperandKind) → List String → Operands kinds → Prop
  | [], [], _ => True
  | kind :: kinds, token :: tokens, (value, values) =>
    kind.Found token (.ok value) ∧ AllFound kinds tokens values
  | _, _, _ => False

def LeftmostBad (kinds : List OperandKind) (tokens : List String) (cause : AssemblyCause) : Prop :=
  ∃ before kind after good token rest,
    kinds = before ++ kind :: after ∧ tokens = good ++ token :: rest ∧
    (∃ values, AllFound before good values) ∧ kind.Found token (.error cause)

theorem leftmostBad_cons_iff {kind : OperandKind} {kinds : List OperandKind} {token : String}
    {tokens : List String} {cause : AssemblyCause} :
    LeftmostBad (kind :: kinds) (token :: tokens) cause ↔
      kind.Found token (.error cause) ∨
        (∃ value, kind.Found token (.ok value)) ∧ LeftmostBad kinds tokens cause := by
  constructor
  · rintro ⟨before, bad, after, good, stray, rest, kindsSplit, tokensSplit, ⟨values, found⟩, why⟩
    cases before with
    | nil =>
      cases good with
      | nil =>
        cases kindsSplit
        cases tokensSplit
        exact .inl why
      | cons _ _ => exact found.elim
    | cons first before =>
      cases good with
      | nil => exact found.elim
      | cons _ good =>
        cases kindsSplit
        cases tokensSplit
        obtain ⟨value, values⟩ := values
        exact .inr ⟨⟨value, found.1⟩, before, bad, after, good, stray, rest, rfl, rfl,
          ⟨values, found.2⟩, why⟩
  · rintro (why | ⟨⟨value, first⟩, before, bad, after, good, stray, rest, rfl, rfl,
      ⟨values, found⟩, why⟩)
    · exact ⟨[], kind, kinds, [], token, tokens, rfl, rfl, ⟨(), trivial⟩, why⟩
    · exact ⟨kind :: before, bad, after, token :: good, stray, rest, rfl, rfl,
        ⟨(value, values), first, found⟩, why⟩

theorem length_of_allFound {kinds : List OperandKind} {tokens : List String}
    {values : Operands kinds} (found : AllFound kinds tokens values) :
    tokens.length = kinds.length := by
  induction kinds generalizing tokens with
  | nil =>
    cases tokens with
    | nil => rfl
    | cons _ _ => exact found.elim
  | cons kind kinds ih =>
    cases tokens with
    | nil => exact found.elim
    | cons token tokens => exact congrArg Nat.succ (ih found.2)

theorem readAll_eq_ok_iff {kinds : List OperandKind} {tokens : List String}
    {same : tokens.length = kinds.length} {values : Operands kinds} :
    readAll kinds tokens same = .ok values ↔ AllFound kinds tokens values := by
  induction kinds generalizing tokens with
  | nil =>
    cases tokens with
    | nil => exact iff_of_true rfl trivial
    | cons token tokens => cases same
  | cons kind kinds ih =>
    cases tokens with
    | nil => cases same
    | cons token tokens =>
      obtain ⟨value, values⟩ := values
      rw [readAll, AllFound, ← read_eq_iff, ← @ih tokens (Nat.succ.inj same)]
      cases kind.read token with
      | error cause => simp
      | ok first => cases readAll kinds tokens _ <;> simp

theorem readAll_eq_error_iff {kinds : List OperandKind} {tokens : List String}
    {same : tokens.length = kinds.length} {cause : AssemblyCause} :
    readAll kinds tokens same = .error cause ↔ LeftmostBad kinds tokens cause := by
  induction kinds generalizing tokens with
  | nil =>
    apply iff_of_false
    · simp [readAll]
    · rintro ⟨before, _, _, _, _, _, split, _⟩
      cases before <;> cases split
  | cons kind kinds ih =>
    cases tokens with
    | nil => cases same
    | cons token tokens =>
      rw [readAll, leftmostBad_cons_iff, ← @ih tokens (Nat.succ.inj same)]
      simp only [← read_eq_iff]
      cases kind.read token with
      | error cause => simp
      | ok first => cases readAll kinds tokens _ <;> simp

end OperandKind

inductive Verdict (name : String) (tokens : List String) : Except AssemblyCause Instruction → Prop
    where
  | unknown (absent : ∀ mnemonic kinds make, ¬ Mnemonic.Row name.toLower mnemonic kinds make) :
      Verdict name tokens (.error (.unknownOperation name))
  | miscounted {mnemonic : Mnemonic} {kinds : List OperandKind}
      {make : Operands kinds → Instruction} (row : Mnemonic.Row name.toLower mnemonic kinds make)
      (count : tokens.length ≠ kinds.length) :
      Verdict name tokens (.error (.wrongOperandCount mnemonic kinds.length tokens.length))
  | badOperand {mnemonic : Mnemonic} {kinds : List OperandKind}
      {make : Operands kinds → Instruction} {cause : AssemblyCause}
      (row : Mnemonic.Row name.toLower mnemonic kinds make)
      (count : tokens.length = kinds.length) (bad : OperandKind.LeftmostBad kinds tokens cause) :
      Verdict name tokens (.error cause)
  | made {mnemonic : Mnemonic} {kinds : List OperandKind} {make : Operands kinds → Instruction}
      {values : Operands kinds} (row : Mnemonic.Row name.toLower mnemonic kinds make)
      (found : OperandKind.AllFound kinds tokens values) : Verdict name tokens (.ok (make values))

namespace Assembly
open OperandKind Mnemonic

theorem verdict_instruction (name : String) (tokens : List String) :
    Verdict name tokens (instruction name tokens) := by
  rw [instruction]
  split
  · rename_i absent
    apply Verdict.unknown
    intro mnemonic kinds make row
    rw [ofToken?_of_row row] at absent
    cases absent
  · rename_i mnemonic known
    have row := row_of_ofToken? known
    split
    · rename_i same
      split
      · rename_i bad
        exact .badOperand row same (readAll_eq_error_iff.mp bad)
      · rename_i found
        exact .made row (readAll_eq_ok_iff.mp found)
    · rename_i count
      exact .miscounted row count

theorem instruction_of_verdict {name : String} {tokens : List String}
    {result : Except AssemblyCause Instruction} (verdict : Verdict name tokens result) :
    instruction name tokens = result := by
  cases verdict with
  | unknown absent =>
    rw [instruction]
    split
    · rfl
    · rename_i known
      exact absurd (row_of_ofToken? known) (absent _ _ _)
  | miscounted row count =>
    -- The rule speaks of the operands in its row, the assembler of those of the mnemonic.
    revert count
    apply row.settled
    intro count
    simp only [instruction, ofToken?_of_row row, count, ↓reduceDIte]
  | badOperand row count bad =>
    revert count bad
    apply row.settled
    intro count bad
    simp only [instruction, ofToken?_of_row row, count, ↓reduceDIte, readAll_eq_error_iff.mpr bad]
  | @made mnemonic kinds make values row found =>
    revert values
    apply row.settled
    intro values found
    have count := length_of_allFound found
    simp only [instruction, ofToken?_of_row row, count, ↓reduceDIte, readAll_eq_ok_iff.mpr found]

/-- A name with operand tokens comes to what the rules say and to nothing else. It does not matter
    that a machine word, in which the number of an operand is put together, may have no room for
    it. -/
theorem instruction_eq_iff_verdict :
    (∀ name tokens result, instruction name tokens = result ↔ Verdict name tokens result) ∧
      ∀ kind token, Bounded.read kind token = kind.read token := by
  refine ⟨fun name tokens result => ⟨?_, instruction_of_verdict⟩, Bounded.read_eq⟩
  rintro rfl
  exact verdict_instruction name tokens

-- The long s is no letter of `set`, and the first of two bad operands counts, whatever its length.
example : instruction "ſet" ["x1", "2"] = .error (.unknownOperation "ſet") ∧
    instruction "HaLt" ["x99"] = .error (.wrongOperandCount .hlt 0 1) ∧
    instruction "ADDI" ["x00000000000000000000031", "x99999999999999999999", "2048"] =
      .error (.registerOutOfRange "x99999999999999999999") := by
  decide

end Assembly

end WordMachine
