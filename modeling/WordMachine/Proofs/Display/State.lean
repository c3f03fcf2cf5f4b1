import WordMachine.Proofs.Display.Row
import WordMachine.Proofs.Machine.Code
import WordMachine.Proofs.Machine.Reachable
import WordMachine.Proofs.Memory.Load

/-!
What the tables of a machine show. Every register and every word that is left out is known to be
zero, so the rows of both tables leave nothing about registers and memory open. Memory of more than
`2 ^ 30` words would show several words at one address.
-/

namespace WordMachine

theorem eq_of_shown_alike (always : Prop) {a b : Word}
    (alike : ∀ v, (v = a ∧ (always ∨ v ≠ 0)) ↔ (v = b ∧ (always ∨ v ≠ 0))) : a = b := by
  by_cases zero : a = 0
  · by_cases other : b = 0
    · rw [zero, other]
    · exact ((alike b).mpr ⟨rfl, Or.inr other⟩).1.symm
  · exact ((alike a).mp ⟨rfl, Or.inr zero⟩).1

namespace Machine
open Instruction (decode)

section RegisterTable
variable (m : Machine)

theorem mem_registerRows (row : RegisterRow) :
    row ∈ m.registerRows ↔
      row.value = m.registers.stored row.register ∧ (row.register = .pc ∨ row.value ≠ 0) := by
  simp only [registerRows, List.mem_filter, List.mem_map, Bool.or_eq_true, decide_eq_true_eq]
  constructor
  · rintro ⟨⟨r, _, rfl⟩, shown⟩
    exact ⟨rfl, shown⟩
  · rintro ⟨value, shown⟩
    exact ⟨⟨row.register, Register.mem_all _, by rw [← value]⟩, shown⟩

theorem pairwise_registerRows :
    m.registerRows.Pairwise fun a b => a.register.slot < b.register.slot := by
  have slots : Register.all.Pairwise fun r s => r.slot < s.slot := by decide
  exact List.Pairwise.filter _ (List.pairwise_map.mpr slots)

theorem registers_eq_of_rows {n : Machine} (same : n.registerTable.rows = m.registerTable.rows) :
    n.registers = m.registers := by
  have rows : n.registerRows = m.registerRows :=
    List.map_injective_iff.mpr (fun _ _ => RegisterRow.cells_injective) same
  refine RegisterFile.eq_of_all_stored fun r => eq_of_shown_alike (r = .pc) fun v => ?_
  exact (n.mem_registerRows ⟨r, v⟩).symm.trans (rows ▸ m.mem_registerRows ⟨r, v⟩)

end RegisterTable

section MemoryTable
variable {m : Machine} (small : m.memory.size ≤ 2 ^ 30)
include small

theorem mem_memoryRows (row : MemoryRow) :
    row ∈ m.memoryRows ↔
      m.readWord row.address = .ok row.word ∧ row.current = decide (row.address = m.pc) ∧
        (row.address = m.pc ∨ row.word ≠ 0) := by
  simp only [memoryRows, List.mem_filter, List.mem_map, Prod.exists,
    List.mk_mem_zipIdx_iff_getElem?, Array.getElem?_toList, Bool.or_eq_true, decide_eq_true_eq]
  rw [readWord, Memory.read_eq_ok_iff_wordAddress small]
  constructor
  · rintro ⟨⟨word, k, held, rfl⟩, shown⟩
    exact ⟨⟨k, rfl, held⟩, rfl, by simpa using shown⟩
  · rintro ⟨⟨k, address, held⟩, current, shown⟩
    refine ⟨⟨row.word, k, held, ?_⟩, by simpa [current] using shown⟩
    rw [← address, ← current]

theorem pairwise_memoryRows :
    m.memoryRows.Pairwise fun a b => a.address.toNat < b.address.toNat := by
  have places : m.memory.words.toList.zipIdx.Pairwise fun a b => a.2 < b.2 := by
    rw [← List.pairwise_map (f := Prod.snd), List.zipIdx_map_snd]
    exact List.pairwise_lt_range'
  refine List.Pairwise.filter _ (List.pairwise_map.mpr (places.imp_of_mem ?_))
  intro a b _ member before
  have held := List.mem_zipIdx_iff_getElem?.mp member
  rw [Array.getElem?_toList] at held
  obtain ⟨inside, _⟩ := Array.getElem?_eq_some_iff.mp held
  rw [Memory.size] at small
  rw [Memory.toNat_wordAddress, Memory.toNat_wordAddress]
  omega

theorem current_iff {row : MemoryRow} (member : row ∈ m.memoryRows) :
    row.current = true ↔ row.address = m.pc := by
  rw [((mem_memoryRows small row).mp member).2.1, decide_eq_true_eq]

theorem eq_of_address_eq {a b : MemoryRow} (first : a ∈ m.memoryRows) (second : b ∈ m.memoryRows)
    (same : a.address = b.address) : a = b := by
  obtain ⟨readable, current, _⟩ := (mem_memoryRows small a).mp first
  obtain ⟨again, alike, _⟩ := (mem_memoryRows small b).mp second
  rw [same] at readable current
  exact MemoryRow.ext same (Except.ok.inj (readable.symm.trans again)) (current.trans alike.symm)

theorem nodup_memoryRows : m.memoryRows.Nodup :=
  (pairwise_memoryRows small).imp fun before same => absurd (same ▸ before) (Nat.lt_irrefl _)

theorem memory_eq_of_rows {n : Machine} (size : n.memory.size = m.memory.size) (pc : n.pc = m.pc)
    (same : n.memoryTable.rows = m.memoryTable.rows) : n.memory = m.memory := by
  have rows : n.memoryRows = m.memoryRows :=
    List.map_injective_iff.mpr (fun _ _ => MemoryRow.cells_injective) same
  refine congrArg Memory.mk (Array.ext size fun k inside other => ?_)
  let address : Word := BitVec.ofNat 32 (k * wordBytes)
  -- A row for this address, with any value, is in both tables or in neither.
  refine eq_of_shown_alike (address = m.pc) fun v => ?_
  have here := mem_memoryRows small ⟨address, v, decide (address = m.pc)⟩
  have there := mem_memoryRows (size ▸ small) ⟨address, v, decide (address = m.pc)⟩
  rw [rows, here, readWord, readWord, Memory.read_wordAddress_eq_ok_iff small other,
    Memory.read_wordAddress_eq_ok_iff (size ▸ small) inside, pc] at there
  simpa using there.symm

theorem countP_isMarked :
    m.memoryTable.rows.countP isMarked =
      if m.pc.toNat % 4 = 0 ∧ m.pc.toNat < 4 * m.memory.size then 1 else 0 := by
  have marks : m.memoryTable.rows.countP isMarked = m.memoryRows.countP MemoryRow.current := by
    rw [memoryTable, List.countP_map]
    exact List.countP_congr fun row _ => by rw [Function.comp_apply, MemoryRow.isMarked_cells]
  rw [marks]
  split
  · -- The marked rows are the copies of one row, of which there is no second.
    rename_i inside
    obtain ⟨word, readable⟩ := Memory.exists_read_iff.mpr inside
    have member : ⟨m.pc, word, true⟩ ∈ m.memoryRows :=
      (mem_memoryRows small _).mpr ⟨readable, (decide_eq_true rfl).symm, Or.inl rfl⟩
    have only : ∀ row ∈ m.memoryRows,
        row.current = true ↔ (row == (⟨m.pc, word, true⟩ : MemoryRow)) = true := by
      intro row known
      rw [current_iff small known, beq_iff_eq]
      constructor
      · intro here
        exact eq_of_address_eq small known member here
      · rintro rfl
        rfl
    rw [List.countP_congr only, ← List.count, (nodup_memoryRows small).count, if_pos member]
  · rename_i outside
    refine List.countP_eq_zero.mpr fun row known marked => outside (Memory.exists_read_iff.mp ?_)
    have here := (current_iff small known).mp marked
    exact ⟨row.word, here ▸ ((mem_memoryRows small row).mp known).1⟩

end MemoryTable

def registerCells (m : Machine) (r : Register) : List Cell :=
  [.right (r.text ++ " ="),
    .left (hexadecimal 8 (m.register r) ++ " (" ++ decimal (m.register r).toInt ++ ")")]

/-- What the cells of an address and its word say: the address, marked where the program counter
    points to it, the word, and its instruction, or a dash where it stands for none. -/
def ShowsWord (m : Machine) : Word × Word → List Cell → Prop
  | (address, word), cells =>
    ∃ disassembly : String,
      cells =
        [.right ((if address = m.pc then "* --> " else "") ++ hexadecimal 4 address ++ " ="),
          .left (hexadecimal 8 word), .left disassembly] ∧
      (∀ i, decode word = .ok i → disassembly = i.text) ∧
      (disassembly = "-" ↔ ∃ error, decode word = .error error)

/-- The register table has the rows of the program counter and of the registers that are not zero,
    in the order of their slots. -/
structure ShowsRegisters (m : Machine) (shown : List Register) : Prop where
  ordered : shown.Pairwise fun r s => r.slot < s.slot
  exactly : ∀ r, r ∈ shown ↔ r = .pc ∨ m.register r ≠ 0
  rows : m.registerTable.rows = shown.map m.registerCells

/-- The memory table has the rows of the word at the program counter and of the words that are not
    zero, each with its address, in the order of these. -/
structure ShowsMemory (m : Machine) (shown : List (Word × Word)) : Prop where
  ordered : shown.Pairwise fun a b => a.1.toNat < b.1.toNat
  exactly : ∀ address word, (address, word) ∈ shown ↔
    m.readWord address = .ok word ∧ (address = m.pc ∨ word ≠ 0)
  rows : List.Forall₂ m.ShowsWord shown m.memoryTable.rows

theorem WellFormed.showsRegisters {config : Config} {m : Machine}
    (wellFormed : WellFormed config m) :
    m.ShowsRegisters (m.registerRows.map RegisterRow.register) where
  ordered := List.pairwise_map.mpr m.pairwise_registerRows
  exactly := by
    intro r
    rw [List.mem_map, register_eq_stored wellFormed.zero]
    constructor
    · rintro ⟨row, member, rfl⟩
      obtain ⟨value, shown⟩ := (m.mem_registerRows row).mp member
      rwa [value] at shown
    · intro shown
      exact ⟨⟨r, m.registers.stored r⟩, (m.mem_registerRows _).mpr ⟨rfl, shown⟩, rfl⟩
  rows := by
    rw [registerTable, List.map_map]
    refine List.map_congr_left fun row member => ?_
    rw [RegisterRow.cells_eq, ((m.mem_registerRows row).mp member).1,
      ← register_eq_stored wellFormed.zero]
    rfl

theorem showsMemory {m : Machine} (small : m.memory.size ≤ 2 ^ 30) :
    m.ShowsMemory (m.memoryRows.map fun row => (row.address, row.word)) where
  ordered := List.pairwise_map.mpr (pairwise_memoryRows small)
  exactly := by
    intro address word
    rw [List.mem_map]
    constructor
    · rintro ⟨row, member, here⟩
      cases here
      obtain ⟨readable, _, shown⟩ := (mem_memoryRows small row).mp member
      exact ⟨readable, shown⟩
    · rintro ⟨readable, shown⟩
      exact ⟨⟨address, word, decide (address = m.pc)⟩,
        (mem_memoryRows small _).mpr ⟨readable, rfl, shown⟩, rfl⟩
  rows := by
    rw [memoryTable, List.forall₂_map_left_iff, List.forall₂_map_right_iff, List.forall₂_same]
    intro row member
    refine ⟨row.disassembly, ?_, fun _ => MemoryRow.disassembly_of_decode,
      MemoryRow.disassembly_eq_dash_iff⟩
    rw [MemoryRow.cells_eq]
    simp only [current_iff small member]

/-- The tables show all registers and all of memory, nothing twice and everything in its order: what
    has no row is a zero. The mark stands at the program counter, or nowhere if no word starts
    there. Machines whose tables have the same rows are in the same state. -/
theorem tables_show_whole_state :
    (∀ config commands, config.memoryWords ≤ 2 ^ 30 →
      let m := (fresh config).performAll commands
      (∃ shown, m.ShowsRegisters shown) ∧ (∃ shown, m.ShowsMemory shown) ∧
      m.memoryTable.rows.countP isMarked =
        if m.pc.toNat % 4 = 0 ∧ m.pc.toNat < 4 * config.memoryWords then 1 else 0) ∧
    ∀ config other commands more, config.memoryWords ≤ 2 ^ 30 →
      other.memoryWords = config.memoryWords →
      let m := (fresh config).performAll commands
      let n := (fresh other).performAll more
      n.registerTable.rows = m.registerTable.rows → n.memoryTable.rows = m.memoryTable.rows →
      n.registers = m.registers ∧ n.pc = m.pc ∧ n.memory = m.memory := by
  constructor
  · intro config commands small m
    have wellFormed : WellFormed config m := (WellFormed.fresh config).performAll commands
    rw [← wellFormed.size] at small ⊢
    exact ⟨⟨_, wellFormed.showsRegisters⟩, ⟨_, showsMemory small⟩, countP_isMarked small⟩
  · intro config other commands more small sizes m n registerRows memoryRows
    have wellFormed : WellFormed config m := (WellFormed.fresh config).performAll commands
    have alike : WellFormed other n := (WellFormed.fresh other).performAll more
    have size : n.memory.size = m.memory.size := by rw [alike.size, wellFormed.size, sizes]
    have registers : n.registers = m.registers := m.registers_eq_of_rows registerRows
    have pc : n.pc = m.pc := pc_congr registers
    rw [← wellFormed.size] at small
    exact ⟨registers, pc, memory_eq_of_rows small size pc memoryRows⟩

theorem tables_show_whole_state_unknown_word_and_two_orders :
    let m := (fresh { memoryWords := 4 }).performAll [.load 0 [0x0A107FF8, 0x16000000], .step]
    let n := (fresh { memoryWords := 4 }).performAll
      [.load 4 [0x16000000], .load 0 [0x0A107FF8], .run 1]
    m.registerTable.rows =
      [[.right "x1 =", .left "0xffffffff (-1)"], [.right "pc =", .left "0x00000004 (4)"]] ∧
    m.memoryTable.rows =
      [[.right "0x0000 =", .left "0x0a107ff8", .left "addi x1 x0 -1"],
        [.right "* --> 0x0004 =", .left "0x16000000", .left "-"]] ∧
    m.memoryTable.rows.countP isMarked = 1 ∧
    n.registers = m.registers ∧ n.pc = m.pc ∧ n.memory = m.memory := by
  have shown := tables_show_whole_state.1 { memoryWords := 4 }
    [.load 0 [0x0A107FF8, 0x16000000], .step] (by decide)
  have same := tables_show_whole_state.2 { memoryWords := 4 } { memoryWords := 4 }
    [.load 0 [0x0A107FF8, 0x16000000], .step]
    [.load 4 [0x16000000], .load 0 [0x0A107FF8], .run 1] (by decide) rfl (by decide) (by decide)
  exact ⟨by decide, by decide, shown.2.2, same⟩

end Machine

end WordMachine
