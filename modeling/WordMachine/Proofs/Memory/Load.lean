import Mathlib.Algebra.Group.Nat.Defs
import WordMachine.Proofs.Memory

/-!
A load, and the single writes that it stands for. Where all words fit, a load leaves what the
writes of its words leave, one after another. Where one does not, a load changes nothing, and its
fault is that of the first write that is refused.
-/

namespace WordMachine

namespace Memory

theorem toNat_wordAddress (k : Nat) :
    (BitVec.ofNat 32 (k * wordBytes)).toNat = 4 * (k % 2 ^ 30) := by
  rw [BitVec.toNat_ofNat, wordBytes]
  omega

/-- Places that lie `2 ^ 30` words apart have the same address. -/
theorem read_wordAddress (m : Memory) (k : Nat) :
    m.read (BitVec.ofNat 32 (k * wordBytes)) =
      match m.words[k % 2 ^ 30]? with
      | some value => .ok value
      | none => .error (.outOfBounds (BitVec.ofNat 32 (k * wordBytes))) := by
  have place := toNat_wordAddress k
  have aligned : ¬ (BitVec.ofNat 32 (k * wordBytes)).toNat % 4 ≠ 0 := by omega
  have quotient : (BitVec.ofNat 32 (k * wordBytes)).toNat / 4 = k % 2 ^ 30 := by omega
  have found := m.read_eq (BitVec.ofNat 32 (k * wordBytes))
  rw [if_neg aligned, quotient] at found
  exact found

theorem write_wordAddress (m : Memory) {k : Nat} (low : k < 2 ^ 30) (value : Word) :
    m.write (BitVec.ofNat 32 (k * wordBytes)) value =
      if k < m.size then (⟨m.words.setIfInBounds k value⟩, .ok ())
      else (m, .error (.outOfBounds (BitVec.ofNat 32 (k * wordBytes)))) := by
  have place := toNat_wordAddress k
  rw [Nat.mod_eq_of_lt low] at place
  have aligned : ¬ (BitVec.ofNat 32 (k * wordBytes)).toNat % 4 ≠ 0 := by omega
  have quotient : (BitVec.ofNat 32 (k * wordBytes)).toNat / 4 = k := by omega
  rw [write_eq, if_neg aligned, quotient, size]

theorem wordAddress_of_aligned {address : Word} (aligned : address.toNat % 4 = 0) :
    address = BitVec.ofNat 32 (address.toNat / 4 * wordBytes) := by
  apply BitVec.eq_of_toNat_eq
  have bound := address.isLt
  rw [toNat_wordAddress]
  omega

theorem read_eq_ok_iff_wordAddress {m : Memory} (small : m.size ≤ 2 ^ 30) {address value : Word} :
    m.read address = .ok value ↔
      ∃ k : Nat, address = BitVec.ofNat 32 (k * wordBytes) ∧ m.words[k]? = some value := by
  rw [read_eq_ok_iff]
  constructor
  · rintro ⟨k, place, held⟩
    have aligned : address.toNat % 4 = 0 := by omega
    refine ⟨k, ?_, held⟩
    rw [wordAddress_of_aligned aligned, place, Nat.mul_div_cancel_left k (by decide)]
  · rintro ⟨k, rfl, held⟩
    obtain ⟨inside, _⟩ := Array.getElem?_eq_some_iff.mp held
    refine ⟨k, ?_, held⟩
    rw [toNat_wordAddress, Nat.mod_eq_of_lt (Nat.lt_of_lt_of_le inside small)]

theorem read_wordAddress_eq_ok_iff {m : Memory} (small : m.size ≤ 2 ^ 30) {k : Nat}
    (inside : k < m.words.size) {value : Word} :
    m.read (BitVec.ofNat 32 (k * wordBytes)) = .ok value ↔ value = m.words[k] := by
  rw [read_wordAddress, Nat.mod_eq_of_lt (Nat.lt_of_lt_of_le inside small),
    Array.getElem?_eq_getElem inside]
  exact ⟨fun same => (Except.ok.inj same).symm, fun same => congrArg Except.ok same.symm⟩

theorem wordAddress_add (k i : Nat) :
    BitVec.ofNat 32 (k * wordBytes) + BitVec.ofNat 32 (i * wordBytes) =
      BitVec.ofNat 32 ((k + i) * wordBytes) := by
  rw [← BitVec.ofNat_add, Nat.add_mul]

theorem fault_of_load_error {m : Memory} {address : Word} {data : List Word} {fault : Fault}
    (refused : (m.load address data).2 = .error fault) :
    (fault = .misaligned address ∧ address.toNat % 4 ≠ 0) ∨
      fault =
        .outOfBounds (BitVec.ofNat 32 (max (address.toNat / 4) m.words.size * wordBytes)) := by
  simp only [load] at refused
  split at refused
  · rename_i misaligned
    cases refused
    exact Or.inl ⟨rfl, misaligned⟩
  · split at refused
    · cases refused
    · cases refused
      exact Or.inr rfl

theorem load_of_fits {m : Memory} {address : Word} {data : List Word}
    (aligned : address.toNat % 4 = 0) (fits : address.toNat / 4 + data.length ≤ m.size) :
    m.load address data = (⟨overwrite m.words (address.toNat / 4) data⟩, .ok ()) := by
  simp only [load, wordBytes, aligned, ne_eq, not_true_eq_false, if_false]
  exact if_pos fits

theorem load_of_overrun {m : Memory} {address : Word} {data : List Word}
    (aligned : address.toNat % 4 = 0) (overrun : m.size < address.toNat / 4 + data.length) :
    m.load address data =
      (m, .error (.outOfBounds
        (BitVec.ofNat 32 (max (address.toNat / 4) m.size * wordBytes)))) := by
  simp only [load, wordBytes, aligned, ne_eq, not_true_eq_false, if_false]
  exact if_neg (Nat.not_le.mpr overrun)

theorem read_firstOutside_iff (m : Memory) (address : Word) :
    let outside := BitVec.ofNat 32 (max (address.toNat / 4) m.words.size * wordBytes)
    m.read outside = .error (.outOfBounds outside) ↔ m.size < 2 ^ 30 := by
  intro outside
  have start : address.toNat / 4 < 2 ^ 30 := by
    have bound := address.isLt
    omega
  rw [read_wordAddress, size]
  -- Below `2 ^ 30` the place is its own remainder; from there on the remainder is a place inside.
  cases held : m.words[max (address.toNat / 4) m.words.size % 2 ^ 30]? with
  | some value =>
    obtain ⟨inside, _⟩ := Array.getElem?_eq_some_iff.mp held
    simp only [reduceCtorEq, false_iff]
    omega
  | none =>
    have above := Array.getElem?_eq_none_iff.mp held
    constructor
    · intro _
      omega
    · intro _
      rfl

theorem getElem?_overwrite (words : Array Word) (start : Nat) (data : List Word) (k : Nat) :
    (overwrite words start data)[k]? =
      if start ≤ k ∧ k < start + data.length ∧ k < words.size then data[k - start]?
      else words[k]? := by
  induction data generalizing words start with
  | nil => simp [overwrite, show ¬ (start ≤ k ∧ k < start ∧ k < words.size) by omega]
  | cons value data ih =>
    rw [overwrite, ih, Array.size_setIfInBounds, Array.getElem?_setIfInBounds, List.length_cons]
    by_cases first : start = k
    · subst first
      by_cases inside : start < words.size
      · simp [inside, show ¬ start + 1 ≤ start by omega]
      · simp [inside, show ¬ start + 1 ≤ start by omega]
    · by_cases later : start + 1 ≤ k
      · have next : k - start = k - (start + 1) + 1 := by omega
        have same : (start + 1 ≤ k ∧ k < start + 1 + data.length ∧ k < words.size) ↔
            start ≤ k ∧ k < start + (data.length + 1) ∧ k < words.size := by omega
        simp only [first, if_false, same, next, List.getElem?_cons_succ]
      · have before : ¬ start ≤ k := by omega
        simp [first, later, before]

/-- Writes the words one after another from `address` on, up to the first write that is refused. -/
def writeEach : Memory → Word → List Word → Memory × Except Fault Unit
  | m, _, [] => (m, .ok ())
  | m, address, value :: data =>
    match m.write address value with
    | (next, .ok ()) => next.writeEach (address + BitVec.ofNat 32 wordBytes) data
    | (part, .error fault) => (part, .error fault)

theorem writeEach_of_fits {m : Memory} (small : m.size < 2 ^ 30) {start : Nat} {data : List Word}
    (fits : start + data.length ≤ m.size) :
    m.writeEach (BitVec.ofNat 32 (start * wordBytes)) data =
      (⟨overwrite m.words start data⟩, .ok ()) := by
  induction data generalizing m start with
  | nil => rfl
  | cons value data ih =>
    rw [List.length_cons] at fits
    have inside : start < m.size := by omega
    have kept : size ⟨m.words.setIfInBounds start value⟩ = m.size := Array.size_setIfInBounds
    have rest := @ih ⟨m.words.setIfInBounds start value⟩ (by omega) (start + 1) (by omega)
    rw [← wordAddress_add, Nat.one_mul] at rest
    simp only [writeEach, write_wordAddress m (show start < 2 ^ 30 by omega), if_pos inside, rest,
      overwrite]

theorem writeEach_of_overrun {m : Memory} (small : m.size < 2 ^ 30) {start : Nat}
    (low : start < 2 ^ 30) {data : List Word} (nonempty : data ≠ [])
    (overrun : m.size < start + data.length) :
    ∃ part, m.writeEach (BitVec.ofNat 32 (start * wordBytes)) data =
      (part, .error (.outOfBounds (BitVec.ofNat 32 (max start m.size * wordBytes)))) := by
  induction data generalizing m start with
  | nil => exact absurd rfl nonempty
  | cons value data ih =>
    by_cases inside : start < m.size
    · rw [List.length_cons] at overrun
      have kept : size ⟨m.words.setIfInBounds start value⟩ = m.size := Array.size_setIfInBounds
      have more : data ≠ [] := by
        rintro rfl
        rw [List.length_nil] at overrun
        omega
      obtain ⟨part, rest⟩ := @ih ⟨m.words.setIfInBounds start value⟩ (by omega) (start + 1)
        (by omega) more (by omega)
      rw [← wordAddress_add, Nat.one_mul, kept] at rest
      have last : max (start + 1) m.size = max start m.size := by omega
      refine ⟨part, ?_⟩
      simp only [writeEach, write_wordAddress m low, if_pos inside, rest, last]
    · have first : max start m.size = start := by omega
      refine ⟨m, ?_⟩
      simp only [writeEach, write_wordAddress m low, if_neg inside, first]

theorem read_load {m : Memory} (small : m.size < 2 ^ 30) {address : Word} {data : List Word}
    (aligned : address.toNat % 4 = 0) (fits : address.toNat / 4 + data.length ≤ m.size) :
    (∀ i value, data[i]? = some value →
      (m.load address data).1.read (address + BitVec.ofNat 32 (i * wordBytes)) = .ok value) ∧
    ∀ other, (∀ i < data.length, other ≠ address + BitVec.ofNat 32 (i * wordBytes)) →
      (m.load address data).1.read other = m.read other := by
  have place (i : Nat) : address + BitVec.ofNat 32 (i * wordBytes) =
      BitVec.ofNat 32 ((address.toNat / 4 + i) * wordBytes) := by
    rw [← wordAddress_add, ← wordAddress_of_aligned aligned]
  rw [load_of_fits aligned fits]
  constructor
  · intro i value held
    obtain ⟨within, _⟩ := List.getElem?_eq_some_iff.mp held
    have inside : address.toNat / 4 + i < m.words.size := Nat.lt_of_lt_of_le (by omega) fits
    rw [place, read_wordAddress, Nat.mod_eq_of_lt (by rw [size] at small; omega),
      getElem?_overwrite, if_pos (by omega), Nat.add_sub_cancel_left, held]
  · intro other apart
    rw [read_eq, read_eq, getElem?_overwrite]
    by_cases misaligned : other.toNat % 4 ≠ 0
    · rw [if_pos misaligned, if_pos misaligned]
    · have outside : ¬ (address.toNat / 4 ≤ other.toNat / 4 ∧
          other.toNat / 4 < address.toNat / 4 + data.length ∧ other.toNat / 4 < m.words.size) := by
        rintro ⟨above, below, _⟩
        apply apart (other.toNat / 4 - address.toNat / 4) (by omega)
        rw [place, Nat.add_sub_cancel' above]
        exact wordAddress_of_aligned (by omega)
      rw [if_neg outside]

/-- A load is what the writes of its words are if none of them is refused, and otherwise nothing
    but the fault of the first that is. -/
theorem load_eq_writeEach {m : Memory} (small : m.size < 2 ^ 30) (address : Word)
    {data : List Word} (nonempty : data ≠ []) :
    (∃ after, m.writeEach address data = (after, .ok ()) ∧ m.load address data = (after, .ok ()) ∧
      (∀ i value, data[i]? = some value →
        after.read (address + BitVec.ofNat 32 (i * wordBytes)) = .ok value) ∧
      ∀ other, (∀ i < data.length, other ≠ address + BitVec.ofNat 32 (i * wordBytes)) →
        after.read other = m.read other) ∨
    ∃ part fault, m.writeEach address data = (part, .error fault) ∧
      m.load address data = (m, .error fault) := by
  by_cases misaligned : address.toNat % 4 ≠ 0
  · right
    obtain ⟨value, rest, rfl⟩ := List.exists_cons_of_ne_nil nonempty
    refine ⟨m, .misaligned address, ?_, if_pos misaligned⟩
    rw [writeEach, write_eq, if_pos misaligned]
  · have aligned : address.toNat % 4 = 0 := by omega
    have start : address.toNat / 4 < 2 ^ 30 := by
      have bound := address.isLt
      omega
    by_cases fits : address.toNat / 4 + data.length ≤ m.size
    · left
      have seen := read_load small aligned fits
      have written := writeEach_of_fits small fits
      rw [← wordAddress_of_aligned aligned] at written
      have loaded := load_of_fits aligned fits
      rw [loaded] at seen
      exact ⟨_, written, loaded, seen⟩
    · right
      have overrun : m.size < address.toNat / 4 + data.length := Nat.not_le.mp fits
      obtain ⟨part, refused⟩ := writeEach_of_overrun small start nonempty overrun
      rw [← wordAddress_of_aligned aligned] at refused
      exact ⟨part, _, refused, load_of_overrun aligned overrun⟩

theorem load_eq_writeEach_pair_and_overrun :
    (∃ after, (zeros 4).load 8 [1, 2] = (after, .ok ()) ∧ after.read 12 = .ok 2 ∧
      after.read 4 = .ok 0) ∧
    ∃ part fault, (zeros 4).writeEach 8 [1, 2, 3] = (part, .error fault) ∧
      (zeros 4).load 8 [1, 2, 3] = (zeros 4, .error fault) := by
  have small : (zeros 4).size < 2 ^ 30 := by decide
  constructor
  · rcases load_eq_writeEach small 8 (List.cons_ne_nil 1 [2]) with
      ⟨after, _, loaded, own, others⟩ | ⟨_, _, refused, _⟩
    · exact ⟨after, loaded, own 1 2 rfl, others 4 (by decide)⟩
    · cases refused
  · rcases load_eq_writeEach small 8 (List.cons_ne_nil 1 [2, 3]) with
      ⟨_, written, _⟩ | refused
    · cases written
    · exact refused

end Memory

end WordMachine
