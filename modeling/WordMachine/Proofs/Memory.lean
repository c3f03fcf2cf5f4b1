import WordMachine.Memory

/-!
Memory seen word by word: an address that can be read is four times the place of its word, a write
there changes that word alone, and an address that cannot be read cannot be written either.
-/

namespace WordMachine

namespace Memory

theorem getElem?_zeros (count k : Nat) :
    (zeros count).words[k]? = if k < count then some 0 else none := Array.getElem?_replicate

theorem read_eq (m : Memory) (address : Word) :
    m.read address =
      if address.toNat % 4 ≠ 0 then .error (.misaligned address)
      else match m.words[address.toNat / 4]? with
        | some value => .ok value
        | none => .error (.outOfBounds address) := by
  by_cases misaligned : address.toNat % 4 ≠ 0
  · simp [read, index, wordBytes, misaligned]
  · by_cases inside : address.toNat / 4 < m.words.size
    · simp [read, index, wordBytes, misaligned, inside]
    · simp [read, index, wordBytes, misaligned, inside]

theorem write_eq (m : Memory) (address value : Word) :
    m.write address value =
      if address.toNat % 4 ≠ 0 then (m, .error (.misaligned address))
      else if address.toNat / 4 < m.words.size then
        (⟨m.words.setIfInBounds (address.toNat / 4) value⟩, .ok ())
      else (m, .error (.outOfBounds address)) := by
  by_cases misaligned : address.toNat % 4 ≠ 0
  · simp [write, index, wordBytes, misaligned]
  · by_cases inside : address.toNat / 4 < m.words.size
    · simp [write, index, wordBytes, misaligned, inside, Array.setIfInBounds]
    · simp [write, index, wordBytes, misaligned, inside]

theorem read_eq_ok_iff {m : Memory} {address value : Word} :
    m.read address = .ok value ↔ ∃ k, address.toNat = 4 * k ∧ m.words[k]? = some value := by
  rw [read_eq]
  constructor
  · intro found
    split at found
    · cases found
    · rename_i aligned
      refine ⟨address.toNat / 4, by omega, ?_⟩
      split at found
      · rename_i held
        cases found
        exact held
      · cases found
  · rintro ⟨k, place, held⟩
    have same : address.toNat / 4 = k := by omega
    rw [if_neg (by omega), same, held]

theorem exists_read_iff {m : Memory} {address : Word} :
    (∃ value, m.read address = .ok value) ↔
      address.toNat % 4 = 0 ∧ address.toNat < 4 * m.size := by
  simp only [read_eq_ok_iff, size]
  constructor
  · rintro ⟨_, k, place, held⟩
    obtain ⟨inside, _⟩ := Array.getElem?_eq_some_iff.mp held
    omega
  · rintro ⟨aligned, inside⟩
    have bound : address.toNat / 4 < m.words.size := by omega
    exact ⟨m.words[address.toNat / 4], address.toNat / 4, by omega, Array.getElem?_eq_getElem bound⟩

theorem fault_of_read_error {m : Memory} {address : Word} {fault : Fault}
    (unread : m.read address = .error fault) :
    fault = .misaligned address ∨ fault = .outOfBounds address := by
  rw [read_eq] at unread
  split at unread
  · cases unread
    exact Or.inl rfl
  · split at unread
    · cases unread
    · cases unread
      exact Or.inr rfl

theorem write_of_read_error {m : Memory} {address : Word} {fault : Fault}
    (unread : m.read address = .error fault) (value : Word) :
    m.write address value = (m, .error fault) := by
  rw [read_eq] at unread
  rw [write_eq]
  split at unread
  · rename_i misaligned
    cases unread
    exact if_pos misaligned
  · rename_i aligned
    split at unread
    · cases unread
    · rename_i outside
      cases unread
      rw [if_neg aligned, if_neg (Nat.not_lt.mpr (Array.getElem?_eq_none_iff.mp outside))]

theorem write_of_read_ok {m : Memory} {address old : Word} (known : m.read address = .ok old)
    (value : Word) :
    ∃ after, m.write address value = (after, .ok ()) ∧
      ∀ k, after.words[k]? = if address.toNat = 4 * k then some value else m.words[k]? := by
  obtain ⟨k, place, held⟩ := read_eq_ok_iff.mp known
  obtain ⟨inside, _⟩ := Array.getElem?_eq_some_iff.mp held
  have same : address.toNat / 4 = k := by omega
  refine ⟨⟨m.words.setIfInBounds k value⟩, ?_, ?_⟩
  · rw [write_eq, if_neg (by omega), same, if_pos inside]
  · intro j
    by_cases here : k = j
    · subst here
      simp [place, inside]
    · have apart : ¬ address.toNat = 4 * j := by omega
      simp [apart, here]

theorem read_write_of_ne {m : Memory} {address other old : Word}
    (known : m.read address = .ok old) (apart : other ≠ address) (value : Word) :
    (m.write address value).1.read other = m.read other := by
  obtain ⟨after, written, words⟩ := write_of_read_ok known value
  obtain ⟨k, place, _⟩ := read_eq_ok_iff.mp known
  rw [written, read_eq, read_eq, words]
  by_cases misaligned : other.toNat % 4 ≠ 0
  · rw [if_pos misaligned, if_pos misaligned]
  · have elsewhere : ¬ address.toNat = 4 * (other.toNat / 4) := by
      intro same
      apply apart
      apply BitVec.eq_of_toNat_eq
      omega
    rw [if_neg elsewhere]

theorem eq_of_getElem? {a b : Memory} (same : ∀ k : Nat, a.words[k]? = b.words[k]?) : a = b := by
  obtain ⟨first⟩ := a
  obtain ⟨second⟩ := b
  exact congrArg Memory.mk (Array.ext_getElem? same)

theorem read_append (m : Memory) (extra : Array Word) (address : Word) :
    read ⟨m.words ++ extra⟩ address = m.read address ∨
      m.read address = .error (.outOfBounds address) := by
  by_cases inside : address.toNat / 4 < m.words.size
  · left
    rw [read_eq, read_eq, Array.getElem?_append_left inside]
  · by_cases misaligned : address.toNat % 4 ≠ 0
    · left
      rw [read_eq, read_eq, if_pos misaligned, if_pos misaligned]
    · right
      rw [read_eq, if_neg misaligned, Array.getElem?_eq_none (Nat.not_lt.mp inside)]

theorem write_append {m : Memory} {address old : Word} (known : m.read address = .ok old)
    (extra : Array Word) (value : Word) :
    (write ⟨m.words ++ extra⟩ address value).1 = ⟨(m.write address value).1.words ++ extra⟩ := by
  obtain ⟨k, place, held⟩ := read_eq_ok_iff.mp known
  obtain ⟨inside, _⟩ := Array.getElem?_eq_some_iff.mp held
  have aligned : ¬ address.toNat % 4 ≠ 0 := by omega
  have same : address.toNat / 4 = k := by omega
  have within : k < (m.words ++ extra).size := by
    rw [Array.size_append]
    exact Nat.lt_add_right extra.size inside
  rw [write_eq, write_eq, if_neg aligned, if_neg aligned, same, if_pos inside, if_pos within]
  exact congrArg Memory.mk (Array.setIfInBounds_append_left inside)

theorem mem_overwrite {words : Array Word} {start : Nat} {data : List Word} {value : Word}
    (member : value ∈ overwrite words start data) : value ∈ words ∨ value ∈ data := by
  induction data generalizing words start with
  | nil => exact Or.inl member
  | cons first data ih =>
    rcases ih member with kept | later
    · rcases Array.mem_or_eq_of_mem_setIfInBounds kept with kept | rfl
      · exact Or.inl kept
      · exact Or.inr (List.mem_cons_self ..)
    · exact Or.inr (List.mem_cons_of_mem first later)

theorem mem_load {m : Memory} {address : Word} {data : List Word} {value : Word}
    (member : value ∈ (m.load address data).1.words) : value ∈ m.words ∨ value ∈ data := by
  simp only [load] at member
  split at member
  · exact Or.inl member
  · split at member
    · exact mem_overwrite member
    · exact Or.inl member

theorem load_of_error {m : Memory} {address : Word} {data : List Word} {fault : Fault}
    (refused : (m.load address data).2 = .error fault) : (m.load address data).1 = m := by
  simp only [load] at refused ⊢
  split
  · rfl
  · rename_i aligned
    rw [if_neg aligned] at refused
    split
    · rename_i fits
      rw [if_pos fits] at refused
      cases refused
    · rfl

end Memory

end WordMachine
