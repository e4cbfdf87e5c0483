import Classwright.Generation.Cache
import Mathlib.Data.List.Dedup
import Mathlib.Data.List.Nodup
import Mathlib.Data.List.Perm.Subperm

/-!
# What a cache holds

A cell is found under its contract only, and a class is put into one cell only. To put a new cell
into a cache and fill it gives its contract a class and leaves all others theirs; to take it away
again leaves every contract what it had.
-/

namespace Classwright.Cache

variable {k k' : Cache} {contract other : Descriptor} {cell : Cell} {c d : LoadedClass}

theorem mem_entries_iff : (contract, cell) ∈ k.entries ↔ k.cell? contract = some cell := by
  constructor
  · intro member
    cases found : k.entries.find? (·.1 == contract) with
    | none =>
      rw [List.find?_eq_none] at found
      exact absurd (beq_self_eq_true contract) (found _ member)
    | some e =>
      have held := List.find?_some found
      have key : e.1 = contract := eq_of_beq held
      have same := List.inj_on_of_nodup_map k.once member (List.mem_of_find?_eq_some found) key.symm
      rw [cell?, found, ← same]
      rfl
  · intro found
    rw [cell?] at found
    obtain ⟨⟨key, cell⟩, looked, rfl⟩ := Option.map_eq_some_iff.1 found
    have held := List.find?_some looked
    have same : key = contract := eq_of_beq held
    subst same
    exact List.mem_of_find?_eq_some looked

theorem content?_eq_some_iff :
    k.content? contract = some c
      ↔ ∃ cell, (contract, cell) ∈ k.entries ∧ cell.content = some c := by
  simp only [content?, Option.bind_eq_some_iff, mem_entries_iff]

/-- No other contract has the cell at an address. -/
theorem eq_of_address {cell' : Cell} (found : k.cell? contract = some cell)
    (member : (other, cell') ∈ k.entries) (same : cell'.address = cell.address) :
    other = contract ∧ cell' = cell :=
  Prod.ext_iff.1 (List.inj_on_of_nodup_map k.apart member (mem_entries_iff.2 found) same)

/-! ### The cell of a contract -/

theorem cell?_insert (new : k.cell? contract = none) (other : Descriptor) :
    (k.insert contract new).cell? other
      = if contract = other then some { address := k.newAddress } else k.cell? other := by
  unfold cell? insert
  by_cases same : contract = other
  · rw [if_pos same, List.find?_cons_of_pos (by simpa using same)]
    rfl
  · rw [if_neg same, List.find?_cons_of_neg (by simpa using same)]

theorem entry_eq (k : Cache) (contract : Descriptor) :
    (k.cell? contract = some (k.entry contract).1 ∧ (k.entry contract).2 = k) ∨
    ∃ new : k.cell? contract = none,
      k.entry contract = ({ address := k.newAddress }, k.insert contract new) := by
  unfold entry
  split
  · rename_i found
    exact .inl ⟨found, rfl⟩
  · rename_i new
    exact .inr ⟨new, rfl⟩

theorem cell?_entry (k : Cache) (contract : Descriptor) :
    (k.entry contract).2.cell? contract = some (k.entry contract).1 := by
  obtain ⟨found, same⟩ | ⟨new, same⟩ := k.entry_eq contract
  · rw [same, found]
  · rw [same, cell?_insert, if_pos rfl]

/-- To ask for a cell gives no contract a class. -/
theorem content?_entry (k : Cache) (contract other : Descriptor) :
    (k.entry contract).2.content? other = k.content? other := by
  obtain ⟨_, same⟩ | ⟨new, same⟩ := k.entry_eq contract
  · rw [same]
  · rw [same, content?, cell?_insert]
    split
    · rename_i same
      rw [content?, ← same, new]
      rfl
    · rfl

/-- The cell of a contract without a class is empty. -/
theorem content_entry (missing : k.content? contract = none) :
    (k.entry contract).1.content = none := by
  rw [← k.content?_entry contract, content?, cell?_entry] at missing
  exact missing

/-! ### Filling a cell -/

theorem cell?_fill (k : Cache) (address : Nat) (c : LoadedClass) (other : Descriptor) :
    (k.fill address c).cell? other = (k.cell? other).map fun cell =>
      if cell.address = address then { cell with content := some c } else cell := by
  unfold cell? fill
  rw [List.find?_map, Option.map_map, Option.map_map]
  rfl

theorem content?_fill (found : k.cell? contract = some cell) (c : LoadedClass)
    (other : Descriptor) : (k.fill cell.address c).content? other
      = if contract = other then some c else k.content? other := by
  rw [content?, cell?_fill]
  by_cases same : contract = other
  · rw [if_pos same, ← same, found, Option.map_some, if_pos rfl]
    rfl
  · rw [if_neg same, content?]
    cases there : k.cell? other with
    | none => rfl
    | some cell' =>
      have apart : cell'.address ≠ cell.address := fun equal =>
        same (eq_of_address found (mem_entries_iff.2 there) equal).1.symm
      rw [Option.map_some, if_neg apart]

/-- The cache with the class of a contract in its cell. -/
def keep (k : Cache) (contract : Descriptor) (c : LoadedClass) : Cache :=
  (k.entry contract).2.fill (k.entry contract).1.address c

theorem content?_keep (k : Cache) (contract : Descriptor) (c : LoadedClass) (other : Descriptor) :
    (k.keep contract c).content? other = if contract = other then some c else k.content? other := by
  rw [keep, content?_fill (k.cell?_entry contract), content?_entry]

/-! ### Taking a cell away -/

theorem mem_removeIf {condition : Cell → Bool} :
    (other, cell) ∈ (k.removeIf contract condition).entries
      ↔ (other, cell) ∈ k.entries ∧ ¬(other = contract ∧ condition cell = true) := by
  simp only [removeIf, List.mem_filter, Bool.not_eq_true', Bool.and_eq_false_imp, beq_iff_eq,
    not_and, Bool.not_eq_true]

/-- A cache that lacks empty cells only. -/
structure Sheds (k k' : Cache) : Prop where
  cells : k'.entries.Sublist k.entries
  content? : ∀ contract, k'.content? contract = k.content? contract

namespace Sheds

variable {k'' : Cache}

theorem refl (k : Cache) : k.Sheds k := ⟨.refl _, fun _ => rfl⟩

theorem trans (h : k.Sheds k') (h' : k'.Sheds k'') : k.Sheds k'' :=
  ⟨h'.cells.trans h.cells, fun contract => (h'.content? contract).trans (h.content? contract)⟩

end Sheds

/-- Every cell has a class. -/
def Settled (k : Cache) : Prop := ∀ e ∈ k.entries, e.2.content.isSome = true

theorem ext_entries (same : k.entries = k'.entries) : k = k' := by
  cases k
  cases k'
  cases same
  rfl

/-- Nothing is lacking where no cell is empty. -/
theorem Sheds.eq (h : k.Sheds k') (settled : k.Settled) : k' = k := by
  have all : ∀ e ∈ k.entries, e ∈ k'.entries := by
    rintro ⟨contract, cell⟩ member
    obtain ⟨c, filled⟩ := Option.isSome_iff_exists.1 (settled _ member)
    have there := content?_eq_some_iff.2 ⟨cell, member, filled⟩
    rw [← h.content?] at there
    obtain ⟨cell', member', _⟩ := content?_eq_some_iff.1 there
    have found := mem_entries_iff.1 (h.cells.subset member')
    rw [mem_entries_iff.1 member] at found
    cases found
    exact member'
  have nodup : k.entries.Nodup := k.once.of_map
  exact ext_entries (h.cells.eq_of_length_le (List.subperm_of_subset nodup all).length_le)

/-- The cache without the cell that a contract had been given in vain. -/
def dismiss (k : Cache) (contract : Descriptor) : Cache :=
  (k.entry contract).2.removeIf contract fun current =>
    current.address == (k.entry contract).1.address && current.content.isNone

theorem sheds_dismiss (k : Cache) (contract : Descriptor) : k.Sheds (k.dismiss contract) := by
  constructor
  · obtain ⟨_, same⟩ | ⟨new, same⟩ := k.entry_eq contract
    · rw [dismiss, same]
      exact List.filter_sublist
    · rw [dismiss, same]
      dsimp only [removeIf, insert]
      rw [List.filter_cons_of_neg (by simp)]
      exact List.filter_sublist
  · intro other
    rw [← k.content?_entry contract other]
    apply Option.ext
    intro c
    rw [content?_eq_some_iff, content?_eq_some_iff]
    constructor
    · rintro ⟨cell, member, filled⟩
      exact ⟨cell, (mem_removeIf.1 member).1, filled⟩
    · rintro ⟨cell, member, filled⟩
      exact ⟨cell, mem_removeIf.2 ⟨member, by simp [filled]⟩, filled⟩

/-! ### Counting -/

theorem settled_keep (settled : k.Settled) (contract : Descriptor) (c : LoadedClass) :
    (k.keep contract c).Settled := by
  rintro ⟨other, cell⟩ member
  rw [mem_entries_iff, keep, cell?_fill] at member
  obtain ⟨cell', found, rfl⟩ := Option.map_eq_some_iff.1 member
  split
  · rfl
  · rename_i apart
    obtain ⟨_, same⟩ | ⟨new, same⟩ := k.entry_eq contract
    · rw [same, ← mem_entries_iff] at found
      exact settled _ found
    · rw [same] at found apart
      rw [cell?_insert] at found
      split at found
      · cases found
        exact absurd rfl apart
      · exact settled _ (mem_entries_iff.2 found)

/-- As many cells have a class as there are contracts whose cell has one. -/
theorem filled_eq {contracts : List Descriptor}
    (all : ∀ contract, contract ∈ contracts ↔ ∃ c, k.content? contract = some c) :
    k.filled = contracts.dedup.length := by
  have once : ((k.entries.filter (·.2.content.isSome)).map (·.1)).Nodup :=
    k.once.sublist (List.filter_sublist.map _)
  have same : ((k.entries.filter (·.2.content.isSome)).map (·.1)).Perm contracts.dedup := by
    rw [List.perm_ext_iff_of_nodup once (List.nodup_dedup _)]
    intro contract
    rw [List.mem_dedup, all, List.mem_map]
    simp only [content?_eq_some_iff, List.mem_filter, Option.isSome_iff_exists]
    constructor
    · rintro ⟨⟨key, cell⟩, ⟨member, c, filled⟩, rfl⟩
      exact ⟨c, cell, member, filled⟩
    · rintro ⟨c, cell, member, filled⟩
      exact ⟨(contract, cell), ⟨member, c, filled⟩, rfl⟩
  rw [filled, ← same.length_eq, List.length_map]

end Classwright.Cache
