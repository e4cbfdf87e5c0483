import Classwright.Machine.Value

/-!
# Caches

A cache has a cell for each contract that has a class, and for those whose class is being made. A
cell is shared by all that hold it: what is put into it is there for everyone.
-/

namespace Classwright

/-- A place for the class of a contract. -/
structure Cell where
  /-- What the cell is told from others by. -/
  address : Nat
  content : Option LoadedClass := none

/-- Contracts with a cell of their own each. -/
structure Cache where
  entries : List (Descriptor × Cell) := []
  once : (entries.map (·.1)).Nodup := by exact List.nodup_nil
  apart : (entries.map (·.2.address)).Nodup := by exact List.nodup_nil

namespace Cache

def cell? (k : Cache) (contract : Descriptor) : Option Cell :=
  (k.entries.find? (·.1 == contract)).map (·.2)

/-- The class of the contract, once it has been put into its cell. -/
def content? (k : Cache) (contract : Descriptor) : Option LoadedClass :=
  (k.cell? contract).bind (·.content)

/-- Number of the cells that have a class. -/
def filled (k : Cache) : Nat := (k.entries.filter (·.2.content.isSome)).length

/-- An address above those of all cells. -/
def newAddress (k : Cache) : Nat := k.entries.foldr (fun e n => max (e.2.address + 1) n) 0

theorem address_lt_newAddress (k : Cache) : ∀ e ∈ k.entries, e.2.address < k.newAddress := by
  unfold newAddress
  induction k.entries with
  | nil => exact nofun
  | cons e entries ih =>
    intro e' member
    rw [List.foldr_cons]
    rcases List.mem_cons.1 member with rfl | member
    · exact Nat.le_max_left _ _
    · exact Nat.lt_of_lt_of_le (ih e' member) (Nat.le_max_right _ _)

/-- Adds an empty cell for a contract that has none. -/
def insert (k : Cache) (contract : Descriptor) (new : k.cell? contract = none) : Cache where
  entries := (contract, { address := k.newAddress }) :: k.entries
  once := by
    refine List.nodup_cons.2 ⟨fun member => ?_, k.once⟩
    obtain ⟨e, member, same⟩ := List.mem_map.1 member
    rw [cell?, Option.map_eq_none_iff, List.find?_eq_none] at new
    exact new e member (by rw [same]; exact beq_self_eq_true contract)
  apart := by
    refine List.nodup_cons.2 ⟨fun member => ?_, k.apart⟩
    obtain ⟨e, member, same⟩ := List.mem_map.1 member
    exact absurd same (Nat.ne_of_lt (k.address_lt_newAddress e member))

/-- The cell of the contract, a new one if it had none, and the cache that has it. -/
def entry (k : Cache) (contract : Descriptor) : Cell × Cache :=
  match looked : k.cell? contract with
  | some cell => (cell, k)
  | none => ({ address := k.newAddress }, k.insert contract looked)

/-- Puts a class into the cell at an address. -/
def fill (k : Cache) (address : Nat) (c : LoadedClass) : Cache where
  entries := k.entries.map fun (contract, cell) =>
    (contract, if cell.address = address then { cell with content := some c } else cell)
  once := by
    rw [List.map_map]
    exact k.once
  apart := by
    have kept : (k.entries.map fun (contract, cell) =>
        (contract, if cell.address = address then { cell with content := some c } else cell)).map
          (·.2.address) = k.entries.map (·.2.address) := by
      rw [List.map_map]
      refine List.map_congr_left fun e _ => ?_
      dsimp only [Function.comp]
      split <;> rfl
    rw [kept]
    exact k.apart

/-- Takes the cell of a contract away if it satisfies a condition. -/
def removeIf (k : Cache) (contract : Descriptor) (condition : Cell → Bool) : Cache where
  entries := k.entries.filter fun e => !(e.1 == contract && condition e.2)
  once := k.once.sublist (List.filter_sublist.map _)
  apart := k.apart.sublist (List.filter_sublist.map _)

end Cache

end Classwright
