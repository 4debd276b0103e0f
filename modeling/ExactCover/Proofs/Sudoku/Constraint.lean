import ExactCover.Proofs.Sudoku.Board
import ExactCover.Sudoku.Reduction
/-!
What the columns of the exact cover form stand for. There are as many columns as constraints, each
constraint has a column of its own, and a placement sets the columns of the constraints it meets.
-/

namespace ExactCover.Sudoku

/-- What a board has to satisfy: a cell is filled, or a house has a digit. -/
inductive Constraint
  | filled (row col : Nat)
  | placed (house : House) (index digit : Nat)

/-- The block of columns that stands for the digits of a kind of house; the first is for the cells. -/
def House.block : House → Nat
  | .row => 1
  | .column => 2
  | .box => 3

namespace Constraint

def block : Constraint → Nat
  | filled _ _ => 0
  | placed house _ _ => house.block

/-- The place of a constraint among those of its block. -/
def offset (size : Size) : Constraint → Nat
  | filled row col => row * size.toNat + col
  | placed _ index digit => index * size.toNat + (digit - 1)

/-- The column that stands for a constraint. -/
def column (size : Size) (k : Constraint) : Nat :=
  k.block * (size.toNat * size.toNat) + k.offset size

def Fits (size : Size) : Constraint → Prop
  | filled row col => row < size.toNat ∧ col < size.toNat
  | placed _ index digit => index < size.toNat ∧ 1 ≤ digit ∧ digit ≤ size.toNat

end Constraint

namespace Placement

structure Fits (size : Size) (p : Placement) : Prop where
  row_lt : p.row < size.toNat
  col_lt : p.col < size.toNat
  one_le : 1 ≤ p.digit
  digit_le : p.digit ≤ size.toNat

def constraints (size : Size) (p : Placement) : List Constraint :=
  .filled p.row p.col :: [House.row, .column, .box].map fun house =>
    .placed house (house.index size p.row p.col) p.digit

variable {size : Size} {p : Placement} {k : Constraint} {house : House} {row col index digit : Nat}

theorem filled_mem_constraints :
    .filled row col ∈ p.constraints size ↔ p.row = row ∧ p.col = col := by
  simp [constraints, eq_comm]

theorem placed_mem_constraints : .placed house index digit ∈ p.constraints size ↔
    house.index size p.row p.col = index ∧ p.digit = digit := by
  cases house <;> simp [constraints, eq_comm]

theorem Fits.constraint (h : p.Fits size) (hk : k ∈ p.constraints size) : k.Fits size := by
  cases k with
  | filled row col =>
    obtain ⟨rfl, rfl⟩ := filled_mem_constraints.1 hk
    exact ⟨h.row_lt, h.col_lt⟩
  | placed house index digit =>
    obtain ⟨rfl, rfl⟩ := placed_mem_constraints.1 hk
    exact ⟨house.index_lt h.row_lt h.col_lt, h.one_le, h.digit_le⟩

theorem columns_eq (p : Placement) (size : Size) :
    p.columns size = (p.constraints size).map (Constraint.column size) := by
  simp [columns, constraints, Constraint.column, Constraint.block, Constraint.offset, House.block,
    House.index, Nat.mul_assoc, Nat.add_assoc]

end Placement

theorem mul_add_inj {n a b a' b' : Nat} (hb : b < n) (hb' : b' < n)
    (h : a * n + b = a' * n + b') : a = a' ∧ b = b' := by
  have hmod : (a * n + b) % n = (a' * n + b') % n := congrArg (· % n) h
  rw [Nat.mul_comm, Nat.mul_add_mod, Nat.mod_eq_of_lt hb, Nat.mul_comm, Nat.mul_add_mod,
    Nat.mod_eq_of_lt hb'] at hmod
  subst hmod
  exact ⟨Nat.eq_of_mul_eq_mul_right (Nat.zero_lt_of_lt hb) (Nat.add_right_cancel h), rfl⟩

theorem mul_add_lt {n a b : Nat} (ha : a < n) (hb : b < n) : a * n + b < n * n := by
  rw [Nat.mul_comm]
  exact Nat.mul_add_lt_mul_of_lt_of_lt ha hb

namespace House

theorem block_inj {house other : House} (h : house.block = other.block) : house = other := by
  cases house <;> cases other <;> first | rfl | cases h

theorem block_pos (house : House) : 0 < house.block := by cases house <;> decide

theorem block_le (house : House) : house.block ≤ 3 := by cases house <;> decide

theorem exists_block {b : Nat} (hpos : 0 < b) (hle : b ≤ 3) : ∃ house : House, house.block = b := by
  obtain rfl | rfl | rfl : b = 1 ∨ b = 2 ∨ b = 3 := by omega
  · exact ⟨.row, rfl⟩
  · exact ⟨.column, rfl⟩
  · exact ⟨.box, rfl⟩

end House

namespace Constraint

variable {size : Size} {k k' : Constraint} {column : Nat}

theorem offset_lt (hk : k.Fits size) : k.offset size < size.toNat * size.toNat := by
  cases k with
  | filled row col => exact mul_add_lt hk.1 hk.2
  | placed house index digit =>
    obtain ⟨hindex, hone, hle⟩ := hk
    exact mul_add_lt hindex (by omega)

theorem block_le (k : Constraint) : k.block ≤ 3 := by
  cases k with
  | filled => exact Nat.zero_le 3
  | placed house => exact house.block_le

theorem column_inj (hk : k.Fits size) (hk' : k'.Fits size) (h : k.column size = k'.column size) :
    k = k' := by
  obtain ⟨hblock, hoffset⟩ := mul_add_inj (offset_lt hk) (offset_lt hk') h
  cases k with
  | filled row col =>
    cases k' with
    | filled row' col' =>
      obtain ⟨rfl, rfl⟩ := mul_add_inj hk.2 hk'.2 hoffset
      rfl
    | placed house' => exact absurd hblock house'.block_pos.ne
  | placed house index digit =>
    cases k' with
    | filled => exact absurd hblock house.block_pos.ne'
    | placed house' index' digit' =>
      obtain ⟨-, hone, hle⟩ := hk
      obtain ⟨-, hone', hle'⟩ := hk'
      obtain ⟨rfl, hdigit⟩ := mul_add_inj (show digit - 1 < size.toNat by omega)
        (show digit' - 1 < size.toNat by omega) hoffset
      obtain rfl := House.block_inj hblock
      obtain rfl : digit = digit' := by omega
      rfl

theorem column_lt (hk : k.Fits size) : k.column size < 4 * size.toNat * size.toNat := by
  have hoffset := offset_lt hk
  have hblock : k.block * (size.toNat * size.toNat) ≤ 3 * (size.toNat * size.toNat) :=
    Nat.mul_le_mul_right _ k.block_le
  rw [column, Nat.mul_assoc]
  omega

theorem exists_of_lt (h : column < 4 * size.toNat * size.toNat) :
    ∃ k : Constraint, k.Fits size ∧ k.column size = column := by
  have hn : 0 < size.toNat := size.toNat_pos
  let block := column / (size.toNat * size.toNat)
  let offset := column % (size.toNat * size.toNat)
  have hblock : block < 4 := by
    apply Nat.div_lt_of_lt_mul
    rwa [Nat.mul_comm, ← Nat.mul_assoc]
  have hoffset : offset / size.toNat < size.toNat :=
    Nat.div_lt_of_lt_mul (Nat.mod_lt column (Nat.mul_pos hn hn))
  have hplace : offset % size.toNat < size.toNat := Nat.mod_lt _ hn
  have hsplit : block * (size.toNat * size.toNat) +
      (offset / size.toNat * size.toNat + offset % size.toNat) = column := by
    rw [Nat.div_add_mod', Nat.div_add_mod']
  by_cases hzero : block = 0
  · refine ⟨.filled (offset / size.toNat) (offset % size.toNat), ⟨hoffset, hplace⟩, ?_⟩
    rwa [hzero] at hsplit
  · obtain ⟨house, hhouse⟩ := House.exists_block (Nat.pos_of_ne_zero hzero) (Nat.le_of_lt_succ hblock)
    refine ⟨.placed house (offset / size.toNat) (offset % size.toNat + 1),
      ⟨hoffset, Nat.succ_pos _, hplace⟩, ?_⟩
    rwa [← hhouse] at hsplit

/-- A placement sets the column of a constraint when it meets it. -/
theorem column_mem_columns {p : Placement} (hp : p.Fits size) (hk : k.Fits size) :
    k.column size ∈ p.columns size ↔ k ∈ p.constraints size := by
  rw [p.columns_eq, List.mem_map]
  constructor
  · rintro ⟨k', hk', heq⟩
    rwa [← column_inj (hp.constraint hk') hk heq]
  · intro hmem
    exact ⟨k, hmem, rfl⟩

end Constraint

end ExactCover.Sudoku
