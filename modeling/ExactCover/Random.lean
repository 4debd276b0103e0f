import ExactCover.Word
/-!
A small generator of pseudo-random numbers: a 64-bit counter with a fixed stride, each value of
which is multiplied with a scrambled copy of itself. Everything drawn is a function of the seed.
Whoever draws does not depend on this generator, only on what generators have in common.
-/

namespace ExactCover

structure Random where
  state : UInt64
deriving DecidableEq, Repr

namespace Random

def ofSeed (seed : UInt64) : Random := ⟨seed⟩

def stride : UInt64 := 0x2d358dccaa6c78a5

def scramble : UInt64 := 0x8bb84b93962eacc9

/-- The next 64 random bits: both halves of a 128-bit product, folded together. -/
def next (r : Random) : UInt64 × Random :=
  let state := r.state + stride
  let product := state.toNat * (state ^^^ scramble).toNat
  (product.toUInt64 ^^^ (product / wordSize).toUInt64, ⟨state⟩)

/-- Draws until the low half of the product with `n` is at least `threshold`, so that no number
below `n` is favoured; the high half is then the number. Drawing on for `draws` times in vain does
not happen in practice. -/
def belowFrom (n threshold : Nat) : (draws : Nat) → (product : Nat) → Random → Nat × Random
  | 0, product, r => (product / wordSize, r)
  | draws + 1, product, r =>
    if threshold ≤ product % wordSize then (product / wordSize, r)
    else
      let (bits, r) := r.next
      belowFrom n threshold draws (bits.toNat * n) r

/-- A number below `n`, for a positive word `n`. -/
def below (r : Random) (n : Nat) : Nat × Random :=
  let (bits, r) := r.next
  let product := bits.toNat * n
  if n ≤ product % wordSize then (product / wordSize, r)
  else belowFrom n ((wordSize - n) % n) (wordSize) product r

theorem toNat_mul_lt (bits : UInt64) {n : Nat} (hn : 0 < n) : bits.toNat * n < wordSize * n :=
  Nat.mul_lt_mul_of_pos_right bits.toNat_lt hn

theorem belowFrom_lt {n : Nat} (threshold draws product : Nat) (r : Random)
    (h : product < wordSize * n) : (belowFrom n threshold draws product r).1 < n := by
  induction draws generalizing product r with
  | zero => exact Nat.div_lt_of_lt_mul h
  | succ draws ih =>
    unfold belowFrom
    split
    · exact Nat.div_lt_of_lt_mul h
    · exact ih _ _ (toNat_mul_lt _ (Nat.pos_of_ne_zero fun hn => by simp [hn] at h))

theorem below_lt (r : Random) {n : Nat} (hn : 0 < n) : (r.below n).1 < n := by
  simp only [below]
  split
  · exact Nat.div_lt_of_lt_mul (toNat_mul_lt _ hn)
  · exact belowFrom_lt _ _ _ _ (toNat_mul_lt _ hn)

def unitScale : Float := Float.ofBits 0x3C00000000000000

/-- Draws again while 63 random bits round up to one. -/
def unitFrom : (draws : Nat) → Random → Float × Random
  | 0, r => (0, r)
  | draws + 1, r =>
    let (bits, r) := r.next
    let value := (bits >>> 1).toFloat * unitScale
    if value == 1 then unitFrom draws r else (value, r)

/-- A double from zero up to and without one. -/
def unit (r : Random) : Float × Random := unitFrom (wordSize) r

def between (low high : Nat) (r : Random) : Nat × Random :=
  let draw := r.below (high - low + 1)
  (low + draw.1, draw.2)

/-- One step of a shuffle: the element at `index` changes places with one at or before it. -/
def shuffleStep {α : Type} (items : Array α × Random) (index : Nat) : Array α × Random :=
  let draw := items.2.below (index + 1)
  (items.1.swapIfInBounds index draw.1, draw.2)

def shuffle {α : Type} (items : List α) (r : Random) : List α × Random :=
  let indices := (List.range items.length).drop 1
  let shuffled := indices.foldl shuffleStep (items.toArray, r)
  (shuffled.1.toList, shuffled.2)

end Random

/-- Where random numbers come from: each draw is a function of the state and moves it on. -/
structure Generator where
  State : Type
  ofSeed : UInt64 → State
  /-- A number from the first bound up to the second, both of them included. -/
  between : (low high : Nat) → State → Nat × State
  /-- A double from zero up to and without one. -/
  unit : State → Float × State
  /-- The items in another order. -/
  shuffle : {α : Type} → List α → State → List α × State

def Random.generator : Generator where
  State := Random
  ofSeed := ofSeed
  between := between
  unit := unit
  shuffle := shuffle

end ExactCover
