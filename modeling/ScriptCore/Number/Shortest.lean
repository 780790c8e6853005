/-
The shortest decimal that rounds back to a given finite number.

A finite number is a whole count of `2 ^ -unitPlaces`, so it has an exact decimal expansion with
as many places, `expansion / 10 ^ unitPlaces`. Leaving off `n` digits of it means choosing a
multiple of `10 ^ n`, and only the two multiples next to the expansion have to be tried: the
decimals that round to the number form an interval around it, so if any multiple lies in the
interval, one of these two does. The search starts at a grid coarser than the whole expansion and
refines until a neighbour rounds back. Grid `0` is the expansion itself, so it always ends with an
answer, and `nearest_shortest` says that the answer rounds to the number.

Of two neighbours that both round back the nearer one is taken, and the larger when they are
equally near.
-/
import ScriptCore.Number.Rounding

set_option autoImplicit false

namespace ScriptCore

/-- The decimal `coefficient / 10 ^ places`. -/
structure Decimal where
  coefficient : Nat
  places : Nat
deriving DecidableEq, Repr

namespace Number

/-- The exact value of a finite magnitude, times `10 ^ unitPlaces`. -/
def expansion (magnitude : Nat) : Nat := units magnitude * Nat.pow 5 unitPlaces

/-- The decimal `count * 10 ^ grid / 10 ^ unitPlaces` rounds to the magnitude. -/
def readsBack (magnitude grid count : Nat) : Bool :=
  nearest (count * Nat.pow 10 grid) (Nat.pow 10 unitPlaces) == magnitude

/-- The multiple of `10 ^ grid` to print, if one of the two next to the expansion reads back. -/
def onGrid? (magnitude grid : Nat) : Option Nat :=
  let lower := expansion magnitude / Nat.pow 10 grid
  let rest := expansion magnitude % Nat.pow 10 grid
  let lowerFits := readsBack magnitude grid lower
  let upperFits := readsBack magnitude grid (lower + 1)
  if lowerFits && (!upperFits || decide (2 * rest < Nat.pow 10 grid)) then some lower
  else if upperFits then some (lower + 1)
  else none

/-- The decimal with `count` at the grid `10 ^ grid`. One of the two differences is zero: a grid
above one leaves no places, a grid below one needs no padding. -/
def decimalAt (grid count : Nat) : Decimal :=
  ⟨count * Nat.pow 10 (grid - unitPlaces), unitPlaces - grid⟩

/-- The answer of the coarsest grid up to the given one that has an answer. -/
def search (magnitude : Nat) : Nat → Decimal
  | 0 => decimalAt 0 (expansion magnitude)
  | grid + 1 =>
    ((onGrid? magnitude (grid + 1)).map (decimalAt (grid + 1))).getD (search magnitude grid)

/-- A grid coarser than the expansion. As `2 ^ 93 < 10 ^ 28`, a number of `b` bits has at most
`28 * b / 93 + 1` decimal digits. -/
def coarsest (magnitude : Nat) : Nat := 28 * ((expansion magnitude).log2 + 1) / 93 + 1

/-- The decimal printed for a finite magnitude. Zero has no first digit to search for. -/
def shortest (magnitude : Nat) : Decimal :=
  if magnitude = 0 then ⟨0, 0⟩ else search magnitude (coarsest magnitude)

/-! ## The result reads back -/

theorem readsBack_iff {magnitude grid count : Nat} :
    readsBack magnitude grid count = true ↔
      nearest (count * Nat.pow 10 grid) (Nat.pow 10 unitPlaces) = magnitude := by
  rw [readsBack, beq_iff_eq]

/-- The count at a grid and the decimal made of it are the same ratio. -/
theorem nearest_decimalAt (grid count : Nat) :
    nearest (decimalAt grid count).coefficient (Nat.pow 10 (decimalAt grid count).places) =
      nearest (count * Nat.pow 10 grid) (Nat.pow 10 unitPlaces) := by
  have hpos : ∀ n, 0 < 10 ^ n := fun n => Nat.pow_pos (by omega)
  simp only [decimalAt, Nat.pow_eq]
  by_cases h : grid ≤ unitPlaces
  · -- No padding: put back the places that were left off.
    have hplaces : 10 ^ (unitPlaces - grid) * 10 ^ grid = 10 ^ unitPlaces := by
      rw [← Nat.pow_add, Nat.sub_add_cancel h]
    rw [Nat.sub_eq_zero_of_le h, Nat.pow_zero, Nat.mul_one, ← hplaces,
      nearest_mul_mul _ _ _ (hpos grid)]
  · -- No places: the grid is a multiple of one.
    have hle : unitPlaces ≤ grid := Nat.le_of_not_le h
    have hgrid : 10 ^ (grid - unitPlaces) * 10 ^ unitPlaces = 10 ^ grid := by
      rw [← Nat.pow_add, Nat.sub_add_cancel hle]
    rw [Nat.sub_eq_zero_of_le hle, Nat.pow_zero, ← hgrid, ← Nat.mul_assoc,
      ← nearest_mul_mul (count * 10 ^ (grid - unitPlaces)) 1 _ (hpos unitPlaces), Nat.one_mul]

/-- The whole expansion reads back. -/
theorem readsBack_expansion {magnitude : Nat} (h : magnitude ≤ infiniteMagnitude) :
    readsBack magnitude 0 (expansion magnitude) = true := by
  have hpow : Nat.pow 10 unitPlaces = Nat.pow 2 unitPlaces * Nat.pow 5 unitPlaces :=
    Nat.mul_pow 2 5 unitPlaces
  have hfive : 0 < Nat.pow 5 unitPlaces := Nat.pow_pos (by omega)
  have hone : Nat.pow 10 0 = 1 := rfl
  rw [readsBack_iff, expansion, hpow, hone, Nat.mul_one, nearest_mul_mul _ _ _ hfive,
    nearest_units h]

/-- What a grid answers reads back. -/
theorem readsBack_of_onGrid? {magnitude grid count : Nat}
    (h : onGrid? magnitude grid = some count) : readsBack magnitude grid count = true := by
  simp only [onGrid?] at h
  generalize expansion magnitude / Nat.pow 10 grid = lower at h
  cases hl : readsBack magnitude grid lower <;>
    cases hu : readsBack magnitude grid (lower + 1) <;>
    simp only [hl, hu, Bool.false_and, Bool.true_and, Bool.not_true, Bool.not_false,
      Bool.true_or, Bool.false_or, Bool.false_eq_true, if_true, if_false, Option.some.injEq,
      reduceCtorEq] at h
  · rw [← h]; exact hu
  · rw [← h]; exact hl
  · split at h
    · rw [← Option.some.inj h]; exact hl
    · rw [← Option.some.inj h]; exact hu

theorem nearest_search {magnitude : Nat} (h : magnitude ≤ infiniteMagnitude) (grid : Nat) :
    nearest (search magnitude grid).coefficient (Nat.pow 10 (search magnitude grid).places) =
      magnitude := by
  induction grid with
  | zero => rw [search, nearest_decimalAt, readsBack_iff.1 (readsBack_expansion h)]
  | succ grid ih =>
    rw [search]
    cases hcount : onGrid? magnitude (grid + 1) with
    | some count =>
      rw [Option.map_some, Option.getD_some, nearest_decimalAt,
        readsBack_iff.1 (readsBack_of_onGrid? hcount)]
    | none => rw [Option.map_none, Option.getD_none, ih]

/-- The decimal printed for a finite magnitude rounds to it. -/
theorem nearest_shortest {magnitude : Nat} (h : magnitude ≤ infiniteMagnitude) :
    nearest (shortest magnitude).coefficient (Nat.pow 10 (shortest magnitude).places) =
      magnitude := by
  rw [shortest]
  split
  · next h0 => rw [h0]; simp [nearest, roundQuotient]
  · exact nearest_search h _

end Number

end ScriptCore
