/-
Printed numbers are as short as they can be, and of the shortest the closest.

The numbers that round to a magnitude form an interval around it (`RoundsTo.convex`). So if some
multiple of a power of ten rounds to the magnitude, one of the two multiples next to its exact value
does, and the search need not look at others (`onGrid?_ne_none_of_roundsTo`); and what it takes on a
grid is the closest of all that round back there (`onGrid?_closest`), the larger of two that are
equally close (`onGrid?_larger`). It takes the coarsest grid on which there is one
(`exists_coarsest`).

The coarsest grid is not yet the fewest digits. A decimal on a finer grid can do with fewer digits
only if a power of ten lies between it and the printed one. That power of ten rounds back too, and
all its digits but the first are zeros; so the printed decimal, on the coarsest grid, has one digit
itself. There remain the decimals of one digit on finer grids, which are all below that power of
ten. They cannot be closer, as a power of ten that rounds to a magnitude is hardly larger than the
magnitude (`power_le_of_roundsTo`). From the tenth magnitude on this follows from the distance to
the next one. Below, where the interval is wide, it has to be looked up: only one power of ten is
near enough to any of them.
-/
import Mathlib.Data.List.DropRight
import Mathlib.Tactic.IntervalCases
import ScriptCore.Proofs.ReadBack

set_option autoImplicit false

namespace ScriptCore

namespace Number

/-! ## The numbers that round to a magnitude -/

section Sides

variable {low high q : ℚ} (h : low < high)

include h

/-- Of two numbers the smaller one is nearer to what lies below their middle. -/
theorem low_nearer_iff : |low - q| < |high - q| ↔ 2 * q < low + high := by
  have hdiff : (high - q) ^ 2 - (low - q) ^ 2 = (high - low) * (low + high - 2 * q) := by ring
  rw [← sq_lt_sq, ← sub_pos, hdiff, mul_pos_iff_of_pos_left (sub_pos.2 h), sub_pos]

theorem high_nearer_iff : |high - q| < |low - q| ↔ low + high < 2 * q := by
  have hdiff : (low - q) ^ 2 - (high - q) ^ 2 = (high - low) * (2 * q - (low + high)) := by ring
  rw [← sq_lt_sq, ← sub_pos, hdiff, mul_pos_iff_of_pos_left (sub_pos.2 h), sub_pos]

theorem equally_near_iff : |low - q| = |high - q| ↔ 2 * q = low + high := by
  have hlow := low_nearer_iff (q := q) h
  have hhigh := high_nearer_iff (q := q) h
  constructor
  · intro heq
    rw [heq, lt_self_iff_false, false_iff, not_lt] at hlow
    rw [heq, lt_self_iff_false, false_iff, not_lt] at hhigh
    exact le_antisymm hhigh hlow
  · intro heq
    rw [heq, lt_self_iff_false, iff_false, not_lt] at hlow hhigh
    exact le_antisymm hhigh hlow

end Sides

variable {magnitude : Nat}

namespace RoundsTo

variable {q a b : ℚ} {other : Nat}

/-- What rounds to a magnitude is not above the middle to a larger one. -/
theorem above (h : RoundsTo q magnitude) (hother : other ≤ infiniteMagnitude)
    (hlt : magnitude < other) : 2 * q < exact magnitude + exact other ∨
      2 * q = exact magnitude + exact other ∧ magnitude % 2 = 0 := by
  have hexact := exact_strictMono hlt
  have hnear := h.2 other hother hlt.ne'
  rwa [low_nearer_iff hexact, equally_near_iff hexact] at hnear

/-- Nor is it below the middle to a smaller one. -/
theorem below (h : RoundsTo q magnitude) (hlt : other < magnitude) :
    exact other + exact magnitude < 2 * q ∨
      2 * q = exact other + exact magnitude ∧ magnitude % 2 = 0 := by
  have hexact := exact_strictMono hlt
  have hnear := h.2 other (hlt.le.trans h.1) hlt.ne
  rwa [high_nearer_iff hexact, eq_comm, equally_near_iff hexact] at hnear

/-- **The numbers that round to a magnitude form an interval.** A larger magnitude is excluded by
the upper end of it and a smaller one by the lower end. -/
theorem convex (ha : RoundsTo a magnitude) (hb : RoundsTo b magnitude) (haq : a ≤ q)
    (hqb : q ≤ b) : RoundsTo q magnitude := by
  refine ⟨ha.1, ?_⟩
  intro other hother hne
  rcases lt_or_gt_of_ne hne with hlt | hlt
  · have hexact := exact_strictMono hlt
    rw [high_nearer_iff hexact, eq_comm, equally_near_iff hexact]
    rcases ha.below hlt with hless | ⟨hmiddle, heven⟩
    · exact .inl (by linarith)
    · rcases haq.lt_or_eq with hless | rfl
      · exact .inl (by linarith)
      · exact .inr ⟨hmiddle, heven⟩
  · have hexact := exact_strictMono hlt
    rw [low_nearer_iff hexact, equally_near_iff hexact]
    rcases hb.above hother hlt with hless | ⟨hmiddle, heven⟩
    · exact .inl (by linarith)
    · rcases hqb.lt_or_eq with hless | rfl
      · exact .inl (by linarith)
      · exact .inr ⟨hmiddle, heven⟩

end RoundsTo

theorem exact_zero : exact 0 = 0 := by
  rw [exact_eq_units]
  simp [units]

theorem exact_pos (hpos : 0 < magnitude) : 0 < exact magnitude := by
  rw [← exact_zero]
  exact exact_strictMono hpos

theorem RoundsTo.pos {q : ℚ} (h : RoundsTo q magnitude) (hpos : 0 < magnitude) : 0 < q := by
  have hexact := exact_pos hpos
  rcases h.below hpos with hless | ⟨heq, -⟩
  · rw [exact_zero] at hless
    linarith
  · rw [exact_zero] at heq
    linarith

/-- The exact value rounds to the magnitude. -/
theorem roundsTo_exact (hfinite : magnitude ≤ infiniteMagnitude) :
    RoundsTo (exact magnitude) magnitude := by
  refine ⟨hfinite, fun other _ hne => .inl ?_⟩
  rw [sub_self, abs_zero, abs_pos, sub_ne_zero]
  exact fun heq => hne (exact_strictMono.injective heq)

theorem RoundsTo.le_middle {q : ℚ} (h : RoundsTo q magnitude)
    (hfinite : magnitude < infiniteMagnitude) :
    2 * q ≤ exact magnitude + exact (magnitude + 1) := by
  rcases h.above hfinite (Nat.lt_succ_self magnitude) with hless | ⟨heq, -⟩
  · exact hless.le
  · exact heq.le

/-- From one number to the next it is no more than one part in `n`, from the magnitude `n` on. -/
theorem mul_units_succ_le {n : Nat} (hn : n ≤ 2 ^ 52) (h : n ≤ magnitude) :
    n * units (magnitude + 1) ≤ (n + 1) * units magnitude := by
  obtain ⟨shift, s, rfl, hs, hshift⟩ := exists_shift magnitude
  have hle : n * (s + 1) ≤ (n + 1) * s := by
    have hns : n ≤ s := by omega
    linarith [Nat.mul_succ n s, Nat.succ_mul n s]
  rw [units_add (by omega) hshift, Nat.add_assoc, units_add (by omega) (by omega)]
  calc n * ((s + 1) * 2 ^ shift) = n * (s + 1) * 2 ^ shift := by ring
    _ ≤ (n + 1) * s * 2 ^ shift := Nat.mul_le_mul_right _ hle
    _ = (n + 1) * (s * 2 ^ shift) := by ring

/-- So what rounds to a magnitude exceeds it by half of that at most. -/
theorem RoundsTo.mul_le {q : ℚ} {n : Nat} (h : RoundsTo q magnitude)
    (hfinite : magnitude < infiniteMagnitude) (hn : n ≤ 2 ^ 52) (hle : n ≤ magnitude) :
    2 * n * q ≤ (2 * n + 1) * exact magnitude := by
  have hmiddle := h.le_middle hfinite
  have hnext : n * exact (magnitude + 1) ≤ (n + 1) * exact magnitude := by
    have hunits : (n : ℚ) * units (magnitude + 1) ≤ (n + 1) * units magnitude := by
      exact_mod_cast mul_units_succ_le hn hle
    rw [exact_eq_units, exact_eq_units, ← mul_div_assoc, ← mul_div_assoc]
    gcongr
  calc 2 * n * q = n * (2 * q) := by ring
    _ ≤ n * (exact magnitude + exact (magnitude + 1)) := by gcongr
    _ ≤ (2 * n + 1) * exact magnitude := by linarith

/-! ## Multiples of a power of ten -/

/-- The multiple of `10 ^ grid` as a number, with the places of the expansion. -/
def point (grid count : Nat) : ℚ := count * 10 ^ ((grid : ℤ) - unitPlaces)

theorem point_eq (grid count : Nat) :
    point grid count = ((count * 10 ^ grid : ℕ) : ℚ) / 10 ^ unitPlaces := by
  rw [point, zpow_sub₀ (by norm_num), zpow_natCast, zpow_natCast]
  push_cast
  ring

theorem exact_eq_expansion (magnitude : Nat) :
    exact magnitude = (expansion magnitude : ℚ) / 10 ^ unitPlaces := by
  have hten : (10 : ℚ) ^ unitPlaces = 2 ^ unitPlaces * 5 ^ unitPlaces := by
    rw [← mul_pow]
    norm_num
  rw [exact_eq_units, expansion, hten]
  push_cast [Nat.pow_eq]
  field_simp

theorem point_mono (grid : Nat) {first second : Nat} (h : first ≤ second) :
    point grid first ≤ point grid second := by
  unfold point
  gcongr

/-- A multiple of ten on one grid is a multiple on the next. -/
theorem point_mul_pow (grid count k : Nat) :
    point grid (count * 10 ^ k) = point (grid + k) count := by
  rw [point_eq, point_eq, Nat.mul_assoc, ← Nat.pow_add, Nat.add_comm k]

theorem readsBack_iff_roundsTo (grid count : Nat) :
    readsBack magnitude grid count = true ↔ RoundsTo (point grid count) magnitude := by
  have hround := roundsTo_nearest (count * 10 ^ grid)
    (show 0 < Nat.pow 10 unitPlaces from Nat.pow_pos (by omega))
  have hpoint : ((count * 10 ^ grid : ℕ) : ℚ) / (Nat.pow 10 unitPlaces : ℕ) = point grid count := by
    rw [point_eq, Nat.pow_eq]
    push_cast
    rfl
  rw [hpoint] at hround
  rw [readsBack_iff]
  constructor
  · rintro rfl
    exact hround
  · intro h
    exact hround.unique h

/-- The exact value stands between two multiples of a grid, at the remainder above the lower. -/
theorem point_around (magnitude grid : Nat) :
    ∃ rest : ℚ, 0 ≤ rest ∧ rest < point grid 1 ∧
      (2 * (expansion magnitude % 10 ^ grid) < 10 ^ grid ↔ 2 * rest < point grid 1) ∧
      point grid (expansion magnitude / 10 ^ grid) = exact magnitude - rest ∧
      point grid (expansion magnitude / 10 ^ grid + 1) = exact magnitude - rest + point grid 1 := by
  have hpos : (0 : ℚ) < 10 ^ unitPlaces := by positivity
  have hlt : expansion magnitude % 10 ^ grid < 10 ^ grid := Nat.mod_lt _ (Nat.pow_pos (by omega))
  have hsplit := Nat.div_add_mod (expansion magnitude) (10 ^ grid)
  refine ⟨(expansion magnitude % 10 ^ grid : ℕ) / 10 ^ unitPlaces, by positivity, ?_, ?_, ?_, ?_⟩
  · rw [point_eq, Nat.one_mul, div_lt_div_iff_of_pos_right hpos, Nat.cast_lt]
    exact hlt
  · rw [point_eq, Nat.one_mul, ← mul_div_assoc, div_lt_div_iff_of_pos_right hpos]
    exact_mod_cast Iff.rfl
  · rw [point_eq, exact_eq_expansion, ← sub_div]
    congr 1
    rw [eq_sub_iff_add_eq]
    exact_mod_cast (by linarith)
  · rw [point_eq, exact_eq_expansion, point_eq, ← sub_div, ← add_div]
    congr 1
    rw [sub_add_eq_add_sub, eq_sub_iff_add_eq]
    exact_mod_cast (by linarith)

/-- If a multiple rounds to the magnitude, so does the one next to the exact value on its side. -/
theorem readsBack_neighbour (hfinite : magnitude ≤ infiniteMagnitude) {grid count : Nat}
    (h : RoundsTo (point grid count) magnitude) :
    count ≤ expansion magnitude / 10 ^ grid ∧
        readsBack magnitude grid (expansion magnitude / 10 ^ grid) = true ∨
      expansion magnitude / 10 ^ grid + 1 ≤ count ∧
        readsBack magnitude grid (expansion magnitude / 10 ^ grid + 1) = true := by
  have hexact := roundsTo_exact hfinite
  obtain ⟨rest, hrest, hlt, -, hlower, hupper⟩ := point_around magnitude grid
  rw [readsBack_iff_roundsTo, readsBack_iff_roundsTo]
  rcases Nat.lt_or_ge (expansion magnitude / 10 ^ grid) count with hcount | hcount
  · exact .inr ⟨hcount, hexact.convex h (by linarith) (point_mono grid hcount)⟩
  · exact .inl ⟨hcount, h.convex hexact (point_mono grid hcount) (by linarith)⟩

/-- **A grid misses nothing.** -/
theorem onGrid?_ne_none_of_roundsTo (hfinite : magnitude ≤ infiniteMagnitude) {grid count : Nat}
    (h : RoundsTo (point grid count) magnitude) : onGrid? magnitude grid ≠ none := by
  rcases readsBack_neighbour hfinite h with ⟨-, hread⟩ | ⟨-, hread⟩
  · exact onGrid?_ne_none hread (.inl rfl)
  · exact onGrid?_ne_none hread (.inr rfl)

/-- The neighbour that a grid passes over does not read back, or is no closer. -/
theorem onGrid?_eq_some {grid count : Nat} (h : onGrid? magnitude grid = some count) :
    count = expansion magnitude / 10 ^ grid ∧
        (readsBack magnitude grid (expansion magnitude / 10 ^ grid + 1) = true →
          2 * (expansion magnitude % 10 ^ grid) < 10 ^ grid) ∨
      count = expansion magnitude / 10 ^ grid + 1 ∧
        (readsBack magnitude grid (expansion magnitude / 10 ^ grid) = true →
          ¬ 2 * (expansion magnitude % 10 ^ grid) < 10 ^ grid) := by
  unfold onGrid? at h
  simp only [Nat.pow_eq] at h
  split_ifs at h with hlower hupper
  · left
    simp only [Bool.and_eq_true, Bool.or_eq_true, Bool.not_eq_true', decide_eq_true_eq] at hlower
    refine ⟨(Option.some.inj h).symm, fun hread => hlower.2.resolve_left ?_⟩
    rw [hread]
    exact Bool.true_eq_false.mp
  · right
    refine ⟨(Option.some.inj h).symm, fun hread hless => hlower ?_⟩
    simp only [hread, hless, decide_true, Bool.or_true, Bool.and_true]

/-- **A grid takes the closest multiple** of those that round to the magnitude. -/
theorem onGrid?_closest (hfinite : magnitude ≤ infiniteMagnitude) {grid count other : Nat}
    (h : onGrid? magnitude grid = some count) (hother : RoundsTo (point grid other) magnitude) :
    |point grid count - exact magnitude| ≤ |point grid other - exact magnitude| := by
  obtain ⟨rest, hrest, hlt, hhalf, hlower, hupper⟩ := point_around magnitude grid
  -- Replace the other multiple by the neighbour on its side, which is no farther away.
  rcases readsBack_neighbour hfinite hother with ⟨hle, hread⟩ | ⟨hle, hread⟩
  · have hmono := point_mono grid hle
    have hfar : rest ≤ |point grid other - exact magnitude| := by
      rw [abs_of_nonpos (by linarith)]
      linarith
    rcases onGrid?_eq_some h with ⟨rfl, -⟩ | ⟨rfl, hchoice⟩
    · rw [hlower, abs_of_nonpos (by linarith)]
      linarith
    · have hmore := hchoice hread
      rw [hhalf, not_lt] at hmore
      rw [hupper, abs_of_nonneg (by linarith)]
      linarith
  · have hmono := point_mono grid hle
    have hfar : point grid 1 - rest ≤ |point grid other - exact magnitude| := by
      rw [abs_of_nonneg (by linarith)]
      linarith
    rcases onGrid?_eq_some h with ⟨rfl, hchoice⟩ | ⟨rfl, -⟩
    · have hless := hchoice hread
      rw [hhalf] at hless
      rw [hlower, abs_of_nonpos (by linarith)]
      linarith
    · rw [hupper, abs_of_nonneg (by linarith)]
      linarith

/-- Of two multiples that are equally near it takes the larger one. -/
theorem onGrid?_larger (hfinite : magnitude ≤ infiniteMagnitude) {grid count other : Nat}
    (h : onGrid? magnitude grid = some count) (hother : RoundsTo (point grid other) magnitude)
    (htie : |point grid other - exact magnitude| = |point grid count - exact magnitude|) :
    point grid other ≤ point grid count := by
  obtain ⟨rest, hrest, hlt, hhalf, hlower, hupper⟩ := point_around magnitude grid
  have hcount := onGrid?_eq_some h
  rcases readsBack_neighbour hfinite hother with ⟨hle, -⟩ | ⟨hle, hread⟩
  · -- The other one is not above the exact value, and what is taken is not below its neighbour.
    refine point_mono grid ?_
    rcases hcount with ⟨rfl, -⟩ | ⟨rfl, -⟩
    · exact hle
    · omega
  · have hmono := point_mono grid hle
    rcases hcount with ⟨rfl, hchoice⟩ | ⟨rfl, -⟩
    · have hless := hchoice hread
      rw [hhalf] at hless
      rw [hlower, abs_of_nonneg (by linarith), abs_of_nonpos (by linarith)] at htie
      linarith
    · rw [hupper, abs_of_nonneg (by linarith), abs_of_nonneg (by linarith)] at htie
      linarith

/-! ## The coarsest grid -/

/-- The search answers on the coarsest grid that has an answer, of those it tries. -/
theorem search_coarsest (hfinite : magnitude ≤ infiniteMagnitude) (top : Nat) :
    ∃ grid count, search magnitude top = decimalAt grid count ∧
      onGrid? magnitude grid = some count ∧
      ∀ coarser, grid < coarser → coarser ≤ top → onGrid? magnitude coarser = none := by
  induction top with
  | zero => exact ⟨0, _, rfl, onGrid?_zero hfinite, fun coarser hlt hle => by omega⟩
  | succ top ih =>
    rw [search]
    rcases hanswer : onGrid? magnitude (top + 1) with _ | count
    · obtain ⟨grid, count, hsearch, hgrid, hnone⟩ := ih
      refine ⟨grid, count, hsearch, hgrid, fun coarser hlt hle => ?_⟩
      rcases Nat.lt_or_eq_of_le hle with hle | rfl
      · exact hnone coarser hlt (by omega)
      · exact hanswer
    · exact ⟨top + 1, count, rfl, hanswer, fun coarser hlt hle => by omega⟩

/-- The multiple is what its grid answers with, and no multiple of a larger power of ten rounds to
the magnitude. -/
structure Coarsest (magnitude grid count : Nat) : Prop where
  answer : onGrid? magnitude grid = some count
  excluded : ∀ coarser other, grid < coarser → ¬ RoundsTo (point coarser other) magnitude

/-- **The printed decimal is on the coarsest grid.** Beyond the grid where the search starts, the
multiples are too large. -/
theorem exists_coarsest (hpos : 0 < magnitude) (hfinite : magnitude < infiniteMagnitude) :
    ∃ grid count, shortest magnitude = decimalAt grid count ∧ Coarsest magnitude grid count := by
  obtain ⟨grid, count, hsearch, hgrid, hnone⟩ :=
    search_coarsest hfinite.le (coarsest magnitude)
  refine ⟨grid, count, by rw [shortest, if_neg hpos.ne', hsearch], hgrid, ?_⟩
  intro coarser other hlt hround
  by_cases hle : coarser ≤ coarsest magnitude
  · exact onGrid?_ne_none_of_roundsTo hfinite.le hround (hnone coarser hlt hle)
  · have hother : 0 < other := by
      rcases Nat.eq_zero_or_pos other with rfl | hother
      · have hzero := hround.pos hpos
        simp [point] at hzero
      · exact hother
    have hlarge : 2 * expansion magnitude ≤ other * 10 ^ coarser := by
      calc 2 * expansion magnitude ≤ 10 ^ coarsest magnitude * 10 := by
            have hstart := expansion_lt_coarsest magnitude
            omega
        _ = 10 ^ (coarsest magnitude + 1) := (pow_succ 10 _).symm
        _ ≤ 10 ^ coarser := Nat.pow_le_pow_right (by omega) (by omega)
        _ ≤ other * 10 ^ coarser := Nat.le_mul_of_pos_left _ hother
    have hbound := hround.mul_le (n := 1) hfinite (by norm_num) hpos
    push_cast at hbound
    have hexact := exact_pos hpos
    have hpoint : 2 * exact magnitude ≤ point coarser other := by
      rw [point_eq, exact_eq_expansion, ← mul_div_assoc]
      gcongr
      exact_mod_cast hlarge
    linarith

namespace Coarsest

variable {grid count : Nat}

theorem roundsTo (h : Coarsest magnitude grid count) : RoundsTo (point grid count) magnitude :=
  (readsBack_iff_roundsTo grid count).1 (readsBack_of_onGrid? h.answer)

/-- What is printed does not end in a zero that could be left off. -/
theorem mod_ten (h : Coarsest magnitude grid count) : count % 10 ≠ 0 := by
  intro hten
  obtain ⟨tens, rfl⟩ : ∃ tens, count = tens * 10 ^ 1 := ⟨count / 10, by omega⟩
  have hround := h.roundsTo
  rw [point_mul_pow] at hround
  exact h.excluded (grid + 1) tens (Nat.lt_succ_self grid) hround

end Coarsest

/-! ## Powers of ten -/

/-- The unit is a little less than half a power of ten. -/
theorem five_pow_bounds :
    19 * 10 ^ 750 ≤ 4 * 5 ^ unitPlaces ∧ 5 ^ unitPlaces ≤ 5 * 10 ^ 750 := by
  unfold unitPlaces
  decide +kernel

/-- With a unit like that, only the second of the first nine multiples has a power of ten between
itself and the middle to the next. -/
theorem power_le_of_lt_ten {unit places count grid : Nat} (hfew : 19 * 10 ^ places ≤ 4 * unit)
    (hmany : unit ≤ 5 * 10 ^ places) (hpos : 0 < count) (hsmall : count < 10)
    (hlow : count * unit < 10 ^ grid) (hhigh : 2 * 10 ^ grid ≤ (2 * count + 1) * unit) :
    19 * 10 ^ grid ≤ 20 * (count * unit) := by
  have hone : unit ≤ count * unit := Nat.le_mul_of_pos_left _ hpos
  have hnine : (2 * count + 1) * unit ≤ 19 * unit := Nat.mul_le_mul_right _ (by omega)
  have hpower : 0 < 10 ^ places := Nat.pow_pos (by omega)
  have hgrid : grid = places + 1 := by
    rcases Nat.lt_trichotomy grid (places + 1) with hless | heq | hmore
    · have hle : 10 ^ grid ≤ 10 ^ places := Nat.pow_le_pow_right (by omega) (by omega)
      omega
    · exact heq
    · have hle : 10 ^ (places + 2) ≤ 10 ^ grid := Nat.pow_le_pow_right (by omega) hmore
      rw [pow_add] at hle
      omega
  rw [hgrid, pow_succ] at hlow hhigh ⊢
  generalize 10 ^ places = power at *
  interval_cases count <;> omega

/-- **A power of ten that rounds to a magnitude is hardly larger.** -/
theorem power_le_of_roundsTo {grid : Nat} (hpos : 0 < magnitude)
    (hfinite : magnitude < infiniteMagnitude) (h : RoundsTo (point grid 1) magnitude) :
    19 * point grid 1 ≤ 20 * exact magnitude := by
  have hscale : (0 : ℚ) < 10 ^ unitPlaces := by positivity
  by_cases hlarge : 10 ≤ magnitude
  · have hbound := h.mul_le hfinite (by norm_num) hlarge
    push_cast at hbound
    have hexact := exact_pos hpos
    linarith
  · -- The first magnitudes are the multiples of the unit.
    have hunits : ∀ s ≤ 2 ^ 53, units s = s := by
      intro s hs
      have hadd := units_add hs (.inl rfl)
      rwa [Nat.zero_mul, Nat.zero_add, Nat.pow_zero, Nat.mul_one] at hadd
    have hexpansion : ∀ s ≤ 2 ^ 53, exact s = ((s * 5 ^ unitPlaces : ℕ) : ℚ) / 10 ^ unitPlaces := by
      intro s hs
      rw [exact_eq_expansion, expansion, hunits s hs, Nat.pow_eq]
    rw [point_eq, Nat.one_mul, hexpansion magnitude (by omega), ← mul_div_assoc, ← mul_div_assoc,
      div_le_div_iff_of_pos_right hscale]
    have hhigh : 2 * 10 ^ grid ≤ (2 * magnitude + 1) * 5 ^ unitPlaces := by
      have hmiddle := h.le_middle hfinite
      rw [point_eq, Nat.one_mul, hexpansion magnitude (by omega),
        hexpansion (magnitude + 1) (by omega), ← mul_div_assoc, ← add_div,
        div_le_div_iff_of_pos_right hscale] at hmiddle
      have hcount : 2 * 10 ^ grid ≤
          magnitude * 5 ^ unitPlaces + (magnitude + 1) * 5 ^ unitPlaces := by
        exact_mod_cast hmiddle
      linarith
    obtain ⟨hfew, hmany⟩ := five_pow_bounds
    rcases Nat.lt_or_ge (magnitude * 5 ^ unitPlaces) (10 ^ grid) with hlow | hlow
    · have hpower := power_le_of_lt_ten hfew hmany hpos (by omega) hlow hhigh
      exact_mod_cast hpower
    · have hcount : 19 * 10 ^ grid ≤ 20 * (magnitude * 5 ^ unitPlaces) := by omega
      exact_mod_cast hcount

/-! ## Fewest digits -/

/-- A decimal of one digit below a power of ten is no closer than the power, if that rounds to the
magnitude. -/
theorem power_closer_than_digit (hpos : 0 < magnitude) (hfinite : magnitude < infiniteMagnitude)
    {grid digit : Nat} {exponent : ℤ} (hround : RoundsTo (point grid 1) magnitude)
    (hdigit : digit < 10) (h : RoundsTo (digit * 10 ^ exponent) magnitude)
    (hfine : exponent ≤ grid - unitPlaces) (hless : digit * 10 ^ exponent < point grid 1) :
    |point grid 1 - exact magnitude| ≤ |digit * 10 ^ exponent - exact magnitude| := by
  have hpoint : point grid 1 = (10 : ℚ) ^ ((grid : ℤ) - unitPlaces) := by
    rw [point, Nat.cast_one, one_mul]
  -- On the grid itself there is no other multiple below the first.
  have hfiner : exponent + 1 ≤ grid - unitPlaces := by
    by_contra hcoarse
    obtain rfl : exponent = grid - unitPlaces := by omega
    have hdigitPos : 1 ≤ digit := by
      rcases Nat.eq_zero_or_pos digit with rfl | hdigitPos
      · have hzero := h.pos hpos
        rw [Nat.cast_zero, zero_mul] at hzero
        exact absurd hzero (lt_irrefl 0)
      · exact hdigitPos
    exact absurd (point_mono grid hdigitPos) hless.not_ge
  have hstep : 10 ^ exponent * 10 ≤ point grid 1 := by
    rw [hpoint, ← zpow_add_one₀ (by norm_num)]
    exact zpow_le_zpow_right₀ (by norm_num) hfiner
  have hnine : (digit : ℚ) * 10 ^ exponent ≤ 9 * 10 ^ exponent := by
    gcongr
    exact_mod_cast Nat.le_of_lt_succ hdigit
  have hnear := power_le_of_roundsTo hpos hfinite hround
  rcases le_total (point grid 1) (exact magnitude) with hle | hle
  · rw [abs_of_nonpos (by linarith), abs_of_nonpos (by linarith)]
    linarith
  · rw [abs_of_nonneg (by linarith), abs_of_nonpos (by linarith)]
    linarith

/-- **The coarsest grid has the fewest digits.** A decimal `other * 10 ^ exponent` that rounds to
the magnitude has at least as many digits as what is taken on the coarsest grid. If it has as many
it is no closer, and if it is as close it is no larger. The digits are counted by the powers of ten
next to the coefficients. -/
theorem Coarsest.fewest_digits (hpos : 0 < magnitude) (hfinite : magnitude < infiniteMagnitude)
    {grid count k : Nat} (hgrid : Coarsest magnitude grid count) (hcount : 10 ^ k ≤ count)
    {other k' : Nat} {exponent : ℤ} (hother : other < 10 ^ (k' + 1))
    (h : RoundsTo (other * 10 ^ exponent) magnitude) :
    k ≤ k' ∧ (k' = k →
      |point grid count - exact magnitude| ≤ |other * 10 ^ exponent - exact magnitude| ∧
        (|other * 10 ^ exponent - exact magnitude| = |point grid count - exact magnitude| →
          other * 10 ^ exponent ≤ point grid count)) := by
  have hten : (1 : ℚ) < 10 := by norm_num
  -- The other decimal is on no coarser grid.
  have hfine : exponent ≤ grid - unitPlaces := by
    by_contra hlarge
    obtain ⟨coarser, hexponent⟩ : ∃ coarser : ℕ, exponent = coarser - unitPlaces :=
      ⟨(exponent + unitPlaces).toNat, by omega⟩
    rw [hexponent] at h
    exact hgrid.excluded coarser other (by omega) h
  have hpower : point grid (10 ^ k) = (10 : ℚ) ^ (k + (grid - unitPlaces) : ℤ) := by
    rw [point, zpow_add₀ (by norm_num), zpow_natCast, Nat.cast_pow, Nat.cast_ofNat]
  rcases lt_or_ge ((other : ℚ) * 10 ^ exponent) (point grid (10 ^ k)) with hless | hmore
  · -- The power of ten between the two rounds to the magnitude, so it is not on a coarser grid.
    have hround : RoundsTo (point grid (10 ^ k)) magnitude :=
      h.convex hgrid.roundsTo hless.le (point_mono grid hcount)
    have hk : k = 0 := by
      by_contra hk
      rw [← Nat.one_mul (10 ^ k), point_mul_pow] at hround
      exact hgrid.excluded (grid + k) 1 (by omega) hround
    subst hk
    refine ⟨Nat.zero_le k', ?_⟩
    rintro rfl
    rw [pow_zero] at hless hround hcount
    refine ⟨?_, fun _ => hless.le.trans (point_mono grid hcount)⟩
    exact (onGrid?_closest hfinite.le hgrid.answer hround).trans
      (power_closer_than_digit hpos hfinite hround hother h hfine hless)
  · -- The leading digits compare as the exponents do.
    have hleading : (k : ℤ) + (grid - unitPlaces) < (k' + 1 : ℕ) + exponent := by
      rw [← zpow_lt_zpow_iff_right₀ hten, ← hpower]
      refine hmore.trans_lt ?_
      rw [zpow_add₀ (by norm_num), zpow_natCast]
      gcongr
      exact_mod_cast hother
    refine ⟨by omega, ?_⟩
    rintro rfl
    obtain rfl : exponent = grid - unitPlaces := by omega
    exact ⟨onGrid?_closest hfinite.le hgrid.answer h, onGrid?_larger hfinite.le hgrid.answer h⟩

end Number

/-! ## Significant digits -/

section Digits

variable {c : Char} {cs : List Char}

theorem ofDigitChars_split (l r : List Char) :
    Nat.ofDigitChars 10 (l ++ r) 0 =
      10 ^ r.length * Nat.ofDigitChars 10 l 0 + Nat.ofDigitChars 10 r 0 := by
  rw [Nat.ofDigitChars_append, Nat.ofDigitChars_eq_ofDigitChars_zero]

theorem ofDigitChars_singleton (c : Char) : Nat.ofDigitChars 10 [c] 0 = c.toNat - '0'.toNat := by
  rw [Nat.ofDigitChars_cons, Nat.mul_zero, Nat.zero_add]
  rfl

theorem ofDigitChars_zeros (h : ∀ c ∈ cs, c = '0') : Nat.ofDigitChars 10 cs 0 = 0 := by
  rw [List.eq_replicate_of_mem h, Nat.ofDigitChars_replicate_zero, Nat.mul_zero]

/-- Zeros in front are worth nothing. -/
theorem ofDigitChars_dropWhile (l : List Char) :
    Nat.ofDigitChars 10 l 0 = Nat.ofDigitChars 10 (l.dropWhile (· == '0')) 0 := by
  have hzeros : ∀ c ∈ l.takeWhile (· == '0'), c = '0' := by
    intro c hc
    have hzero := List.mem_takeWhile_imp hc
    exact beq_iff_eq.1 hzero
  have hsplit := ofDigitChars_split (l.takeWhile (· == '0')) (l.dropWhile (· == '0'))
  rwa [List.takeWhile_append_dropWhile, ofDigitChars_zeros hzeros, Nat.mul_zero,
    Nat.zero_add] at hsplit

/-- Zeros at the end are worth a factor of ten each. -/
theorem ofDigitChars_rdropWhile (l : List Char) :
    Nat.ofDigitChars 10 l 0 = 10 ^ (l.rtakeWhile (· == '0')).length *
      Nat.ofDigitChars 10 (l.rdropWhile (· == '0')) 0 := by
  have hzeros : ∀ c ∈ l.rtakeWhile (· == '0'), c = '0' := by
    intro c hc
    have hzero := List.mem_rtakeWhile_imp hc
    exact beq_iff_eq.1 hzero
  have hsplit := ofDigitChars_split (l.rdropWhile (· == '0')) (l.rtakeWhile (· == '0'))
  rwa [List.rdropWhile_append_rtakeWhile, ofDigitChars_zeros hzeros, Nat.add_zero] at hsplit

/-- The value of a digit. -/
theorem digit_bounds (h : c.isDigit = true) :
    c.toNat - '0'.toNat < 10 ∧ (c ≠ '0' → 0 < c.toNat - '0'.toNat) := by
  have hbounds := Char.isDigit_iff_toNat.1 h
  have hzero : '0'.toNat = 48 := rfl
  have hnine : '9'.toNat = 57 := rfl
  refine ⟨by omega, fun hne => ?_⟩
  have hcode : c.toNat ≠ 48 := fun heq => hne (Char.toNat_inj.1 heq)
  omega

theorem ofDigitChars_lt (h : ∀ c ∈ cs, c.isDigit = true) :
    Nat.ofDigitChars 10 cs 0 < 10 ^ cs.length := by
  induction cs with
  | nil => exact Nat.one_pos
  | cons c cs ih =>
    have hfirst := (digit_bounds (h c List.mem_cons_self)).1
    have hrest := ih fun c hc => h c (List.mem_cons_of_mem _ hc)
    have hplace : 10 ^ cs.length * (c.toNat - '0'.toNat) ≤ 10 ^ cs.length * 9 :=
      Nat.mul_le_mul_left _ (Nat.le_of_lt_succ hfirst)
    rw [← List.singleton_append, ofDigitChars_split, ofDigitChars_singleton, List.singleton_append,
      List.length_cons, pow_succ]
    omega

/-- A first digit other than zero counts for what its place is worth. -/
theorem le_ofDigitChars (hdigit : c.isDigit = true) (hne : c ≠ '0') :
    10 ^ cs.length ≤ Nat.ofDigitChars 10 (c :: cs) 0 := by
  have hfirst := (digit_bounds hdigit).2 hne
  rw [← List.singleton_append, ofDigitChars_split, ofDigitChars_singleton]
  exact Nat.le_add_right_of_le (Nat.le_mul_of_pos_right _ hfirst)

/-- The last digit is what is left over by ten. -/
theorem ofDigitChars_mod_ten (hdigit : c.isDigit = true) (hne : c ≠ '0') :
    Nat.ofDigitChars 10 (cs ++ [c]) 0 % 10 ≠ 0 := by
  obtain ⟨hlt, hlast⟩ := digit_bounds hdigit
  have hlast := hlast hne
  rw [ofDigitChars_split, ofDigitChars_singleton, List.length_singleton, pow_one]
  omega

end Digits

namespace Numeral

/-- There are digits and nothing else. -/
def Digital (n : Numeral) : Prop := ∀ c ∈ n.whole ++ n.fraction, c.isDigit = true

/-- The digits without the zeros in front of all others. -/
def leading (n : Numeral) : List Char := (n.whole ++ n.fraction).dropWhile (· == '0')

/-- The digits that count: neither the zeros in front nor those at the end. -/
def significant (n : Numeral) : List Char := n.leading.rdropWhile (· == '0')

/-- The number with its sign. -/
def value (n : Numeral) : ℚ := if n.negative then -n.amount else n.amount

/-- The significant digits, read as a whole number. -/
def coefficient (n : Numeral) : Nat := Nat.ofDigitChars 10 n.significant 0

/-- The power of ten that the coefficient is to be multiplied by. -/
def exponent (n : Numeral) : ℤ :=
  (n.leading.rtakeWhile (· == '0')).length - n.fraction.length

variable {n : Numeral}

/-- Zeros at either end of the digits move the point and nothing else. -/
theorem amount_eq (n : Numeral) : n.amount = n.coefficient * 10 ^ n.exponent := by
  have hjoined : n.amount =
      (Nat.ofDigitChars 10 (n.whole ++ n.fraction) 0 : ℚ) / 10 ^ n.fraction.length := by
    rw [amount, ofDigitChars_split]
    push_cast
    field_simp
  have hfront := ofDigitChars_dropWhile (n.whole ++ n.fraction)
  have hend := ofDigitChars_rdropWhile n.leading
  rw [← leading] at hfront
  rw [← significant, ← coefficient] at hend
  rw [hjoined, hfront, hend, exponent, zpow_sub₀ (by norm_num), zpow_natCast, zpow_natCast]
  push_cast
  ring

theorem Canonical.digital (h : n.Canonical) : n.Digital :=
  List.forall_mem_append.2 ⟨h.whole_digits, h.fraction_digits⟩

theorem Digital.significant (h : n.Digital) : ∀ c ∈ n.significant, c.isDigit = true := by
  intro c hc
  have hleading : c ∈ n.leading := (List.rdropWhile_prefix _ _).subset hc
  exact h c ((List.dropWhile_suffix _).subset hleading)

theorem head_significant_ne (n : Numeral) (h : n.significant ≠ []) :
    n.significant.head h ≠ '0' := by
  obtain ⟨rest, hrest⟩ : n.significant <+: n.leading := List.rdropWhile_prefix _ _
  have hhead : n.leading.head? = some (n.significant.head h) := by
    rw [← hrest, List.head?_append_of_ne_nil _ h, List.head?_eq_some_head h]
  have hnot := List.head?_dropWhile_not (· == '0') (n.whole ++ n.fraction)
  rw [← leading, hhead] at hnot
  exact beq_eq_false_iff_ne.1 hnot

theorem getLast_significant_ne (n : Numeral) (h : n.significant ≠ []) :
    n.significant.getLast h ≠ '0' := by
  intro hzero
  have hnot := List.rdropWhile_last_not _ _ h
  exact hnot (beq_iff_eq.2 hzero)

/-- There are `k + 1` significant digits, and the coefficient has as many: it lies between two
powers of ten, and is no multiple of ten. -/
theorem Digital.coefficient_bounds (h : n.Digital) (hne : n.amount ≠ 0) :
    ∃ k, n.significant.length = k + 1 ∧ 10 ^ k ≤ n.coefficient ∧ n.coefficient < 10 ^ (k + 1) ∧
      n.coefficient % 10 ≠ 0 := by
  have hdigits := h.significant
  have hsome : n.significant ≠ [] := by
    intro hnil
    apply hne
    rw [amount_eq, coefficient, hnil]
    simp
  have hmod : n.coefficient % 10 ≠ 0 := by
    rw [coefficient, ← List.dropLast_append_getLast hsome]
    exact ofDigitChars_mod_ten (hdigits _ (List.getLast_mem hsome)) (n.getLast_significant_ne hsome)
  have hlt : n.coefficient < 10 ^ n.significant.length := ofDigitChars_lt hdigits
  have hfirst := n.head_significant_ne hsome
  obtain ⟨c, cs, hcons⟩ := List.exists_cons_of_ne_nil hsome
  simp only [hcons, List.head_cons] at hfirst
  have hlength : n.significant.length = cs.length + 1 := by rw [hcons, List.length_cons]
  refine ⟨cs.length, hlength, ?_, hlength ▸ hlt, hmod⟩
  rw [coefficient, hcons]
  exact le_ofDigitChars (hdigits c (hcons ▸ List.mem_cons_self)) hfirst

/-- A coefficient without a zero at its end is told by the number. -/
theorem coefficient_unique {c c' : Nat} {e e' : ℤ} (hc : c % 10 ≠ 0) (hc' : c' % 10 ≠ 0)
    (h : (c : ℚ) * 10 ^ e = c' * 10 ^ e') : c = c' := by
  -- The two come in either order of their exponents.
  wlog hle : e ≤ e' generalizing c c' e e'
  · exact (this hc' hc h.symm (by omega)).symm
  obtain ⟨k, rfl⟩ : ∃ k : ℕ, e' = k + e := ⟨(e' - e).toNat, by omega⟩
  rw [zpow_add₀ (by norm_num), ← mul_assoc, zpow_natCast] at h
  have hcount : c = c' * 10 ^ k := by
    have hq := mul_right_cancel₀ (zpow_ne_zero e (by norm_num)) h
    exact_mod_cast hq
  rcases Nat.eq_zero_or_pos k with rfl | hk
  · rwa [pow_zero, Nat.mul_one] at hcount
  · have hten : 10 ∣ c := hcount ▸ (dvd_pow_self 10 hk.ne').mul_left c'
    omega

end Numeral

/-! ## Printed numbers -/

namespace Number

/-- The number that a finite pattern stands for. -/
def value (x : Number) : ℚ := if x.isNegative then -exact x.magnitude else exact x.magnitude

/-- With the same sign, numeral and number are as far apart as without. -/
theorem abs_value_sub_value {n : Numeral} {x : Number} (hsign : x.isNegative = n.negative) :
    |n.value - x.value| = |n.amount - exact x.magnitude| := by
  unfold Numeral.value value
  rw [hsign]
  rcases n.negative with _ | _
  · rfl
  · simp only [if_true]
    rw [neg_sub_neg, abs_sub_comm]

theorem decimalAt_eq_point (grid count : Nat) :
    ((decimalAt grid count).coefficient : ℚ) / 10 ^ (decimalAt grid count).places =
      point grid count := by
  have hsplit : (grid : ℤ) - unitPlaces =
      ((grid - unitPlaces : ℕ) : ℤ) - (unitPlaces - grid : ℕ) := by
    omega
  rw [point, hsplit, zpow_sub₀ (by norm_num), zpow_natCast, zpow_natCast]
  simp only [decimalAt, Nat.pow_eq]
  push_cast
  ring

/-- No numeral that rounds to a number other than zero has fewer significant digits than the one it
is written as; none with as many is closer, and none as close is larger. -/
theorem numeral_fewest_digits {x : Number} (hx : x.isFinite = true) (hzero : x.isZero = false)
    {n : Numeral} (hn : n.Digital) (hother : n.RoundsTo x) :
    x.numeral.significant.length ≤ n.significant.length ∧
      (n.significant.length = x.numeral.significant.length →
        |x.numeral.value - x.value| ≤ |n.value - x.value| ∧
          (|n.value - x.value| = |x.numeral.value - x.value| → n.amount ≤ x.numeral.amount)) := by
  have hround := (numeral_roundsTo_iff hx x).2 rfl
  have hpos : 0 < x.magnitude := Nat.pos_of_ne_zero (beq_eq_false_iff_ne.1 hzero)
  have hfinite := magnitude_lt_of_isFinite hx
  obtain ⟨grid, count, hshortest, hgrid⟩ := exists_coarsest hpos hfinite
  have hamount : x.numeral.amount = point grid count := by
    rw [numeral, Decimal.amount_numeral, hshortest, decimalAt_eq_point]
  obtain ⟨k, hlength, hlow, -, hmod⟩ :=
    (canonical_numeral hx).digital.coefficient_bounds (hround.2.pos hpos).ne'
  obtain ⟨k', hlength', -, hhigh, -⟩ := hn.coefficient_bounds (hother.2.pos hpos).ne'
  -- What the search has found are the significant digits of the text.
  have hcount : x.numeral.coefficient = count :=
    Numeral.coefficient_unique hmod hgrid.mod_ten (x.numeral.amount_eq.symm.trans hamount)
  rw [hcount] at hlow
  have hrounds := hother.2
  rw [Numeral.amount_eq] at hrounds
  obtain ⟨hfewest, hclosest⟩ := hgrid.fewest_digits hpos hfinite hlow hhigh hrounds
  rw [hlength, hlength', abs_value_sub_value hround.1, abs_value_sub_value hother.1, hamount,
    n.amount_eq]
  exact ⟨by omega, fun hsame => hclosest (by omega)⟩

/-- **Printed numbers are shortest and closest.** The text of a finite number other than zero is a
numeral that rounds to the number. Every other numeral that does, however it is written, has at
least as many significant digits, not counting zeros at either end; and if it has as many, it is not
closer to what the number exactly is. -/
theorem printed_is_shortest (x : Number) (hx : x.isFinite = true) (hzero : x.isZero = false) :
    (Numeral.ofChars (Value.number x).text.toList).RoundsTo x ∧
      ∀ n : Numeral, n.Digital → n.RoundsTo x →
        (Numeral.ofChars (Value.number x).text.toList).significant.length ≤ n.significant.length ∧
        (n.significant.length =
            (Numeral.ofChars (Value.number x).text.toList).significant.length →
          |(Numeral.ofChars (Value.number x).text.toList).value - x.value| ≤
            |n.value - x.value|) := by
  have htext : (Value.number x).text.toList = x.numeral.chars := toList_text hx .printed
  rw [htext, Numeral.ofChars_chars (canonical_numeral hx)]
  refine ⟨(numeral_roundsTo_iff hx x).2 rfl, ?_⟩
  intro n hn hother
  obtain ⟨hfewest, hclosest⟩ := numeral_fewest_digits hx hzero hn hother
  exact ⟨hfewest, fun hsame => (hclosest hsame).1⟩

/-- A digit behind the point and the zeros. -/
def tiny (zeros : Nat) (digit : Char) : List Char :=
  '0' :: '.' :: (List.replicate zeros '0' ++ [digit])

/-- The second of the smallest numbers, `1e-323`. It is a little less than that, and `9e-324` rounds
to it as well: a decimal on a finer grid with as many digits, which is farther away. -/
theorem printed_is_shortest_subnormal :
    let x : Number := ⟨2⟩
    let other := Numeral.ofChars (tiny 323 '9')
    x.isFinite = true ∧ x.isZero = false ∧ (Value.number x).text.toList = tiny 322 '1' ∧
      other.Digital ∧ other.RoundsTo x ∧
      (Numeral.ofChars (tiny 322 '1')).significant = ['1'] ∧ other.significant = ['9'] ∧
      |(Numeral.ofChars (tiny 322 '1')).value - x.value| ≤ |other.value - x.value| := by
  intro x other
  have hfinite : x.isFinite = true := by decide
  have hzero : x.isZero = false := by decide
  have htext : (Value.number x).text.toList = tiny 322 '1' := by
    have hshortest : shortest x.magnitude = ⟨1, 323⟩ := by decide +kernel
    have hchars : (Decimal.numeral ⟨1, 323⟩ false).chars = tiny 322 '1' := by decide +kernel
    have hnumeral : (Value.number x).text.toList = x.numeral.chars := toList_text hfinite .printed
    rw [hnumeral, numeral, hshortest]
    exact hchars
  have hdigital : other.Digital := by
    have hdigits : other.whole ++ other.fraction = List.replicate 324 '0' ++ ['9'] := by
      decide +kernel
    intro c hc
    rw [hdigits] at hc
    rcases List.mem_append.1 hc with hzero | hnine
    · rw [List.eq_of_mem_replicate hzero]
      rfl
    · rw [List.mem_singleton.1 hnine]
      rfl
  have hround : other.RoundsTo x := by
    have hcoefficient : other.coefficient = 9 := by decide +kernel
    have hexponent : other.exponent = -(324 : ℕ) := by decide +kernel
    have hnearest : nearest 9 (10 ^ 324) = x.magnitude := by decide +kernel
    have hpos : ∀ places, 0 < 10 ^ places := fun places => Nat.pow_pos (by omega)
    have hratio := roundsTo_nearest 9 (hpos 324)
    rw [hnearest, Nat.cast_pow, Nat.cast_ofNat, Nat.cast_ofNat] at hratio
    refine ⟨rfl, ?_⟩
    rwa [Numeral.amount_eq, hcoefficient, hexponent, zpow_neg, zpow_natCast, ← div_eq_mul_inv,
      Nat.cast_ofNat]
  have hprinted : (Numeral.ofChars (tiny 322 '1')).significant = ['1'] := by decide +kernel
  have hother : other.significant = ['9'] := by decide +kernel
  obtain ⟨-, hshortest⟩ := printed_is_shortest x hfinite hzero
  rw [htext] at hshortest
  have hclosest := (hshortest other hdigital hround).2 (by rw [hprinted, hother]; rfl)
  exact ⟨hfinite, hzero, htext, hdigital, hround, hprinted, hother, hclosest⟩

end Number

end ScriptCore
