import Mathlib

/-!
# Interrupt coalescing units

`ionic_coal_usec_to_hw` and `ionic_coal_hw_to_usec` (`ionic_lif.h`) convert between microseconds
and the device's coalescing units through the ratio `intr_coal_mult / intr_coal_div` the device
reports in its identity. Both compute in `u32`, written here as `% 2 ^ 32` at each assignment.
When the products fit in 32 bits, a round trip moves a value by at most `div / mult + 1`
microseconds (`ionicCoal_round_trip`); past that range `usecs * mult` wraps
(`ionicCoal_round_trip_wraps`).
-/

namespace IonicTxrx

/-- The coalescing ratio of `ionic->ident.dev`: `intr_coal_mult` and `intr_coal_div`. -/
structure CoalIdent where
  mult : Nat
  div : Nat
  deriving DecidableEq, Repr

/-- `ionic_coal_usec_to_hw`: `usecs` microseconds in device units. -/
def ionicCoalUsecToHw (id : CoalIdent) (usecs : Nat) : Nat :=
  -- Div-by-zero should never be an issue, but check anyway
  if id.div = 0 ∨ id.mult = 0 then 0
  else
    -- Round up in case usecs is close to the next hw unit
    let usecs := (usecs + ((id.div / id.mult) >>> 1)) % 2 ^ 32
    -- Convert from usecs to device units
    usecs * id.mult % 2 ^ 32 / id.div

/-- `ionic_coal_hw_to_usec`: `units` device units in microseconds. -/
def ionicCoalHwToUsec (id : CoalIdent) (units : Nat) : Nat :=
  if id.div = 0 ∨ id.mult = 0 then 0
  else units * id.div % 2 ^ 32 / id.mult

section RoundTrip

variable {id : CoalIdent} {usecs : Nat}

/-- Without a wrap, the conversion to device units is `(usecs + (div / mult) / 2) * mult / div`. -/
theorem ionicCoalUsecToHw_eq (hm : 0 < id.mult) (hd : 0 < id.div)
    (h : (usecs + id.div / id.mult / 2) * id.mult < 2 ^ 32) :
    ionicCoalUsecToHw id usecs = (usecs + id.div / id.mult / 2) * id.mult / id.div := by
  have hadd : usecs + id.div / id.mult / 2 < 2 ^ 32 :=
    lt_of_le_of_lt (Nat.le_mul_of_pos_right _ hm) h
  rw [ionicCoalUsecToHw, if_neg (by omega)]
  dsimp only
  rw [Nat.shiftRight_eq_div_pow, pow_one, Nat.mod_eq_of_lt hadd, Nat.mod_eq_of_lt h]

/-- The device units of `usecs` stand for no more than the rounded-up microseconds. -/
theorem ionicCoalUsecToHw_mul_le (hm : 0 < id.mult) (hd : 0 < id.div)
    (h : (usecs + id.div / id.mult / 2) * id.mult < 2 ^ 32) :
    ionicCoalUsecToHw id usecs * id.div ≤ (usecs + id.div / id.mult / 2) * id.mult := by
  rw [ionicCoalUsecToHw_eq hm hd h]
  exact Nat.div_mul_le_self _ _

/-- For a device ratio with `mult, div ≥ 1` and `usecs` with `(usecs + (div / mult) / 2) * mult`
below `2 ^ 32`, none of the 32-bit intermediates of the round trip wraps: each conversion is the
exact quotient, and the microseconds come back within `div / mult` above and `div / mult + 1`
below. -/
theorem ionicCoal_round_trip (id : CoalIdent) (usecs : Nat) (hm : 0 < id.mult) (hd : 0 < id.div)
    (h : (usecs + id.div / id.mult / 2) * id.mult < 2 ^ 32) :
    ionicCoalUsecToHw id usecs = (usecs + id.div / id.mult / 2) * id.mult / id.div ∧
      ionicCoalHwToUsec id (ionicCoalUsecToHw id usecs) = ionicCoalUsecToHw id usecs * id.div / id.mult ∧
      ionicCoalHwToUsec id (ionicCoalUsecToHw id usecs) ≤ usecs + id.div / id.mult ∧
      usecs ≤ ionicCoalHwToUsec id (ionicCoalUsecToHw id usecs) + id.div / id.mult + 1 := by
  have heq := ionicCoalUsecToHw_eq hm hd h
  have hle := ionicCoalUsecToHw_mul_le hm hd h
  have h₃ : (usecs + id.div / id.mult / 2) * id.mult < ionicCoalUsecToHw id usecs * id.div + id.div :=
    heq ▸ Nat.lt_div_mul_add hd
  set units := ionicCoalUsecToHw id usecs
  have hback : ionicCoalHwToUsec id units = units * id.div / id.mult := by
    rw [ionicCoalHwToUsec, if_neg (by omega), Nat.mod_eq_of_lt (lt_of_le_of_lt hle h)]
  set back := units * id.div / id.mult
  set q := id.div / id.mult
  -- `back * mult` and `units * div` each fall short of the next multiple
  have h₁ : back * id.mult ≤ units * id.div := Nat.div_mul_le_self _ _
  have h₂ : units * id.div < back * id.mult + id.mult := Nat.lt_div_mul_add hm
  have h₄ : id.div < q * id.mult + id.mult := Nat.lt_div_mul_add hm
  have hup : back ≤ usecs + q / 2 := Nat.le_of_mul_le_mul_right (h₁.trans hle) hm
  have hlow : usecs + q / 2 < back + q + 2 :=
    Nat.lt_of_mul_lt_mul_right (a := id.mult) (by linarith)
  clear_value units back q
  exact ⟨heq, hback, by omega, by omega⟩

/-- With the ratio `3 / 2` (`mult = 2`, `div = 3`), 100 µs are 66 device units, which come back
as 99 µs. -/
theorem ionicCoal_round_trip_hundred :
    ionicCoalUsecToHw ⟨2, 3⟩ 100 = (100 + 3 / 2 / 2) * 2 / 3 ∧
      ionicCoalHwToUsec ⟨2, 3⟩ (ionicCoalUsecToHw ⟨2, 3⟩ 100) = ionicCoalUsecToHw ⟨2, 3⟩ 100 * 3 / 2 ∧
      ionicCoalHwToUsec ⟨2, 3⟩ (ionicCoalUsecToHw ⟨2, 3⟩ 100) ≤ 100 + 3 / 2 ∧
      100 ≤ ionicCoalHwToUsec ⟨2, 3⟩ (ionicCoalUsecToHw ⟨2, 3⟩ 100) + 3 / 2 + 1 :=
  ionicCoal_round_trip ⟨2, 3⟩ 100 (by decide) (by decide) (by decide)

end RoundTrip

/-- Past the 32-bit range the round trip is lost: with `mult = 2` and `div = 1`, `2 ^ 31` µs, a
`u32` value, wrap to 0 in `usecs * mult` and come back as 0 µs, `2 ^ 31` away from the input,
where the bound `div / mult + 1` is 1. -/
theorem ionicCoal_round_trip_wraps :
    (2 ^ 31 : Nat) < 2 ^ 32 ∧ ionicCoalUsecToHw ⟨2, 1⟩ (2 ^ 31) = 0 ∧
      ionicCoalHwToUsec ⟨2, 1⟩ (ionicCoalUsecToHw ⟨2, 1⟩ (2 ^ 31)) = 0 ∧
      ionicCoalHwToUsec ⟨2, 1⟩ (ionicCoalUsecToHw ⟨2, 1⟩ (2 ^ 31)) + (1 / 2 + 1) < 2 ^ 31 := by
  decide

end IonicTxrx
