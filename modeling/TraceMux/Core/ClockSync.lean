/-
# Clock synchronisation

From the four times of an exchange, two of each clock, the offset of the server's clock and the
time of the round trip are estimated in milliseconds. The estimate is the one of exact arithmetic
as long as no difference of two times leaves the 64 bits and the offset is not too far in the
negative: an offset below the smallest 32-bit number comes out as the largest one.
-/

import TraceMux.Core.Time

namespace TraceMux.Core.ClockSync

def subI64 (a b : ℤ) : Option ℤ := if InI64 (a - b) then some (a - b) else none

/-- The midpoint of two 64-bit integers, which is rounded towards zero. -/
def midpoint (a b : ℤ) : ℤ := (a + b).tdiv 2

def i32OrMax (n : ℤ) : ℤ := if -2 ^ 31 ≤ n ∧ n < 2 ^ 31 then n else 2 ^ 31 - 1

def u32OrMax (n : ℤ) : ℤ := if 0 ≤ n ∧ n < 2 ^ 32 then n else 2 ^ 32 - 1

/-- The offset and the time of the round trip, in milliseconds. -/
def estimateOffsetRttMs (t1Ns t2Ns t3Ns t4Ns : Int64) : Option (ℤ × ℤ) := do
  let ahead ← subI64 t2Ns.toInt t1Ns.toInt
  let back ← subI64 t3Ns.toInt t4Ns.toInt
  let offsetNanos := midpoint ahead back
  let total ← subI64 t4Ns.toInt t1Ns.toInt
  let held ← subI64 t3Ns.toInt t2Ns.toInt
  let rttNanos ← subI64 total held
  return (i32OrMax (offsetNanos.tdiv 1000000), u32OrMax ((max rttNanos 0).tdiv 1000000))

example : estimateOffsetRttMs 0 110000000 115000000 25000000 = some (100, 20) := by decide

section

variable (t1 t2 t3 t4 : Int64)

/-- The offset, truncated to milliseconds. -/
def offsetMs : ℤ := ((t2.toInt - t1.toInt) + (t3.toInt - t4.toInt)).tdiv (2 * 1000000)

def rttMs : ℤ := ((t4.toInt - t1.toInt) - (t3.toInt - t2.toInt)).tdiv 1000000

/-- Both as the result types can hold them. -/
def exactOffsetRttMs : ℤ × ℤ :=
  (max (-2 ^ 31) (min (2 ^ 31 - 1) (offsetMs t1 t2 t3 t4)),
    max 0 (min (2 ^ 32 - 1) (rttMs t1 t2 t3 t4)))

def NoOverflow : Prop :=
  InI64 (t2.toInt - t1.toInt) ∧ InI64 (t3.toInt - t4.toInt) ∧ InI64 (t4.toInt - t1.toInt) ∧
    InI64 (t3.toInt - t2.toInt) ∧ InI64 ((t4.toInt - t1.toInt) - (t3.toInt - t2.toInt))

end

variable {t1 t2 t3 t4 : Int64}

theorem subI64_eq_some_iff {a b d : ℤ} : subI64 a b = some d ↔ InI64 (a - b) ∧ d = a - b := by
  rw [subI64]
  split <;> simp_all [eq_comm]

theorem tdiv_tdiv (n : ℤ) : (n.tdiv 2).tdiv 1000000 = n.tdiv (2 * 1000000) := by
  obtain ⟨k, rfl | rfl⟩ := n.eq_nat_or_neg
  · exact congrArg Int.ofNat (Nat.div_div_eq_div_mul k 2 1000000)
  · rw [Int.neg_tdiv, Int.neg_tdiv, Int.neg_tdiv]
    exact congrArg (fun m : ℕ => -(m : ℤ)) (Nat.div_div_eq_div_mul k 2 1000000)

theorem u32OrMax_eq (n : ℤ) :
    u32OrMax ((max n 0).tdiv 1000000) = max 0 (min (2 ^ 32 - 1) (n.tdiv 1000000)) := by
  rcases le_total 0 n with hn | hn
  · have hnonneg := Int.tdiv_nonneg hn (b := 1000000) (by decide)
    rw [max_eq_left hn, u32OrMax]
    split <;> omega
  · have hnonneg := Int.tdiv_nonneg (neg_nonneg.mpr hn) (b := 1000000) (by decide)
    rw [Int.neg_tdiv] at hnonneg
    rw [max_eq_right hn, max_eq_left (by omega)]
    rfl

theorem i32OrMax_eq_iff (n : ℤ) :
    i32OrMax n = max (-2 ^ 31) (min (2 ^ 31 - 1) n) ↔ -2 ^ 31 ≤ n := by
  rw [i32OrMax]
  split <;> omega

theorem estimateOffsetRttMs_eq_some_iff {r : ℤ × ℤ} :
    estimateOffsetRttMs t1 t2 t3 t4 = some r ↔
      NoOverflow t1 t2 t3 t4 ∧ r = (i32OrMax (offsetMs t1 t2 t3 t4),
        max 0 (min (2 ^ 32 - 1) (rttMs t1 t2 t3 t4))) := by
  rw [offsetMs, ← tdiv_tdiv, rttMs, ← u32OrMax_eq]
  simp only [estimateOffsetRttMs, NoOverflow, midpoint, Option.bind_eq_bind,
    Option.bind_eq_some_iff, subI64_eq_some_iff]
  constructor
  · rintro ⟨_, ⟨h21, rfl⟩, _, ⟨h34, rfl⟩, _, ⟨h41, rfl⟩, _, ⟨h32, rfl⟩, _, ⟨hrtt, rfl⟩, hr⟩
    exact ⟨⟨h21, h34, h41, h32, hrtt⟩, (Option.some.inj hr).symm⟩
  · rintro ⟨⟨h21, h34, h41, h32, hrtt⟩, rfl⟩
    exact ⟨_, ⟨h21, rfl⟩, _, ⟨h34, rfl⟩, _, ⟨h41, rfl⟩, _, ⟨h32, rfl⟩, _, ⟨hrtt, rfl⟩, rfl⟩

/-- The estimate is the exact one if and only if no difference overflows and the offset is not
below what 32 bits can hold. -/
theorem estimateOffsetRttMs_exact_iff :
    estimateOffsetRttMs t1 t2 t3 t4 = some (exactOffsetRttMs t1 t2 t3 t4) ↔
      NoOverflow t1 t2 t3 t4 ∧ -2 ^ 31 ≤ offsetMs t1 t2 t3 t4 := by
  rw [estimateOffsetRttMs_eq_some_iff, exactOffsetRttMs, Prod.mk.injEq, eq_comm, i32OrMax_eq_iff]
  simp

/-- A server whose clock starts in 1970 seems ahead of its client, and times far apart overflow. -/
theorem estimateOffsetRttMs_far_behind :
    estimateOffsetRttMs 1700000000000000000 0 0 1700000000000000000 = some (2147483647, 0) ∧
      exactOffsetRttMs 1700000000000000000 0 0 1700000000000000000 = (-2147483648, 0) ∧
      estimateOffsetRttMs (-9223372036854775808) 0 0 0 = none := by
  decide

end TraceMux.Core.ClockSync
