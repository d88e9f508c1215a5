import Mathlib.Algebra.Order.Ring.GeomSum
import Mathlib.Data.Int.CardIntervalMod
import Mathlib.Data.Set.Card
import Mathlib.Tactic

/-!
# The random generator of the simulator

A permuted congruential generator. The state is a 64-bit number that goes through a linear
recurrence; a draw of 32 bits is a rotation of bits of the old state.

`bounded` takes the remainder of a draw of 64 bits, and throws draws away that are too small, such
that every remainder is left with the same number of draws. `DetLog.Pcg32.sampling_unbiased` counts
them, for `bounded` and for `inclusive`.

The loop of the source has no bound. Here it ends after as many draws as the generator has states,
and one of them has been accepted by then: the recurrence goes through all states
(`DetLog.Pcg32.exists_state_eq`), also through those whose draw has its highest bit set, and such a
draw is never thrown away.
-/

namespace DetLog

open Finset

/-- The state of the generator. -/
structure Pcg32 where
  state : UInt64 := 0
  increment : UInt64 := 0
  deriving DecidableEq, Repr

namespace Pcg32

/-- The next 32 bits. -/
def nextU32 (g : Pcg32) : UInt32 × Pcg32 :=
  let previous := g.state
  let xorshifted := (((previous >>> 18) ^^^ previous) >>> 27).toUInt32
  let rotation := (previous >>> 59).toUInt32
  ((xorshifted >>> rotation) ||| (xorshifted <<< ((0 - rotation) &&& 31)),
    { g with state := previous * 6364136223846793005 + g.increment })

/-- The next 64 bits, the high ones first. -/
def nextU64 (g : Pcg32) : UInt64 × Pcg32 :=
  let (high, g) := g.nextU32
  let (low, g) := g.nextU32
  ((high.toUInt64 <<< 32) ||| low.toUInt64, g)

/-- The increment is odd. -/
def create (seed stream : UInt64) : Pcg32 :=
  let g : Pcg32 := { increment := (stream <<< 1) ||| 1 }
  let g := g.nextU32.2
  { g with state := g.state + seed }.nextU32.2

/-- Draws until one reaches the threshold. -/
def draw (exclusiveBound threshold : UInt64) : ℕ → Pcg32 → UInt64 × Pcg32
  | 0, g => (0, g)
  | fuel + 1, g =>
    let (value, g) := g.nextU64
    if threshold ≤ value then (value % exclusiveBound, g) else draw exclusiveBound threshold fuel g

/-- A number below a bound. -/
def bounded (g : Pcg32) (exclusiveBound : UInt64) : UInt64 × Pcg32 :=
  if exclusiveBound = 0 then (0, g)
  else draw exclusiveBound ((0 - exclusiveBound) % exclusiveBound) (2 ^ 64) g

/-- A number between two others. -/
def inclusive (g : Pcg32) (minimum maximum : UInt64) : UInt64 × Pcg32 :=
  if maximum < minimum then (minimum, g)
  else
    let distance := maximum - minimum
    if distance = 0xffffffffffffffff then g.nextU64
    else
      let (value, g) := g.bounded (distance + 1)
      (minimum + value, g)

/-! ### The period -/

/-- **A power of two that divides a geometric sum divides its length**, if the ratio is one more
than a multiple of four. -/
theorem two_pow_dvd_of_geom_sum {a : ℕ} (ha : a % 4 = 1) {k n : ℕ}
    (h : 2 ^ k ∣ ∑ i ∈ range n, a ^ i) : 2 ^ k ∣ n := by
  have hpow : ∀ m, a ^ m % 4 = 1 := fun m => by rw [Nat.pow_mod, ha, Nat.one_pow]
  -- The terms are odd, so an even sum has an even number of them.
  have hparity : ∀ m, (∑ i ∈ range m, a ^ i) % 2 = m % 2 := by
    intro m
    induction m with
    | zero => rfl
    | succ m ih =>
      rw [sum_range_succ]
      have := hpow m
      omega
  induction k generalizing n with
  | zero => exact one_dvd n
  | succ k ih =>
    obtain ⟨m, rfl⟩ : ∃ m, n = m + m := by
      have heven := (dvd_pow_self 2 k.succ_ne_zero).trans h
      have := hparity n
      exact ⟨n / 2, by omega⟩
    have hsplit : ∑ i ∈ range (m + m), a ^ i = (∑ i ∈ range m, a ^ i) * (1 + a ^ m) := by
      simp only [sum_range_add, pow_add, ← mul_sum]
      ring
    obtain ⟨c, hc⟩ : ∃ c, 1 + a ^ m = 2 * (2 * c + 1) := ⟨a ^ m / 4, by have := hpow m; omega⟩
    rw [hsplit, hc, ← mul_assoc, mul_right_comm, pow_succ] at h
    have hodd : Nat.Coprime (2 ^ k) (2 * c + 1) := Nat.Coprime.pow_left k (by simp)
    have hm := ih (hodd.dvd_of_dvd_mul_right (Nat.dvd_of_mul_dvd_mul_right two_pos h))
    rw [← mul_two, pow_succ]
    exact Nat.mul_dvd_mul_right hm 2

theorem nextU32_increment : ∀ g : Pcg32, g.nextU32.2.increment = g.increment
  | ⟨_, _⟩ => rfl

theorem nextU32_state (g : Pcg32) :
    g.nextU32.2.state = g.state * 6364136223846793005 + g.increment := rfl

/-- **The generators of the program**, from their construction on. -/
inductive Seeded : Pcg32 → Prop
  | create (seed stream : UInt64) : Seeded (create seed stream)
  | next {g : Pcg32} (before : Seeded g) : Seeded g.nextU32.2

variable {g : Pcg32}

theorem Seeded.odd (h : Seeded g) : g.increment.toNat % 2 = 1 := by
  induction h with
  | create seed stream =>
    rw [Pcg32.create, nextU32_increment]
    dsimp only
    rw [nextU32_increment]
    simp [Nat.or_mod_two_eq_one]
  | next _ ih => rwa [nextU32_increment]

/-- The generator after some draws of 32 bits. -/
def after (g : Pcg32) (n : ℕ) : Pcg32 := (fun g : Pcg32 => g.nextU32.2)^[n] g

theorem after_succ (g : Pcg32) (n : ℕ) : g.after (n + 1) = (g.after n).nextU32.2 :=
  Function.iterate_succ_apply' _ n g

theorem after_add (g : Pcg32) (m n : ℕ) : g.after (m + n) = (g.after n).after m :=
  Function.iterate_add_apply _ m n g

theorem after_increment (g : Pcg32) (n : ℕ) : (g.after n).increment = g.increment := by
  induction n with
  | zero => rfl
  | succ n ih => rw [after_succ, nextU32_increment, ih]

/-- The multiplier of the recurrence. -/
def multiplier : ℕ := 6364136223846793005

/-- The recurrence, solved. -/
theorem after_state (g : Pcg32) (n : ℕ) : (g.after n).state.toNat ≡
    g.state.toNat + (∑ i ∈ range n, multiplier ^ i) *
      ((multiplier - 1) * g.state.toNat + g.increment.toNat) [MOD 2 ^ 64] := by
  induction n with
  | zero => simp [after, Nat.ModEq]
  | succ n ih =>
    have hstep : (g.after (n + 1)).state.toNat ≡
        (g.after n).state.toNat * multiplier + g.increment.toNat [MOD 2 ^ 64] := by
      rw [after_succ, nextU32_state, after_increment, UInt64.toNat_add, UInt64.toNat_mul]
      exact (Nat.mod_modEq _ _).trans ((Nat.mod_modEq _ _).add_right _)
    refine hstep.trans (((ih.mul_right _).add_right _).trans ?_)
    rw [geom_sum_succ]
    generalize ∑ i ∈ range n, multiplier ^ i = sum
    obtain ⟨a, ha⟩ : ∃ a, multiplier = a + 1 := ⟨multiplier - 1, rfl⟩
    rw [ha, Nat.add_sub_cancel]
    exact congrArg (· % 2 ^ 64) (by ring)

/-- A state comes back after a multiple of the number of states only. -/
theorem dvd_of_after_state_eq (hg : g.increment.toNat % 2 = 1) {n : ℕ}
    (h : (g.after n).state = g.state) : 2 ^ 64 ∣ n := by
  have hsolved := g.after_state n
  rw [h] at hsolved
  have hdvd : 2 ^ 64 ∣ (∑ i ∈ range n, multiplier ^ i) *
      ((multiplier - 1) * g.state.toNat + g.increment.toNat) := by
    simpa using (Nat.modEq_iff_dvd' (Nat.le_add_right _ _)).mp hsolved
  refine two_pow_dvd_of_geom_sum (a := multiplier) (by decide)
    (Nat.Coprime.dvd_of_dvd_mul_right (Nat.Coprime.pow_left 64 ?_) hdvd)
  rw [Nat.coprime_two_left, Nat.odd_iff, Nat.add_mod, Nat.mul_mod, hg]
  simp [multiplier]

/-- **The recurrence goes through all states.** -/
theorem exists_state_eq (hg : g.increment.toNat % 2 = 1) (target : UInt64) :
    ∃ n < 2 ^ 64, (g.after n).state = target := by
  have hinjective : Function.Injective fun n : Fin (2 ^ 64) => (g.after n).state := by
    intro i j hij
    wlog hle : i ≤ j generalizing i j with hsymm
    · exact (hsymm hij.symm (le_of_not_ge hle)).symm
    have hsame : ((g.after i).after (j - i)).state = (g.after i).state := by
      rw [← after_add, Nat.sub_add_cancel hle]
      exact hij.symm
    have hdvd := dvd_of_after_state_eq (by rw [after_increment]; exact hg) hsame
    have := Nat.eq_zero_of_dvd_of_lt hdvd (by omega)
    exact Fin.ext (by have : (i : ℕ) ≤ j := hle; omega)
  have hequiv : Fin (2 ^ 64) ≃ UInt64 :=
    ⟨UInt64.ofFin, UInt64.toFin, fun _ => rfl, fun _ => rfl⟩
  obtain ⟨n, hn⟩ := (Finite.injective_iff_surjective_of_equiv hequiv).mp hinjective target
  exact ⟨n, n.isLt, hn⟩

/-! ### The draw that is accepted -/

/-- The draws of 64 bits, one after the other. -/
def drawAt (g : Pcg32) (k : ℕ) : UInt64 := (g.after (2 * k)).nextU64.1

theorem nextU64_snd (g : Pcg32) : g.nextU64.2 = g.after 2 := rfl

theorem drawAt_succ (g : Pcg32) (k : ℕ) : g.drawAt (k + 1) = g.nextU64.2.drawAt k := by
  rw [nextU64_snd, drawAt, drawAt, ← after_add, Nat.mul_succ]

theorem after_parity (hg : g.increment.toNat % 2 = 1) (n : ℕ) :
    (g.after n).state.toNat % 2 = (g.state.toNat + n) % 2 := by
  induction n with
  | zero => rfl
  | succ n ih =>
    rw [after_succ, nextU32_state, after_increment, UInt64.toNat_add, UInt64.toNat_mul]
    simp only [UInt64.reduceToNat]
    omega

/-- **Some draw has its highest bit set**, before the generator has been through all states. -/
theorem exists_high_draw (hg : g.increment.toNat % 2 = 1) :
    ∃ k < 2 ^ 64, 2 ^ 63 ≤ (g.drawAt k).toNat := by
  -- A state whose draw of 32 bits has its highest bit set, of the parity of the present one.
  obtain ⟨n, hn, hstate⟩ := g.exists_state_eq hg (0x400000000000000 + g.state % 2)
  have hparity := after_parity hg n
  have heven : n % 2 = 0 := by
    rw [hstate, UInt64.toNat_add, UInt64.toNat_mod] at hparity
    simp only [UInt64.reduceToNat] at hparity
    omega
  refine ⟨n / 2, by omega, ?_⟩
  have hdraws : ∀ g' : Pcg32, g'.state = 0x400000000000000 ∨ g'.state = 0x400000000000001 →
      g'.nextU32.1 = 0x80002000 := by
    rintro ⟨state, increment⟩ (rfl | rfl) <;> simp only [nextU32] <;> decide
  have hhigh : (g.after n).nextU32.1 = 0x80002000 := by
    refine hdraws _ ?_
    have hmod : (g.state % 2).toNat = g.state.toNat % 2 := UInt64.toNat_mod _ _
    rcases Nat.mod_two_eq_zero_or_one g.state.toNat with h | h
    · obtain hzero : g.state % 2 = 0 := UInt64.toNat_inj.mp (hmod.trans h)
      exact Or.inl (by rw [hstate, hzero]; rfl)
    · obtain hone : g.state % 2 = 1 := UInt64.toNat_inj.mp (hmod.trans h)
      exact Or.inr (by rw [hstate, hone]; rfl)
  have hlow : ∀ low : UInt32, 2 ^ 63 ≤
      (((0x80002000 : UInt32).toUInt64 <<< 32) ||| low.toUInt64).toNat := fun low => by
    rw [UInt64.toNat_or]
    exact le_trans (by decide) Nat.left_le_or
  rw [drawAt, Nat.mul_div_cancel' (Nat.dvd_of_mod_eq_zero heven), nextU64]
  simp only [hhigh]
  exact hlow _

theorem draw_of_exists (b threshold : UInt64) {fuel k : ℕ} (hk : k < fuel)
    (haccepted : threshold ≤ g.drawAt k) :
    ∃ k, (∀ j < k, ¬threshold ≤ g.drawAt j) ∧ threshold ≤ g.drawAt k ∧
      (draw b threshold fuel g).1 = g.drawAt k % b := by
  induction fuel generalizing g k with
  | zero => exact absurd hk (Nat.not_lt_zero k)
  | succ fuel ih =>
    rw [draw]
    dsimp only
    split_ifs with hfirst
    · exact ⟨0, fun j hj => absurd hj (Nat.not_lt_zero j), hfirst, rfl⟩
    · cases k with
      | zero => exact absurd haccepted hfirst
      | succ k =>
        rw [drawAt_succ] at haccepted
        obtain ⟨k, hbefore, hk, hvalue⟩ := ih (by omega) haccepted
        refine ⟨k + 1, fun j hj => ?_, by rwa [drawAt_succ], by rwa [drawAt_succ]⟩
        cases j with
        | zero => exact hfirst
        | succ j =>
          rw [drawAt_succ]
          exact hbefore j (by omega)

/-! ### Outcomes -/

/-- What `bounded` makes of a draw: its remainder, or nothing if the draw is thrown away. -/
def boundedOutcome (exclusiveBound value : UInt64) : Option UInt64 :=
  if (0 - exclusiveBound) % exclusiveBound ≤ value then some (value % exclusiveBound) else none

/-- What `inclusive` makes of a draw. -/
def inclusiveOutcome (minimum maximum value : UInt64) : Option UInt64 :=
  if maximum - minimum = 0xffffffffffffffff then some value
  else (boundedOutcome (maximum - minimum + 1) value).map (minimum + ·)

/-- The first draw with an outcome has this one. -/
def Settles (g : Pcg32) (outcome : UInt64 → Option UInt64) (value : UInt64) : Prop :=
  ∃ k, (∀ j < k, outcome (g.drawAt j) = none) ∧ outcome (g.drawAt k) = some value

section Bounded

variable {b : UInt64} (hb : b ≠ 0)

include hb

theorem toNat_threshold : ((0 - b) % b).toNat = 2 ^ 64 % b.toNat := by
  have hpos : 0 < b.toNat := UInt64.lt_iff_toNat_lt.mp (UInt64.pos_iff_ne_zero.mpr hb)
  have hlt := b.toNat_lt
  have hsub : (0 - b).toNat = 2 ^ 64 - b.toNat := by
    rw [UInt64.toNat_sub]
    simp only [UInt64.reduceToNat]
    omega
  rw [UInt64.toNat_mod, hsub, ← Nat.mod_eq_sub_mod hlt.le]

theorem threshold_le_iff {v : UInt64} : (0 - b) % b ≤ v ↔ 2 ^ 64 % b.toNat ≤ v.toNat := by
  rw [UInt64.le_iff_toNat_le, toNat_threshold hb]

theorem boundedOutcome_eq_some_iff {v r : UInt64} : boundedOutcome b v = some r ↔
    2 ^ 64 % b.toNat ≤ v.toNat ∧ v.toNat % b.toNat = r.toNat := by
  rw [boundedOutcome, ← threshold_le_iff hb]
  split_ifs with h
  · rw [Option.some.injEq, ← UInt64.toNat_inj, UInt64.toNat_mod]
    exact (and_iff_right h).symm
  · exact iff_of_false (by simp) fun hv => h hv.1

theorem boundedOutcome_ne_none_iff {v : UInt64} :
    boundedOutcome b v ≠ none ↔ 2 ^ 64 % b.toNat ≤ v.toNat := by
  rw [boundedOutcome, ← threshold_le_iff hb]
  split_ifs with h
  · exact iff_of_true (by simp) h
  · exact iff_of_false (by simp) h

/-- **`bounded` returns the outcome of the first draw that has one.** -/
theorem Seeded.settles_bounded (hg : g.Seeded) : g.Settles (boundedOutcome b) (g.bounded b).1 := by
  obtain ⟨k, hk, hhigh⟩ := exists_high_draw hg.odd
  have haccepted : (0 - b) % b ≤ g.drawAt k := by
    refine (threshold_le_iff hb).mpr (le_trans ?_ hhigh)
    -- The remainder is below the divisor, and it is below what is left of the dividend.
    have hpos : 0 < b.toNat := UInt64.lt_iff_toNat_lt.mp (UInt64.pos_iff_ne_zero.mpr hb)
    have hbelow := Nat.mod_lt (2 ^ 64) hpos
    have hdiv := Nat.div_add_mod (2 ^ 64) b.toNat
    have hquot := Nat.mul_le_mul_left b.toNat (Nat.div_pos b.toNat_lt.le hpos)
    omega
  obtain ⟨k, hbefore, hk, hvalue⟩ := draw_of_exists b _ hk haccepted
  refine ⟨k, fun j hj => if_neg (hbefore j hj), ?_⟩
  rw [bounded, if_neg hb, hvalue, boundedOutcome, if_pos hk]

end Bounded

/-! ### Counting draws -/

theorem ncard_draws (p : ℕ → Prop) [DecidablePred p] (start : ℕ) :
    {v : UInt64 | start ≤ v.toNat ∧ p v.toNat}.ncard = #{x ∈ Ico start (2 ^ 64) | p x} := by
  rw [← Set.ncard_image_of_injective _ fun _ _ => UInt64.toNat_inj.mp, ← Set.ncard_coe_finset]
  congr 1
  ext x
  simp only [Set.mem_image, Set.mem_ofPred_eq, coe_filter, mem_Ico]
  constructor
  · rintro ⟨v, ⟨hstart, hp⟩, rfl⟩
    exact ⟨⟨hstart, v.toNat_lt⟩, hp⟩
  · rintro ⟨⟨hstart, hlt⟩, hp⟩
    have hx : (UInt64.ofNat x).toNat = x := UInt64.toNat_ofNat_of_lt' hlt
    exact ⟨UInt64.ofNat x, by rw [hx]; exact ⟨hstart, hp⟩, hx⟩

/-- Every residue is the same number of times in a whole number of periods. -/
theorem card_filter_residue {b : ℕ} (hb : 0 < b) (start q : ℕ) {r : ℕ} (hr : r < b) :
    #{x ∈ Ico start (start + b * q) | x % b = r} = q := by
  have hperiodic : Function.Periodic (fun x => x ≡ r [MOD b]) (b * q) := fun x => by
    simp [Nat.ModEq]
  have hcount := Nat.filter_Ico_card_eq_of_periodic start (b * q) _ hperiodic
  rw [Nat.count_modEq_card _ hb, Nat.mul_mod_right, if_neg (Nat.not_lt_zero _), Nat.add_zero,
    Nat.mul_div_cancel_left q hb] at hcount
  simpa only [Nat.ModEq, Nat.mod_eq_of_lt hr] using hcount

/-- **Every remainder has the same number of draws.** -/
theorem ncard_boundedOutcome {b : UInt64} (hb : b ≠ 0) {r : UInt64} (hr : r < b) :
    {v | boundedOutcome b v = some r}.ncard = 2 ^ 64 / b.toNat := by
  have hpos : 0 < b.toNat := UInt64.lt_iff_toNat_lt.mp (UInt64.pos_iff_ne_zero.mpr hb)
  have hcount := ncard_draws (· % b.toNat = r.toNat) (2 ^ 64 % b.toNat)
  simp only [boundedOutcome_eq_some_iff hb]
  rw [hcount]
  have hperiods := card_filter_residue hpos (2 ^ 64 % b.toNat) (2 ^ 64 / b.toNat)
    (UInt64.lt_iff_toNat_lt.mp hr)
  rwa [Nat.mod_add_div] at hperiods

theorem ncard_boundedOutcome_ne_none {b : UInt64} (hb : b ≠ 0) :
    {v | boundedOutcome b v ≠ none}.ncard = b.toNat * (2 ^ 64 / b.toNat) := by
  have hcount := ncard_draws (fun _ => True) (2 ^ 64 % b.toNat)
  simp only [boundedOutcome_ne_none_iff hb]
  simp only [and_true, filter_true, Nat.card_Ico] at hcount
  rw [hcount]
  have := Nat.div_add_mod (2 ^ 64) b.toNat
  omega

section Inclusive

variable {minimum maximum : UInt64} (hle : minimum ≤ maximum)

include hle

theorem toNat_distance : (maximum - minimum).toNat = maximum.toNat - minimum.toNat :=
  UInt64.toNat_sub_of_le _ _ hle

/-- The number of values of a range that is not the full one. -/
theorem toNat_distance_add_one (hall : maximum - minimum ≠ 0xffffffffffffffff) :
    (maximum - minimum + 1).toNat = maximum.toNat - minimum.toNat + 1 := by
  have hne : (maximum - minimum).toNat ≠ 2 ^ 64 - 1 := fun h => hall (UInt64.toNat_inj.mp h)
  rw [UInt64.toNat_add, ← toNat_distance hle]
  refine Nat.mod_eq_of_lt ?_
  have := (maximum - minimum).toNat_lt
  simp only [UInt64.reduceToNat]
  omega

theorem distance_add_one_ne_zero (hall : maximum - minimum ≠ 0xffffffffffffffff) :
    maximum - minimum + 1 ≠ 0 := fun h => by
  have hvalues := toNat_distance_add_one hle hall
  rw [h] at hvalues
  simp at hvalues

/-- **The outcomes of `inclusive`, without wrapping.** -/
theorem inclusiveOutcome_toNat {v r : UInt64} (h : inclusiveOutcome minimum maximum v = some r) :
    r.toNat = minimum.toNat + v.toNat % (maximum.toNat - minimum.toNat + 1) := by
  have hmax := maximum.toNat_lt
  have hv := v.toNat_lt
  unfold inclusiveOutcome at h
  split_ifs at h with hall
  · have hdistance := toNat_distance hle
    rw [hall] at hdistance
    simp only [UInt64.reduceToNat] at hdistance
    obtain rfl := Option.some.inj h
    rw [Nat.mod_eq_of_lt] <;> omega
  · obtain ⟨x, hx, rfl⟩ := Option.map_eq_some_iff.mp h
    rw [boundedOutcome_eq_some_iff (distance_add_one_ne_zero hle hall),
      toNat_distance_add_one hle hall] at hx
    have hlt := Nat.mod_lt v.toNat (Nat.add_one_pos (maximum.toNat - minimum.toNat))
    have hminmax := UInt64.le_iff_toNat_le.mp hle
    rw [UInt64.toNat_add, ← hx.2]
    refine Nat.mod_eq_of_lt ?_
    omega

/-- **Every value of the range has the same number of draws.** -/
theorem ncard_inclusiveOutcome {r : UInt64} (hmin : minimum ≤ r) (hmax : r ≤ maximum) :
    {v | inclusiveOutcome minimum maximum v = some r}.ncard =
      2 ^ 64 / (maximum.toNat - minimum.toNat + 1) := by
  by_cases hall : maximum - minimum = 0xffffffffffffffff
  · have hdistance := toNat_distance hle
    rw [hall] at hdistance
    simp only [UInt64.reduceToNat] at hdistance
    simp [inclusiveOutcome, hall, ← hdistance]
  · have hvalues := toNat_distance_add_one hle hall
    have hoffset : (r - minimum).toNat = r.toNat - minimum.toNat := UInt64.toNat_sub_of_le _ _ hmin
    have hinside : r - minimum < maximum - minimum + 1 := by
      rw [UInt64.lt_iff_toNat_lt, hvalues, hoffset]
      have := UInt64.le_iff_toNat_le.mp hmax
      omega
    rw [← hvalues, ← ncard_boundedOutcome (distance_add_one_ne_zero hle hall) hinside]
    congr 1
    ext v
    simp only [Set.mem_ofPred_eq, inclusiveOutcome, if_neg hall, Option.map_eq_some_iff]
    constructor
    · rintro ⟨x, hx, rfl⟩
      rwa [UInt64.add_comm minimum, UInt64.add_sub_cancel]
    · exact fun h => ⟨r - minimum, h, by rw [UInt64.add_comm, UInt64.sub_add_cancel]⟩

/-- **`inclusive` returns the outcome of the first draw that has one.** -/
theorem Seeded.settles_inclusive (hg : g.Seeded) :
    g.Settles (inclusiveOutcome minimum maximum) (g.inclusive minimum maximum).1 := by
  have hlt : ¬maximum < minimum := UInt64.not_lt.mpr hle
  unfold inclusive
  rw [if_neg hlt]
  dsimp only
  split_ifs with hall
  · exact ⟨0, fun j hj => absurd hj (Nat.not_lt_zero j), if_pos hall⟩
  · obtain ⟨k, hbefore, hk⟩ := hg.settles_bounded (distance_add_one_ne_zero hle hall)
    refine ⟨k, fun j hj => ?_, ?_⟩
    · rw [inclusiveOutcome, if_neg hall, hbefore j hj, Option.map_none]
    · rw [inclusiveOutcome, if_neg hall, hk, Option.map_some]

end Inclusive

/-- **Bounded sampling is unbiased.** The draws that `bounded` accepts, those from a threshold on,
are as many for each remainder, and it returns the outcome of the first of them; the same holds for
the values of `inclusive`, which are the sums of the minimum and a remainder without wrapping. -/
theorem sampling_unbiased (hg : g.Seeded) :
    (∀ b : UInt64, b ≠ 0 →
      (∀ v, boundedOutcome b v ≠ none ↔ (2 ^ 64 - b.toNat) % b.toNat ≤ v.toNat) ∧
      {v | boundedOutcome b v ≠ none}.ncard = b.toNat * (2 ^ 64 / b.toNat) ∧
      (∀ r < b, {v | boundedOutcome b v = some r}.ncard = 2 ^ 64 / b.toNat) ∧
      g.Settles (boundedOutcome b) (g.bounded b).1) ∧
    ∀ minimum maximum : UInt64, minimum ≤ maximum →
      (∀ r, minimum ≤ r → r ≤ maximum → {v | inclusiveOutcome minimum maximum v = some r}.ncard =
        2 ^ 64 / (maximum.toNat - minimum.toNat + 1)) ∧
      (∀ v r, inclusiveOutcome minimum maximum v = some r →
        r.toNat = minimum.toNat + v.toNat % (maximum.toNat - minimum.toNat + 1)) ∧
      g.Settles (inclusiveOutcome minimum maximum) (g.inclusive minimum maximum).1 ∧
      minimum ≤ (g.inclusive minimum maximum).1 ∧ (g.inclusive minimum maximum).1 ≤ maximum := by
  refine ⟨fun b hb => ⟨fun v => ?_, ncard_boundedOutcome_ne_none hb, fun r hr =>
    ncard_boundedOutcome hb hr, hg.settles_bounded hb⟩, fun minimum maximum hle => ?_⟩
  · rw [boundedOutcome_ne_none_iff hb, Nat.mod_eq_sub_mod b.toNat_lt.le]
  · have hsettles := hg.settles_inclusive hle
    refine ⟨fun r => ncard_inclusiveOutcome hle, fun v r => inclusiveOutcome_toNat hle,
      hsettles, ?_⟩
    obtain ⟨k, -, hk⟩ := hsettles
    have hvalue := inclusiveOutcome_toNat hle hk
    have hlt := Nat.mod_lt (g.drawAt k).toNat (Nat.add_one_pos (maximum.toNat - minimum.toNat))
    have hminmax := UInt64.le_iff_toNat_le.mp hle
    rw [UInt64.le_iff_toNat_le, UInt64.le_iff_toNat_le]
    omega

/-- A die, with the first generator of the tests. -/
theorem sampling_unbiased_die : ∃ g : Pcg32, g.Seeded ∧
    g.Settles (inclusiveOutcome 1 6) (g.inclusive 1 6).1 ∧
    {v | inclusiveOutcome 1 6 v = some 4}.ncard = 3074457345618258602 := by
  have hseeded := Seeded.create 42 54
  obtain ⟨hcount, -, hsettles, -⟩ := (sampling_unbiased hseeded).2 1 6 (by decide)
  exact ⟨_, hseeded, hsettles, hcount 4 (by decide) (by decide)⟩

end Pcg32

end DetLog
