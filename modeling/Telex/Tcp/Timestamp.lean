import Telex.Tcp.Model

/-! Extrapolated time stamps: `telex_get_next_tsval`

    The clock of the server is taken to run at a constant rate between the last two time stamps that
    were seen of it, so many microseconds a tick. That rate is a quotient cut to 32 bits and is zero when
    the ticks came faster than one a microsecond; a time stamp that went back counts as almost `2 ^ 32`
    ticks forward. The division by a zero rate ends the program. -/

namespace Telex.Tcp

/-- The microseconds from `a` to `b`; each of the two differences is cut to 32 bits. -/
def elapsed (a b : Timeval) : ℤ :=
  1000000 * (b.tvSec.toInt - a.tvSec.toInt).bmod (2 ^ 32) +
    (b.tvUsec.toInt - a.tvUsec.toInt).bmod (2 ^ 32)

/-- The ticks from one time stamp to another. -/
def ticks (last cur : TcpTs) : ℕ := ((cur.tsval.toNat - last.tsval.toNat : ℤ) % 2 ^ 32).toNat

/-- A rate of zero microseconds a tick: the time, as a 64-bit number, is so many times `2 ^ 32` times
    the ticks and not one microsecond a tick more. -/
def ZeroRate (last cur : TcpTs) : Prop :=
  last.tsval ≠ cur.tsval ∧ ∃ q : ℕ,
    q * 2 ^ 32 * ticks last cur ≤ elapsed last.tv cur.tv % 2 ^ 64 ∧
    elapsed last.tv cur.tv % 2 ^ 64 < (q * 2 ^ 32 + 1) * ticks last cur

theorem toInt_sub_setWidth (x y : BitVec 64) :
    ((x - y).setWidth 32).toInt = (x.toInt - y.toInt).bmod (2 ^ 32) := by
  have hdvd : 2 ^ 32 ∣ 2 ^ 64 := by decide
  rw [BitVec.toInt_setWidth, ← Int.bmod_bmod_of_dvd hdvd, ← BitVec.toInt_eq_toNat_bmod,
    BitVec.toInt_sub, Int.bmod_bmod_of_dvd hdvd]

theorem telexGetTvDiff_eq (a b : Timeval) : telexGetTvDiff a b = BitVec.ofInt 64 (elapsed a b) := by
  rw [telexGetTvDiff, BitVec.signExtend, BitVec.signExtend, toInt_sub_setWidth, toInt_sub_setWidth,
    elapsed, BitVec.ofInt_add, BitVec.ofInt_mul, BitVec.mul_comm]
  rfl

theorem telexGetTvDiff_toNat (a b : Timeval) :
    ((telexGetTvDiff a b).toNat : ℤ) = elapsed a b % 2 ^ 64 := by
  have hcast : ((2 ^ 64 : ℕ) : ℤ) = 2 ^ 64 := Nat.cast_pow 2 64
  rw [telexGetTvDiff_eq, BitVec.toNat_ofInt, hcast, Int.toNat_of_nonneg]
  exact Int.emod_nonneg _ (by norm_num)

theorem toNat_tsDiff (last cur : TcpTs) :
    ((cur.tsval - last.tsval).setWidth 64).toNat = ticks last cur := by
  have hc := cur.tsval.isLt
  have hl := last.tsval.isLt
  rw [BitVec.toNat_setWidth, BitVec.toNat_sub, ticks]
  omega

theorem tsDiff_eq_zero_iff (last cur : TcpTs) :
    (cur.tsval - last.tsval).setWidth 64 = (0 : BitVec 64) ↔ last.tsval = cur.tsval := by
  have hc := cur.tsval.isLt
  have hl := last.tsval.isLt
  rw [← BitVec.toNat_inj, ← BitVec.toNat_inj, BitVec.toNat_setWidth, BitVec.toNat_sub]
  change _ = 0 ↔ _
  omega

/-- A quotient that is a multiple of `m`. -/
theorem div_mod_eq_zero_iff {x d m : ℕ} (hd : 0 < d) :
    x / d % m = 0 ↔ ∃ q, q * m * d ≤ x ∧ x < (q * m + 1) * d := by
  rw [← Nat.dvd_iff_mod_eq_zero]
  constructor
  · rintro ⟨q, hq⟩
    refine ⟨q, ?_, ?_⟩
    · rw [Nat.mul_comm q m, ← hq]
      exact Nat.div_mul_le_self x d
    · rw [Nat.mul_comm q m, ← hq]
      exact (Nat.div_lt_iff_lt_mul hd).mp (Nat.lt_succ_self _)
  · rintro ⟨q, hlo, hhi⟩
    refine ⟨q, ?_⟩
    rw [Nat.mul_comm m q]
    exact Nat.div_eq_of_lt_le hlo hhi

/-- `us_per_tsval`, when the time stamps differ. -/
def rate (last cur : TcpTs) : BitVec 32 :=
  (telexGetTvDiff last.tv cur.tv / (cur.tsval - last.tsval).setWidth 64).setWidth 32

theorem udiv_of_ne {x y : BitVec 64} (h : y ≠ 0) : udiv x y = some (x / y) := if_neg h

/-- Equal time stamps are passed on, others give the rate. -/
theorem telexGetNextTsval_eq (last cur : TcpTs) (now : Timeval) :
    telexGetNextTsval last cur now =
      if last.tsval = cur.tsval then some cur.tsval
      else (udiv (telexGetTvDiff cur.tv now) ((rate last cur).setWidth 64)).map fun quot =>
        (cur.tsval.setWidth 64 + quot).setWidth 32 := by
  have hz := tsDiff_eq_zero_iff last cur
  by_cases h : last.tsval = cur.tsval
  · rw [telexGetNextTsval, if_pos (hz.mpr h), if_pos h]
  · rw [telexGetNextTsval, if_neg (mt hz.mp h), if_neg h, udiv_of_ne (mt hz.mp h), Option.bind_some, rate]

/-- The rate is zero exactly then. -/
theorem rate_eq_zero_iff {last cur : TcpTs} (h : last.tsval ≠ cur.tsval) :
    (rate last cur).setWidth 64 = (0 : BitVec 64) ↔ ZeroRate last cur := by
  have hd : 0 < ticks last cur := by
    rw [← toNat_tsDiff, Nat.pos_iff_ne_zero]
    exact fun h0 => h ((tsDiff_eq_zero_iff last cur).mp (BitVec.eq_of_toNat_eq h0))
  have hlt : (telexGetTvDiff last.tv cur.tv).toNat / ticks last cur % 2 ^ 32 < 2 ^ 64 := by omega
  have hzero : (0 : BitVec 64).toNat = 0 := rfl
  rw [rate, ← BitVec.toNat_inj, BitVec.toNat_setWidth, BitVec.toNat_setWidth, BitVec.toNat_udiv,
    toNat_tsDiff, Nat.mod_eq_of_lt hlt, hzero, div_mod_eq_zero_iff hd, ZeroRate,
    ← telexGetTvDiff_toNat, and_iff_right h]
  norm_cast

theorem telexGetNextTsval_eq_none_iff (last cur : TcpTs) (now : Timeval) :
    telexGetNextTsval last cur now = none ↔ ZeroRate last cur := by
  rw [telexGetNextTsval_eq]
  by_cases h : last.tsval = cur.tsval
  · rw [if_pos h]
    exact iff_of_false (Option.some_ne_none _) fun hr => hr.1 h
  · rw [if_neg h, Option.map_eq_none_iff, ← rate_eq_zero_iff h, udiv]
    by_cases hr : (rate last cur).setWidth 64 = (0 : BitVec 64)
    · rw [if_pos hr]
      exact iff_of_true rfl hr
    · rw [if_neg hr]
      exact iff_of_false (Option.some_ne_none _) hr

/-- Both divisions of `telex_get_next_tsval` have a divisor other than zero, unless the rate is zero. -/
theorem next_tsval_iff (last cur : TcpTs) (now : Timeval) :
    (∃ tsval, telexGetNextTsval last cur now = some tsval) ↔ ¬ZeroRate last cur := by
  rw [← telexGetNextTsval_eq_none_iff last cur now]
  exact Option.ne_none_iff_exists'.symm

end Telex.Tcp
