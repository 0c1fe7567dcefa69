import Telex.Ptwist.FelemSpec

/-! Inversion and square root of `tag/ptwist168.cpp`

    Both are fixed addition chains of squarings and multiplications, each product reduced at once.
    The comments on the right are the source's: the exponent reached after the line. The exponent
    is all there is to verify, since a reduced operand always fits the next multiplication. -/

namespace Telex.Ptwist

/-- `felem_square(tmp, in); felem_reduce(out, tmp);` -/
def sqr (a : Felem) : Felem := felemReduce (felemSquare a)

/-- `felem_mul(tmp, in1, in2); felem_reduce(out, tmp);` -/
def mul (a b : Felem) : Felem := felemReduce (felemMul a b)

/-- `for (i = 0; i < n; ++i) { felem_square(tmp, a); felem_reduce(a, tmp); }` -/
def sqrN : ℕ → Felem → Felem
  | 0, a => a
  | n + 1, a => sqrN n (sqr a)

/-- Invert a field element. -/
def felemInv (inp : Felem) : Felem :=
  let ftmp := sqr inp                       -- 2
  let ftmp := mul inp ftmp                  -- 2 ^ 2 - 1
  let ftmp2 := sqr ftmp                     -- 2 ^ 3 - 2
  let ftmp2 := sqr ftmp2                    -- 2 ^ 4 - 2^2
  let ftmp2 := mul ftmp2 ftmp               -- 2 ^ 4 - 1
  let ftmp2 := sqr ftmp2                    -- 2 ^ 5 - 2
  let ftmp2 := sqr ftmp2                    -- 2 ^ 6 - 2^2
  let ftmp := mul ftmp2 ftmp                -- 2 ^ 6 - 1
  let ftmp2 := sqr ftmp                     -- 2 ^ 7 - 2
  let ftmp2 := sqrN 5 ftmp2                 -- 2 ^ 12 - 2^6
  let ftmp3 := mul ftmp ftmp2               -- 2 ^ 12 - 1
  let ftmp2 := sqr ftmp3                    -- 2 ^ 13 - 2
  let ftmp2 := sqrN 11 ftmp2                -- 2 ^ 24 - 2^12
  let ftmp3 := mul ftmp2 ftmp3              -- 2 ^ 24 - 1
  let ftmp2 := sqr ftmp3                    -- 2 ^ 25 - 2
  let ftmp2 := sqrN 23 ftmp2                -- 2 ^ 48 - 2^24
  let ftmp4 := mul ftmp2 ftmp3              -- 2 ^ 48 - 1
  let ftmp2 := sqr ftmp4                    -- 2 ^ 49 - 2
  let ftmp2 := sqrN 23 ftmp2                -- 2 ^ 72 - 2^24
  let ftmp4 := mul ftmp2 ftmp3              -- 2 ^ 72 - 1
  let ftmp2 := sqr ftmp4                    -- 2 ^ 73 - 2
  let ftmp2 := sqrN 5 ftmp2                 -- 2 ^ 78 - 2^6
  let ftmp2 := mul ftmp ftmp2               -- 2 ^ 78 - 1
  let ftmp2 := sqr ftmp2                    -- 2 ^ 79 - 2
  let ftmp4 := mul inp ftmp2                -- 2 ^ 79 - 1
  let ftmp2 := sqr ftmp4                    -- 2 ^ 80 - 2
  let ftmp2 := sqrN 78 ftmp2                -- 2 ^ 158 - 2^79
  let ftmp2 := mul ftmp4 ftmp2              -- 2 ^ 158 - 1
  let ftmp2 := sqr ftmp2                    -- 2 ^ 159 - 2
  let ftmp2 := mul inp ftmp2                -- 2 ^ 159 - 1
  let ftmp2 := sqrN 7 ftmp2                 -- 2 ^ 166 - 2^7
  let ftmp2 := mul ftmp ftmp2               -- 2 ^ 166 - 2^6 - 1
  let ftmp2 := sqr ftmp2                    -- 2 ^ 167 - 2^7 - 2
  let ftmp2 := sqr ftmp2                    -- 2 ^ 168 - 2^8 - 4
  mul inp ftmp2                             -- 2 ^ 168 - 2^8 - 3

/-- Take the square root of a field element. -/
def felemSqrt (inp : Felem) : Felem :=
  let ftmp := sqr inp                       -- 2
  let ftmp := mul inp ftmp                  -- 2 ^ 2 - 1
  let ftmp2 := sqr ftmp                     -- 2 ^ 3 - 2
  let ftmp2 := sqr ftmp2                    -- 2 ^ 4 - 2^2
  let ftmp2 := mul ftmp2 ftmp               -- 2 ^ 4 - 1
  let ftmp2 := sqr ftmp2                    -- 2 ^ 5 - 2
  let ftmp := mul ftmp2 inp                 -- 2 ^ 5 - 1
  let ftmp2 := sqr ftmp                     -- 2 ^ 6 - 2
  let ftmp2 := sqrN 4 ftmp2                 -- 2 ^ 10 - 2^5
  let ftmp := mul ftmp ftmp2                -- 2 ^ 10 - 1
  let ftmp2 := sqr ftmp                     -- 2 ^ 11 - 2
  let ftmp2 := sqrN 9 ftmp2                 -- 2 ^ 20 - 2^10
  let ftmp := mul ftmp2 ftmp                -- 2 ^ 20 - 1
  let ftmp2 := sqr ftmp                     -- 2 ^ 21 - 2
  let ftmp2 := sqrN 19 ftmp2                -- 2 ^ 40 - 2^20
  let ftmp := mul ftmp2 ftmp                -- 2 ^ 40 - 1
  let ftmp2 := sqr ftmp                     -- 2 ^ 41 - 2
  let ftmp2 := sqrN 39 ftmp2                -- 2 ^ 80 - 2^40
  let ftmp := mul ftmp2 ftmp                -- 2 ^ 80 - 1
  let ftmp2 := sqr ftmp                     -- 2 ^ 81 - 2
  let ftmp2 := sqrN 79 ftmp2                -- 2 ^ 160 - 2^80
  let ftmp2 := mul ftmp ftmp2               -- 2 ^ 160 - 1
  let ftmp2 := sqrN 5 ftmp2                 -- 2 ^ 165 - 2^5
  sqr ftmp2                                 -- 2 ^ 166 - 2^6

variable {a b : Felem} {x y : ZMod p} {e f n : ℕ}

theorem Is64.sqr (h : Is64 58 a x) : Is56 (Ptwist.sqr a) (x ^ 2) :=
  (h.square).mono.reduce

theorem Is64.mulr (ha : Is64 58 a x) (hb : Is64 58 b y) : Is56 (Ptwist.mul a b) (x * y) :=
  (ha.mul hb).mono.reduce

/-- `a` is a reduced representation of `x^e`. -/
def IsPow (x : ZMod p) (e : ℕ) (a : Felem) : Prop := Is56 a (x ^ e)

theorem IsPow.is58 (h : IsPow x e a) : Is64 58 a (x ^ e) := h.is64.mono

theorem IsPow.sqr (h : IsPow x e a) : IsPow x (2 * e) (Ptwist.sqr a) :=
  h.is58.sqr.of_eq (by rw [← pow_mul, mul_comm])

theorem IsPow.mul (ha : IsPow x e a) (hb : IsPow x f b) : IsPow x (e + f) (Ptwist.mul a b) :=
  (ha.is58.mulr hb.is58).of_eq (pow_add ..).symm

theorem IsPow.sqrN : ∀ {n e a}, IsPow x e a → IsPow x (2 ^ n * e) (Ptwist.sqrN n a)
  | 0, _, _, h => by simpa [Ptwist.sqrN] using h
  | n + 1, e, _, h => by
      have hn := IsPow.sqrN (n := n) h.sqr
      rwa [← mul_assoc, ← pow_succ] at hn

/-- A multiplication by the unreduced input. -/
theorem IsPow.inp_mul (ha : Is64 58 a x) (hb : IsPow x e b) : IsPow x (1 + e) (Ptwist.mul a b) :=
  (ha.mulr hb.is58).of_eq (by rw [pow_add, pow_one])

theorem IsPow.mul_inp (hb : IsPow x e b) (ha : Is64 58 a x) : IsPow x (e + 1) (Ptwist.mul b a) :=
  (hb.is58.mulr ha).of_eq (by rw [pow_add, pow_one])

theorem IsPow.exp (h : IsPow x e a) (hf : e = f) : IsPow x f a := hf ▸ h

/-- `felem_inv` raises to the power `p - 2`. -/
theorem Is64.inv (h : Is64 58 a x) : Is56 (felemInv a) (x ^ (p - 2)) := by
  unfold felemInv
  extract_lets t1 t2 t3 t4 t5 t6 t7 t8 t9 t10 t11 t12 t13 t14 t15 t16 t17 t18 t19 t20 t21 t22 t23
    t24 t25 t26 t27 t28 t29 t30 t31 t32 t33 t34
  have h1 : IsPow x 2 t1 := h.sqr
  have h2 : IsPow x (2 ^ 2 - 1) t2 := (IsPow.inp_mul h h1).exp (by norm_num)
  have h3 : IsPow x (2 ^ 3 - 2) t3 := h2.sqr.exp (by norm_num)
  have h4 : IsPow x (2 ^ 4 - 2 ^ 2) t4 := h3.sqr.exp (by norm_num)
  have h5 : IsPow x (2 ^ 4 - 1) t5 := (h4.mul h2).exp (by norm_num)
  have h6 : IsPow x (2 ^ 5 - 2) t6 := h5.sqr.exp (by norm_num)
  have h7 : IsPow x (2 ^ 6 - 2 ^ 2) t7 := h6.sqr.exp (by norm_num)
  have h8 : IsPow x (2 ^ 6 - 1) t8 := (h7.mul h2).exp (by norm_num)
  have h9 : IsPow x (2 ^ 7 - 2) t9 := h8.sqr.exp (by norm_num)
  have h10 : IsPow x (2 ^ 12 - 2 ^ 6) t10 := h9.sqrN.exp (by norm_num)
  have h11 : IsPow x (2 ^ 12 - 1) t11 := (h8.mul h10).exp (by norm_num)
  have h12 : IsPow x (2 ^ 13 - 2) t12 := h11.sqr.exp (by norm_num)
  have h13 : IsPow x (2 ^ 24 - 2 ^ 12) t13 := h12.sqrN.exp (by norm_num)
  have h14 : IsPow x (2 ^ 24 - 1) t14 := (h13.mul h11).exp (by norm_num)
  have h15 : IsPow x (2 ^ 25 - 2) t15 := h14.sqr.exp (by norm_num)
  have h16 : IsPow x (2 ^ 48 - 2 ^ 24) t16 := h15.sqrN.exp (by norm_num)
  have h17 : IsPow x (2 ^ 48 - 1) t17 := (h16.mul h14).exp (by norm_num)
  have h18 : IsPow x (2 ^ 49 - 2) t18 := h17.sqr.exp (by norm_num)
  have h19 : IsPow x (2 ^ 72 - 2 ^ 24) t19 := h18.sqrN.exp (by norm_num)
  have h20 : IsPow x (2 ^ 72 - 1) t20 := (h19.mul h14).exp (by norm_num)
  have h21 : IsPow x (2 ^ 73 - 2) t21 := h20.sqr.exp (by norm_num)
  have h22 : IsPow x (2 ^ 78 - 2 ^ 6) t22 := h21.sqrN.exp (by norm_num)
  have h23 : IsPow x (2 ^ 78 - 1) t23 := (h8.mul h22).exp (by norm_num)
  have h24 : IsPow x (2 ^ 79 - 2) t24 := h23.sqr.exp (by norm_num)
  have h25 : IsPow x (2 ^ 79 - 1) t25 := (IsPow.inp_mul h h24).exp (by norm_num)
  have h26 : IsPow x (2 ^ 80 - 2) t26 := h25.sqr.exp (by norm_num)
  have h27 : IsPow x (2 ^ 158 - 2 ^ 79) t27 := h26.sqrN.exp (by norm_num)
  have h28 : IsPow x (2 ^ 158 - 1) t28 := (h25.mul h27).exp (by norm_num)
  have h29 : IsPow x (2 ^ 159 - 2) t29 := h28.sqr.exp (by norm_num)
  have h30 : IsPow x (2 ^ 159 - 1) t30 := (IsPow.inp_mul h h29).exp (by norm_num)
  have h31 : IsPow x (2 ^ 166 - 2 ^ 7) t31 := h30.sqrN.exp (by norm_num)
  have h32 : IsPow x (2 ^ 166 - 2 ^ 6 - 1) t32 := (h8.mul h31).exp (by norm_num)
  have h33 : IsPow x (2 ^ 167 - 2 ^ 7 - 2) t33 := h32.sqr.exp (by norm_num)
  have h34 : IsPow x (2 ^ 168 - 2 ^ 8 - 4) t34 := h33.sqr.exp (by norm_num)
  exact (IsPow.inp_mul h h34).exp (by norm_num [p])

/-- `felem_sqrt` raises to the power `(p + 1) / 4`. -/
theorem Is64.sqrt (h : Is64 58 a x) : Is56 (felemSqrt a) (x ^ ((p + 1) / 4)) := by
  unfold felemSqrt
  extract_lets t1 t2 t3 t4 t5 t6 t7 t8 t9 t10 t11 t12 t13 t14 t15 t16 t17 t18 t19 t20 t21 t22 t23
  have h1 : IsPow x 2 t1 := h.sqr
  have h2 : IsPow x (2 ^ 2 - 1) t2 := (IsPow.inp_mul h h1).exp (by norm_num)
  have h3 : IsPow x (2 ^ 3 - 2) t3 := h2.sqr.exp (by norm_num)
  have h4 : IsPow x (2 ^ 4 - 2 ^ 2) t4 := h3.sqr.exp (by norm_num)
  have h5 : IsPow x (2 ^ 4 - 1) t5 := (h4.mul h2).exp (by norm_num)
  have h6 : IsPow x (2 ^ 5 - 2) t6 := h5.sqr.exp (by norm_num)
  have h7 : IsPow x (2 ^ 5 - 1) t7 := (h6.mul_inp h).exp (by norm_num)
  have h8 : IsPow x (2 ^ 6 - 2) t8 := h7.sqr.exp (by norm_num)
  have h9 : IsPow x (2 ^ 10 - 2 ^ 5) t9 := h8.sqrN.exp (by norm_num)
  have h10 : IsPow x (2 ^ 10 - 1) t10 := (h7.mul h9).exp (by norm_num)
  have h11 : IsPow x (2 ^ 11 - 2) t11 := h10.sqr.exp (by norm_num)
  have h12 : IsPow x (2 ^ 20 - 2 ^ 10) t12 := h11.sqrN.exp (by norm_num)
  have h13 : IsPow x (2 ^ 20 - 1) t13 := (h12.mul h10).exp (by norm_num)
  have h14 : IsPow x (2 ^ 21 - 2) t14 := h13.sqr.exp (by norm_num)
  have h15 : IsPow x (2 ^ 40 - 2 ^ 20) t15 := h14.sqrN.exp (by norm_num)
  have h16 : IsPow x (2 ^ 40 - 1) t16 := (h15.mul h13).exp (by norm_num)
  have h17 : IsPow x (2 ^ 41 - 2) t17 := h16.sqr.exp (by norm_num)
  have h18 : IsPow x (2 ^ 80 - 2 ^ 40) t18 := h17.sqrN.exp (by norm_num)
  have h19 : IsPow x (2 ^ 80 - 1) t19 := (h18.mul h16).exp (by norm_num)
  have h20 : IsPow x (2 ^ 81 - 2) t20 := h19.sqr.exp (by norm_num)
  have h21 : IsPow x (2 ^ 160 - 2 ^ 80) t21 := h20.sqrN.exp (by norm_num)
  have h22 : IsPow x (2 ^ 160 - 1) t22 := (h19.mul h21).exp (by norm_num)
  have h23 : IsPow x (2 ^ 165 - 2 ^ 5) t23 := h22.sqrN.exp (by norm_num)
  exact h23.sqr.exp (by norm_num [p])

end Telex.Ptwist
